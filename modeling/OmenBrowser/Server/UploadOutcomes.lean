import OmenBrowser.Server.UploadSession

/- What the parts of a publication do, one lemma for each (`server/src/upload.rs`,
   `server/src/store.rs`).

   Planning changes nothing but the trust in the ledger. A publication that fails leaves the tables
   as they were and the files too, apart from the name it had picked where that was taken; one that
   ends has put the file under its name, the row into the index, and removed files of its plan. -/
namespace Omen.Server
open Wire Sql Ints Omen.Protocol Act List

variable {α : Type} {limits : UploadLimits} {faults : Faults} {readings : Readings}
  {s s' : UploadServer} {identity : Bytes} {path temp staged : UploadPath}
  {op : StoreOp} {x : Uploading α} {e : ServerError} {r : Except ServerError Unit}
  {u : UserId} {n : Nat} {plan : UploadQuotaPlan} {evict : List UploadPath} {bytes : Bytes}
  {d d' : Disk UploadPath} {peer : ServerPeer} {upload : PendingUpload} {media : Bool}
  {resourceId hint : String}

/-! Operations that may fail. -/

theorem storeOp_ok {a : α} :
    storeOp faults op x s = (.ok a, s') ↔ faults.store op = none ∧ x s = (.ok a, s') := by
  unfold storeOp
  cases h : faults.store op with
  | none => simp
  | some e =>
    simp only [reduceCtorEq, false_and, iff_false]
    intro hx
    cases hx

theorem storeOp_error (h : storeOp faults op x s = (.error e, s')) :
    (faults.store op ≠ none ∧ s' = s) ∨ (faults.store op = none ∧ x s = (.error e, s')) := by
  unfold storeOp at h
  cases hop : faults.store op with
  | none =>
    rw [hop] at h
    exact .inr ⟨rfl, h⟩
  | some e' =>
    rw [hop] at h
    exact .inl ⟨Option.some_ne_none e', (Prod.mk.inj h).2.symm⟩

/-- A store operation that only reads. -/
theorem storeOp_read {f : UploadServer → α} {r : Except ServerError α}
    (h : storeOp faults op (read f) s = (r, s')) :
    s' = s ∧ ∀ a, r = .ok a → faults.store op = none ∧ a = f s := by
  cases r with
  | ok a =>
    obtain ⟨hop, hx⟩ := storeOp_ok.mp h
    obtain ⟨ha, hs⟩ := Prod.mk.inj hx
    exact ⟨hs.symm, fun b hb => ⟨hop, by rw [← Except.ok.inj hb, ← Except.ok.inj ha]⟩⟩
  | error e =>
    rcases storeOp_error h with ⟨_, hs⟩ | ⟨_, hx⟩
    · exact ⟨hs, fun _ hb => nomatch hb⟩
    · cases hx

theorem onDisk_eq {x : Act (Disk UploadPath) ServerError α} {r : Except ServerError α} :
    onDisk x s = (r, s') ↔ ∃ disk, x s.disk = (r, disk) ∧ s' = { s with disk } := by
  unfold onDisk zoom
  rcases h : x s.disk with ⟨r', disk⟩
  simp only [Prod.mk.injEq]
  constructor
  · rintro ⟨rfl, rfl⟩
    exact ⟨disk, ⟨rfl, rfl⟩, rfl⟩
  · rintro ⟨_, ⟨rfl, rfl⟩, rfl⟩
    exact ⟨rfl, rfl⟩

theorem onLedger_ok {x : Txn Database ServerError α} {a : α} :
    onLedger x s = (.ok a, s') ↔
      ∃ database, x s.database = .ok (a, database) ∧ s' = { s with database } := by
  unfold onLedger
  cases h : x s.database with
  | ok p =>
    obtain ⟨b, database⟩ := p
    simp [eq_comm]
  | error e => simp

theorem onLedger_error {x : Txn Database ServerError α} :
    onLedger x s = (.error e, s') ↔ x s.database = .error e ∧ s' = s := by
  unfold onLedger
  cases h : x s.database with
  | ok p => simp
  | error e' => simp [eq_comm]

/-! Plans. -/

/-- A report is of the rows and the files as they are. -/
theorem reconcileUploadLedger_eq {r : Except ServerError UploadLedgerReconciliation}
    (h : reconcileUploadLedger faults u identity s = (r, s')) :
    s' = s ∧ ∀ report, r = .ok report → report = reconciliation (s.entries u) identity s.disk := by
  unfold reconcileUploadLedger storeOp at h
  cases hop : faults.store .tracked with
  | some e =>
    rw [hop] at h
    obtain ⟨hr, hs⟩ := Prod.mk.inj h
    exact ⟨hs.symm, fun report hreport => by rw [← hr] at hreport; cases hreport⟩
  | none =>
    rw [hop] at h
    simp only [read_bind, id] at h
    split at h
    · obtain ⟨hr, hs⟩ := Prod.mk.inj h
      exact ⟨hs.symm, fun report hreport => by rw [← hr] at hreport; cases hreport⟩
    · obtain ⟨hr, hs⟩ := Prod.mk.inj h
      exact ⟨hs.symm, fun report hreport => by rw [← hr] at hreport; exact (Except.ok.inj hreport).symm⟩

/-- Checking the ledger changes nothing but the trust in it. -/
theorem verifyUploadLedger_eq (h : verifyUploadLedger faults u identity s = (r, s')) :
    (u ∈ s.verified ∧ r = .ok () ∧ s' = s) ∨
      (u ∉ s.verified ∧ r = .ok () ∧ s' = { s with verified := u :: s.verified } ∧
        (reconciliation (s.entries u) identity s.disk).isClean = true) ∨
      (u ∉ s.verified ∧ r ≠ .ok () ∧ s' = s) := by
  unfold verifyUploadLedger at h
  rw [read_bind] at h
  split at h
  · next hu =>
    obtain ⟨hr, hs⟩ := Prod.mk.inj h
    exact .inl ⟨contains_iff_mem.mp hu, hr.symm, hs.symm⟩
  · next hu =>
    have hu : u ∉ s.verified := fun hmem => hu (contains_iff_mem.mpr hmem)
    rcases hrec : reconcileUploadLedger faults u identity s with ⟨report, s₁⟩
    obtain ⟨rfl, hreport⟩ := reconcileUploadLedger_eq hrec
    cases report with
    | error e =>
      rw [bind_error hrec] at h
      obtain ⟨hr, hs⟩ := Prod.mk.inj h
      exact .inr (.inr ⟨hu, by rw [← hr]; nofun, hs.symm⟩)
    | ok report =>
      obtain rfl := hreport _ rfl
      rw [bind_ok hrec] at h
      split at h
      · next hclean =>
        obtain ⟨hr, hs⟩ := Prod.mk.inj h
        exact .inr (.inl ⟨hu, hr.symm, hs.symm, hclean⟩)
      · obtain ⟨hr, hs⟩ := Prod.mk.inj h
        exact .inr (.inr ⟨hu, by rw [← hr]; nofun, hs.symm⟩)

/-- A decision is made from the rows of the user, whose ledger is trusted from then on. -/
theorem plannerOf_eq {r : Except ServerError UploadQuotaDecision}
    (h : plannerOf limits faults u identity n s = (r, s')) :
    s' = { s with verified := s'.verified } ∧ (∀ v ∈ s.verified, v ∈ s'.verified) ∧
      ∀ d, r = .ok d → u ∈ s'.verified ∧
        d = planUploadWithIndex limits.quotaBytes.toNat n
          (quotaPlan (s.entries u) n limits.quotaBytes.toNat) := by
  unfold plannerOf planUploadFromIndex at h
  rw [bind_assoc] at h
  rcases hverify : verifyUploadLedger faults u identity s with ⟨r₁, s₁⟩
  have hcases := verifyUploadLedger_eq hverify
  -- verifying the ledger marks the user as verified at most
  have hstate : s₁ = { s with verified := s₁.verified } ∧ ∀ v ∈ s.verified, v ∈ s₁.verified := by
    rcases hcases with ⟨_, _, rfl⟩ | ⟨_, _, rfl, _⟩ | ⟨_, _, rfl⟩
    · exact ⟨rfl, fun _ hv => hv⟩
    · exact ⟨rfl, fun _ hv => mem_cons_of_mem _ hv⟩
    · exact ⟨rfl, fun _ hv => hv⟩
  cases r₁ with
  | error e =>
    rw [bind_error hverify] at h
    obtain ⟨hr, rfl⟩ := Prod.mk.inj h
    exact ⟨hstate.1, hstate.2, fun d hd => by rw [← hr] at hd; cases hd⟩
  | ok _ =>
    rw [bind_ok hverify] at h
    have hu : u ∈ s₁.verified := by
      rcases hcases with ⟨hu, _, rfl⟩ | ⟨_, _, rfl, _⟩ | ⟨_, hne, _⟩
      · exact hu
      · exact mem_cons_self
      · exact absurd rfl hne
    have hentries : s₁.entries u = s.entries u := by rw [hstate.1]; rfl
    rcases hread : storeOp faults .entries
      (read (fun s => quotaPlan (s.entries u) n limits.quotaBytes.toNat)) s₁ with ⟨r₂, s₂⟩
    obtain ⟨rfl, hplan⟩ := storeOp_read hread
    cases r₂ with
    | error e =>
      rw [bind_error hread] at h
      obtain ⟨hr, rfl⟩ := Prod.mk.inj h
      exact ⟨hstate.1, hstate.2, fun d hd => by rw [← hr] at hd; cases hd⟩
    | ok indexed =>
      rw [bind_ok hread] at h
      obtain ⟨hr, rfl⟩ := Prod.mk.inj h
      refine ⟨hstate.1, hstate.2, fun d hd => ⟨hu, ?_⟩⟩
      rw [← hr] at hd
      rw [← Except.ok.inj hd, (hplan _ rfl).2, hentries]

/-- A plan that is gone by fits, and its evictions are read off the rows. -/
theorem acceptedPlan_ok {quota : Nat} {indexed : UploadLedgerQuotaPlan}
    (h : acceptedPlan (planUploadWithIndex quota n indexed) = .ok plan) :
    quota ≠ 0 ∧ n ≤ quota ∧ plan.evict = indexed.evictPaths := by
  unfold planUploadWithIndex at h
  split at h
  · cases h
  · next hquota =>
    split at h
    · cases h
    · next hn =>
      cases h
      exact ⟨hquota, Nat.le_of_not_lt hn, rfl⟩

/-! Files. -/

/-- The files that are removed are files of the plan, and nothing else goes. -/
theorem evictFiles_eq {evict : List UploadPath} {disk : Disk UploadPath} :
    (∀ q ∈ (evictFiles faults path evict disk).1,
      q ∈ evict ∧ q ≠ path ∧ disk.read q ≠ none ∧ faults.file (.remove q) = false) ∧
    ∀ q, (evictFiles faults path evict disk).2.read q =
      if q ∈ (evictFiles faults path evict disk).1 then none else disk.read q := by
  induction evict generalizing disk with
  | nil => exact ⟨forall_mem_nil _, fun q => (if_neg (not_mem_nil)).symm⟩
  | cons old rest ih =>
    unfold evictFiles
    split
    · obtain ⟨hmem, hread⟩ := @ih disk
      exact ⟨fun q hq => ⟨mem_cons_of_mem _ (hmem q hq).1, (hmem q hq).2⟩, hread⟩
    · next hkeep =>
      simp only [not_or, Bool.not_eq_true] at hkeep
      obtain ⟨hmem, hread⟩ := @ih (disk.erase old)
      constructor
      · intro q hq
        rcases mem_cons.mp hq with rfl | hq
        · exact ⟨mem_cons_self, hkeep.1, hkeep.2.2, hkeep.2.1⟩
        · obtain ⟨hrest, hpath, hfile, hfault⟩ := hmem q hq
          rw [Disk.read_erase] at hfile
          refine ⟨mem_cons_of_mem _ hrest, hpath, ?_, hfault⟩
          intro hnone
          rw [hnone, ite_self] at hfile
          exact hfile rfl
      · intro q
        rw [hread, Disk.read_erase]
        by_cases hq : q = old
        · simp [hq]
        · simp [hq]

/-- The file of an upload stays. -/
theorem evictFiles_path {disk : Disk UploadPath} :
    (evictFiles faults path evict disk).2.read path = disk.read path := by
  obtain ⟨hmem, hread⟩ := @evictFiles_eq faults path evict disk
  rw [hread, if_neg fun hin => (hmem path hin).2.1 rfl]

/-- A step of writing an upload fails. -/
def Faults.writing (faults : Faults) (temp path : UploadPath) : Bool :=
  faults.file (.create temp) || faults.file (.write temp) || faults.file (.flush temp) ||
    faults.file (.syncFile temp) || faults.file (.rename temp) ||
    faults.file (.syncDir path.identity)

/-- Writing an upload puts it under its name, unless a step fails. -/
theorem writeUpload_ok (htemp : d.read temp = none) :
    writeUpload faults temp path bytes d = (.ok (), d') ↔ faults.writing temp path = false ∧
      d' = (((d.put temp []).extend temp bytes).erase temp).put path bytes := by
  have hcontent : ((d.put temp []).extend temp bytes).read temp = some bytes := by simp
  unfold writeUpload Faults.writing
  constructor
  · intro h
    obtain ⟨_, d₁, h₁, h⟩ := bind_eq_ok.mp h
    obtain ⟨_, d₂, h₂, h⟩ := bind_eq_ok.mp h
    obtain ⟨_, d₃, h₃, h⟩ := bind_eq_ok.mp h
    obtain ⟨_, d₄, h₄, h⟩ := bind_eq_ok.mp h
    obtain ⟨_, d₅, h₅, h⟩ := bind_eq_ok.mp h
    obtain ⟨f₁, _, rfl⟩ := Disk.create_ok.mp h₁
    obtain ⟨f₂, rfl⟩ := Disk.append_ok.mp h₂
    obtain ⟨f₃, rfl⟩ := Disk.sync_ok.mp h₃
    obtain ⟨f₄, rfl⟩ := Disk.sync_ok.mp h₄
    obtain ⟨f₅, bs, hbs, rfl⟩ := Disk.rename_ok.mp h₅
    obtain ⟨f₆, rfl⟩ := Disk.sync_ok.mp h
    rw [hcontent] at hbs
    rw [← Option.some.inj hbs]
    exact ⟨by simp [f₁, f₂, f₃, f₄, f₅, f₆], rfl⟩
  · rintro ⟨hfaults, rfl⟩
    simp only [Bool.or_eq_false_iff] at hfaults
    obtain ⟨⟨⟨⟨⟨f₁, f₂⟩, f₃⟩, f₄⟩, f₅⟩, f₆⟩ := hfaults
    rw [bind_ok (Disk.create_ok.mpr ⟨f₁, htemp, rfl⟩),
      bind_ok (Disk.append_ok.mpr ⟨f₂, rfl⟩), bind_ok (Disk.sync_ok.mpr ⟨f₃, rfl⟩),
      bind_ok (Disk.sync_ok.mpr ⟨f₄, rfl⟩),
      bind_ok (Disk.rename_ok.mpr ⟨f₅, bytes, hcontent, rfl⟩)]
    exact Disk.sync_ok.mpr ⟨f₆, rfl⟩

theorem writeUpload_within :
    Act.Steps (Disk.Within [temp, path]) (writeUpload faults temp path bytes) := by
  have : IsTrans (Disk UploadPath) (Disk.Within [temp, path]) := ⟨Disk.Within.trans [temp, path]⟩
  have htemp : temp ∈ [temp, path] := mem_cons_self
  have hpath : path ∈ [temp, path] := mem_cons_of_mem _ mem_cons_self
  refine .bind (Disk.create_within htemp) fun _ => .bind (Disk.append_within htemp) fun _ => ?_
  refine .bind Disk.sync_within fun _ => .bind Disk.sync_within fun _ => ?_
  exact .bind (Disk.rename_within htemp hpath) fun _ => Disk.sync_within

/-- What is written and taken back leaves no trace, but for the name where that was taken. -/
theorem writeUpload_error (htemp : d.read temp = none)
    (h : writeUpload faults temp path bytes d = (.error e, d')) (q : UploadPath) :
    ((d'.erase temp).erase path).read q = if q = path then none else d.read q := by
  have hwithin : Disk.Within [temp, path] d (writeUpload faults temp path bytes d).2 :=
    writeUpload_within d
  rw [h] at hwithin
  rw [Disk.read_erase, Disk.read_erase]
  split
  · rfl
  · next hq =>
    split
    · next ht => rw [ht, htemp]
    · next ht => exact hwithin q (by simp [ht, hq])

/-! What happens beside the files and the tables of uploads. -/

/-- The files, the index, the stages and the events are as they were; ledgers may be trusted that
were not. -/
structure Aside (s s' : UploadServer) : Prop where
  disk : s'.disk = s.disk
  uploads : s'.uploads = s.uploads
  stages : s'.stages = s.stages
  rooms : s'.rooms = s.rooms
  database : s'.database = { s.database with users := s'.database.users }
  ids : ∀ u identity, s.database.Resolves u identity → s'.database.Resolves u identity
  verified : ∀ u ∈ s.verified, u ∈ s'.verified

namespace Aside

/-- The same tables and files. -/
theorem of_eq (h : s' = { s with
      verified := s'.verified
      pending := s'.pending
      buckets := s'.buckets
      tempSequence := s'.tempSequence }) (hverified : ∀ u ∈ s.verified, u ∈ s'.verified) :
    Aside s s' := by
  rw [h]
  exact ⟨rfl, rfl, rfl, rfl, rfl, fun _ _ hu => hu, hverified⟩

theorem refl (s : UploadServer) : Aside s s := of_eq rfl fun _ hu => hu

theorem trans (s₁ s₂ s₃ : UploadServer) (h : Aside s₁ s₂) (h' : Aside s₂ s₃) : Aside s₁ s₃ where
  disk := h'.disk.trans h.disk
  uploads := h'.uploads.trans h.uploads
  stages := h'.stages.trans h.stages
  rooms := h'.rooms.trans h.rooms
  database := by rw [h'.database, h.database]
  ids u i hu := h'.ids u i (h.ids u i hu)
  verified u hu := h'.verified u (h.verified u hu)

instance : IsPreorder UploadServer Aside where
  refl := refl
  trans := trans

theorem events (h : Aside s s') : s'.database.roomEvents = s.database.roomEvents := by
  rw [h.database]

end Aside

/-- What a store operation does beside, it does also where it may fail. -/
theorem storeOp_steps {R : UploadServer → UploadServer → Prop} [Std.Refl R] (hx : Act.Steps R x) :
    Act.Steps R (storeOp faults op x) := by
  intro s
  unfold storeOp
  cases faults.store op with
  | none => exact hx s
  | some e => exact refl_of R s

theorem ensureUploader_aside : Act.Steps Aside (ensureUploader faults readings peer) := by
  refine .ite (.throw _) ?_
  refine .bind (storeOp_steps ?_) fun _ => .pure _
  intro s
  rcases h : onLedger (ensureUserOn peer readings.seen) s with ⟨r, s'⟩
  cases r with
  | error e =>
    obtain ⟨_, rfl⟩ := onLedger_error.mp h
    exact Aside.refl s'
  | ok user =>
    obtain ⟨database, hensure, rfl⟩ := onLedger_ok.mp h
    obtain ⟨hupsert, _, _⟩ := ensureUserOn_ok hensure
    exact ⟨rfl, rfl, rfl, rfl, (upsertUser_ok hupsert).1, fun _ _ => upsertUser_keeps hupsert,
      fun _ hu => hu⟩

theorem read_aside {β : Type} {op : StoreOp} {f : UploadServer → β} :
    Act.Steps Aside (storeOp faults op (read f)) :=
  storeOp_steps (.read f)

theorem pure_aside {β : Type} {b : β} : Act.Steps Aside (pure b : Uploading β) :=
  .pure b

theorem checkPublisher_aside {muted notMember : String} :
    Act.Steps Aside (checkPublisher limits faults readings muted notMember peer upload media) := by
  refine .bind ensureUploader_aside fun user => ?_
  cases user with
  | none => exact pure_aside
  | some user =>
    refine .ite (pure_aside) (.bind (read_aside) fun member => ?_)
    refine .ite (pure_aside) (.bind (read_aside) fun content => ?_)
    cases content with
    | some rejection => exact pure_aside
    | none =>
      refine .bind ?_ fun policy => ?_
      · exact .ite (read_aside) (pure_aside)
      · cases policy with
        | some rejection => exact pure_aside
        | none => exact .ite (pure_aside) (pure_aside)

theorem takePendingUpload_aside : Act.Steps Aside (takePendingUpload readings resourceId peer) :=
  fun _ => Aside.of_eq rfl fun _ hu => hu

/-- Before a publication nothing is published. -/
theorem admitResource_aside {data : Bytes} :
    Act.Steps Aside (admitResource limits faults readings peer resourceId data media) := by
  refine .bind takePendingUpload_aside fun taken => ?_
  cases taken with
  | notFound | identityMismatch => exact .pure _
  | found upload =>
    refine .ite (.pure _) ?_
    exact .bind checkPublisher_aside fun _ => .pure _

/-- A staged upload that is refused loses its file, one that is admitted or fails does not. -/
theorem admitStage_eq {incomingBytes : UInt64} {r : Except ServerError (Except Frame PendingUpload)}
    (h : admitStage limits faults readings peer resourceId staged incomingBytes media s = (r, s')) :
    (Aside s s' ∧ ∀ frame, r ≠ .ok (.error frame)) ∨
      ∃ t frame, Aside s t ∧ r = .ok (.error frame) ∧ s' = t.erase staged := by
  unfold admitStage at h
  rcases htake : takePendingUpload readings resourceId peer s with ⟨taken, s₁⟩
  have haside : Aside s s₁ := takePendingUpload_aside.of_eq htake
  have hrefuse {frame : Frame} {t : UploadServer} (ht : Aside s t)
      (hr : (r, s') = (.ok (.error frame), t.erase staged)) :
      ∃ t frame, Aside s t ∧ r = .ok (.error frame) ∧ s' = t.erase staged :=
    ⟨t, frame, ht, (Prod.mk.inj hr).1, (Prod.mk.inj hr).2⟩
  cases taken with
  | error e => cases htake
  | ok taken =>
    rw [bind_ok htake] at h
    cases taken with
    | notFound | identityMismatch => exact .inr (hrefuse haside h.symm)
    | found upload =>
      simp only at h
      split at h
      · exact .inr (hrefuse haside h.symm)
      · rcases hcheck : checkPublisher limits faults readings
          "upload publisher is no longer allowed in the room"
          "upload publisher is no longer allowed in the room" peer upload media s₁ with ⟨refusal, s₂⟩
        have haside₂ : Aside s s₂ := haside.trans _ _ _ (checkPublisher_aside.of_eq hcheck)
        cases refusal with
        | error e =>
          rw [bind_error hcheck] at h
          cases h
          exact .inl ⟨haside₂, fun _ hr => nomatch hr⟩
        | ok refusal =>
          rw [bind_ok hcheck] at h
          cases refusal with
          | some frame => exact .inr (hrefuse haside₂ h.symm)
          | none =>
            cases h
            exact .inl ⟨haside₂, fun _ hr => nomatch hr⟩

/-! Before the first byte is published. -/

/-- What a plan says: how much there may be, and which uploads go. -/
structure Planned (limits : UploadLimits) (s : UploadServer) (u : UserId) (incomingBytes : Nat)
    (plan : UploadQuotaPlan) : Prop where
  enabled : limits.quotaBytes.toNat ≠ 0
  fits : incomingBytes ≤ limits.quotaBytes.toNat
  evict : plan.evict = (quotaPlan (s.entries u) incomingBytes limits.quotaBytes.toNat).evictPaths

theorem Aside.taken (h : Aside s s') : s'.taken = s.taken := by
  funext p
  rw [UploadServer.taken, UploadServer.taken, h.disk]

theorem Aside.entries (h : Aside s s') (u : UserId) : s'.entries u = s.entries u := by
  rw [UploadServer.entries, UploadServer.entries, h.uploads]

theorem plannerOf_aside : Act.Steps Aside (plannerOf limits faults u identity n) := by
  intro s
  rcases h : plannerOf limits faults u identity n s with ⟨r, s'⟩
  obtain ⟨hs, hmono, _⟩ := plannerOf_eq h
  rw [hs]
  exact Aside.of_eq rfl hmono

theorem ensureSafeIdentityDir_aside :
    Act.Steps Aside (ensureSafeIdentityDir faults identity) :=
  .ite (.throw _) (.pure ())

theorem createTempPath_aside : Act.Steps Aside (createTempPath readings identity) := by
  intro s
  unfold createTempPath
  simp only
  split
  · exact Aside.of_eq rfl fun _ hu => hu
  · exact Aside.of_eq rfl fun _ hu => hu

/-- A temporary file is a new one, in the directory of the identity. -/
theorem createTempPath_ok (h : createTempPath readings identity s = (.ok temp, s')) :
    s.taken temp = false ∧ temp.identity = identity := by
  unfold createTempPath at h
  simp only at h
  split at h
  · next p hp =>
    cases h
    obtain ⟨hfree, k, rfl⟩ := freePath_free (Prod.ext hp rfl)
    exact ⟨hfree, rfl⟩
  · cases h

/-- What a plan that is gone by says. -/
theorem plannerOf_planned {d : UploadQuotaDecision}
    (h : plannerOf limits faults u identity n s = (.ok d, s')) (hplan : acceptedPlan d = .ok plan) :
    Planned limits s u n plan ∧ u ∈ s'.verified := by
  obtain ⟨_, _, hd⟩ := plannerOf_eq h
  obtain ⟨hu, rfl⟩ := hd d rfl
  obtain ⟨hquota, hn, hevict⟩ := acceptedPlan_ok hplan
  exact ⟨⟨hquota, hn, hevict⟩, hu⟩

/-- Preparing a publication publishes nothing. -/
theorem prepareUpload_aside :
    Act.Steps Aside
      (prepareUpload faults readings identity hint n (plannerOf limits faults u identity)) := by
  refine .bind plannerOf_aside fun _ => ?_
  refine .bind (.lift _) fun _ => ?_
  refine .bind ensureSafeIdentityDir_aside fun _ => ?_
  refine .bind (.read _) fun _ => ?_
  exact .bind createTempPath_aside fun _ => .pure _

/-- A publication that is prepared has a plan, the next name, and a temporary file. -/
theorem prepareUpload_ok
    (h : prepareUpload faults readings identity hint n (plannerOf limits faults u identity) s =
      (.ok (plan, path, temp), s')) :
    Planned limits s u n plan ∧ u ∈ s'.verified ∧
      path = nextUploadPath s.taken identity hint readings.millis ∧
      s.taken temp = false ∧ temp.identity = identity := by
  obtain ⟨d, s₁, hd, h⟩ := bind_eq_ok.mp h
  obtain ⟨plan, s₂, hplan, h⟩ := bind_eq_ok.mp h
  obtain ⟨_, s₃, hdir, h⟩ := bind_eq_ok.mp h
  rw [read_bind] at h
  obtain ⟨temp, s₄, htemp, h⟩ := bind_eq_ok.mp h
  obtain ⟨hresult, rfl⟩ := Prod.mk.inj h
  obtain ⟨haccepted, rfl⟩ := Prod.mk.inj hplan
  obtain ⟨rfl, rfl, rfl⟩ : plan = _ ∧ _ = path ∧ temp = _ := by simpa using hresult
  have haside : Aside s s₃ := (plannerOf_aside.of_eq hd).trans _ _ _
    (ensureSafeIdentityDir_aside.of_eq hdir)
  obtain ⟨hplanned, hu⟩ := plannerOf_planned hd haccepted
  obtain ⟨hfree, hidentity⟩ := createTempPath_ok htemp
  have hverified := (ensureSafeIdentityDir_aside.of_eq hdir).verified u hu
  refine ⟨hplanned, (createTempPath_aside.of_eq htemp).verified u hverified, ?_, ?_, hidentity⟩
  · rw [haside.taken]
  · rw [← haside.taken]
    exact hfree

/-- A staged file that passes is where and as long as it has to be. -/
theorem checkStaged_eq (h : checkStaged faults identity staged n s = (r, s')) :
    (r = .ok () ∧ s' = s ∧ staged.identity = identity ∧
      ∃ bytes, s.disk.read staged = some bytes ∧ bytes.length = n) ∨
    (r ≠ .ok () ∧ (s' = s ∨ s' = s.erase staged)) := by
  unfold checkStaged at h
  split at h
  · cases h
    exact .inr ⟨by rintro ⟨⟩, .inr rfl⟩
  · next hidentity =>
    split at h
    · cases h
      exact .inr ⟨by rintro ⟨⟩, .inl rfl⟩
    · rw [read_bind] at h
      cases hread : s.disk.read staged with
      | none =>
        rw [hread] at h
        cases h
        exact .inr ⟨by rintro ⟨⟩, .inl rfl⟩
      | some bytes =>
        rw [hread] at h
        simp only at h
        split at h
        · cases h
          exact .inr ⟨by rintro ⟨⟩, .inr rfl⟩
        · next hlength =>
          cases h
          exact .inl ⟨rfl, rfl, not_not.mp hidentity, bytes, rfl, not_not.mp hlength⟩

/-- A staged publication that is prepared has a plan, its file, and the next name; one that is not
may have lost its file. -/
theorem prepareStaged_ok
    (h : prepareStaged faults readings identity hint staged n (plannerOf limits faults u identity) s =
      (.ok (plan, path), s')) :
    Aside s s' ∧ Planned limits s u n plan ∧ u ∈ s'.verified ∧
      path = nextUploadPath s.taken identity hint readings.millis ∧ staged.identity = identity ∧
      ∃ bytes, s.disk.read staged = some bytes ∧ bytes.length = n := by
  obtain ⟨d, s₁, hd, h⟩ := bind_eq_ok.mp h
  obtain ⟨plan', s₂, hplan, h⟩ := bind_eq_ok.mp h
  obtain ⟨_, s₃, hdir, h⟩ := bind_eq_ok.mp h
  obtain ⟨_, s₄, hcheck, h⟩ := bind_eq_ok.mp h
  rw [read_bind] at h
  obtain ⟨hresult, rfl⟩ := Prod.mk.inj h
  obtain ⟨haccepted, rfl⟩ := Prod.mk.inj hplan
  obtain ⟨rfl, rfl⟩ : plan' = plan ∧ _ = path := by simpa using hresult
  have haside : Aside s s₃ := (plannerOf_aside.of_eq hd).trans _ _ _
    (ensureSafeIdentityDir_aside.of_eq hdir)
  obtain ⟨hplanned, hu⟩ := plannerOf_planned hd haccepted
  rcases checkStaged_eq hcheck with ⟨_, rfl, hidentity, bytes, hbytes, hlength⟩ | ⟨hne, _⟩
  · refine ⟨haside, hplanned, (ensureSafeIdentityDir_aside.of_eq hdir).verified u hu, ?_,
      hidentity, bytes, ?_, hlength⟩
    · rw [haside.taken]
    · rw [← haside.disk]
      exact hbytes
  · exact absurd rfl hne

theorem prepareStaged_error
    (h : prepareStaged faults readings identity hint staged n (plannerOf limits faults u identity) s =
      (.error e, s'))
    : ∃ t, Aside s t ∧ (s' = t ∨ s' = t.erase staged) := by
  rcases bind_eq_error.mp h with hd | ⟨d, s₁, hd, h⟩
  · exact ⟨s', plannerOf_aside.of_eq hd, .inl rfl⟩
  have h₁ : Aside s s₁ := plannerOf_aside.of_eq hd
  rcases bind_eq_error.mp h with hplan | ⟨plan, s₂, hplan, h⟩
  · exact ⟨s₁, h₁, .inl (Prod.mk.inj hplan).2.symm⟩
  obtain ⟨_, rfl⟩ := Prod.mk.inj hplan
  rcases bind_eq_error.mp h with hdir | ⟨_, s₃, hdir, h⟩
  · exact ⟨s', h₁.trans _ _ _ (ensureSafeIdentityDir_aside.of_eq hdir), .inl rfl⟩
  have h₃ : Aside s s₃ := h₁.trans _ _ _ (ensureSafeIdentityDir_aside.of_eq hdir)
  rcases bind_eq_error.mp h with hcheck | ⟨_, s₄, _, h⟩
  · rcases checkStaged_eq hcheck with ⟨hok, _⟩ | ⟨_, hs⟩
    · cases hok
    · exact ⟨s₃, h₃, hs⟩
  · cases h

/-! Publications. -/

/-- An upload that is recorded has its row, and files of the plan are gone. -/
theorem recordAndEvict_ok {stored : StoredUpload} :
    recordAndEvict faults evict path n (recordOf faults readings resourceId upload) s =
        (.ok stored, s') ↔
      faults.store .record = none ∧
      stored = { path, bytes := n, evicted := (evictFiles faults path evict s.disk).1 } ∧
      s' = { s.setUpload (UploadFileRow.of resourceId upload readings.recorded stored) with
        disk := (evictFiles faults path evict s.disk).2 } := by
  constructor
  · intro h
    obtain ⟨_, s₁, hrecord, h⟩ := bind_eq_ok.mp h
    obtain ⟨hop, hset⟩ := storeOp_ok.mp (undoing_ok.mp hrecord)
    cases hset
    obtain ⟨hstored, rfl⟩ := Prod.mk.inj h
    cases hstored
    exact ⟨hop, rfl, rfl⟩
  · rintro ⟨hop, rfl, rfl⟩
    have hrecord : ((storeOp faults .record (modify (·.setUpload (UploadFileRow.of resourceId
        upload readings.recorded ⟨path, n, evict⟩)))).undoing (·.erase path) : Uploading Unit) s =
        (.ok (), s.setUpload (UploadFileRow.of resourceId upload readings.recorded
          ⟨path, n, evict⟩)) :=
      undoing_ok.mpr (storeOp_ok.mpr ⟨hop, rfl⟩)
    exact (bind_ok hrecord).trans rfl

theorem recordAndEvict_error
    (h : recordAndEvict faults evict path n (recordOf faults readings resourceId upload) s =
      (.error e, s'))
    : faults.store .record ≠ none ∧ s' = s.erase path := by
  rcases bind_eq_error.mp h with h | ⟨_, s₁, _, h⟩
  · obtain ⟨t, ht, rfl⟩ := undoing_error.mp h
    rcases storeOp_error ht with ⟨hop, rfl⟩ | ⟨_, hset⟩
    · exact ⟨hop, rfl⟩
    · cases hset
  · cases h

/-- After a publication the rows of the evicted files are gone, or the ledger is not trusted. -/
theorem cleanLedger_eq {evicted : List UploadPath} :
    cleanLedger faults u resourceId evicted s = (.ok (),
      if faults.store .removeEvicted = none then s.dropUploads u resourceId evicted
      else s.invalidateUploadLedger u) := by
  unfold cleanLedger removeEvictedUploadRecords storeOp
  cases faults.store .removeEvicted with
  | none | some => rfl

/-- What is written to a new temporary file and renamed is the file of its name. -/
theorem read_written (htemp : d.read temp = none) (q : UploadPath) :
    ((((d.put temp []).extend temp bytes).erase temp).put path bytes).read q =
      if q = path then some bytes else d.read q := by
  rw [Disk.read_put, Disk.read_erase, Disk.read_extend]
  split
  · rfl
  · split
    · next hq => rw [hq, htemp]
    · next hq => rw [Disk.read_put, if_neg hq]

section
variable {peer : ServerPeer} {resourceId : String} {upload : PendingUpload} {data : Bytes}
  {stored : StoredUpload} {e : ServerError} {incomingBytes : UInt64}

section
variable (limits : UploadLimits) (faults : Faults) (readings : Readings) (peer : ServerPeer)
  (upload : PendingUpload)

/-- What an upload that arrived whole is prepared with. -/
def preparedResource (data : Bytes) : Uploading (UploadQuotaPlan × UploadPath × UploadPath) :=
  prepareUpload faults readings peer.identityHash upload.filename data.length
    (plannerOf limits faults upload.userId peer.identityHash)

/-- What a staged upload is prepared with. -/
def preparedStage (staged : UploadPath) (incomingBytes : UInt64) :
    Uploading (UploadQuotaPlan × UploadPath) :=
  prepareStaged faults readings peer.identityHash upload.filename staged incomingBytes.toNat
    (plannerOf limits faults upload.userId peer.identityHash)

end

/-- The state a publication ends in: the file is under its name, the row in the index, and files of
the plan are gone. -/
def UploadServer.publish (s : UploadServer) (faults : Faults) (evict : List UploadPath)
    (row : UploadFileRow) (disk : Disk UploadPath) : UploadServer :=
  { s.setUpload row with disk := (evictFiles faults row.path evict disk).2 }

theorem publishResource_ok
    (h : publishResource limits faults readings peer resourceId upload data s = (.ok stored, s')) :
    ∃ plan temp t, preparedResource limits faults readings peer upload data s =
        (.ok (plan, stored.path, temp), t) ∧
      faults.writing temp stored.path = false ∧ faults.store .record = none ∧
      ∃ disk, (∀ q, disk.read q = if q = stored.path then some data else s.disk.read q) ∧
        stored = { path := stored.path, bytes := data.length
                   evicted := (evictFiles faults stored.path plan.evict disk).1 } ∧
        s' = t.publish faults plan.evict
          (UploadFileRow.of resourceId upload readings.recorded stored) disk := by
  obtain ⟨⟨plan, path, temp⟩, t, hprepare, h⟩ := bind_eq_ok.mp h
  obtain ⟨_, u, hwrite, h⟩ := bind_eq_ok.mp h
  obtain ⟨_, _, _, hfree, _⟩ := prepareUpload_ok hprepare
  have haside : Aside s t := prepareUpload_aside.of_eq hprepare
  rw [← haside.taken, UploadServer.taken, Bool.or_eq_false_iff, Option.isSome_eq_false_iff,
    Option.isNone_iff_eq_none] at hfree
  obtain ⟨disk, hdisk, rfl⟩ := onDisk_eq.mp (undoing_ok.mp hwrite)
  obtain ⟨hwriting, rfl⟩ := (writeUpload_ok hfree.2).mp hdisk
  obtain ⟨hrecord, rfl, rfl⟩ := recordAndEvict_ok.mp h
  refine ⟨plan, temp, t, hprepare, hwriting, hrecord, _, fun q => ?_, rfl, rfl⟩
  rw [read_written hfree.2, haside.disk]

/-- A publication that fails is not prepared, or its file is taken back. -/
theorem publishResource_error
    (h : publishResource limits faults readings peer resourceId upload data s = (.error e, s')) :
    preparedResource limits faults readings peer upload data s = (.error e, s') ∨
      ∃ plan path temp t, preparedResource limits faults readings peer upload data s =
          (.ok (plan, path, temp), t) ∧
        (faults.writing temp path = true ∨ faults.store .record ≠ none) ∧
        (∀ q, s'.disk.read q = if q = path then none else s.disk.read q) ∧
        Aside s { s' with disk := s.disk } := by
  rcases bind_eq_error.mp h with hprepare | ⟨⟨plan, path, temp⟩, t, hprepare, h⟩
  · exact .inl hprepare
  obtain ⟨_, _, _, hfree, _⟩ := prepareUpload_ok hprepare
  have haside : Aside s t := prepareUpload_aside.of_eq hprepare
  rw [← haside.taken, UploadServer.taken, Bool.or_eq_false_iff, Option.isSome_eq_false_iff,
    Option.isNone_iff_eq_none] at hfree
  have hback : Aside s { t with disk := s.disk } :=
    { haside with disk := rfl }
  refine .inr ⟨plan, path, temp, t, hprepare, ?_⟩
  rcases bind_eq_error.mp h with hwrite | ⟨_, u, hwrite, h⟩
  · obtain ⟨v, hv, rfl⟩ := undoing_error.mp hwrite
    obtain ⟨disk, hdisk, rfl⟩ := onDisk_eq.mp hv
    refine ⟨?_, fun q => ?_, hback⟩
    · cases hfault : faults.writing temp path with
      | true => exact .inl rfl
      | false => rw [(writeUpload_ok hfree.2).mpr ⟨hfault, rfl⟩] at hdisk; cases hdisk
    · rw [← haside.disk]
      exact writeUpload_error hfree.2 hdisk q
  · obtain ⟨disk, hdisk, rfl⟩ := onDisk_eq.mp (undoing_ok.mp hwrite)
    obtain ⟨_, rfl⟩ := (writeUpload_ok hfree.2).mp hdisk
    obtain ⟨hrecord, rfl⟩ := recordAndEvict_error h
    refine ⟨.inr hrecord, fun q => ?_, hback⟩
    show (Disk.erase _ path).read q = _
    rw [Disk.read_erase, read_written hfree.2, haside.disk]
    by_cases hq : q = path
    · rw [if_pos hq, if_pos hq]
    · rw [if_neg hq, if_neg hq, if_neg hq]

/-- The disk with a staged file under its name. -/
theorem read_renamed (q : UploadPath) :
    ((d.erase staged).put path bytes).read q =
      if q = path then some bytes else if q = staged then none else d.read q := by
  rw [Disk.read_put, Disk.read_erase]

theorem publishStage_ok (h : publishStage limits faults readings peer resourceId upload staged
      incomingBytes s = (.ok stored, s')) :
    ∃ plan t bytes, preparedStage limits faults readings peer upload staged incomingBytes s =
        (.ok (plan, stored.path), t) ∧
      faults.file (.rename staged) = false ∧ faults.file (.syncDir peer.identityHash) = false ∧
      faults.store .record = none ∧ s.disk.read staged = some bytes ∧
      ∃ disk, (∀ q, disk.read q = if q = stored.path then some bytes
          else if q = staged then none else s.disk.read q) ∧
        stored = { path := stored.path, bytes := incomingBytes.toNat
                   evicted := (evictFiles faults stored.path plan.evict disk).1 } ∧
        s' = t.publish faults plan.evict
          (UploadFileRow.of resourceId upload readings.recorded stored) disk := by
  obtain ⟨⟨plan, path⟩, t, hprepare, h⟩ := bind_eq_ok.mp h
  obtain ⟨_, u, hrename, h⟩ := bind_eq_ok.mp h
  obtain ⟨_, v, hsync, h⟩ := bind_eq_ok.mp h
  obtain ⟨haside, _, _, _, _, bytes, hbytes, _⟩ := prepareStaged_ok hprepare
  obtain ⟨disk, hdisk, rfl⟩ := onDisk_eq.mp (undoing_ok.mp hrename)
  obtain ⟨f₁, bytes', hbytes', rfl⟩ := Disk.rename_ok.mp hdisk
  obtain ⟨_, hdisk, rfl⟩ := onDisk_eq.mp (undoing_ok.mp hsync)
  obtain ⟨f₂, rfl⟩ := Disk.sync_ok.mp hdisk
  obtain ⟨hrecord, rfl, rfl⟩ := recordAndEvict_ok.mp h
  rw [haside.disk, hbytes] at hbytes'
  cases hbytes'
  refine ⟨plan, t, bytes, hprepare, f₁, f₂, hrecord, hbytes, _, fun q => ?_, rfl, rfl⟩
  rw [read_renamed, haside.disk]

/-- A staged publication that fails is not prepared, or its file is removed, under either name. -/
theorem publishStage_error (h : publishStage limits faults readings peer resourceId upload staged
      incomingBytes s = (.error e, s')) :
    preparedStage limits faults readings peer upload staged incomingBytes s = (.error e, s') ∨
      ∃ plan path t, preparedStage limits faults readings peer upload staged incomingBytes s =
          (.ok (plan, path), t) ∧
        ((faults.file (.rename staged) = true ∧
            ∀ q, s'.disk.read q = if q = staged then none else s.disk.read q) ∨
          ((faults.file (.syncDir peer.identityHash) = true ∨ faults.store .record ≠ none) ∧
            faults.file (.rename staged) = false ∧
            ∀ q, s'.disk.read q = if q = path ∨ q = staged then none else s.disk.read q)) ∧
        Aside s { s' with disk := s.disk } := by
  rcases bind_eq_error.mp h with hprepare | ⟨⟨plan, path⟩, t, hprepare, h⟩
  · exact .inl hprepare
  obtain ⟨haside, _, _, _, _, bytes, hbytes, _⟩ := prepareStaged_ok hprepare
  have hback : Aside s { t with disk := s.disk } :=
    { haside with disk := rfl }
  -- once renamed, the file is removed under the new name
  have hrenamed (d : Bytes) (q : UploadPath) :
      (((t.disk.erase staged).put path d).erase path).read q =
        if q = path ∨ q = staged then none else s.disk.read q := by
    rw [Disk.read_erase, read_renamed, haside.disk]
    by_cases hq : q = path
    · simp [hq]
    · simp [hq]
  refine .inr ⟨plan, path, t, hprepare, ?_⟩
  rcases bind_eq_error.mp h with hrename | ⟨_, u, hrename, h⟩
  · obtain ⟨v, hv, rfl⟩ := undoing_error.mp hrename
    obtain ⟨disk, hdisk, rfl⟩ := onDisk_eq.mp hv
    obtain ⟨_, rfl⟩ := Disk.rename_error hdisk
    refine ⟨.inl ⟨?_, fun q => ?_⟩, hback⟩
    · cases hfault : faults.file (.rename staged) with
      | true => rfl
      | false =>
        rw [Disk.rename_ok.mpr ⟨hfault, bytes, haside.disk ▸ hbytes, rfl⟩] at hdisk
        cases hdisk
    · rw [← haside.disk]
      exact Disk.read_erase t.disk staged q
  · obtain ⟨disk, hdisk, rfl⟩ := onDisk_eq.mp (undoing_ok.mp hrename)
    obtain ⟨hmoved, bytes, _, rfl⟩ := Disk.rename_ok.mp hdisk
    rcases bind_eq_error.mp h with hsync | ⟨_, v, hsync, h⟩
    · obtain ⟨v, hv, rfl⟩ := undoing_error.mp hsync
      obtain ⟨disk, hdisk, rfl⟩ := onDisk_eq.mp hv
      obtain ⟨_, rfl⟩ := Disk.sync_error hdisk
      refine ⟨.inr ⟨.inl ?_, hmoved, hrenamed bytes⟩, hback⟩
      cases hfault : faults.file (.syncDir peer.identityHash) with
      | true => rfl
      | false => rw [Disk.sync_ok.mpr ⟨hfault, rfl⟩] at hdisk; cases hdisk
    · obtain ⟨disk, hdisk, rfl⟩ := onDisk_eq.mp (undoing_ok.mp hsync)
      obtain ⟨_, rfl⟩ := Disk.sync_ok.mp hdisk
      obtain ⟨hrecord, rfl⟩ := recordAndEvict_error h
      exact ⟨.inr ⟨.inr hrecord, hmoved, hrenamed bytes⟩, hback⟩

end

end Omen.Server
