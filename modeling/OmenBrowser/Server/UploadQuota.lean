import OmenBrowser.Server.UploadInvariant
import OmenBrowser.Server.UploadAtomicity

/- The quota (`server/src/store.rs`, `server/src/upload.rs`).

   A plan is made from the rows, carried out on the files and written back to the rows. As long as
   every row has its file and no two rows share one, the three agree: what is evicted is the shortest
   run of oldest uploads that makes the new one fit, and the rows that stay are within the quota. -/
namespace Omen.Server
open Wire Sql Ints Omen.Protocol List UploadServer UploadFileRow

variable {limits : UploadLimits} {s s' t : UploadServer} {i : UploadInput} {identity content : Bytes}
  {own : List UploadPath} {resourceId : String} {upload : PendingUpload} {stored : StoredUpload}
  {rows : List UploadFileRow}

/-- The bytes of these uploads. -/
def bytesOf (rows : List UploadFileRow) : Nat := (rows.map byteLen).sum

@[simp] theorem bytesOf_nil : bytesOf [] = 0 := rfl

@[simp] theorem bytesOf_cons (r : UploadFileRow) (rows : List UploadFileRow) :
    bytesOf (r :: rows) = r.byteLen + bytesOf rows := rfl

/-- Lengths that fit are added up exactly. -/
theorem totalBytes_eq (h : bytesOf rows ≤ u64Max) :
    totalBytes (rows.map byteLen) = bytesOf rows := by
  have hfold : ∀ (lengths : List Nat) (acc : Nat), acc + lengths.sum ≤ u64Max →
      lengths.foldl saturatingCount acc = acc + lengths.sum := by
    intro lengths
    induction lengths with
    | nil => intro acc _; rfl
    | cons n lengths ih =>
      intro acc hfit
      rw [sum_cons] at hfit
      rw [foldl_cons, saturatingCount_eq (by omega), ih _ (by omega), sum_cons, Nat.add_assoc]
  calc totalBytes (rows.map byteLen)
      = 0 + bytesOf rows := hfold _ 0 (by rw [Nat.zero_add]; exact h)
    _ = bytesOf rows := Nat.zero_add _

/-- The `k` first of the rows go, and no fewer would do for `n` bytes to fit. -/
structure ShortestPrefix (quotaBytes n : Nat) (rows : List UploadFileRow) (k : Nat) : Prop where
  within : k ≤ rows.length
  fits : bytesOf (rows.drop k) + n ≤ quotaBytes
  shortest : ∀ j < k, quotaBytes < bytesOf (rows.drop j) + n

theorem evictedRows_shortest {quotaBytes n : Nat} (hn : n ≤ quotaBytes) (rows : List UploadFileRow) :
    ∃ k, evictedRows quotaBytes (bytesOf rows + n) rows = rows.take k ∧
      ShortestPrefix quotaBytes n rows k := by
  induction rows with
  | nil => exact ⟨0, rfl, Nat.le_refl 0, by simpa using hn, nofun⟩
  | cons r rows ih =>
    unfold evictedRows
    split
    · next hfits => exact ⟨0, rfl, Nat.zero_le _, hfits, nofun⟩
    · next hover =>
      obtain ⟨k, htake, hk⟩ := ih
      have hrest : bytesOf (r :: rows) + n - r.byteLen = bytesOf rows + n := by
        rw [bytesOf_cons]
        omega
      rw [hrest, htake]
      refine ⟨k + 1, rfl, Nat.succ_le_succ hk.within, hk.fits, ?_⟩
      intro j hj
      cases j with
      | zero => exact Nat.lt_of_not_le hover
      | succ j => exact hk.shortest j (Nat.lt_of_succ_lt_succ hj)

/-- Where every file of the plan is there, apart and removable, all of them go. -/
theorem evictFiles_all {faults : Faults} {path : UploadPath} {evict : List UploadPath}
    {disk : Disk UploadPath} (hnodup : evict.Nodup) (hpath : path ∉ evict)
    (hfiles : ∀ q ∈ evict, disk.read q ≠ none) (hremove : ∀ q, faults.file (.remove q) = false) :
    (evictFiles faults path evict disk).1 = evict := by
  induction evict generalizing disk with
  | nil => rfl
  | cons old rest ih =>
    obtain ⟨hold, hrest⟩ := nodup_cons.mp hnodup
    have hne : old ≠ path := fun h => hpath (h ▸ mem_cons_self)
    unfold evictFiles
    rw [if_neg (by simp [hne, hremove, hfiles old mem_cons_self])]
    refine congrArg (old :: ·) (ih hrest (fun h => hpath (mem_cons_of_mem _ h)) fun q hq => ?_)
    have hqo : q ≠ old := fun h => hold (h ▸ hq)
    rw [Disk.read_erase, if_neg hqo]
    exact hfiles q (mem_cons_of_mem _ hq)

/-- Rows among others, each once, have no more bytes. -/
theorem bytesOf_le {rows' : List UploadFileRow} (hnodup : rows.Nodup) (hsub : rows ⊆ rows') :
    bytesOf rows ≤ bytesOf rows' := by
  obtain ⟨l, hperm, hsublist⟩ := subperm_of_subset hnodup hsub
  calc bytesOf rows = bytesOf l := ((hperm.map byteLen).sum_eq).symm
    _ ≤ bytesOf rows' := (hsublist.map byteLen).sum_le_sum fun _ _ => Nat.zero_le _

/-! Publications. -/

/-- A published upload is within the quota: the shortest run of oldest uploads went for it, and it
is there. -/
structure WithinQuota (limits : UploadLimits) (i : UploadInput) (resourceId : String)
    (upload : PendingUpload) (stored : StoredUpload) (s s' : UploadServer) : Prop where
  evicted : ∃ k, ShortestPrefix limits.quotaBytes.toNat stored.bytes (s.entries upload.userId) k ∧
    stored.evicted = ((s.entries upload.userId).take k).map path ∧
    ∀ r, r ∈ s'.entries upload.userId ↔ r = newRow i resourceId upload stored ∨
      (r ∈ (s.entries upload.userId).drop k ∧ r.resourceId ≠ resourceId)
  bytes : bytesOf (s'.entries upload.userId) ≤ limits.quotaBytes.toNat
  kept : newRow i resourceId upload stored ∈ s'.entries upload.userId ∧
    ∃ content, s'.disk.read stored.path = some content ∧ content.length = stored.bytes

theorem UploadServer.nodup_entries (s : UploadServer) (u : UserId) : (s.entries u).Nodup :=
  (perm_orderBy _ _).nodup_iff.mpr (s.uploads.nodup_rows.filter _)

theorem UploadDone.withinQuota (h : UploadsKept t)
    (hfree : t.disk.read stored.path = none) (hrows : ∀ r ∈ t.uploads.rows, r.path ∉ own)
    (hfiles : ∀ p, i.faults.file (.remove p) = false) (hrecords : i.faults.store .removeEvicted = none)
    (hfit : bytesOf (t.entries upload.userId) + stored.bytes ≤ u64Max)
    (hdone : UploadDone limits i.faults i.readings identity own resourceId upload content stored t s') :
    WithinQuota limits i resourceId upload stored t s' := by
  obtain ⟨k, htake, hshort⟩ := evictedRows_shortest hdone.fits (t.entries upload.userId)
  have hrow : ∀ r ∈ t.uploads.rows, r.path ≠ stored.path := by
    intro r hr hpath
    obtain ⟨bytes, hbytes, _⟩ := h.files r hr
    rw [hpath, hfree] at hbytes
    cases hbytes
  have hnodup : (t.entries upload.userId).Nodup := t.nodup_entries upload.userId
  have hpaths : ((t.entries upload.userId).map UploadFileRow.path).Nodup :=
    (nodup_map_iff_inj_on hnodup).mpr fun r hr q hq =>
      h.paths r (mem_entries.mp hr).1 q (mem_entries.mp hq).1
  -- the plan is the prefix, and all of it goes
  have hplan : t.evictions limits upload.userId stored.bytes =
      ((t.entries upload.userId).take k).map UploadFileRow.path := by
    rw [evictions, totalBytes_eq (Nat.le_trans (Nat.le_add_right _ _) hfit),
      saturatingCount_eq hfit, htake]
  have hevicted : stored.evicted = ((t.entries upload.userId).take k).map UploadFileRow.path := by
    obtain ⟨disk, hread, hevicted⟩ := hdone.evicted
    rw [hevicted, hplan]
    refine evictFiles_all ?_ ?_ ?_ hfiles
    · rw [map_take]
      exact hpaths.sublist (take_sublist _ _)
    · intro hpath
      obtain ⟨r, hr, hrpath⟩ := mem_map.mp hpath
      exact hrow r (mem_entries.mp (mem_of_mem_take hr)).1 hrpath
    · intro q hq
      obtain ⟨r, hr, rfl⟩ := mem_map.mp hq
      have hmem := (mem_entries.mp (mem_of_mem_take hr)).1
      obtain ⟨bytes, hbytes, _⟩ := h.files r hmem
      rw [hread, if_neg (hrow r hmem), if_neg (hrows r hmem), hbytes]
      exact Option.some_ne_none _
  have hmem : ∀ r, r ∈ s'.entries upload.userId ↔ r = newRow i resourceId upload stored ∨
      (r ∈ (t.entries upload.userId).drop k ∧ r.resourceId ≠ resourceId) := by
    intro r
    rw [mem_entries, hdone.mem_uploads hrecords]
    constructor
    · rintro ⟨rfl | ⟨hr, hid, hkeep⟩, hactor⟩
      · exact .inl rfl
      · refine .inr ⟨?_, hid⟩
        have hentry := mem_entries.mpr ⟨hr, hactor⟩
        rw [← take_append_drop k (t.entries upload.userId), mem_append] at hentry
        rcases hentry with htaken | hdropped
        · exact absurd ⟨hactor, hevicted ▸ mem_map_of_mem htaken⟩ hkeep
        · exact hdropped
    · rintro (rfl | ⟨hr, hid⟩)
      · exact ⟨.inl rfl, rfl⟩
      · obtain ⟨hrmem, hactor⟩ := mem_entries.mp (mem_of_mem_drop hr)
        refine ⟨.inr ⟨hrmem, hid, ?_⟩, hactor⟩
        rintro ⟨_, hgone⟩
        rw [hevicted] at hgone
        obtain ⟨q, hq, hpath⟩ := mem_map.mp hgone
        have hqmem := (mem_entries.mp (mem_of_mem_take hq)).1
        obtain rfl := h.paths q hqmem r hrmem hpath
        exact disjoint_take_drop hnodup (Nat.le_refl k) hq hr
  refine ⟨⟨k, hshort, hevicted, hmem⟩, ?_, (hmem _).mpr (.inl rfl), content, ?_, hdone.length⟩
  · have hsub : s'.entries upload.userId ⊆
        newRow i resourceId upload stored :: (t.entries upload.userId).drop k := by
      intro r hr
      rcases (hmem r).mp hr with rfl | ⟨hr, _⟩
      · exact mem_cons_self
      · exact mem_cons_of_mem _ hr
    calc bytesOf (s'.entries upload.userId)
        ≤ bytesOf (newRow i resourceId upload stored :: (t.entries upload.userId).drop k) :=
          bytesOf_le (s'.nodup_entries upload.userId) hsub
      _ = bytesOf ((t.entries upload.userId).drop k) + stored.bytes := by
          rw [bytesOf_cons, Nat.add_comm]
          rfl
      _ ≤ limits.quotaBytes.toNat := hshort.fits
  · rw [hdone.files, if_neg fun hq => (hdone.of_evicted hq).1 rfl, if_pos rfl]

/-- The rows and the files are all there is to it. -/
theorem WithinQuota.of_eq {s₁ : UploadServer} (h : WithinQuota limits i resourceId upload stored t s₁)
    (huploads : t.uploads = s.uploads) (huploads' : s'.uploads = s₁.uploads)
    (hdisk : s'.disk = s₁.disk) : WithinQuota limits i resourceId upload stored s s' := by
  have hentries : t.entries upload.userId = s.entries upload.userId := by
    rw [entries, entries, huploads]
  have hentries' : s'.entries upload.userId = s₁.entries upload.userId := by
    rw [entries, entries, huploads']
  constructor
  · rw [← hentries, hentries']
    exact h.evicted
  · rw [hentries']
    exact h.bytes
  · rw [hentries', hdisk]
    exact h.kept

/-! Runs. -/

/-- Every upload still has its row and its file. -/
def NothingEvicted (s s' : UploadServer) : Prop :=
  ∀ r ∈ s.uploads.rows, r ∈ s'.uploads.rows ∧ s'.disk.read r.path = s.disk.read r.path

/-- An upload was recorded whose room event cannot be appended. -/
def EventLost (limits : UploadLimits) (i : UploadInput) (s s' : UploadServer) : Prop :=
  ∃ resourceId upload stored, newRow i resourceId upload stored ∈ s'.uploads.rows ∧
    newRow i resourceId upload stored ∉ s.uploads.rows ∧
    ¬EventAppends limits i.faults i.readings resourceId upload stored.bytes s'

/-- A step that publishes an upload stays within the quota, and any other evicts nothing, but for
one that cannot append the event of what it published. -/
structure QuotaStep (limits : UploadLimits) (s : UploadServer) (i : UploadInput) : Prop where
  published : ∀ resourceId upload stored event,
    (uploadStep limits s i).1 = .ok (.answered (.published resourceId upload stored event)) →
    bytesOf (s.entries upload.userId) + stored.bytes ≤ u64Max →
    WithinQuota limits i resourceId upload stored s (uploadStep limits s i).2
  failed : (∀ resourceId upload stored event,
      (uploadStep limits s i).1 ≠ .ok (.answered (.published resourceId upload stored event))) →
    NothingEvicted s (uploadStep limits s i).2 ∨ EventLost limits i s (uploadStep limits s i).2

/-- Rows and files that are the same. -/
theorem NothingEvicted.of_eq (huploads : s'.uploads = s.uploads)
    (hfiles : ∀ r ∈ s.uploads.rows, s'.disk.read r.path = s.disk.read r.path) :
    NothingEvicted s s' := by
  intro r hr
  exact ⟨by rw [huploads]; exact hr, hfiles r hr⟩

theorem UploadEffect.evictsNothing {a : Except ServerError UploadAnswer} (h : UploadsKept s)
    (hstep : StepRemoves s i) (heffect : UploadEffect limits i s a s') (hquiet : Unpublishing a) :
    NothingEvicted s s' ∨ EventLost limits i s s' := by
  cases heffect with
  | aside haside _ => exact .inl (.of_eq haside.uploads fun r _ => by rw [haside.disk])
  | elsewhere | restarted => exact .inl (.of_eq rfl fun _ _ => rfl)
  | @opened _ _ _ _ path _ hopens =>
    refine .inl (.of_eq hopens.rest.uploads fun r hr => ?_)
    have hfree := read_of_not_taken hopens.free
    obtain ⟨bytes, hbytes, _⟩ := h.files r hr
    -- the file of an upload is there, and the new path was free
    have hne : r.path ≠ path := by
      intro hpath
      rw [hpath, hfree] at hbytes
      cases hbytes
    rw [hopens.disk, Disk.read_put, if_neg hne]
  | @wrote stage _ _ _ hstage _ =>
    refine .inl (.of_eq rfl fun r hr => ?_)
    exact (Disk.read_extend _ _ _ _).trans (if_neg (h.apart r hr stage hstage))
  | @brokeOff stage _ _ hstage _ =>
    refine .inl (.of_eq rfl fun r hr => ?_)
    exact (Disk.read_extend _ _ _ _).trans (if_neg (h.apart r hr stage hstage))
  | dropped _ _ hfiles hrest =>
    refine .inl (.of_eq hrest.uploads fun r hr => ?_)
    rw [hfiles, if_neg]
    rintro ⟨b, hb, _, hpath⟩
    exact h.apart r hr b hb hpath.symm
  | left _ hdisk _ hrest => exact .inl (.of_eq hrest.uploads fun r _ => by rw [hdisk])
  | takenBack hc hoffered hback =>
    obtain ⟨_, hdisk, huploads, hrows, _⟩ := h.committing hc
    obtain ⟨gone, hread, hgone⟩ := hback.files
    have hfree := hstep.free hoffered hdisk
    refine .inl (.of_eq (hback.rest.uploads.trans huploads) fun r hr => ?_)
    obtain ⟨bytes, hbytes, _⟩ := h.files r hr
    rw [hread, hdisk, if_neg]
    intro hr'
    rcases hgone r.path hr' with hown | hname
    · exact hrows r (huploads ▸ hr) hown
    · rw [← hname, hdisk, hbytes] at hfree
      cases hfree
  | published hc _ hoffered _ hpublished =>
    obtain ⟨hkept, hdisk, huploads, hrows, _⟩ := h.committing hc
    obtain ⟨stored, s₁, hdone, ⟨_, hevent, rfl⟩ | ⟨event, rfl, _⟩⟩ := hpublished
    · -- published, and then the event was refused: the upload is there without it
      have hfree := hstep.free hoffered hdisk
      rw [← hdone.path, hdisk] at hfree
      refine .inr ⟨_, _, stored, (hdone.mem_uploads hstep.records).mpr (.inl rfl), ?_, hevent⟩
      intro hold
      obtain ⟨bytes, hbytes, _⟩ := h.files _ hold
      cases hbytes.symm.trans hfree
    · exact absurd rfl (hquiet _ _ _ event)

theorem quotaStep_of_kept (h : UploadsKept s) (hstep : StepRemoves s i) : QuotaStep limits s i := by
  have heffect := uploadStep_cases limits s i
  constructor
  · intro resourceId upload stored event hanswer hfit
    rw [hanswer] at heffect
    generalize (uploadStep limits s i).2 = s' at heffect ⊢
    cases heffect with
    | aside _ hquiet => exact absurd rfl (hquiet _ _ _ event)
    | dropped hquiet _ _ _ => exact absurd rfl (hquiet _ _ _ event)
    | takenBack _ _ hback =>
      obtain ⟨e, he⟩ := hback.error
      cases he
    | @published _ _ _ _ _ t _ _ hc _ hoffered _ hpublished =>
      obtain ⟨hkept, hdisk, huploads, hrows, _⟩ := h.committing hc
      obtain ⟨stored', s₁, hdone, ⟨⟨e, he⟩, _⟩ | ⟨event', hevent, happended⟩⟩ := hpublished
      · cases he
      · obtain ⟨rfl, rfl, rfl, rfl⟩ := UploadAnswer.published.inj (Except.ok.inj hevent)
        obtain ⟨database, _, rfl⟩ := happended
        have hfree := hstep.free hoffered hdisk
        rw [← hdone.path] at hfree
        have hentries : t.entries upload.userId = s.entries upload.userId := by
          rw [entries, entries, huploads]
        rw [← hentries] at hfit
        exact (hdone.withinQuota hkept hfree hrows hstep.files hstep.records hfit).of_eq huploads rfl
          rfl
  · intro hquiet
    refine heffect.evictsNothing h hstep fun resourceId upload stored event hanswer => ?_
    rcases hr : (uploadStep limits s i).1 with e | reply
    · rw [hr] at hanswer
      cases hanswer
    · rw [hr] at hanswer
      cases reply with
      | answered answer => exact hquiet _ _ _ _ (by rw [hr, ← Except.ok.inj hanswer]; rfl)
      | offered | silent => cases hanswer

/-- From an empty index, in a run whose removals do not fail and which finds free names, every
published upload is within the quota and no other request evicts anything, but for one that cannot
append the event of what it published. -/
theorem uploads_within_quota (limits : UploadLimits) (s : UploadServer) (inputs : List UploadInput)
    (huploads : s.uploads.rows = []) (hstages : s.stages.rows = [])
    (hmeets : Machine.Meets (uploadStep limits) StepRemoves s inputs) :
    Machine.Meets (uploadStep limits) (QuotaStep limits) s inputs := by
  have hkept : UploadsKept s := by
    constructor
    · rw [huploads]; exact nofun
    · rw [huploads]; exact nofun
    · rw [hstages]; exact nofun
    · rw [hstages]; exact nofun
    · rw [huploads]; exact nofun
  exact Machine.meets_of_invariant uploadStep_kept (fun s i => quotaStep_of_kept) hmeets hkept

/-! Two uploads of five bytes for a quota of eight. -/

def fiveBytes (resourceId : String) : PendingUploadEntry :=
  { resourceId
    identityHash := [1]
    acceptedAt := 2
    upload := { roomId := 1, userId := 1, filename := resourceId, contentType := none
                incomingBytes := 5 } }

def twoOffers : UploadServer :=
  { uploaderServer with pending := ⟨[fiveBytes "old", fiveBytes "new"], by decide⟩ }

def twoUploads (faults : Faults) : List UploadInput :=
  [{ request := .resource uploader "old" [1, 2, 3, 4, 5] false
     faults := Faults.none, readings := Readings.at 3 },
   { request := .resource uploader "new" [6, 7, 8, 9, 10] false
     faults, readings := Readings.at 4 }]

theorem uploads_within_quota_two :
    Machine.Meets (uploadStep eightByteLimits) (QuotaStep eightByteLimits) twoOffers
      (twoUploads Faults.none) := by
  refine uploads_within_quota eightByteLimits twoOffers (twoUploads Faults.none) rfl rfl ⟨?_, ?_, trivial⟩
  · exact ⟨fun _ => rfl, rfl, by decide +kernel⟩
  · exact ⟨fun _ => rfl, rfl, by decide +kernel⟩

/-- The rows of the evicted files cannot be removed. -/
def noRemoval : Faults :=
  { Faults.none with store := fun
      | .removeEvicted => some .databaseFull
      | _ => none }

/-- Whose upload was published, and its length. -/
def publishedFor (r : Except ServerError UploadReply) : Option (UserId × Nat) :=
  match r with
  | .ok (.answered (.published _ upload stored _)) => some (upload.userId, stored.bytes)
  | _ => none

theorem publishedFor_eq {r : Except ServerError UploadReply} {u : UserId} {n : Nat}
    (h : publishedFor r = some (u, n)) : ∃ resourceId upload stored event,
      r = .ok (.answered (.published resourceId upload stored event)) ∧ upload.userId = u ∧
        stored.bytes = n := by
  unfold publishedFor at h
  split at h
  · next resourceId upload stored event =>
    obtain ⟨hu, hn⟩ := Prod.mk.inj (Option.some.inj h)
    exact ⟨resourceId, upload, stored, event, rfl, hu, hn⟩
  · cases h

/-- The state behind the second upload, whose evicted row stays. -/
def overQuota : Except ServerError UploadReply × UploadServer :=
  uploadStep eightByteLimits (uploadStep eightByteLimits twoOffers (twoUploads noRemoval)[0]).2
    (twoUploads noRemoval)[1]

/-- A published upload can leave the index over the quota. -/
theorem uploads_over_quota :
    ¬∀ (limits : UploadLimits) (s : UploadServer) (inputs : List UploadInput),
      s.uploads.rows = [] → s.stages.rows = [] →
      Machine.Meets (uploadStep limits) (fun _ i => ∀ p, i.faults.file (.remove p) = false) s inputs →
      Machine.Meets (uploadStep limits) (fun s i => ∀ resourceId upload stored event,
        (uploadStep limits s i).1 = .ok (.answered (.published resourceId upload stored event)) →
        bytesOf (s.entries upload.userId) + stored.bytes ≤ u64Max →
        bytesOf ((uploadStep limits s i).2.entries upload.userId) ≤ limits.quotaBytes.toNat) s
        inputs := by
  intro h
  have hmeets := h eightByteLimits twoOffers (twoUploads noRemoval) rfl rfl
    ⟨fun _ => rfl, fun _ => rfl, trivial⟩
  have hpublished : publishedFor overQuota.1 = some (1, 5) := by decide +kernel
  obtain ⟨resourceId, upload, stored, event, hanswer, hu, hn⟩ := publishedFor_eq hpublished
  have hsecond := hmeets.2.1 resourceId upload stored event hanswer
  rw [hu, hn] at hsecond
  have hover : 8 < bytesOf (overQuota.2.entries 1) := by decide +kernel
  have hsum : bytesOf ((uploadStep eightByteLimits twoOffers
      (twoUploads noRemoval)[0]).2.entries 1) = 5 := by decide +kernel
  have hfits : bytesOf (overQuota.2.entries 1) ≤ 8 := by
    refine hsecond ?_
    show bytesOf ((uploadStep eightByteLimits twoOffers (twoUploads noRemoval)[0]).2.entries 1) + 5 ≤ _
    rw [hsum]
    decide
  omega

end Omen.Server
