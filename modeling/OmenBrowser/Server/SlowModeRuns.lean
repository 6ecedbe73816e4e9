import OmenBrowser.Server.SlowMode

/- Slow mode over whole runs.

   `Admits` is what an admission can do, one constructor an answer: only two of the five
   answers write, and the only rows that go are deadlines that have passed. A deadline that
   lies ahead is therefore still there when its user comes back, whoever published in
   between and however the interval was changed: that is the spacing (`Guarded`). -/
namespace Omen.Server
open Wire Sql Ints Omen.Protocol Txn Machine Table

/-! What an admission does. -/

variable {seconds : UInt32} {r row : AdmissionRow} {a : SlowModeAdmission}
  {kind : ServerRoomEventKind} {hook : Except ServerError Unit} {i j : PublicationInput} {now : Int}
  {first between : List PublicationInput} {s : PublicationStore}

inductive Admits (roomId : RoomId) (userId : UserId) (now : Int) (limits : SlowModeLimits)
    (s : PublicationTables) : SlowModeAdmission → PublicationTables → Prop where
  | roomNotFound (interval : s.roomSlowModeSeconds roomId = .ok none) :
    Admits roomId userId now limits s .roomNotFound s
  | disabled (interval : s.roomSlowModeSeconds roomId = .ok (some 0)) :
    Admits roomId userId now limits s .disabled s
  | rejected (deadline : Int) (found : s.deadline? roomId userId = some deadline)
      (ahead : now < deadline) :
    Admits roomId userId now limits s (.rejected (retryAfter deadline now)) s
  | saturated : Admits roomId userId now limits s .saturated (s.pruned now limits)
  | admitted (seconds : UInt32) (s' : PublicationTables)
      (interval : s.roomSlowModeSeconds roomId = .ok (some seconds))
      (passed : ∀ deadline, s.deadline? roomId userId = some deadline → deadline ≤ now)
      (room : (s.pruned now limits).isSaturated roomId userId limits = false)
      (written : (s.pruned now limits).upsertAdmission
        (.admitted roomId userId now (now + seconds.toNat)) = .ok s') :
    Admits roomId userId now limits s
      (.admitted (now + seconds.toNat) (s.expiredBatch now limits).length) s'

section
variable {roomId : RoomId} {userId : UserId} {now : Int} {limits : SlowModeLimits}
  {s s' : PublicationTables} {a : SlowModeAdmission}

theorem recordAdmission_ok {pruned : Nat}
    (h : recordAdmission roomId userId now seconds pruned s = .ok (a, s')) :
    a = .admitted (now + seconds.toNat) pruned ∧
      s.upsertAdmission (.admitted roomId userId now (now + seconds.toNat)) = .ok s' := by
  unfold recordAdmission at h
  cases hadd : checkedAddI64 now seconds.toNat with
  | none =>
    rw [hadd] at h
    exact (fail_ok.mp h).elim
  | some notBefore =>
    rw [hadd] at h
    obtain rfl := checkedAddI64_some hadd
    obtain ⟨s₁, hwrite, h⟩ := sql_bind_ok.mp h
    obtain ⟨rfl, rfl⟩ := pure_eq_ok h
    exact ⟨rfl, hwrite⟩

theorem admit_cases
    (h : admitRoomPublicationWithLimits roomId userId now limits s = .ok (a, s')) :
    Admits roomId userId now limits s a s' := by
  obtain ⟨_, h⟩ := require_bind_ok.mp h
  rw [query_bind] at h
  obtain ⟨interval, hinterval, h⟩ := lift_bind_ok.mp h
  cases interval with
  | none =>
    obtain ⟨rfl, rfl⟩ := pure_eq_ok h
    exact .roomNotFound hinterval
  | some seconds =>
    by_cases hzero : seconds = 0
    · subst hzero
      obtain ⟨rfl, rfl⟩ := pure_eq_ok h
      exact .disabled hinterval
    · simp only [if_neg hzero, id] at h
      cases hdeadline : (s.deadline? roomId userId).filter (fun d => decide (now < d)) with
      | some deadline =>
        obtain ⟨hfound, hahead⟩ := Option.filter_eq_some_iff.mp hdeadline
        simp only [hdeadline] at h
        obtain ⟨rfl, rfl⟩ := pure_eq_ok h
        exact .rejected deadline hfound (of_decide_eq_true hahead)
      | none =>
        simp only [hdeadline] at h
        rw [execute_bind, query_bind] at h
        have hpassed : ∀ deadline, s.deadline? roomId userId = some deadline → deadline ≤ now := by
          intro deadline hfound
          have hnot := Option.filter_eq_none_iff.mp hdeadline deadline hfound
          simpa using hnot
        split at h
        · obtain ⟨rfl, rfl⟩ := pure_eq_ok h
          exact .saturated
        · next hroom =>
          obtain ⟨rfl, hwrite⟩ := recordAdmission_ok h
          exact .admitted seconds s' hinterval hpassed (Bool.not_eq_true _ ▸ hroom) hwrite

/-- Pruning removes deadlines that have passed and nothing else. -/
theorem mem_pruned :
    r ∈ (s.pruned now limits).admissions.rows ↔
      r ∈ s.admissions.rows ∧ r ∉ s.expiredBatch now limits :=
  mem_deleteRows fun _ hv => (mem_of_mem_batch hv).1

theorem mem_pruned_of_ahead (hr : now < r.notBeforeUnix) :
    r ∈ (s.pruned now limits).admissions.rows ↔ r ∈ s.admissions.rows := by
  rw [mem_pruned, and_iff_left_iff_imp]
  intro _ hbatch
  have hpassed : r.notBeforeUnix ≤ now := of_decide_eq_true (mem_of_mem_batch hbatch).2
  omega

theorem pruned_sublist : (s.pruned now limits).admissions.rows.Sublist s.admissions.rows :=
  deleteRows_sublist _ _

theorem upsertAdmission_ok (h : s.upsertAdmission row = .ok s') :
    s' = { s with admissions := s'.admissions } ∧
      ∀ r, r ∈ s'.admissions.rows ↔ r = row ∨ r ∈ s.admissions.rows ∧ r.key ≠ row.key := by
  unfold PublicationTables.upsertAdmission at h
  split at h
  · injection h with h
    subst h
    refine ⟨rfl, fun r => mem_upsert fun q hq => ?_⟩
    obtain ⟨hroom, huser⟩ := Prod.mk.inj hq
    cases row
    simp only [AdmissionRow.renewed, AdmissionRow.mk.injEq, and_true]
    exact ⟨hroom, huser⟩
  · cases h

/-- An admission writes deadlines only. -/
theorem Admits.rest (h : Admits roomId userId now limits s a s') :
    s' = { s with admissions := s'.admissions } := by
  cases h with
  | roomNotFound | disabled | rejected | saturated => rfl
  | admitted seconds s' _ _ _ hwrite => exact (upsertAdmission_ok hwrite).1

/-- An admission that is refused leaves every deadline that lies ahead. -/
theorem Admits.keeps_ahead (h : Admits roomId userId now limits s a s')
    (ha : ∀ notBefore pruned, a ≠ .admitted notBefore pruned) (hr : now < r.notBeforeUnix) :
    r ∈ s'.admissions.rows ↔ r ∈ s.admissions.rows := by
  cases h with
  | roomNotFound | disabled | rejected => exact Iff.rfl
  | saturated => exact mem_pruned_of_ahead hr
  | admitted seconds s' _ _ _ _ => exact absurd rfl (ha _ _)

end

/-! Bounds. -/

structure PublicationTables.Bounded (s : PublicationTables) : Prop where
  perRoom : ∀ roomId, s.admissionCount roomId ≤ slowModeAdmissionMaxPerRoom
  global : s.admissions.rows.length ≤ slowModeAdmissionMaxGlobal

section
variable {roomId : RoomId} {userId : UserId} {now : Int} {s s' : PublicationTables}
  {a : SlowModeAdmission}

theorem PublicationTables.Bounded.of_sublist (h : s.Bounded)
    (hsub : s'.admissions.rows.Sublist s.admissions.rows) : s'.Bounded :=
  ⟨fun roomId => hsub.countP_le.trans (h.perRoom roomId), hsub.length_le.trans h.global⟩

/-- The write adds a row for a user that had none, or overwrites the one that was there. -/
theorem upsertAdmission_rows (h : s.upsertAdmission row = .ok s') :
    (s'.admissions.rows = row :: s.admissions.rows ∧
        s.admissions.find? (row.roomId, row.userId) = none) ∨
      (s'.admissions.rows.length = s.admissions.rows.length ∧
        ∀ roomId, s'.admissionCount roomId = s.admissionCount roomId) := by
  unfold PublicationTables.upsertAdmission at h
  split at h
  · injection h with h
    rcases upsert_cases s.admissions row row.renewed row.key_renewed with hinsert | ⟨_, hupdate⟩
    · obtain ⟨hrows, hfresh⟩ := insert_ok.mp hinsert
      subst h
      exact .inl ⟨hrows, find?_eq_none.mpr hfresh⟩
    · rw [hupdate] at h
      subst h
      refine .inr ⟨List.length_map _, fun roomId => ?_⟩
      exact @countP_updateWhere _ _ _ _ _ _ _ row.key_renewed fun _ => rfl
  · cases h

/-- A new row goes where there is room for it. -/
theorem PublicationTables.Bounded.upsert (h : s.Bounded)
    (hroom : s.isSaturated row.roomId row.userId slowModeProductionLimits = false)
    (hwrite : s.upsertAdmission row = .ok s') : s'.Bounded := by
  rcases upsertAdmission_rows hwrite with ⟨hrows, hnone⟩ | ⟨hlength, hcount⟩
  · simp only [isSaturated, hnone, Option.isNone_none, Bool.true_and, Bool.or_eq_false_iff,
      decide_eq_false_iff_not, Nat.not_le] at hroom
    obtain ⟨hperRoom, hglobal⟩ := hroom
    constructor
    case perRoom =>
      intro roomId
      have hall := h.perRoom roomId
      unfold admissionCount at hperRoom hall ⊢
      rw [hrows, List.countP_cons]
      split
      · next heq =>
        rw [beq_iff_eq] at heq
        subst heq
        exact hperRoom
      · exact hall
    case global =>
      rw [hrows]
      exact hglobal
  · exact ⟨fun roomId => (hcount roomId).trans_le (h.perRoom roomId), hlength.trans_le h.global⟩

theorem Admits.bounded (h : Admits roomId userId now slowModeProductionLimits s a s') (hs : s.Bounded) :
    s'.Bounded := by
  cases h with
  | roomNotFound | disabled | rejected => exact hs
  | saturated => exact hs.of_sublist pruned_sublist
  | admitted seconds s' _ _ hroom hwrite =>
    exact (hs.of_sublist pruned_sublist).upsert hroom hwrite

end

/-! Deadlines that lie ahead. -/

/-- The user does not publish in the room before `deadline`, or the clock has come to it. -/
def PublicationTables.Guarded (s : PublicationTables) (roomId : RoomId) (userId : UserId)
    (deadline clock : Int) : Prop :=
  deadline ≤ clock ∨
    ∃ r ∈ s.admissions.rows, r.key = (roomId, userId) ∧ deadline ≤ r.notBeforeUnix

section
variable {roomId room : RoomId} {userId user : UserId} {now deadline clock : Int}
  {limits : SlowModeLimits} {s s' : PublicationTables} {a : SlowModeAdmission}

theorem deadline?_eq_some (hr : r ∈ s.admissions.rows) (hkey : r.key = (roomId, userId)) :
    s.deadline? roomId userId = some r.notBeforeUnix := by
  unfold PublicationTables.deadline?
  rw [find?_eq_some.mpr ⟨hr, hkey⟩]
  rfl

theorem PublicationTables.Guarded.pruned (h : s.Guarded roomId userId deadline clock)
    (hnow : now ≤ clock) : (s.pruned now limits).Guarded roomId userId deadline clock := by
  rcases h with hcome | ⟨r, hr, hkey, hle⟩
  · exact .inl hcome
  · by_cases hahead : now < r.notBeforeUnix
    · exact .inr ⟨r, (mem_pruned_of_ahead hahead).mpr hr, hkey, hle⟩
    · exact .inl (by omega)

/-- Whoever is admitted: the row of the user goes only once its deadline has passed. -/
theorem Admits.guarded (h : Admits room user now limits s a s') (hnow : now ≤ clock)
    (hg : s.Guarded roomId userId deadline clock) : s'.Guarded roomId userId deadline clock := by
  cases h with
  | roomNotFound | disabled | rejected => exact hg
  | saturated => exact hg.pruned hnow
  | admitted seconds s' _ hpassed _ hwrite =>
    obtain ⟨_, hmem⟩ := upsertAdmission_ok hwrite
    rcases hg with hcome | ⟨r, hr, hkey, hle⟩
    · exact .inl hcome
    · by_cases hahead : now < r.notBeforeUnix
      · -- a row that lies ahead is not the one that is overwritten
        refine .inr ⟨r, (hmem r).mpr (.inr ⟨(mem_pruned_of_ahead hahead).mpr hr, ?_⟩), hkey, hle⟩
        intro hsame
        have := hpassed _ (deadline?_eq_some hr hsame)
        omega
      · exact .inl (by omega)

section
variable (h : Admits roomId userId now limits s a s')
  (ha : a = .disabled ∨ ∃ notBefore pruned, a = .admitted notBefore pruned)
  (hinterval : s.roomSlowModeSeconds roomId = .ok (some seconds))
include h ha hinterval

/-- An admission under an interval sets the deadline. -/
theorem Admits.sets_deadline (hnow : now ≤ clock) :
    s'.Guarded roomId userId (now + seconds.toNat) clock := by
  cases h with
  | roomNotFound h => rw [h] at hinterval; cases hinterval
  | disabled h =>
    rw [h] at hinterval
    cases hinterval
    exact .inl (by simpa using hnow)
  | rejected | saturated => simp at ha
  | admitted seconds' s' h _ _ hwrite =>
    rw [h] at hinterval
    cases hinterval
    exact .inr ⟨_, ((upsertAdmission_ok hwrite).2 _).mpr (.inl rfl), rfl, le_rfl⟩

/-- Nobody is admitted under an interval before the deadline. -/
theorem Admits.after_deadline (hpos : seconds ≠ 0)
    (hg : s.Guarded roomId userId deadline now) : deadline ≤ now := by
  cases h with
  | roomNotFound h => rw [h] at hinterval; cases hinterval
  | disabled h =>
    rw [h] at hinterval
    cases hinterval
    exact absurd rfl hpos
  | rejected | saturated => simp at ha
  | admitted seconds' s' _ hpassed _ _ =>
    rcases hg with hcome | ⟨r, hr, hkey, hle⟩
    · exact hcome
    · exact hle.trans (hpassed _ (deadline?_eq_some hr hkey))

end

end

/-! The store as it is driven. -/

structure PublicationStore where
  tables : PublicationTables
  historyRetention : RoomHistoryRetentionPolicy

inductive PublicationInput where
  | publish (roomId : RoomId) (userId : UserId) (kind : ServerRoomEventKind) (now : Int)
      (hook : Except ServerError Unit) (clock : Clock)
  /-- An admission in the transaction of a durable mutation, which ends or is rolled back. -/
  | reserve (roomId : RoomId) (userId : UserId) (now : Int) (rest : Except ServerError Unit)
  | setSlowMode (roomId : RoomId) (seconds : UInt32)
  | archive (roomId : RoomId)
  /-- Rooms are created, or brought back. -/
  | rooms (rooms : Table RoomPolicyRow.roomId)
  /-- Anything is written outside the tables of slow mode. -/
  | elsewhere (database : Database)
  | restart (retention : RoomHistoryRetentionPolicy)

inductive PublicationOutput where
  | published (publication : SlowModeRoomPublication)
  | admission (admission : SlowModeAdmission)
  | configured
  | failed (error : ServerError)

def PublicationStore.transact {α : Type} (s : PublicationStore)
    (body : Txn PublicationTables ServerError α) (output : α → PublicationOutput) :
    PublicationOutput × PublicationStore :=
  let result := atomically body s.tables
  (match result.1 with
    | .ok a => output a
    | .error e => .failed e,
   { s with tables := result.2 })

/-- The admission of a larger transaction. -/
def admitWithin (roomId : RoomId) (userId : UserId) (now : Int) (rest : Except ServerError Unit) :
    Txn PublicationTables ServerError SlowModeAdmission := do
  let admission ← admitRoomPublication roomId userId now
  lift rest
  pure admission

def publicationStep (s : PublicationStore) :
    PublicationInput → PublicationOutput × PublicationStore
  | .publish roomId userId kind now hook clock =>
    s.transact (commitRoomPublicationWithSlowModeAndHook roomId userId kind now hook
      s.historyRetention clock) .published
  | .reserve roomId userId now rest => s.transact (admitWithin roomId userId now rest) .admission
  | .setSlowMode roomId seconds =>
    s.transact (updateRoomSlowModeSeconds roomId seconds) (fun _ => .configured)
  | .archive roomId => s.transact (archiveRoom roomId) (fun _ => .configured)
  | .rooms rooms => (.configured, { s with tables := { s.tables with rooms } })
  | .elsewhere database => (.configured, { s with tables := { s.tables with database } })
  | .restart retention => (.configured, { s with historyRetention := retention })

/-- Who asks to publish, where, and when. -/
def PublicationInput.request : PublicationInput → Option (RoomId × UserId × Int)
  | .publish roomId userId _ now _ _ => some (roomId, userId, now)
  | .reserve roomId userId now _ => some (roomId, userId, now)
  | _ => none

def PublicationInput.now? (i : PublicationInput) : Option Int := i.request.map (fun r => r.2.2)

/-- The message is admitted, with a deadline or without slow mode. -/
def PublicationOutput.isAdmitted : PublicationOutput → Bool
  | .published (.stored _ _) => true
  | .admission .disabled => true
  | .admission (.admitted _ _) => true
  | _ => false

/-- The step admits a message of the user in the room under the interval. -/
structure AdmittedAt (s : PublicationStore) (i : PublicationInput) (roomId : RoomId)
    (userId : UserId) (now : Int) (seconds : UInt32) : Prop where
  request : i.request = some (roomId, userId, now)
  admitted : (publicationStep s i).1.isAdmitted = true
  interval : s.tables.roomSlowModeSeconds roomId = .ok (some seconds)

/-- The answers under which the message goes out. -/
def SlowModeAdmission.publishes : SlowModeAdmission → Bool
  | .disabled => true
  | .admitted _ _ => true
  | _ => false

theorem SlowModeAdmission.publishes_iff :
    a.publishes = true ↔ a = .disabled ∨ ∃ notBefore pruned, a = .admitted notBefore pruned := by
  cases a <;> simp [publishes]

/-- What a request does: it fails and leaves no trace, or an admission decides it. A message that
is not admitted leaves nothing but the admission. -/
inductive Decides (s : PublicationStore) (roomId : RoomId) (userId : UserId) (now : Int) :
    PublicationOutput → PublicationStore → Prop where
  | failed (e : ServerError) : Decides s roomId userId now (.failed e) s
  | answered (a : SlowModeAdmission) (mid : PublicationTables) (o : PublicationOutput)
      (s' : PublicationStore)
      (admission : Admits roomId userId now slowModeProductionLimits s.tables a mid)
      (output : o.isAdmitted = a.publishes)
      (admissions : s'.tables.admissions = mid.admissions)
      (refused : a.publishes = false → s'.tables = mid) :
    Decides s roomId userId now o s'

section
variable {s : PublicationStore} {roomId : RoomId} {userId : UserId} {now : Int}

theorem publication_cases {α : Type} {I : PublicationOutput → PublicationStore → Prop}
    {body : Txn PublicationTables ServerError α} {output : α → PublicationOutput}
    (hfailed : ∀ e, I (.failed e) s)
    (hok : ∀ a tables, body s.tables = .ok (a, tables) → I (output a) { s with tables }) :
    I (s.transact body output).1 (s.transact body output).2 := by
  unfold PublicationStore.transact atomically
  cases h : body s.tables with
  | error e => exact hfailed e
  | ok p => exact hok p.1 p.2 h

theorem storePublication_ok {retention : RoomHistoryRetentionPolicy} {clock : Clock}
    {p : SlowModeRoomPublication} {t t' : PublicationTables}
    (h : storePublication roomId userId kind hook retention clock a t = .ok (p, t')) :
    (∃ event, p = .stored event a) ∧ t'.admissions = t.admissions := by
  obtain ⟨_, _, h⟩ := lift_bind_ok.mp h
  obtain ⟨event, t₁, hevent, h⟩ := bind_ok.mp h
  obtain ⟨rfl, rfl⟩ := pure_eq_ok h
  obtain ⟨db, _, hset⟩ := zoom_ok.mp hevent
  refine ⟨⟨event, rfl⟩, ?_⟩
  simp only at hset
  rw [hset]

theorem publish_decides {clock : Clock} :
    Decides s roomId userId now
      (publicationStep s (.publish roomId userId kind now hook clock)).1
      (publicationStep s (.publish roomId userId kind now hook clock)).2 := by
  apply publication_cases (I := Decides s roomId userId now)
  · exact .failed
  · intro p tables h
    obtain ⟨a, mid, hadmitted, h⟩ := bind_ok.mp h
    have hadmits := admit_cases hadmitted
    cases a with
    | disabled | admitted =>
      obtain ⟨⟨event, rfl⟩, hkept⟩ := storePublication_ok h
      exact .answered _ mid _ _ hadmits rfl hkept fun h => by cases h
    | rejected retry =>
      obtain ⟨rfl, rfl⟩ := pure_eq_ok h
      exact .answered _ tables _ _ hadmits rfl rfl fun _ => rfl
    | roomNotFound =>
      obtain ⟨rfl, rfl⟩ := pure_eq_ok h
      exact .answered _ tables _ _ hadmits rfl rfl fun _ => rfl
    | saturated =>
      obtain ⟨rfl, rfl⟩ := pure_eq_ok h
      exact .answered _ tables _ _ hadmits rfl rfl fun _ => rfl

theorem admit_decides {rest : Except ServerError Unit} :
    Decides s roomId userId now (publicationStep s (.reserve roomId userId now rest)).1
      (publicationStep s (.reserve roomId userId now rest)).2 := by
  apply publication_cases (I := Decides s roomId userId now)
  · exact .failed
  · intro a tables h
    obtain ⟨a, mid, hadmitted, h⟩ := bind_ok.mp h
    obtain ⟨_, _, h⟩ := lift_bind_ok.mp h
    obtain ⟨rfl, rfl⟩ := pure_eq_ok h
    refine .answered a tables _ _ (admit_cases hadmitted) ?_ rfl fun _ => rfl
    cases a <;> rfl

theorem step_decides (h : i.request = some (roomId, userId, now)) :
    Decides s roomId userId now (publicationStep s i).1 (publicationStep s i).2 := by
  cases i with
  | publish r u kind t hook clock =>
    obtain ⟨rfl, rfl, rfl⟩ : r = roomId ∧ u = userId ∧ t = now := by
      simpa [PublicationInput.request] using h
    exact publish_decides
  | reserve r u t rest =>
    obtain ⟨rfl, rfl, rfl⟩ : r = roomId ∧ u = userId ∧ t = now := by
      simpa [PublicationInput.request] using h
    exact admit_decides
  | setSlowMode | archive | rooms | elsewhere | restart => cases h

theorem updateRoomSlowModeSeconds_keeps :
    Txn.Keeps PublicationTables.admissions (updateRoomSlowModeSeconds roomId seconds) := by
  refine .bind (.ite (.pure _) (.abort _)) fun _ => .bind (.query _) fun room => ?_
  cases room with
  | none => exact .abort _
  | some room =>
    simp only
    cases toU32 room.slowModeSeconds with
    | none => exact .abort _
    | some previous => exact .bind (.execute fun _ => rfl) fun _ => .pure _

theorem archiveRoom_keeps : Txn.Keeps PublicationTables.admissions (archiveRoom roomId) := by
  refine .bind (.ite (.pure _) (.abort _)) fun _ => .bind (.query _) fun room => ?_
  exact .bind (.ite (.pure _) (.abort _)) fun _ => .execute fun _ => rfl

/-- Nothing but a request touches the deadlines. -/
theorem step_keeps_admissions (h : i.request = none) :
    (publicationStep s i).2.tables.admissions = s.tables.admissions := by
  have hkeeps : ∀ {α : Type} {body : Txn PublicationTables ServerError α}
      {output : α → PublicationOutput}, Txn.Keeps PublicationTables.admissions body →
      (s.transact body output).2.tables.admissions = s.tables.admissions := by
    intro α body output hbody
    apply publication_cases (I := fun _ s' => s'.tables.admissions = s.tables.admissions)
    · exact fun _ => rfl
    · exact fun a tables hrun => hbody _ a tables hrun
  cases i with
  | publish | reserve => cases h
  | setSlowMode roomId seconds => exact hkeeps updateRoomSlowModeSeconds_keeps
  | archive roomId => exact hkeeps archiveRoom_keeps
  | rooms _ => rfl
  | elsewhere _ => rfl
  | restart _ => rfl

end

/-! Whole runs. -/

section
variable {s : PublicationStore} {i : PublicationInput} {roomId : RoomId} {userId : UserId}
  {deadline clock : Int}

/-- What is about the deadlines, and is kept by an admission, is kept by a step. -/
theorem publicationStep_keeps {I : PublicationTables → Prop}
    (hcongr : ∀ {t t' : PublicationTables}, t'.admissions = t.admissions → I t → I t')
    (hadmits : ∀ {room user now a mid}, i.now? = some now →
      Admits room user now slowModeProductionLimits s.tables a mid → I mid)
    (h : I s.tables) : I (publicationStep s i).2.tables := by
  cases hr : i.request with
  | none => exact hcongr (step_keeps_admissions hr) h
  | some r =>
    obtain ⟨room, user, now⟩ := r
    have hdecides := step_decides (s := s) hr
    generalize publicationStep s i = p at hdecides ⊢
    obtain ⟨o, s'⟩ := p
    cases hdecides with
    | failed e => exact h
    | answered a mid _ _ hadmitted _ hkept _ =>
      exact hcongr hkept (hadmits (by simp [PublicationInput.now?, hr]) hadmitted)

theorem PublicationTables.Bounded.step (h : s.tables.Bounded) (i : PublicationInput) :
    (publicationStep s i).2.tables.Bounded :=
  publicationStep_keeps (fun heq ht => ht.of_sublist (by rw [heq]))
    (fun _ hadmits => hadmits.bounded h) h

theorem PublicationTables.Guarded.step (h : s.tables.Guarded roomId userId deadline clock)
    (hi : ∀ now, i.now? = some now → now ≤ clock) :
    (publicationStep s i).2.tables.Guarded roomId userId deadline clock := by
  refine publicationStep_keeps (fun heq ht => ?_) (fun hnow hadmits => hadmits.guarded (hi _ hnow) h) h
  unfold Guarded
  rw [heq]
  exact ht

/-- A message that goes out under an interval holds its user back until the interval is over. -/
theorem AdmittedAt.guards (h : AdmittedAt s i roomId userId now seconds) (hnow : now ≤ clock) :
    (publicationStep s i).2.tables.Guarded roomId userId (now + seconds.toNat) clock := by
  have hdecides := step_decides (s := s) h.request
  have hadmitted := h.admitted
  generalize publicationStep s i = p at hdecides hadmitted ⊢
  obtain ⟨o, s'⟩ := p
  cases hdecides with
  | failed e => cases hadmitted
  | answered a mid _ _ hadmits houtput hkept _ =>
    rw [houtput, SlowModeAdmission.publishes_iff] at hadmitted
    unfold PublicationTables.Guarded
    rw [hkept]
    exact hadmits.sets_deadline hadmitted h.interval hnow

theorem AdmittedAt.after (h : AdmittedAt s i roomId userId now seconds) (hpos : seconds ≠ 0)
    (hg : s.tables.Guarded roomId userId deadline now) : deadline ≤ now := by
  have hdecides := step_decides (s := s) h.request
  have hadmitted := h.admitted
  generalize publicationStep s i = p at hdecides hadmitted
  obtain ⟨o, s'⟩ := p
  cases hdecides with
  | failed e => cases hadmitted
  | answered a mid _ _ hadmits houtput _ _ =>
    rw [houtput, SlowModeAdmission.publishes_iff] at hadmitted
    exact hadmits.after_deadline hadmitted h.interval hpos hg

/-- A request that is refused, or fails, publishes nothing and leaves every deadline that lies
ahead. -/
theorem step_refused (hr : i.request = some (roomId, userId, now))
    (hrefused : (publicationStep s i).1.isAdmitted = false) :
    (publicationStep s i).2.tables.database = s.tables.database ∧
      ∀ r : AdmissionRow, now < r.notBeforeUnix →
        (r ∈ (publicationStep s i).2.tables.admissions.rows ↔ r ∈ s.tables.admissions.rows) := by
  have hdecides := step_decides (s := s) hr
  generalize publicationStep s i = p at hdecides hrefused ⊢
  obtain ⟨o, s'⟩ := p
  cases hdecides with
  | failed e => exact ⟨rfl, fun _ _ => Iff.rfl⟩
  | answered a mid _ _ hadmits houtput _ hkept =>
    have hnot : a.publishes = false := houtput.symm.trans hrefused
    rw [hkept hnot]
    refine ⟨by rw [hadmits.rest], fun r hr => hadmits.keeps_ahead ?_ hr⟩
    rintro notBefore pruned rfl
    cases hnot

end

/-- The clock that the requests read does not go back. -/
def ClockAdvances (inputs : List PublicationInput) : Prop :=
  (inputs.filterMap PublicationInput.now?).Pairwise (· ≤ ·)

variable {rest : List PublicationInput} {t t' : Int}

theorem ClockAdvances.le {k : PublicationInput}
    (h : ClockAdvances (first ++ i :: (between ++ j :: rest))) (hk : k ∈ i :: between)
    (ht : k.now? = some t) (ht' : j.now? = some t') : t ≤ t' := by
  have hpairs := List.pairwise_filterMap.mp h
  have htail := (List.pairwise_append.mp hpairs).2.1
  have hcons : (i :: between ++ j :: rest).Pairwise _ := htail
  exact (List.pairwise_append.mp hcons).2.2 k hk j List.mem_cons_self t ht t' ht'

theorem AdmittedAt.now? {roomId : RoomId} {userId : UserId}
    (h : AdmittedAt s i roomId userId now seconds) : i.now? = some now := by
  rw [PublicationInput.now?, h.request]
  rfl

/-- Two messages of a user in a room under one interval are the interval apart. -/
theorem spaced {roomId : RoomId} {userId : UserId}
    (hclock : ClockAdvances (first ++ i :: (between ++ j :: rest)))
    (hi : AdmittedAt s i roomId userId t seconds)
    (hj : AdmittedAt (run publicationStep (publicationStep s i).2 between).2 j roomId userId
      t' seconds)
    : t + seconds.toNat ≤ t' := by
  have hle : t ≤ t' := hclock.le List.mem_cons_self hi.now? hj.now?
  by_cases hzero : seconds = 0
  · subst hzero
    simpa using hle
  · -- the deadline stays while the requests between do not pass the later message's time
    have hbetween : ∀ k ∈ between, ∀ now, k.now? = some now → now ≤ t' := by
      intro k hk now hnow
      exact hclock.le (List.mem_cons_of_mem i hk) hnow hj.now?
    have hmeets : Machine.Meets publicationStep (fun _ k => ∀ now, k.now? = some now → now ≤ t')
        (publicationStep s i).2 between := meets_of_forall hbetween
    have hguarded := run_invariant
      (I := fun s => s.tables.Guarded roomId userId (t + seconds.toNat) t')
      (fun s k hg hk => hg.step hk) _ between hmeets (hi.guards hle)
    exact hj.after hzero hguarded

/-- Over every run with a clock that does not go back: messages of one user in one room under one
interval are the interval apart; the deadlines stay within their bounds; and a request that is
refused or fails writes no event and leaves every deadline that lies ahead. -/
theorem slow_mode_runs (s : PublicationStore) (inputs : List PublicationInput)
    (hbounded : s.tables.Bounded) (hclock : ClockAdvances inputs) :
    (∀ first i between j rest roomId userId t t' seconds,
      inputs = first ++ i :: (between ++ j :: rest) →
      AdmittedAt (run publicationStep s first).2 i roomId userId t seconds →
      AdmittedAt (run publicationStep s (first ++ i :: between)).2 j roomId userId t'
        seconds →
      t + seconds.toNat ≤ t') ∧
    (∀ first rest, inputs = first ++ rest →
      (run publicationStep s first).2.tables.Bounded) ∧
    (∀ first i rest roomId userId now, inputs = first ++ i :: rest →
      i.request = some (roomId, userId, now) →
      let before := (run publicationStep s first).2
      (publicationStep before i).1.isAdmitted = false →
      (publicationStep before i).2.tables.database = before.tables.database ∧
        ∀ r : AdmissionRow, now < r.notBeforeUnix →
          (r ∈ (publicationStep before i).2.tables.admissions.rows ↔
            r ∈ before.tables.admissions.rows)) := by
  refine ⟨?_, ?_, ?_⟩
  · rintro first i between j rest roomId userId t t' seconds rfl hi hj
    rw [run_append] at hj
    exact spaced hclock hi hj
  · intro first rest _
    exact run_invariant (I := fun s => s.tables.Bounded) (fun _ i hs _ => hs.step i) s first
      (meets_true _ _) hbounded
  · intro first i rest roomId userId now _ hr before hrefused
    exact step_refused hr hrefused

/-- A lobby with an interval of half a minute. -/
def slowLobby : PublicationStore :=
  { tables :=
      { database := Database.empty
        rooms := ⟨[{ roomId := 1, archived := false, slowModeSeconds := 30, roomRevision := 0 }],
          List.nodup_singleton 1⟩
        admissions := empty }
    historyRetention := RoomHistoryRetentionPolicy.disabled }

theorem slow_mode_runs_lobby :
    AdmittedAt slowLobby (.reserve 1 7 100 (.ok ())) 1 7 100 30 ∧
    AdmittedAt (run publicationStep slowLobby [.reserve 1 7 100 (.ok ())]).2
      (.reserve 1 7 130 (.ok ())) 1 7 130 30 ∧ (100 : Int) + (30 : UInt32).toNat ≤ 130 := by
  have hfirst : AdmittedAt slowLobby (.reserve 1 7 100 (.ok ())) 1 7 100 30 := ⟨rfl, by decide, rfl⟩
  have hsecond : AdmittedAt (run publicationStep slowLobby [.reserve 1 7 100 (.ok ())]).2
      (.reserve 1 7 130 (.ok ())) 1 7 130 30 := ⟨rfl, by decide, rfl⟩
  have hbounded : slowLobby.tables.Bounded := ⟨fun _ => Nat.zero_le _, Nat.zero_le _⟩
  have hclock : ClockAdvances [.reserve 1 7 100 (.ok ()), .reserve 1 7 130 (.ok ())] := by
    simp [ClockAdvances, PublicationInput.now?, PublicationInput.request]
  refine ⟨hfirst, hsecond, ?_⟩
  exact (slow_mode_runs slowLobby _ hbounded hclock).1 [] _ [] _ [] 1 7 100 130 30 rfl hfirst hsecond

end Omen.Server
