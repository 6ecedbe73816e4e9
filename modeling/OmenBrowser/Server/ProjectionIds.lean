import OmenBrowser.Server.Projections

/- The ids of reactions and revisions along a run.

   Both stores give a room the id after the largest they still hold. A revision is held by the
   state of its target for as long as the target is stored, so pruning the audit does no harm, and
   only a compaction of the target that was revised last lets an id come back. A reaction is held
   by its audit row alone: its id comes back once the newest audit row of the room is pruned, for
   age or for room, or its target is compacted. In runs where no step does that the ids of a room
   increase. -/
namespace Omen.Server
open Wire Sql Ints Omen.Protocol List Machine ProjectionOutput

/-! The largest id. -/

variable {id : Int}

theorem le_maxOrZero {ids : List Int} (h : id ∈ ids) : id ≤ maxOrZero ids := by
  unfold maxOrZero
  cases hmax : ids.max? with
  | none => rw [max?_eq_none_iff.mp hmax] at h; cases h
  | some m => exact (max?_eq_some_iff.mp hmax).2 id h

theorem maxOrZero_mem {ids : List Int} (h : 0 < maxOrZero ids) : maxOrZero ids ∈ ids := by
  unfold maxOrZero at h ⊢
  cases hmax : ids.max? with
  | none =>
    rw [hmax] at h
    cases h
  | some m => exact (max?_eq_some_iff.mp hmax).1

section
variable {ρ : Type} (roomOf : ρ → RoomId) (idOf : ρ → Int)

/-- The largest id of a room. -/
def maxIn (rows : List ρ) (roomId : RoomId) : Int :=
  maxOrZero ((rows.filter (fun r => roomOf r == roomId)).map idOf)

/-- No row of its room has a larger id. -/
def Newest (rows : List ρ) (r : ρ) : Prop :=
  r ∈ rows ∧ ∀ q ∈ rows, roomOf q = roomOf r → idOf q ≤ idOf r

variable {roomOf idOf} {rows rows' : List ρ} {r : ρ} {roomId : RoomId}

theorem le_maxIn (hr : r ∈ rows) (hroom : roomOf r = roomId) : idOf r ≤ maxIn roomOf idOf rows roomId :=
  le_maxOrZero (mem_map_of_mem (mem_filter.mpr ⟨hr, beq_iff_eq.mpr hroom⟩))

theorem exists_newest (h : 0 < maxIn roomOf idOf rows roomId) :
    ∃ r, Newest roomOf idOf rows r ∧ roomOf r = roomId ∧ idOf r = maxIn roomOf idOf rows roomId := by
  obtain ⟨r, hr, hid⟩ := mem_map.mp (maxOrZero_mem h)
  obtain ⟨hmem, hroom⟩ := mem_filter.mp hr
  have hroom : roomOf r = roomId := beq_iff_eq.mp hroom
  refine ⟨r, ⟨hmem, fun q hq hsame => ?_⟩, hroom, hid⟩
  rw [hid]
  exact le_maxIn hq (hsame.trans hroom)

/-- The largest id does not go down where the newest rows stay. -/
theorem maxIn_le (hkept : ∀ r, Newest roomOf idOf rows r → r ∈ rows')
    (hpos : 0 < maxIn roomOf idOf rows roomId) :
    maxIn roomOf idOf rows roomId ≤ maxIn roomOf idOf rows' roomId := by
  obtain ⟨r, hr, hroom, hid⟩ := exists_newest hpos
  rw [← hid]
  exact le_maxIn (hkept r hr) hroom

end

/-! Ids along a run. -/

/-- The ids so far are positive and increase, and none is above `bound`. -/
structure IdsBelow (ids : List Nat) (bound : Int) : Prop where
  increasing : ids.Pairwise (· < ·)
  positive : ∀ id ∈ ids, 0 < id
  below : ∀ id ∈ ids, (id : Int) ≤ bound

theorem IdsBelow.nil (bound : Int) : IdsBelow [] bound :=
  ⟨List.Pairwise.nil, by simp, by simp⟩

variable {bound bound' now : Int} {ids : List Nat}

theorem IdsBelow.mono (h : IdsBelow ids bound) (hle : 0 < bound → bound ≤ bound') :
    IdsBelow ids bound' := by
  refine ⟨h.increasing, h.positive, fun id hid => ?_⟩
  have := h.below id hid
  have := h.positive id hid
  have := hle (by omega)
  omega

theorem IdsBelow.append (h : IdsBelow ids bound) (hpos : 0 < id) (hgt : bound < id)
    (hle : id ≤ bound') : IdsBelow (ids ++ [id.toNat]) bound' := by
  refine ⟨?_, ?_, ?_⟩
  · refine pairwise_append.mpr ⟨h.increasing, pairwise_singleton _ _, ?_⟩
    intro a ha b hb
    rw [mem_singleton.mp hb]
    have := h.below a ha
    omega
  · intro a ha
    rcases mem_append.mp ha with ha | ha
    · exact h.positive a ha
    · rw [mem_singleton.mp ha]
      omega
  · intro a ha
    rcases mem_append.mp ha with ha | ha
    · have := h.below a ha
      omega
    · rw [mem_singleton.mp ha]
      omega

def ProjectionRequest.roomId : ProjectionRequest → RoomId
  | .react roomId _ _ _ => roomId
  | .revise roomId _ _ _ _ _ _ => roomId
  | .pin roomId _ _ _ => roomId

/-- The id of a step in the room, if it returned one. -/
def idIn (id? : ProjectionOutput → Option Nat) (roomId : RoomId) :
    ProjectionInput × ProjectionOutput → Option Nat
  | (.request r, o) => if r.roomId = roomId then id? o else none
  | (.history _, _) => none

/-- The ids that were returned for a room. -/
def idsIn (id? : ProjectionOutput → Option Nat) (roomId : RoomId)
    (history : List (ProjectionInput × ProjectionOutput)) : List Nat :=
  history.filterMap (idIn id? roomId)

section
variable {id? : ProjectionOutput → Option Nat} {roomId : RoomId} {r : ProjectionRequest}
  {i : HistoryInput} {o : ProjectionOutput} {id : Nat}
  {history : List (ProjectionInput × ProjectionOutput)}

theorem idsIn_history : idsIn id? roomId (history ++ [(.history i, o)]) = idsIn id? roomId history := by
  simp [idsIn, filterMap_append, idIn]

theorem idsIn_none (h : r.roomId = roomId → id? o = none) :
    idsIn id? roomId (history ++ [(.request r, o)]) = idsIn id? roomId history := by
  simp only [idsIn, filterMap_append, filterMap_cons, filterMap_nil, idIn]
  by_cases hroom : r.roomId = roomId
  · simp [hroom, h hroom]
  · simp [hroom]

theorem idsIn_some (hroom : r.roomId = roomId) (h : id? o = some id) :
    idsIn id? roomId (history ++ [(.request r, o)]) = idsIn id? roomId history ++ [id] := by
  simp [idsIn, filterMap_append, idIn, hroom, h]

end

/-! Revisions. -/

def ProjectionOutput.revisionId? : ProjectionOutput → Option Nat
  | .revised (.changed m) => some m.event.revisionEventId
  | _ => none

/-- The target that was revised last in its room. -/
def LatestRevision (db : Database) : RevisionStateRow → Prop :=
  Newest RevisionStateRow.roomId RevisionStateRow.latestRevisionEventId
    db.roomMessageRevisionState.rows

/-- The history keeps, in each room, the event that was revised last. -/
def KeepsLatestRevision (s : ProjectionStore) : ProjectionInput → Prop
  | .request _ => True
  | .history i => ∀ r, LatestRevision s.database r →
      StoredAfter s (.history i) r.roomId r.targetEventId

/-- The ids returned so far for a room are below the largest of its states. -/
def RevisionsBelow (history : List (ProjectionInput × ProjectionOutput)) (s : ProjectionStore) :
    Prop :=
  ∀ roomId, IdsBelow (idsIn revisionId? roomId history)
    (maxLatestRevisionId s.database.roomMessageRevisionState roomId)

section
variable {history history' : List (ProjectionInput × ProjectionOutput)} {s s' : ProjectionStore}

/-- A step that returns no revision and keeps the latest states. -/
theorem RevisionsBelow.same (h : RevisionsBelow history s)
    (hnone : ∀ roomId, idsIn revisionId? roomId history' =
      idsIn revisionId? roomId history)
    (hkept : ∀ r, LatestRevision s.database r → r ∈ s'.database.roomMessageRevisionState.rows) :
    RevisionsBelow history' s' := by
  intro roomId
  rw [hnone roomId]
  exact (h roomId).mono (maxIn_le hkept)

/-- A revision gets an id above all that were returned for its room. -/
theorem RevisionsBelow.revised (h : RevisionsBelow history s) {roomId : RoomId}
    {actorUserId : UserId} {request : MessageRevisionRequest} {n : Nat}
    {state : Table RevisionStateRow.key} {events : Table RevisionEventRow.key}
    {reactions : Table ReactionRow.key}
    (hrevised : Revised s.database roomId actorUserId request n now id state events reactions)
    (hstate : s'.database.roomMessageRevisionState = state)
    (hid : idsIn revisionId? roomId history' =
      idsIn revisionId? roomId history ++ [id.toNat])
    (hnone : ∀ room, room ≠ roomId → idsIn revisionId? room history' =
      idsIn revisionId? room history) :
    RevisionsBelow history' s' := by
  intro room
  rw [hstate]
  by_cases hroom : room = roomId
  · subst hroom
    rw [hid]
    have hnew := (hrevised.state_mem _).mpr (.inl rfl)
    have hle : id ≤ maxLatestRevisionId state room := le_maxIn hnew rfl
    exact (h room).append hrevised.id_pos hrevised.id_gt hle
  · rw [hnone room hroom]
    refine (h room).mono fun hpos => ?_
    obtain ⟨r, hr, hr', hlatest⟩ := exists_newest hpos
    have hkey : r.key ≠ (roomId, (request.targetEventId : Int)) := by
      intro hkey
      exact hroom (hr'.symm.trans (Prod.mk.inj hkey).1)
    have hmem := (hrevised.state_mem r).mpr (.inr ⟨hr.1, hkey⟩)
    have hle : r.latestRevisionEventId ≤ maxLatestRevisionId state room := le_maxIn hmem hr'
    exact hlatest.symm.trans_le hle

theorem revision_step (history : List (ProjectionInput × ProjectionOutput)) (s : ProjectionStore)
    (i : ProjectionInput) (hbelow : RevisionsBelow history s) (hkeeps : KeepsLatestRevision s i) :
    RevisionsBelow (history ++ [(i, (projectionStep s i).1)]) (projectionStep s i).2 := by
  cases i with
  | history i =>
    obtain ⟨roomId, removed, hforgets⟩ := historyStep_forgets ⟨s.database, s.historyRetention⟩ i
    refine hbelow.same (fun _ => idsIn_history) fun r hr => ?_
    exact hforgets.mem_revisionState hr.1 (hkeeps r hr)
  | request r =>
    rcases request_cases s r with ⟨e, hstep⟩ | ⟨o, t, hout, hstep⟩
    · rw [hstep]
      exact hbelow.same (fun _ => idsIn_none fun _ => rfl) fun r hr => hr.1
    · rw [hstep]
      cases hout with
      | react h =>
        exact hbelow.same (fun _ => idsIn_none fun _ => rfl) fun r hr => h.revisions ▸ hr.1
      | pin h =>
        exact hbelow.same (fun _ => idsIn_none fun _ => rfl) fun r hr => h.revisions ▸ hr.1
      | revise h =>
        cases h with
        | refused hresult _ =>
          refine hbelow.same (fun _ => idsIn_none fun _ => ?_) fun r hr => hr.1
          unfold revisionId?
          split
          · next m hm => exact absurd (revised.inj hm) (hresult m)
          · rfl
        | saturated _ _ => exact hbelow.same (fun _ => idsIn_none fun _ => rfl) fun r hr => hr.1
        | changed _ _ hrevised =>
          refine hbelow.revised hrevised rfl (idsIn_some rfl rfl) fun room hroom => ?_
          exact idsIn_none fun h => absurd h.symm hroom

end

/-- In a run that keeps, in each room, the event that was revised last, the ids of the revisions
of a room increase. -/
theorem revision_ids_increase (s : ProjectionStore) (inputs : List ProjectionInput)
    (hkeeps : Machine.Meets projectionStep KeepsLatestRevision s inputs) (roomId : RoomId) :
    (idsIn revisionId? roomId (run projectionStep s inputs).1).Pairwise
      (· < ·) := by
  have hbelow := run_history revision_step s inputs hkeeps fun _ => IdsBelow.nil _
  exact (hbelow roomId).increasing

/-- A message of user 1 in room 1. -/
def postMessage (now : Int) : ProjectionInput :=
  .history (.append 1 (some 1) (.message "a") none ⟨now, now, now⟩)

def correctMessage (targetEventId : EventId) (replacement : String) (now : Int) : ProjectionInput :=
  .request (.revise 1 1 none ⟨false, false⟩ ⟨targetEventId, .correct, some replacement⟩ 1024 now)

/-- The older of two messages goes between two corrections of the other. -/
def correctedTwice : List ProjectionInput :=
  [postMessage 10, postMessage 11, correctMessage 2 "b" 12, .history (.compact 1 1 1 13),
   correctMessage 2 "c" 14]

theorem correctedTwice_keeps :
    Machine.Meets projectionStep KeepsLatestRevision (.initial .disabled) correctedTwice := by
  refine ⟨?_, ?_, trivial, ?_, trivial, trivial⟩
  · intro r ⟨hr, _⟩
    cases hr
  · intro r ⟨hr, _⟩
    cases hr
  · intro r ⟨hr, _⟩
    rw [mem_singleton.mp hr]
    exact ⟨_, mem_cons_self, rfl⟩

theorem revision_ids_increase_correctedTwice :
    idsIn revisionId? 1
      (run projectionStep (.initial .disabled) correctedTwice).1 = [1, 2] ∧
    (idsIn revisionId? 1
      (run projectionStep (.initial .disabled) correctedTwice).1).Pairwise (· < ·) :=
  ⟨rfl, revision_ids_increase _ _ correctedTwice_keeps 1⟩

/-- A corrected message goes, and the other one is corrected. -/
def correctedThenGone : List ProjectionInput :=
  [postMessage 10, postMessage 11, correctMessage 1 "b" 12, .history (.compact 1 1 1 13),
   correctMessage 2 "b" 14]

/-- Both corrections have the id 1. -/
theorem revision_id_reused :
    idsIn revisionId? 1
      (run projectionStep (.initial .disabled) correctedThenGone).1 = [1, 1] ∧
    ¬(idsIn revisionId? 1
      (run projectionStep (.initial .disabled) correctedThenGone).1).Pairwise (· < ·) := by
  have hids : idsIn revisionId? 1
      (run projectionStep (.initial .disabled) correctedThenGone).1 = [1, 1] := rfl
  refine ⟨hids, ?_⟩
  rw [hids]
  decide

/-! Reactions. -/

def ProjectionOutput.reactionId? : ProjectionOutput → Option Nat
  | .reacted (.changed e) => some e.reactionEventId
  | _ => none

/-- The last audit row of its room. -/
def NewestReaction (db : Database) : ReactionEventRow → Prop :=
  Newest ReactionEventRow.roomId ReactionEventRow.reactionEventId db.roomReactionEvents.rows

/-- The step keeps the last audit row of each room. It is not among the oldest rows past the
retention age that a reaction prunes, not the row that goes if there is no room after them and one
more may be pruned, and the history keeps its target. -/
def KeepsNewestReaction (s : ProjectionStore) : ProjectionInput → Prop
  | .request (.react roomId actorUserId request now) =>
    s.database.targetEligible roomId request.targetEventId = true →
      ∀ r, NewestReaction s.database r →
        r ∉ reactionAudit.stale (fun _ => true) now s.database.roomReactionEvents ∧
        (Reactions.changes request.action (s.database.hasReaction
            (reactionKey roomId request.targetEventId actorUserId request.token)) = true →
          0 < reactionAudit.budget (fun _ => true) now s.database.roomReactionEvents →
          reactionAudit.fits roomId (reactionAuditBytes request.token) (reactionAudit.pruned
            (fun _ => true) now s.database.roomReactionEvents) = false →
          first? (reactionAudit.byRoomThenAge roomId) (reactionAudit.pruned (fun _ => true) now
            s.database.roomReactionEvents).rows ≠ some r)
  | .request _ => True
  | .history i => ∀ r, NewestReaction s.database r →
      StoredAfter s (.history i) r.roomId r.targetEventId

/-- The audit table is within its limits, and the ids returned so far for a room are below the
largest of it. -/
structure ReactionsBelow (history : List (ProjectionInput × ProjectionOutput)) (s : ProjectionStore) :
    Prop where
  within : reactionAudit.Within reactionAuditWidth s.database.roomReactionEvents
  below : ∀ roomId, IdsBelow (idsIn reactionId? roomId history)
    (maxReactionEventId s.database.roomReactionEvents roomId)

section
variable {history history' : List (ProjectionInput × ProjectionOutput)} {s s' : ProjectionStore}
  {db : Database}

/-- A step that returns no reaction, and keeps the newest of the rows it leaves. -/
theorem ReactionsBelow.same (h : ReactionsBelow history s)
    (hnone : ∀ roomId, idsIn reactionId? roomId history' =
      idsIn reactionId? roomId history)
    (hsub : s'.database.roomReactionEvents.rows.Sublist s.database.roomReactionEvents.rows)
    (hkept : ∀ r, NewestReaction s.database r → r ∈ s'.database.roomReactionEvents.rows) :
    ReactionsBelow history' s' := by
  refine ⟨h.within.sublist hsub, fun roomId => ?_⟩
  rw [hnone roomId]
  exact (h.below roomId).mono (maxIn_le hkept)

/-- A reaction gets an id above all that were returned for its room. -/
theorem ReactionsBelow.reacted (h : ReactionsBelow history s) {kept : Table ReactionEventRow.key}
    {row : ReactionEventRow} {roomId : RoomId} {incomingBytes : Int}
    (hsub : kept.rows.Sublist s.database.roomReactionEvents.rows)
    (hkept : ∀ r, NewestReaction s.database r → r ∈ kept.rows)
    (hfits : reactionAudit.fits roomId incomingBytes kept = true) (hpos : 0 < id)
    (hid : id = maxReactionEventId kept roomId + 1)
    (hrow : row.roomId = roomId ∧ row.reactionEventId = id ∧ row.retainedBytes ≤ reactionAuditWidth)
    (hevents : s'.database.roomReactionEvents.rows = row :: kept.rows)
    (hreturned : idsIn reactionId? roomId history' =
      idsIn reactionId? roomId history ++ [id.toNat])
    (hnone : ∀ room, room ≠ roomId → idsIn reactionId? room history' =
      idsIn reactionId? room history) :
    ReactionsBelow history' s' := by
  obtain ⟨hroom, hrowId, hwide⟩ := hrow
  refine ⟨(h.within.sublist hsub).insert hevents (by rw [← hroom] at hfits; exact hfits) hwide,
    fun room => ?_⟩
  have hmono : 0 < maxReactionEventId s.database.roomReactionEvents room →
      maxReactionEventId s.database.roomReactionEvents room ≤ maxReactionEventId kept room :=
    maxIn_le hkept
  by_cases hsame : room = roomId
  · subst hsame
    rw [hreturned]
    have hnew : row ∈ s'.database.roomReactionEvents.rows := by
      rw [hevents]
      exact mem_cons_self
    have hle : row.reactionEventId ≤
      maxReactionEventId s'.database.roomReactionEvents room := le_maxIn hnew hroom
    refine ((h.below room).mono hmono).append hpos ?_ (hrowId ▸ hle)
    omega
  · rw [hnone room hsame]
    refine ((h.below room).mono hmono).mono (maxIn_le fun r hr => ?_)
    rw [hevents]
    exact mem_cons_of_mem _ hr.1

/-- A reaction that keeps the last audit rows has them when it has made room. -/
theorem mem_reactionRoom {roomId : RoomId} {token : ReactionToken} {r : ReactionEventRow}
    (h : reactionAudit.Within reactionAuditWidth db.roomReactionEvents)
    (hr : r ∈ db.roomReactionEvents.rows)
    (hstale : r ∉ reactionAudit.stale (fun _ => true) now db.roomReactionEvents)
    (hfirst : 0 < reactionAudit.budget (fun _ => true) now db.roomReactionEvents →
      reactionAudit.fits roomId (reactionAuditBytes token)
        (reactionAudit.pruned (fun _ => true) now db.roomReactionEvents) = false →
      first? (reactionAudit.byRoomThenAge roomId)
        (reactionAudit.pruned (fun _ => true) now db.roomReactionEvents).rows ≠ some r) :
    r ∈ (reactionRoom db roomId token now).2.rows := by
  have hpruned := h.sublist (Table.deleteRows_sublist _
    (reactionAudit.stale (fun _ => true) now db.roomReactionEvents))
  refine hpruned.mem_madeRoom (reactionAuditBytes_le token) ?_ (AuditLog.mem_pruned.mpr ⟨hr, hstale⟩) ?_
  · intro hfull
    obtain ⟨q, hq, hroom⟩ := AuditLog.exists_of_full (by decide) hfull
    exact ⟨q, hq, rfl, hroom⟩
  · intro hleft hfits
    rw [filter_true]
    exact hfirst hleft hfits

theorem reaction_step (history : List (ProjectionInput × ProjectionOutput)) (s : ProjectionStore)
    (i : ProjectionInput) (hbelow : ReactionsBelow history s) (hkeeps : KeepsNewestReaction s i) :
    ReactionsBelow (history ++ [(i, (projectionStep s i).1)]) (projectionStep s i).2 := by
  have hsame := List.Sublist.refl s.database.roomReactionEvents.rows
  cases i with
  | history i =>
    -- compaction forgets events, not the newest of the room by assumption
    obtain ⟨roomId, removed, hforgets⟩ := historyStep_forgets ⟨s.database, s.historyRetention⟩ i
    have hsub : (s.database.roomReactionEvents.deleteWhere
        (fun r => isTarget roomId removed r.roomId r.targetEventId)).rows.Sublist
        s.database.roomReactionEvents.rows := filter_sublist
    refine hbelow.same (fun _ => idsIn_history) (hforgets.reactionEvents ▸ hsub) fun r hr => ?_
    exact hforgets.mem_reactionEvents hr.1 (hkeeps r hr)
  | request r =>
    rcases request_cases s r with ⟨e, hstep⟩ | ⟨o, t, hout, hstep⟩
    · rw [hstep]
      exact hbelow.same (fun _ => idsIn_none fun _ => rfl) hsame fun r hr => hr.1
    · rw [hstep]
      cases hout with
      | revise h =>
        refine hbelow.same (fun _ => idsIn_none fun _ => rfl) ?_ fun r hr => ?_
        · exact h.reactionEvents ▸ hsame
        · exact h.reactionEvents ▸ hr.1
      | pin h =>
        refine hbelow.same (fun _ => idsIn_none fun _ => rfl) ?_ fun r hr => ?_
        · exact h.reactionEvents ▸ hsame
        · exact h.reactionEvents ▸ hr.1
      | @react roomId actorUserId request now result db' h =>
        have hroomsub : (reactionRoom s.database roomId request.token now).2.rows.Sublist
            s.database.roomReactionEvents.rows :=
          Table.evict_sublist.trans (Table.deleteRows_sublist _ _)
        cases h with
        | unavailable _ =>
          exact hbelow.same (fun _ => idsIn_none fun _ => rfl) hsame fun r hr => hr.1
        | unchanged heligible _ =>
          refine hbelow.same (fun _ => idsIn_none fun _ => rfl)
            (Table.deleteRows_sublist _ _) fun r hr => ?_
          exact AuditLog.mem_pruned.mpr ⟨hr.1, (hkeeps heligible r hr).1⟩
        | saturated heligible hchanges _ =>
          refine hbelow.same (fun _ => idsIn_none fun _ => rfl) hroomsub fun r hr => ?_
          obtain ⟨hstale, hfirst⟩ := hkeeps heligible r hr
          exact mem_reactionRoom hbelow.within hr.1 hstale (hfirst hchanges)
        | changed heligible hchanges hroom hpos hid hactive hevents =>
          refine hbelow.reacted hroomsub (fun r hr => ?_) (Table.evict_fits hroom) hpos hid
            ⟨rfl, rfl, ?_⟩ hevents (idsIn_some rfl rfl) fun room hne => ?_
          · obtain ⟨hstale, hfirst⟩ := hkeeps heligible r hr
            exact mem_reactionRoom hbelow.within hr.1 hstale (hfirst hchanges)
          · exact reactionEventRow_narrow _ _ _ _ _ _
          · exact idsIn_none fun h => absurd h.symm hne

end

theorem reactionsBelow_fresh {s : ProjectionStore} (h : s.Fresh) : ReactionsBelow [] s := by
  have hempty : s.database.roomReactionEvents = Table.empty :=
    congrArg Hanging.roomReactionEvents h.hanging
  refine ⟨?_, fun roomId => IdsBelow.nil _⟩
  rw [hempty]
  exact AuditLog.within_empty (by decide)

/-- In a run that keeps the last audit row of each room, the ids of the reactions of a room
increase. -/
theorem reaction_ids_increase (s : ProjectionStore) (hfresh : s.Fresh)
    (inputs : List ProjectionInput)
    (hkeeps : Machine.Meets projectionStep KeepsNewestReaction s inputs) (roomId : RoomId) :
    (idsIn reactionId? roomId (run projectionStep s inputs).1).Pairwise
      (· < ·) := by
  have hbelow := run_history reaction_step s inputs hkeeps (reactionsBelow_fresh hfresh)
  exact (hbelow.below roomId).increasing

def reactTo (action : ReactionAction) (now : Int) : ProjectionInput :=
  .request (.react 1 1 ⟨1, .heart, action⟩ now)

/-- A reaction is added and removed within the retention age. -/
def reactedTwice : List ProjectionInput := [postMessage 10, reactTo .add 11, reactTo .remove 12]

theorem reactedTwice_keeps :
    Machine.Meets projectionStep KeepsNewestReaction (.initial .disabled) reactedTwice := by
  refine ⟨?_, ?_, ?_, trivial⟩
  · intro r ⟨hr, _⟩
    cases hr
  · intro _ r ⟨hr, _⟩
    cases hr
  · intro _ r hr
    refine ⟨fun hstale => ?_, fun _ _ hfits => ?_⟩
    · cases hstale
    · cases hfits

theorem reaction_ids_increase_reactedTwice :
    idsIn reactionId? 1
      (run projectionStep (.initial .disabled) reactedTwice).1 = [1, 2] ∧
    (idsIn reactionId? 1
      (run projectionStep (.initial .disabled) reactedTwice).1).Pairwise (· < ·) :=
  ⟨rfl, reaction_ids_increase _ (ProjectionStore.initial_fresh _) _ reactedTwice_keeps 1⟩

/-- The reaction is removed more than 90 days after it was added. -/
def reactedLate : List ProjectionInput :=
  [postMessage 0, reactTo .add 0, reactTo .remove (90 * 24 * 60 * 60 + 1)]

/-- Its removal prunes the audit row of its addition, and takes over its id. -/
theorem reaction_id_reused :
    idsIn reactionId? 1
      (run projectionStep (.initial .disabled) reactedLate).1 = [1, 1] ∧
    ¬(idsIn reactionId? 1
      (run projectionStep (.initial .disabled) reactedLate).1).Pairwise (· < ·) := by
  have hids : idsIn reactionId? 1
      (run projectionStep (.initial .disabled) reactedLate).1 = [1, 1] := rfl
  refine ⟨hids, ?_⟩
  rw [hids]
  decide

end Omen.Server
