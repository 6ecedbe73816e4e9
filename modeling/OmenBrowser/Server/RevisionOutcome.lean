import OmenBrowser.Server.AuditLog

/- What a request to revise a message does, in full.

   `checkRevision` is the part of a request that reads only: the target's current state, its body
   and the capacity of the state table. A request that passes it prunes the audit table, and is
   saturated if that makes no room; otherwise it replaces the state of its target, adds an audit
   row and, as a tombstone, removes the target's reactions. -/
namespace Omen.Server
open Wire Sql Ints Omen.Protocol Txn

variable {action : MessageRevisionAction} {actorDisplayName : Option String}

def Database.revisionState? (db : Database) (roomId : RoomId) (targetEventId : Int) :
    Option RevisionStateRow :=
  db.roomMessageRevisionState.find? (roomId, targetEventId)

/-- The checks of a request before it writes: the number it gets, or the result that refuses it. -/
def checkRevision (roomId : RoomId) (request : MessageRevisionRequest) (targetEventId : Int) :
    Txn Database ServerError (Except MessageRevisionMutationResult Nat) := do
  let current ← loadCurrentState roomId targetEventId
  if current.any (fun state => state.action = .tombstone) then pure (.error .alreadyTombstoned)
  else if request.action = .correct ∧
      current.any (fun state => decide (state.revisionNumber ≥ maxCorrectionsPerTarget)) then
    pure (.error .correctionLimitReached)
  else
    let body ← effectiveBody roomId targetEventId current
    if request.action = .correct ∧ request.replacement = body then pure (.error .unchanged)
    else
      let revisionNumber := (current.map (fun state => min u64Max (state.revisionNumber + 1))).getD 1
      if revisionNumber > messageRevisionMaxNumber then pure (.error .correctionLimitReached)
      else
        let fits ← stateHasCapacity roomId request.action current
          (saturatingAdd stateFixedRetainedBytes (replacementBytes request))
        if !fits then pure (.error .saturated) else pure (.ok revisionNumber)

section
variable (db : Database) (roomId : RoomId) (actorUserId : UserId)
  (policy : MessageRevisionActorPolicy) (request : MessageRevisionRequest)

/-- The stored author of the target, or a moderator for a tombstone, and not muted for a
correction. -/
def Database.mayRevise : Prop :=
  ∃ targetActor, (db.messageAuthor roomId request.targetEventId).bind toU32 = some targetActor ∧
    revisionAuthorized request.action (targetActor == actorUserId) policy = true

/-- The request passes every check before the audit table, and gets the number `n`. -/
structure RevisionPasses (maxMessageBytes : Nat) (n : Nat) : Prop where
  size : replacementBytes request ≤ maxMessageBytes
  authorized : db.mayRevise roomId actorUserId policy request
  checked : checkRevision roomId request request.targetEventId db = .ok (.ok n, db)

end

/-- The bytes of the audit row of a request. -/
def revisionAuditBytes (request : MessageRevisionRequest) : Int :=
  saturatingAdd auditFixedRetainedBytes (replacementBytes request)

/-- The audit table when room was made for a row, or was not. -/
def revisionRoom (db : Database) (roomId : RoomId) (request : MessageRevisionRequest) (now : Int) :
    Bool × Table RevisionEventRow.key :=
  revisionAudit.madeRoom (fun _ => true) roomId (revisionAuditBytes request)
    (revisionAudit.budget (fun _ => true) now db.roomMessageRevisionEvents)
    (revisionAudit.pruned (fun _ => true) now db.roomMessageRevisionEvents)

section
variable (roomId : RoomId) (actorUserId : UserId) (request : MessageRevisionRequest) (n : Nat)
  (now id : Int)

def revisionStateRow : RevisionStateRow :=
  { roomId
    targetEventId := request.targetEventId
    latestRevisionEventId := id
    revisionAction := request.action.code
    actorUserId := actorUserId.toNat
    replacementBody := request.replacement.map utf8
    revisionNumber := n
    atUnix := now
    retainedBytes := (saturatingAdd stateFixedRetainedBytes (replacementBytes request)).toNat }

def revisionEventRow : RevisionEventRow :=
  { roomId
    revisionEventId := id
    targetEventId := request.targetEventId
    actorUserId := actorUserId.toNat
    revisionAction := request.action.code
    replacementBody := request.replacement.map utf8
    revisionNumber := n
    atUnix := now
    retainedBytes := (saturatingAdd auditFixedRetainedBytes (replacementBytes request)).toNat }

end

/-- `MAX(latest_revision_event_id)` of the room. -/
def maxLatestRevisionId (t : Table RevisionStateRow.key) (roomId : RoomId) : Int :=
  maxOrZero ((t.rows.filter (fun r => r.roomId == roomId)).map
    RevisionStateRow.latestRevisionEventId)

/-- The tables after a request that revises its target. -/
structure Revised (db : Database) (roomId : RoomId) (actorUserId : UserId)
    (request : MessageRevisionRequest) (n : Nat) (now id : Int)
    (state : Table RevisionStateRow.key) (events : Table RevisionEventRow.key)
    (reactions : Table ReactionRow.key) : Prop where
  id_pos : 0 < id
  id_gt : maxLatestRevisionId db.roomMessageRevisionState roomId < id
  state_mem : ∀ r, r ∈ state.rows ↔ r = revisionStateRow roomId actorUserId request n now id ∨
    r ∈ db.roomMessageRevisionState.rows ∧ r.key ≠ (roomId, (request.targetEventId : Int))
  events_rows : events.rows = revisionEventRow roomId actorUserId request n now id ::
    (revisionRoom db roomId request now).2.rows
  reactions_sublist : reactions.rows.Sublist db.roomReactions.rows

/-- All that a request may do. -/
inductive RevisionOutcome (db : Database) (roomId : RoomId) (actorUserId : UserId)
    (actorDisplayName : Option String) (policy : MessageRevisionActorPolicy)
    (request : MessageRevisionRequest) (maxMessageBytes : Nat) (now : Int) :
    MessageRevisionMutationResult → Database → Prop where
  | refused {result : MessageRevisionMutationResult} (hresult : ∀ m, result ≠ .changed m)
      (hfails : ∀ n, ¬RevisionPasses db roomId actorUserId policy request maxMessageBytes n) :
    RevisionOutcome db roomId actorUserId actorDisplayName policy request maxMessageBytes now result
      db
  | saturated {n : Nat}
      (hpasses : RevisionPasses db roomId actorUserId policy request maxMessageBytes n)
      (hfull : (revisionRoom db roomId request now).1 = false) :
    RevisionOutcome db roomId actorUserId actorDisplayName policy request maxMessageBytes now
      .saturated { db with roomMessageRevisionEvents := (revisionRoom db roomId request now).2 }
  | changed {n : Nat}
      (hpasses : RevisionPasses db roomId actorUserId policy request maxMessageBytes n)
      (hroom : (revisionRoom db roomId request now).1 = true)
      {id : Int} {state : Table RevisionStateRow.key} {events : Table RevisionEventRow.key}
      {reactions : Table ReactionRow.key} {cleared : Nat}
      (hrevised : Revised db roomId actorUserId request n now id state events reactions) :
    RevisionOutcome db roomId actorUserId actorDisplayName policy request maxMessageBytes now
      (.changed
        { event :=
            { revisionEventId := id.toNat
              targetEventId := request.targetEventId
              action := request.action
              actorUserId
              atUnix := now
              replacement := request.replacement
              revisionNumber := n
              actorDisplayName }
          reactionsCleared := cleared })
      { db with
        roomReactions := reactions
        roomMessageRevisionState := state
        roomMessageRevisionEvents := events }

section
variable {db db' : Database} {roomId : RoomId} {actorUserId : UserId}
  {request : MessageRevisionRequest} {targetEventId now : Int} {n : Nat}

/-- A request that is let through passed the checks; one that is refused failed them, or found no
room in the audit table. -/
theorem admitRevision_ok {r : Except MessageRevisionMutationResult Nat}
    (h : admitRevision roomId request targetEventId now db = .ok (r, db')) :
    (∃ refused, r = .error refused ∧ (∀ m, refused ≠ .changed m) ∧ db' = db ∧
      checkRevision roomId request targetEventId db = .ok (.error refused, db)) ∨
    ∃ n, checkRevision roomId request targetEventId db = .ok (.ok n, db) ∧
      db' = { db with roomMessageRevisionEvents := (revisionRoom db roomId request now).2 } ∧
      ((revisionRoom db roomId request now).1 = false ∧ r = .error .saturated ∨
        (revisionRoom db roomId request now).1 = true ∧ r = .ok n) := by
  have hrefuse : ∀ {refused}, (∀ m, refused ≠ .changed m) →
      checkRevision roomId request targetEventId db = .ok (.error refused, db) →
      (pure (.error refused) : Txn Database ServerError
        (Except MessageRevisionMutationResult Nat)) db = .ok (r, db') →
      ∃ refused, r = .error refused ∧ (∀ m, refused ≠ .changed m) ∧ db' = db ∧
        checkRevision roomId request targetEventId db = .ok (.error refused, db) := by
    intro refused hne hcheck h
    obtain ⟨rfl, rfl⟩ := pure_eq_ok h
    exact ⟨refused, rfl, hne, rfl, hcheck⟩
  -- the checks in the order of the source; what one of them refuses, `checkRevision` refuses too
  obtain ⟨current, hload, h⟩ := loadCurrentState_keeps.bind_ok h
  split at h
  · next htomb =>
    refine .inl (hrefuse (fun m hm => by cases hm) ?_ h)
    rw [checkRevision, bind_run hload, if_pos htomb]
    rfl
  · next htomb =>
    split at h
    · next hlimit =>
      refine .inl (hrefuse (fun m hm => by cases hm) ?_ h)
      rw [checkRevision, bind_run hload, if_neg htomb, if_pos hlimit]
      rfl
    · next hlimit =>
      obtain ⟨body, hbody, h⟩ := effectiveBody_keeps.bind_ok h
      split at h
      · next hsame =>
        refine .inl (hrefuse (fun m hm => by cases hm) ?_ h)
        rw [checkRevision, bind_run hload, if_neg htomb, if_neg hlimit, bind_run hbody,
          if_pos hsame]
        rfl
      · next hsame =>
        dsimp only at h
        split at h
        · next hnumber =>
          refine .inl (hrefuse (fun m hm => by cases hm) ?_ h)
          rw [checkRevision, bind_run hload, if_neg htomb, if_neg hlimit, bind_run hbody,
            if_neg hsame, if_pos hnumber]
          rfl
        · next hnumber =>
          obtain ⟨fits, hfits, h⟩ := stateHasCapacity_keeps.bind_ok h
          have hcheck : checkRevision roomId request targetEventId db =
              (if (!fits) = true then pure (.error .saturated) else pure (.ok ((current.map
                (fun state => min u64Max (state.revisionNumber + 1))).getD 1)) :
                Txn Database ServerError (Except MessageRevisionMutationResult Nat)) db := by
            rw [checkRevision, bind_run hload, if_neg htomb, if_neg hlimit,
              bind_run hbody, if_neg hsame, if_neg hnumber, bind_run hfits]
          cases fits with
          | false => exact .inl (hrefuse (fun m hm => by cases hm) hcheck h)
          | true =>
            -- all checks are passed: only the audit table may still be full
            simp only [Bool.not_true, Bool.false_eq_true, if_false] at h
            rw [pruneExpiredAuditRows_eq, bind_run AuditLog.pruneExpired_eq,
              ensureAuditCapacity_eq] at h
            obtain ⟨room, db₁, hensure, h⟩ := bind_ok.mp h
            obtain ⟨_, hroom, hdb⟩ := (AuditLog.ensureCapacity_ok fun _ _ => rfl).mp hensure
            replace hroom : room = (revisionRoom db roomId request now).1 := hroom
            replace hdb : db₁ = { db with roomMessageRevisionEvents :=
              (revisionRoom db roomId request now).2 } := hdb
            refine .inr ⟨_, hcheck, ?_⟩
            cases room with
            | false =>
              obtain ⟨rfl, rfl⟩ := pure_eq_ok h
              exact ⟨hdb, .inl ⟨hroom.symm, rfl⟩⟩
            | true =>
              obtain ⟨rfl, rfl⟩ := pure_eq_ok h
              exact ⟨hdb, .inr ⟨hroom.symm, rfl⟩⟩

theorem storedAction_ok {value : Nat} (h : storedAction value = .ok action) :
    value = action.code := by
  unfold storedAction MessageRevisionAction.ofCode? at h
  split at h
  · next a ha =>
    cases h
    split at ha
    · next => rw [← Option.some.inj ha]; rfl
    · next => rw [← Option.some.inj ha]; rfl
    · cases ha
  · cases h

theorem decode_ok {r : RevisionStateRow} {state : StoredRevisionState} (h : r.decode = .ok state) :
    r.revisionAction = state.action.code ∧ state.revisionNumber = r.revisionNumber := by
  obtain ⟨action, haction, h⟩ := Outcome.bind_ok.mp h
  obtain ⟨replacement, _, h⟩ := Outcome.bind_ok.mp h
  cases h
  exact ⟨storedAction_ok haction, rfl⟩

theorem loadCurrentState_ok {current : Option StoredRevisionState}
    (h : loadCurrentState roomId targetEventId db = .ok (current, db')) :
    (db.revisionState? roomId targetEventId = none ∧ current = none) ∨
    ∃ r state, db.revisionState? roomId targetEventId = some r ∧ current = some state ∧
      r.revisionAction = state.action.code ∧ state.revisionNumber = r.revisionNumber := by
  rw [loadCurrentState, query_bind] at h
  cases hrow : db.roomMessageRevisionState.find? (roomId, targetEventId) with
  | none =>
    simp only [hrow] at h
    obtain ⟨rfl, _⟩ := pure_eq_ok h
    exact .inl ⟨hrow, rfl⟩
  | some r =>
    simp only [hrow] at h
    obtain ⟨state, _, hdecode, h⟩ := bind_ok.mp h
    obtain ⟨rfl, _⟩ := pure_eq_ok h
    obtain ⟨hdecode, _⟩ := lift_ok.mp hdecode
    exact .inr ⟨r, state, hrow, rfl, decode_ok hdecode⟩

/-- What the stored state is where the checks are passed. -/
theorem checkRevision_passes
    (h : checkRevision roomId request targetEventId db = .ok (.ok n, db')) :
    n = ((db.revisionState? roomId targetEventId).map (fun r => r.revisionNumber + 1)).getD 1 ∧
      n ≤ messageRevisionMaxNumber ∧
      ∀ r, db.revisionState? roomId targetEventId = some r →
        r.revisionAction ≠ MessageRevisionAction.tombstone.code ∧
        (request.action = .correct → r.revisionNumber < maxCorrectionsPerTarget) := by
  obtain ⟨current, hload, h⟩ := loadCurrentState_keeps.bind_ok h
  split at h
  · cases h
  · next htomb =>
    split at h
    · cases h
    · next hlimit =>
      obtain ⟨body, _, h⟩ := effectiveBody_keeps.bind_ok h
      split at h
      · cases h
      · dsimp only at h
        split at h
        · cases h
        · next hnumber =>
          obtain ⟨fits, _, h⟩ := stateHasCapacity_keeps.bind_ok h
          cases fits with
          | false => cases h
          | true =>
            injection h with h
            cases h
            rcases loadCurrentState_ok hload with ⟨hrow, rfl⟩ | ⟨r, state, hrow, rfl, hcode, hn⟩
            · refine ⟨by rw [hrow]; rfl, Nat.le_of_not_lt hnumber, fun r hr => ?_⟩
              rw [hrow] at hr
              cases hr
            · simp only [Option.map_some, Option.getD_some, Nat.not_lt] at hnumber
              simp only [Option.any_some, decide_eq_true_eq] at htomb hlimit
              refine ⟨?_, hnumber, fun q hq => ?_⟩
              · rw [hrow]
                simp only [Option.map_some, Option.getD_some, hn] at hnumber ⊢
                -- a number within its limit is far below the one at which the increment saturates
                unfold messageRevisionMaxNumber u64Max at hnumber
                unfold u64Max
                omega
              · cases hrow.symm.trans hq
                refine ⟨?_, ?_⟩
                · rw [hcode]
                  cases haction : state.action with
                  | correct => decide
                  | tombstone => exact absurd haction htomb
                · intro haction
                  rw [← hn]
                  exact Nat.lt_of_not_le fun hge => hlimit ⟨haction, hge⟩

theorem upsertRevisionState_ok {row : RevisionStateRow} (h : db.upsertRevisionState row = .ok db') :
    0 < row.latestRevisionEventId ∧ ∃ t : Table RevisionStateRow.key,
      (∀ r, r ∈ t.rows ↔ r = row ∨ r ∈ db.roomMessageRevisionState.rows ∧ r.key ≠ row.key) ∧
      db' = { db with roomMessageRevisionState := t } := by
  unfold Database.upsertRevisionState at h
  split at h
  · cases h
  · next hchecks =>
    split at h
    · cases h
    · injection h with h
      simp only [revisionMeetsChecks, Bool.not_eq_true', Bool.not_eq_false, Bool.and_eq_true,
        decide_eq_true_eq] at hchecks
      refine ⟨hchecks.1.1.1.1.2, _, fun r => Table.mem_upsert ?_, h.symm⟩
      intro q hq
      obtain ⟨hroom, htarget⟩ := Prod.mk.inj hq
      rw [hroom, htarget]

theorem insertRevisionEvent_ok {row : RevisionEventRow} (h : db.insertRevisionEvent row = .ok db') :
    ∃ t : Table RevisionEventRow.key, t.rows = row :: db.roomMessageRevisionEvents.rows ∧
      db' = { db with roomMessageRevisionEvents := t } := by
  unfold Database.insertRevisionEvent at h
  split at h
  · cases h
  · obtain ⟨t, ht, rfl⟩ := Outcome.map_ok.mp h
    exact ⟨t, (Table.insert_ok.mp ht).1, rfl⟩

theorem clearReactions_ok {cleared : Nat}
    (h : clearReactions action roomId targetEventId db = .ok (cleared, db')) :
    ∃ t : Table ReactionRow.key, t.rows.Sublist db.roomReactions.rows ∧
      db' = { db with roomReactions := t } := by
  cases action with
  | correct =>
    obtain ⟨_, rfl⟩ := pure_eq_ok h
    exact ⟨_, List.Sublist.refl _, rfl⟩
  | tombstone =>
    rw [clearReactions, query_bind, execute_bind] at h
    obtain ⟨_, rfl⟩ := pure_eq_ok h
    exact ⟨_, List.filter_sublist, rfl⟩

/-- The next id is past every id of the room's states. -/
theorem nextRevisionEventId_ok {id : Int} (h : nextRevisionEventId roomId db = .ok (id, db')) :
    db' = db ∧ maxLatestRevisionId db.roomMessageRevisionState roomId < id := by
  rw [nextRevisionEventId, query_bind] at h
  split at h
  · exact (abort_ok.mp h).elim
  · obtain ⟨rfl, rfl⟩ := pure_eq_ok h
    refine ⟨rfl, ?_⟩
    have hle : maxLatestRevisionId db'.roomMessageRevisionState roomId ≤
      db'.maxRevisionEventId roomId := Int.le_max_right _ _
    omega

theorem recordRevision_ok {mutation : MessageRevisionMutation}
    (h : recordRevision roomId actorUserId actorDisplayName request request.targetEventId n now
      { db with roomMessageRevisionEvents := (revisionRoom db roomId request now).2 } =
      .ok (mutation, db')) :
    ∃ id state events reactions cleared,
      Revised db roomId actorUserId request n now id state events reactions ∧
      db' = { db with
        roomReactions := reactions
        roomMessageRevisionState := state
        roomMessageRevisionEvents := events } ∧
      mutation =
        { event :=
            { revisionEventId := id.toNat
              targetEventId := request.targetEventId
              action := request.action
              actorUserId
              atUnix := now
              replacement := request.replacement
              revisionNumber := n
              actorDisplayName }
          reactionsCleared := cleared } := by
  obtain ⟨id, db₁, hnext, h⟩ := bind_ok.mp h
  obtain ⟨rfl, hid⟩ := nextRevisionEventId_ok hnext
  obtain ⟨db₂, hupsert, h⟩ := sql_bind_ok.mp h
  obtain ⟨hpos, state, hstate, rfl⟩ := upsertRevisionState_ok hupsert
  obtain ⟨db₃, hinsert, h⟩ := sql_bind_ok.mp h
  obtain ⟨events, hevents, rfl⟩ := insertRevisionEvent_ok hinsert
  obtain ⟨cleared, db₄, hclear, h⟩ := bind_ok.mp h
  obtain ⟨reactions, hreactions, rfl⟩ := clearReactions_ok hclear
  obtain ⟨rfl, rfl⟩ := pure_eq_ok h
  exact ⟨id, state, events, reactions, cleared, ⟨hpos, hid, hstate, hevents, hreactions⟩, rfl, rfl⟩

/-- A request that ends well has one of the outcomes. -/
theorem applyRevision_outcome {policy : MessageRevisionActorPolicy} {maxMessageBytes : Nat}
    {result : MessageRevisionMutationResult}
    (h : applyMessageRevisionMutationAt roomId actorUserId actorDisplayName policy request
      maxMessageBytes now db = .ok (result, db')) :
    RevisionOutcome db roomId actorUserId actorDisplayName policy request maxMessageBytes now result
      db' := by
  have hrefuse : ∀ {refused}, (∀ m, refused ≠ .changed m) →
      (∀ n, ¬RevisionPasses db roomId actorUserId policy request maxMessageBytes n) →
      (pure refused : Txn Database ServerError MessageRevisionMutationResult) db =
        .ok (result, db') →
      RevisionOutcome db roomId actorUserId actorDisplayName policy request maxMessageBytes now
        result db' := by
    intro refused hne hfails h
    obtain ⟨rfl, rfl⟩ := pure_eq_ok h
    exact .refused hne hfails
  unfold applyMessageRevisionMutationAt at h
  split at h
  · next hsize =>
    refine hrefuse (fun m hm => by cases hm) (fun n hpasses => ?_) h
    have := hpasses.size
    omega
  · next hsize =>
    cases htarget : toI64 request.targetEventId with
    | none =>
      simp only [htarget] at h
      exact (fail_ok.mp h).elim
    | some target =>
      obtain ⟨rfl, _⟩ := toI64_some.mp htarget
      simp only [htarget, query_bind] at h
      cases hactor : (db.messageAuthor roomId request.targetEventId).bind toU32 with
      | none =>
        simp only [hactor] at h
        refine hrefuse (fun m hm => by cases hm) (fun n hpasses => ?_) h
        obtain ⟨_, hsome, _⟩ := hpasses.authorized
        rw [hactor] at hsome
        cases hsome
      | some targetActor =>
        simp only [hactor] at h
        cases hauth : revisionAuthorized request.action (targetActor == actorUserId) policy with
        | false =>
          simp only [hauth, Bool.not_false, if_true] at h
          refine hrefuse (fun m hm => by cases hm) (fun n hpasses => ?_) h
          obtain ⟨a, hsome, hmay⟩ := hpasses.authorized
          cases hactor.symm.trans hsome
          rw [hauth] at hmay
          cases hmay
        | true =>
          simp only [hauth, Bool.not_true, Bool.false_eq_true, if_false] at h
          -- nothing is written before this point
          obtain ⟨admitted, db₁, hadmitted, hrest⟩ := bind_ok.mp h
          have hauthorized : db.mayRevise roomId actorUserId policy request :=
            ⟨targetActor, hactor, hauth⟩
          rcases admitRevision_ok hadmitted with ⟨refused, rfl, hne, rfl, hcheck⟩ |
            ⟨n, hcheck, rfl, hcase⟩
          · refine hrefuse hne (fun n hpasses => ?_) hrest
            have := hpasses.checked.symm.trans hcheck
            cases this
          · have hpasses : RevisionPasses db roomId actorUserId policy request maxMessageBytes n :=
              ⟨Nat.le_of_not_lt hsize, hauthorized, hcheck⟩
            rcases hcase with ⟨hfull, rfl⟩ | ⟨hroom, rfl⟩
            · obtain ⟨rfl, rfl⟩ := pure_eq_ok hrest
              exact .saturated hpasses hfull
            · obtain ⟨mutation, db₂, hrecord, hrest⟩ := bind_ok.mp hrest
              obtain ⟨rfl, rfl⟩ := pure_eq_ok hrest
              obtain ⟨id, state, events, reactions, cleared, hrevised, rfl, rfl⟩ :=
                recordRevision_ok hrecord
              exact .changed hpasses hroom hrevised

end
end Omen.Server
