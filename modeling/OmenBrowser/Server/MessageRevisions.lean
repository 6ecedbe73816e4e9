import OmenBrowser.Protocol.MessageRevisions
import OmenBrowser.Server.Database

/- Corrections and tombstones of room messages (`server/src/store/message_revisions.rs`).

   A revision is checked against the stored author of its target, against what the target
   was last revised to, and against the capacity of the state and audit tables; one that
   changes the target gets the next revision id of the room, replaces the target's state and
   adds an audit row, and a tombstone removes the target's reactions. Audit rows are pruned
   to make room, at most `maxAuditPrunedPerMutation` for one revision.

   Correspondence (Rust ↔ Lean):
     the query of `target_actor`                    ↔ `Database.messageAuthor`
     the query of `effective_body`                  ↔ `Database.messageBody`
     the checks from `current` to the audit table   ↔ `admitRevision`
     the writes                                     ↔ `recordRevision`
     the `pruned` of `ensure_audit_capacity`        ↔ its last argument, what is left to prune -/
namespace Omen.Server
open Wire Sql Ints Omen.Protocol Txn Database

variable {current : Option StoredRevisionState} {incomingBytes : Int} {actorUserId : UserId}
  {actorDisplayName : Option String}

def maxCorrectionsPerTarget : Nat := 8
def maxCorrectionRowsPerRoom : Int := 3072
def maxCorrectionBytesPerRoom : Int := 6 * 1024 * 1024
def maxCorrectionRowsGlobal : Int := 49152
def maxCorrectionBytesGlobal : Int := 96 * 1024 * 1024
def maxStateRowsPerRoom : Int := 4096
def maxStateBytesPerRoom : Int := 8 * 1024 * 1024
def maxStateRowsGlobal : Int := 65536
def maxStateBytesGlobal : Int := 128 * 1024 * 1024
def maxAuditRowsPerRoom : Int := 8192
def maxAuditBytesPerRoom : Int := 8 * 1024 * 1024
def maxAuditRowsGlobal : Int := 131072
def maxAuditBytesGlobal : Int := 128 * 1024 * 1024
def auditRetentionAgeSeconds : Int := 365 * 24 * 60 * 60
def maxAuditPrunedPerMutation : Nat := 64
def stateFixedRetainedBytes : Int := 48
def auditFixedRetainedBytes : Int := 56

structure MessageRevisionActorPolicy where
  isModerator : Bool
  isMuted : Bool
  deriving DecidableEq, Repr

structure MessageRevisionMutation where
  event : MessageRevisionEvent
  reactionsCleared : Nat
  deriving DecidableEq, Repr

inductive MessageRevisionMutationResult where
  | changed (mutation : MessageRevisionMutation)
  | unchanged
  | targetUnavailable
  | permissionDenied
  | alreadyTombstoned
  | correctionLimitReached
  | saturated
  deriving DecidableEq, Repr

structure StoredRevisionState where
  action : MessageRevisionAction
  replacement : Option String
  revisionNumber : Nat
  retainedBytes : Int
  deriving DecidableEq, Repr

/-! Reading the tables. -/

variable (db : Database)

/-- `SELECT actor_user_id .. WHERE event_kind = 1 AND deleted = 0`. -/
def Database.messageAuthor (roomId : RoomId) (eventId : Int) : Option Int :=
  (db.roomEvents.find? (roomId, eventId)).bind
    (fun e => if e.eventKind = 1 ∧ e.deleted = false then e.actorUserId else none)

def Database.messageBody (roomId : RoomId) (eventId : Int) : Except ServerError (Option String) :=
  match db.roomEvents.find? (roomId, eventId) with
  | none => .ok none
  | some e =>
    match e.payload with
    | none => .error (.sqlite .invalidColumnType)
    | some payload =>
      match asStr payload with
      | some body => .ok (some body)
      | none => .error (.message "stored room message body is not UTF-8")

def storedAction (value : Nat) : Except ServerError MessageRevisionAction :=
  match MessageRevisionAction.ofCode? value with
  | some action => .ok action
  | none => .error (.message "stored message revision action is invalid")

def decodeReplacement : Option Bytes → Except ServerError (Option String)
  | none => .ok none
  | some value =>
    match asStr value with
    | some replacement => .ok (some replacement)
    | none => .error (.message "stored message revision replacement is not UTF-8")

def RevisionStateRow.decode (r : RevisionStateRow) : Except ServerError StoredRevisionState := do
  let action ← storedAction r.revisionAction
  let replacement ← decodeReplacement r.replacementBody
  pure ⟨action, replacement, r.revisionNumber, r.retainedBytes⟩

def loadCurrentState (roomId : RoomId) (targetEventId : Int) :
    Txn Database ServerError (Option StoredRevisionState) := do
  let row ← query (fun db : Database => db.roomMessageRevisionState.find? (roomId, targetEventId))
  match row with
  | none => pure none
  | some r => some <$> lift r.decode

/-- `SELECT COUNT(*), COALESCE(SUM(retained_bytes), 0)`; `SUM` fails on overflow. -/
def rowUsage {ρ : Type} (retainedBytes : ρ → Nat) (rows : List ρ) : Except ServerError (Int × Int) :=
  let bytes : Int := (rows.map retainedBytes).sum
  if bytes > i64Max then .error (.sqlite .integerOverflow) else .ok (rows.length, bytes)

def stateUsage (roomId : Option RoomId) (action : Option MessageRevisionAction) :
    Txn Database ServerError (Int × Int) := do
  let rows ← query (fun db : Database => db.roomMessageRevisionState.rows.filter
    (fun r => roomId.all (r.roomId == ·) && action.all (fun a => r.revisionAction == a.code)))
  lift (rowUsage RevisionStateRow.retainedBytes rows)

def auditUsage (roomId : Option RoomId) : Txn Database ServerError (Int × Int) := do
  let rows ← query (fun db : Database => db.roomMessageRevisionEvents.rows.filter
    (fun r => roomId.all (r.roomId == ·)))
  lift (rowUsage RevisionEventRow.retainedBytes rows)

/-! Capacity. -/

/-- A total without the current part and with the incoming one is within the limit. -/
def replacedWithin (total current incoming limit : Int) : Bool :=
  decide (saturatingAdd (saturatingSub total current) incoming ≤ limit)

def stateHasCapacity (roomId : RoomId) (action : MessageRevisionAction)
    (current : Option StoredRevisionState) (incomingBytes : Int) : Txn Database ServerError Bool := do
  let currentRows : Int := if current.isSome then 1 else 0
  let currentBytes : Int := (current.map StoredRevisionState.retainedBytes).getD 0
  let room ← stateUsage (some roomId) none
  let whole ← stateUsage none none
  if !(replacedWithin room.1 currentRows 1 maxStateRowsPerRoom &&
      replacedWithin room.2 currentBytes incomingBytes maxStateBytesPerRoom &&
      replacedWithin whole.1 currentRows 1 maxStateRowsGlobal &&
      replacedWithin whole.2 currentBytes incomingBytes maxStateBytesGlobal) then pure false
  -- a tombstone may use what corrections have to leave free
  else if action = .tombstone then pure true
  else
    let correction := current.filter (fun state => state.action = .correct)
    let correctionRows : Int := if correction.isSome then 1 else 0
    let correctionBytes : Int := (correction.map StoredRevisionState.retainedBytes).getD 0
    let roomCorrections ← stateUsage (some roomId) (some .correct)
    let wholeCorrections ← stateUsage none (some .correct)
    pure (replacedWithin roomCorrections.1 correctionRows 1 maxCorrectionRowsPerRoom &&
      replacedWithin roomCorrections.2 correctionBytes incomingBytes maxCorrectionBytesPerRoom &&
      replacedWithin wholeCorrections.1 correctionRows 1 maxCorrectionRowsGlobal &&
      replacedWithin wholeCorrections.2 correctionBytes incomingBytes maxCorrectionBytesGlobal)

/-- `ORDER BY at, room_id, revision_event_id`. -/
def byAge (a b : RevisionEventRow) : Ordering :=
  (compare a.atUnix b.atUnix).then ((compare a.roomId b.roomId).then
    (compare a.revisionEventId b.revisionEventId))

/-- `ORDER BY CASE WHEN room_id = ?1 THEN 0 ELSE 1 END, at, room_id, revision_event_id`. -/
def byRoomThenAge (roomId : RoomId) (a b : RevisionEventRow) : Ordering :=
  (compare (if a.roomId = roomId then 0 else 1) (if b.roomId = roomId then 0 else 1)).then (byAge a b)

def Database.deleteAudit (victims : List RevisionEventRow) : Database :=
  { db with
    roomMessageRevisionEvents := db.roomMessageRevisionEvents.deleteWhere
      (fun r => (victims.map RevisionEventRow.key).contains r.key) }

def pruneExpiredAuditRows (now : Int) : Txn Database ServerError Nat := do
  let cutoff := saturatingSub now auditRetentionAgeSeconds
  let victims ← query (fun db : Database => (orderBy byAge
    (db.roomMessageRevisionEvents.rows.filter (fun r => decide (r.atUnix < cutoff)))).take
      maxAuditPrunedPerMutation)
  execute (·.deleteAudit victims)
  pure victims.length

def auditHasCapacity (roomId : RoomId) (incomingBytes : Int) : Txn Database ServerError Bool := do
  let room ← auditUsage (some roomId)
  let whole ← auditUsage none
  pure (decide (saturatingAdd room.1 1 ≤ maxAuditRowsPerRoom) &&
    decide (saturatingAdd room.2 incomingBytes ≤ maxAuditBytesPerRoom) &&
    decide (saturatingAdd whole.1 1 ≤ maxAuditRowsGlobal) &&
    decide (saturatingAdd whole.2 incomingBytes ≤ maxAuditBytesGlobal))

/-- Each turn that finds no room deletes one row, the oldest of the room before the oldest of the
others, until nothing may be pruned any more. -/
def ensureAuditCapacity (roomId : RoomId) (incomingBytes : Int) :
    Nat → Txn Database ServerError Bool
  | 0 => auditHasCapacity roomId incomingBytes
  | left + 1 => do
    if ← auditHasCapacity roomId incomingBytes then pure true
    else
      let victim ← query (fun db : Database =>
        first? (byRoomThenAge roomId) db.roomMessageRevisionEvents.rows)
      match victim with
      | none => pure false
      | some r =>
        execute (·.deleteAudit [r])
        ensureAuditCapacity roomId incomingBytes left

/-! Writing. -/

/-- `COALESCE(MAX(..), 0)`. -/
def maxOrZero (ids : List Int) : Int := ids.max?.getD 0

def Database.maxRevisionEventId (roomId : RoomId) : Int :=
  max
    (maxOrZero ((db.roomMessageRevisionEvents.rows.filter (fun r => r.roomId == roomId)).map
      RevisionEventRow.revisionEventId))
    (maxOrZero ((db.roomMessageRevisionState.rows.filter (fun r => r.roomId == roomId)).map
      RevisionStateRow.latestRevisionEventId))

/-- A sum past the integers is a real number, which is not read as an `i64`. -/
def nextRevisionEventId (roomId : RoomId) : Txn Database ServerError Int := do
  let next ← query (fun db : Database => db.maxRevisionEventId roomId + 1)
  if next > i64Max then abort (.sqlite .invalidColumnType) else pure next

/-- The `CHECK`s both tables make. -/
def revisionMeetsChecks (targetEventId revisionEventId actorUserId : Int) (action : Nat)
    (replacementBody : Option Bytes) (revisionNumber : Nat) : Bool :=
  decide (0 < targetEventId) && decide (0 < revisionEventId) && decide (0 < actorUserId) &&
  (decide (action = 1) && replacementBody.isSome || decide (action = 2) && replacementBody.isNone) &&
  decide (1 ≤ revisionNumber) && decide (revisionNumber ≤ 9)

/-- `INSERT INTO room_message_revision_state .. ON CONFLICT(room_id, target_event_id) DO UPDATE`,
with `UNIQUE(room_id, latest_revision_event_id)`. -/
def Database.upsertRevisionState (row : RevisionStateRow) : Except Sql.Error Database :=
  if !revisionMeetsChecks row.targetEventId row.latestRevisionEventId row.actorUserId
      row.revisionAction row.replacementBody row.revisionNumber then .error .constraintFailed
  else if db.roomMessageRevisionState.rows.any (fun r => r.roomId == row.roomId &&
      r.latestRevisionEventId == row.latestRevisionEventId && r.key != row.key) then
    .error .constraintFailed
  else .ok { db with
    roomMessageRevisionState := db.roomMessageRevisionState.upsert row
      (fun r => { row with roomId := r.roomId, targetEventId := r.targetEventId }) (fun _ => rfl) }

def Database.insertRevisionEvent (row : RevisionEventRow) : Except Sql.Error Database :=
  if !revisionMeetsChecks row.targetEventId row.revisionEventId row.actorUserId row.revisionAction
      row.replacementBody row.revisionNumber then .error .constraintFailed
  else (db.roomMessageRevisionEvents.insert row).map
    (fun t => { db with roomMessageRevisionEvents := t })

variable (action : MessageRevisionAction)

/-- A tombstone takes the reactions of its target with it. -/
def clearReactions (roomId : RoomId) (targetEventId : Int) : Txn Database ServerError Nat :=
  match action with
  | .correct => pure 0
  | .tombstone => do
    let cleared ← query (fun db : Database =>
      db.countTargets roomId [targetEventId] .roomReactions)
    execute (·.deleteTargets roomId [targetEventId] .roomReactions)
    pure cleared

/-! A revision. -/

def replacementBytes (request : MessageRevisionRequest) : Nat :=
  (request.replacement.map (fun value => (utf8 value).length)).getD 0

def revisionAuthorized (ownsTarget : Bool) (policy : MessageRevisionActorPolicy) : Bool :=
  match action with
  | .correct => ownsTarget && !policy.isMuted
  | .tombstone => ownsTarget || policy.isModerator

/-- Write an admitted revision. -/
def recordRevision (roomId : RoomId) (actorUserId : UserId) (actorDisplayName : Option String)
    (request : MessageRevisionRequest) (targetEventId : Int) (revisionNumber : Nat) (now : Int) :
    Txn Database ServerError MessageRevisionMutation := do
  let revisionEventId ← nextRevisionEventId roomId
  sql (fun db => db.upsertRevisionState
    { roomId
      targetEventId
      latestRevisionEventId := revisionEventId
      revisionAction := request.action.code
      actorUserId := actorUserId.toNat
      replacementBody := request.replacement.map utf8
      revisionNumber
      atUnix := now
      retainedBytes := (saturatingAdd stateFixedRetainedBytes (replacementBytes request)).toNat })
  sql (fun db => db.insertRevisionEvent
    { roomId
      revisionEventId
      targetEventId
      actorUserId := actorUserId.toNat
      revisionAction := request.action.code
      replacementBody := request.replacement.map utf8
      revisionNumber
      atUnix := now
      retainedBytes := (saturatingAdd auditFixedRetainedBytes (replacementBytes request)).toNat })
  -- a tombstone takes the reactions to its target with it
  let reactionsCleared ← clearReactions request.action roomId targetEventId
  pure
    { event :=
        { revisionEventId := revisionEventId.toNat
          targetEventId := request.targetEventId
          action := request.action
          actorUserId
          atUnix := now
          replacement := request.replacement
          revisionNumber
          actorDisplayName }
      reactionsCleared }

/-- What the target shows now: its last revision, or its own text. -/
def effectiveBody (roomId : RoomId) (targetEventId : Int) (current : Option StoredRevisionState) :
    Txn Database ServerError (Option String) :=
  match current with
  | some state => pure state.replacement
  | none => statement (fun db : Database =>
      (db.messageBody roomId targetEventId).map (fun body => (body, db)))

/-- Check an authorized revision against the current state and the tables, and make room for it:
the number it gets, or the result that refuses it. -/
def admitRevision (roomId : RoomId) (request : MessageRevisionRequest) (targetEventId now : Int) :
    Txn Database ServerError (Except MessageRevisionMutationResult Nat) := do
  let current ← loadCurrentState roomId targetEventId
  if current.any (fun state => state.action = .tombstone) then pure (.error .alreadyTombstoned)
  else if request.action = .correct ∧
      current.any (fun state => decide (state.revisionNumber ≥ maxCorrectionsPerTarget)) then
    pure (.error .correctionLimitReached)
  else
    let body ← effectiveBody roomId targetEventId current
    if request.action = .correct ∧ request.replacement = body then pure (.error .unchanged)
    else
      -- the first revision has the number 1
      let revisionNumber := (current.map (fun state => min u64Max (state.revisionNumber + 1))).getD 1
      if revisionNumber > messageRevisionMaxNumber then pure (.error .correctionLimitReached)
      else
        let stateBytes := saturatingAdd stateFixedRetainedBytes (replacementBytes request)
        if !(← stateHasCapacity roomId request.action current stateBytes) then pure (.error .saturated)
        else
          let pruned ← pruneExpiredAuditRows now
          let auditBytes := saturatingAdd auditFixedRetainedBytes (replacementBytes request)
          if !(← ensureAuditCapacity roomId auditBytes (maxAuditPrunedPerMutation - pruned)) then
            pure (.error .saturated)
          else pure (.ok revisionNumber)

def applyMessageRevisionMutationAt (roomId : RoomId) (actorUserId : UserId)
    (actorDisplayName : Option String) (policy : MessageRevisionActorPolicy)
    (request : MessageRevisionRequest) (maxMessageBytes : Nat) (now : Int) :
    Txn Database ServerError MessageRevisionMutationResult :=
  if replacementBytes request > maxMessageBytes then pure .saturated
  else
    match toI64 request.targetEventId with
    | none => fail "message revision target event id does not fit SQLite"
    | some targetEventId => do
      let targetActor ← query (fun db : Database => db.messageAuthor roomId targetEventId)
      match targetActor.bind toU32 with
      | none => pure .targetUnavailable
      | some targetActor =>
        -- whether the actor may do it is asked before the quotas
        if !revisionAuthorized request.action (targetActor == actorUserId) policy then
          pure .permissionDenied
        else
          match ← admitRevision roomId request targetEventId now with
          | .error refused => pure refused
          | .ok revisionNumber => do
            let mutation ← recordRevision roomId actorUserId actorDisplayName request targetEventId
              revisionNumber now
            pure (.changed mutation)

/-! What a revision leaves alone. -/

/-- The events of all rooms, with their sequences and ledgers. -/
structure Histories where
  roomEvents : Table RoomEventRow.key
  roomEventSequences : Table SequenceRow.roomId
  roomHistoryUsage : Table UsageRow.roomId

def Database.histories : Histories :=
  ⟨db.roomEvents, db.roomEventSequences, db.roomHistoryUsage⟩

/-- The users and the histories. -/
def Database.messages : Users × Histories := (db.users, db.histories)

section
variable {roomId : RoomId} {targetEventId now : Int} {request : MessageRevisionRequest}
  {τ : Type} {f : Database → τ}

/-- A statement that may fail. -/
theorem keeps_sql {σ τ : Type} {f : σ → τ} {g : σ → Except Sql.Error σ}
    (hg : ∀ s s', g s = .ok s' → f s' = f s) : Txn.Keeps f (sql g) := by
  intro s a s' h
  obtain ⟨t, ht, he⟩ := Outcome.map_ok.mp h
  obtain ⟨_, rfl⟩ := Prod.mk.inj he
  exact hg s t (Outcome.mapError_ok.mp ht)

theorem loadCurrentState_keeps : Txn.Keeps f (loadCurrentState roomId targetEventId) := by
  refine .bind (.query _) fun row => ?_
  cases row with
  | none => exact .pure none
  | some r => exact .bind (.lift _) fun state => .pure (some state)

theorem stateUsage_keeps {room : Option RoomId} {action : Option MessageRevisionAction} :
    Txn.Keeps f (stateUsage room action) :=
  .bind (.query _) fun _ => .lift _

theorem stateHasCapacity_keeps {action : MessageRevisionAction} :
    Txn.Keeps f (stateHasCapacity roomId action current incomingBytes) := by
  refine .bind stateUsage_keeps fun room => .bind stateUsage_keeps fun whole => ?_
  refine .ite (.pure false) (.ite (.pure true) ?_)
  exact .bind stateUsage_keeps fun _ => .bind stateUsage_keeps fun _ => .pure _

theorem auditHasCapacity_keeps : Txn.Keeps f (auditHasCapacity roomId incomingBytes) := by
  have husage : ∀ room, Txn.Keeps f (auditUsage room) :=
    fun room => .bind (.query _) fun _ => .lift _
  exact .bind (husage _) fun _ => .bind (husage _) fun _ => .pure _

theorem ensureAuditCapacity_keeps {left : Nat} :
    Txn.Keeps messages (ensureAuditCapacity roomId incomingBytes left) := by
  induction left with
  | zero => exact auditHasCapacity_keeps
  | succ left ih =>
    refine .bind auditHasCapacity_keeps fun fits => .ite (.pure true) ?_
    refine .bind (.query _) fun victim => ?_
    cases victim with
    | none => exact .pure false
    | some r => exact .bind (.execute fun _ => rfl) fun _ => ih

theorem pruneExpiredAuditRows_keeps : Txn.Keeps messages (pruneExpiredAuditRows now) :=
  .bind (.query _) fun _ => .bind (.execute fun _ => rfl) fun _ => .pure _

theorem effectiveBody_keeps : Txn.Keeps f (effectiveBody roomId targetEventId current) := by
  cases current with
  | some state => exact .pure state.replacement
  | none =>
    intro db body db' h
    obtain ⟨b, _, he⟩ := Outcome.map_ok.mp h
    rw [(Prod.mk.inj he).2]

theorem admitRevision_keeps :
    Txn.Keeps messages (admitRevision roomId request targetEventId now) := by
  refine .bind loadCurrentState_keeps fun current => ?_
  refine .ite (.pure _) (.ite (.pure _) ?_)
  refine .bind effectiveBody_keeps fun body => ?_
  refine .ite (.pure _) (.ite (.pure _) ?_)
  refine .bind stateHasCapacity_keeps fun fits => .ite (.pure _) ?_
  refine .bind pruneExpiredAuditRows_keeps fun pruned => ?_
  exact .bind ensureAuditCapacity_keeps fun room => .ite (.pure _) (.pure _)

theorem upsertRevisionState_keeps {row : RevisionStateRow} :
    Txn.Keeps messages (sql (fun db => db.upsertRevisionState row)) := by
  apply keeps_sql
  intro db db' h
  unfold upsertRevisionState at h
  split at h
  · cases h
  · split at h
    · cases h
    · injection h with h
      rw [← h]
      rfl

theorem insertRevisionEvent_keeps {row : RevisionEventRow} :
    Txn.Keeps messages (sql (fun db => db.insertRevisionEvent row)) := by
  apply keeps_sql
  intro db db' h
  unfold insertRevisionEvent at h
  split at h
  · cases h
  · obtain ⟨t, _, rfl⟩ := Outcome.map_ok.mp h
    rfl

theorem recordRevision_keeps {revisionNumber : Nat} :
    Txn.Keeps messages (recordRevision roomId actorUserId actorDisplayName request
      targetEventId revisionNumber now) := by
  refine .bind ?_ fun revisionEventId => ?_
  · exact .bind (.query _) fun _ => .ite (.abort _) (.pure _)
  · refine .bind upsertRevisionState_keeps fun _ => .bind insertRevisionEvent_keeps fun _ => ?_
    refine .bind ?_ fun _ => .pure _
    cases request.action with
    | correct => exact .pure 0
    | tombstone => exact .bind (.query _) fun _ => .bind (.execute fun _ => rfl) fun _ => .pure _

end

/-- A revision leaves users and events alone, and changes its target only for the stored author,
or as a moderator's tombstone. -/
theorem applyRevision_cases {roomId : RoomId} {policy : MessageRevisionActorPolicy}
    {request : MessageRevisionRequest} {maxMessageBytes : Nat} {now : Int} {db db' : Database}
    {result : MessageRevisionMutationResult}
    (h : applyMessageRevisionMutationAt roomId actorUserId actorDisplayName policy request
      maxMessageBytes now db = .ok (result, db')) :
    db'.messages = db.messages ∧
    ∀ mutation, result = .changed mutation →
      ∃ targetActor, db.messageAuthor roomId request.targetEventId = some targetActor ∧
        (toU32 targetActor = some actorUserId ∨
          request.action = .tombstone ∧ policy.isModerator = true) := by
  unfold applyMessageRevisionMutationAt at h
  split at h
  · obtain ⟨rfl, rfl⟩ := pure_eq_ok h
    exact ⟨rfl, fun _ hc => by cases hc⟩
  · cases htarget : toI64 request.targetEventId with
    | none =>
      simp only [htarget] at h
      exact (fail_ok.mp h).elim
    | some targetEventId =>
      obtain ⟨rfl, _⟩ := toI64_some.mp htarget
      simp only [htarget, query_bind] at h
      cases hactor : db.messageAuthor roomId request.targetEventId with
      | none =>
        simp only [hactor, Option.bind_none] at h
        obtain ⟨rfl, rfl⟩ := pure_eq_ok h
        exact ⟨rfl, fun _ hc => by cases hc⟩
      | some stored =>
        simp only [hactor, Option.bind_some] at h
        cases hu32 : toU32 stored with
        | none =>
          simp only [hu32] at h
          obtain ⟨rfl, rfl⟩ := pure_eq_ok h
          exact ⟨rfl, fun _ hc => by cases hc⟩
        | some targetActor =>
          simp only [hu32] at h
          split at h
          · obtain ⟨rfl, rfl⟩ := pure_eq_ok h
            exact ⟨rfl, fun _ hc => by cases hc⟩
          · next hauth =>
            -- authorized; what is left writes to the revision tables and the reactions only
            refine ⟨?_, ?_⟩
            · refine Txn.Keeps.bind admitRevision_keeps (fun admitted => ?_) db result db' h
              cases admitted with
              | error refused => exact .pure refused
              | ok n => exact .bind recordRevision_keeps fun mutation => .pure _
            · intro _ _
              refine ⟨stored, rfl, ?_⟩
              cases haction : request.action with
              | correct =>
                simp only [revisionAuthorized, haction, Bool.not_eq_true', Bool.not_eq_false,
                  Bool.and_eq_true, beq_iff_eq] at hauth
                exact .inl (hauth.1 ▸ hu32)
              | tombstone =>
                simp only [revisionAuthorized, haction, Bool.not_eq_true', Bool.not_eq_false,
                  Bool.or_eq_true, beq_iff_eq] at hauth
                rcases hauth with howns | hmod
                · exact .inl (howns ▸ hu32)
                · exact .inr ⟨rfl, hmod⟩

end Omen.Server
