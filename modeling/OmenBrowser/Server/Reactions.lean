import OmenBrowser.Protocol.Projections
import OmenBrowser.Server.AuditLog

/- Reactions to room events (`server/src/store/reactions.rs`).

   A reaction is one row for each room, target, actor and token. A request that changes the
   active rows prunes the audit table first, for age and then for room, checks the capacity of
   the active table if it adds a row, writes the row or deletes it, and adds an audit row with
   the next id of the room, one more than the largest the audit table still has.

   Correspondence (Rust ↔ Lean):
     the query for `eligible`                      ↔ `Database.targetEligible`
     the query for `exists`                        ↔ `Database.hasReaction`
     the tables and limits of the audit            ↔ `reactionAudit`
     the statements after the capacity checks      ↔ `recordReaction`
   `reaction_snapshot` reads only and is not modelled. -/
namespace Omen.Server
open Wire Sql Ints Omen.Protocol Txn ReactionRow

namespace Reactions

def maxActiveTokensPerActorTarget : Int := 3
def maxActiveRowsPerTarget : Int := 128
def maxActiveRowsPerRoom : Int := 4096
def maxActiveBytesPerRoom : Int := 128 * 1024
def maxActiveRowsGlobal : Int := 65536
def maxActiveBytesGlobal : Int := 2 * 1024 * 1024
def maxAuditRowsPerRoom : Int := 8192
def maxAuditBytesPerRoom : Int := 512 * 1024
def maxAuditRowsGlobal : Int := 131072
def maxAuditBytesGlobal : Int := 8 * 1024 * 1024
def auditRetentionAgeSeconds : Int := 90 * 24 * 60 * 60
def maxAuditPrunedPerMutation : Nat := 64
def activeFixedRetainedBytes : Int := 24
def auditFixedRetainedBytes : Int := 33

end Reactions

inductive ReactionMutationResult where
  | changed (event : ReactionEvent)
  | unchanged
  | targetUnavailable
  | saturated
  deriving DecidableEq, Repr

def reactionAudit : AuditLog ReactionEventRow.key where
  table := Database.roomReactionEvents
  put t db := { db with roomReactionEvents := t }
  roomId := ReactionEventRow.roomId
  eventId := ReactionEventRow.reactionEventId
  atUnix := ReactionEventRow.atUnix
  retainedBytes := ReactionEventRow.retainedBytes
  retentionAgeSeconds := Reactions.auditRetentionAgeSeconds
  maxPrunedPerMutation := Reactions.maxAuditPrunedPerMutation
  maxRowsPerRoom := Reactions.maxAuditRowsPerRoom
  maxBytesPerRoom := Reactions.maxAuditBytesPerRoom
  maxRowsGlobal := Reactions.maxAuditRowsGlobal
  maxBytesGlobal := Reactions.maxAuditBytesGlobal
  table_put _ _ := rfl
  put_table := Eq.refl
  put_put _ _ _ := rfl
  limits := by decide

/-! Reading the tables. -/

/-- `deleted = 0 AND event_kind IN (1, 2, 3, 5)`. -/
def Database.targetEligible (db : Database) (roomId : RoomId) (eventId : Int) : Bool :=
  (db.roomEvents.find? (roomId, eventId)).any
    (fun e => !e.deleted && [1, 2, 3, 5].contains e.eventKind)

def Database.hasReaction (db : Database) (key : RoomId × Int × Int × String) : Bool :=
  (db.roomReactions.find? key).isSome

/-- `24 + length(CAST(reaction_token AS BLOB))`. -/
def ReactionRow.retainedBytes (r : ReactionRow) : Nat := 24 + (utf8 r.reactionToken).length

variable (token : ReactionToken)

/-- `token.len()`. -/
def tokenBytes : Nat := (utf8 token.asStr).length

/-- The key of the active row a request is about. -/
def reactionKey (roomId : RoomId) (targetEventId : Int) (actorUserId : UserId)
    (token : ReactionToken) : RoomId × Int × Int × String :=
  (roomId, targetEventId, actorUserId.toNat, token.asStr)

namespace Reactions

def activeUsage (roomId : Option RoomId) : Txn Database ServerError (Int × Int) := do
  let rows ← query (fun db : Database => db.roomReactions.rows.filter
    (fun r => roomId.all (r.roomId == ·)))
  lift (rowUsage ReactionRow.retainedBytes rows)

def activeAddHasCapacity (roomId : RoomId) (targetEventId actorUserId : Int) (tokenBytes : Nat) :
    Txn Database ServerError Bool := do
  let actorTargetRows ← query (fun db : Database => db.roomReactions.rows.countP
    (fun r => r.roomId == roomId && r.targetEventId == targetEventId && r.actorUserId == actorUserId))
  let targetRows ← query (fun db : Database => db.roomReactions.rows.countP
    (fun r => r.roomId == roomId && r.targetEventId == targetEventId))
  let room ← activeUsage (some roomId)
  let whole ← activeUsage none
  let incomingBytes := saturatingAdd activeFixedRetainedBytes tokenBytes
  pure (decide (saturatingAdd actorTargetRows 1 ≤ maxActiveTokensPerActorTarget) &&
    decide (saturatingAdd targetRows 1 ≤ maxActiveRowsPerTarget) &&
    decide (saturatingAdd room.1 1 ≤ maxActiveRowsPerRoom) &&
    decide (saturatingAdd room.2 incomingBytes ≤ maxActiveBytesPerRoom) &&
    decide (saturatingAdd whole.1 1 ≤ maxActiveRowsGlobal) &&
    decide (saturatingAdd whole.2 incomingBytes ≤ maxActiveBytesGlobal))

variable (action : ReactionAction)

/-- Only an addition needs room in the active table. -/
def activeHasRoom (roomId : RoomId) (targetEventId actorUserId : Int) (tokenBytes : Nat) :
    Txn Database ServerError Bool :=
  match action with
  | .add => activeAddHasCapacity roomId targetEventId actorUserId tokenBytes
  | .remove => pure true

def changes (present : Bool) : Bool :=
  match action with
  | .add => !present
  | .remove => present

def pruneExpiredAuditRows (now : Int) : Txn Database ServerError Nat :=
  reactionAudit.pruneExpired (fun _ _ => true) now

def ensureAuditCapacity (roomId : RoomId) (tokenBytes : Nat) (left : Nat) :
    Txn Database ServerError Bool :=
  reactionAudit.ensureCapacity (fun _ _ => true) roomId
    (saturatingAdd auditFixedRetainedBytes tokenBytes) left

end Reactions

/-! Writing. -/

/-- The `CHECK`s both tables make. -/
def reactionMeetsChecks (targetEventId actorUserId : Int) (token : String) : Bool :=
  decide (0 < targetEventId) && decide (0 < actorUserId) && decide (1 ≤ token.length) &&
  decide (token.length ≤ 16)

def Database.insertReaction (db : Database) (row : ReactionRow) : Except Sql.Error Database :=
  if !reactionMeetsChecks row.targetEventId row.actorUserId row.reactionToken then
    .error .constraintFailed
  else (db.roomReactions.insert row).map (fun t => { db with roomReactions := t })

def Database.deleteReaction (db : Database) (key : RoomId × Int × Int × String) : Database :=
  { db with roomReactions := db.roomReactions.deleteWhere (fun r => r.key == key) }

def Database.insertReactionEvent (db : Database) (row : ReactionEventRow) :
    Except Sql.Error Database :=
  if !(reactionMeetsChecks row.targetEventId row.actorUserId row.reactionToken &&
      decide (0 < row.reactionEventId)) then .error .constraintFailed
  else (db.roomReactionEvents.insert row).map (fun t => { db with roomReactionEvents := t })

/-- `COALESCE(MAX(reaction_event_id), 0)`. -/
def maxReactionEventId (t : Table ReactionEventRow.key) (roomId : RoomId) : Int :=
  maxOrZero ((t.rows.filter (fun r => r.roomId == roomId)).map ReactionEventRow.reactionEventId)

/-- A sum past the integers is a real number, which is not read as an `i64`. -/
def nextReactionEventId (roomId : RoomId) : Txn Database ServerError Int := do
  let next ← query (fun db : Database => maxReactionEventId db.roomReactionEvents roomId + 1)
  if next > i64Max then abort (.sqlite .invalidColumnType) else pure next

def reactionRow (roomId : RoomId) (targetEventId : Int) (actorUserId : UserId)
    (token : ReactionToken) (now : Int) : ReactionRow :=
  { roomId
    targetEventId
    actorUserId := actorUserId.toNat
    reactionToken := token.asStr
    createdAt := now }

def reactionEventRow (roomId : RoomId) (reactionEventId targetEventId : Int) (actorUserId : UserId)
    (request : ReactionRequest) (now : Int) : ReactionEventRow :=
  { roomId
    reactionEventId
    targetEventId
    actorUserId := actorUserId.toNat
    reactionToken := request.token.asStr
    reactionAction := request.action.code
    atUnix := now
    retainedBytes :=
      (saturatingAdd Reactions.auditFixedRetainedBytes (tokenBytes request.token)).toNat }

variable (action : ReactionAction) (row : ReactionRow)

def changeActive : Txn Database ServerError Unit :=
  match action with
  | .add => sql (fun db => db.insertReaction row)
  | .remove => execute (fun db => db.deleteReaction row.key)

section
variable (roomId : RoomId) (actorUserId : UserId) (request : ReactionRequest)

/-- Write an admitted request. -/
def recordReaction (targetEventId now : Int) : Txn Database ServerError ReactionEvent := do
  changeActive request.action (reactionRow roomId targetEventId actorUserId request.token now)
  let reactionEventId ← nextReactionEventId roomId
  sql (fun db => db.insertReactionEvent
    (reactionEventRow roomId reactionEventId targetEventId actorUserId request now))
  pure
    { reactionEventId := reactionEventId.toNat
      targetEventId := request.targetEventId
      actorUserId
      token := request.token
      action := request.action
      atUnix := now }

/-! A request. -/

def applyReactionMutationAt (now : Int) : Txn Database ServerError ReactionMutationResult :=
  match toI64 request.targetEventId with
  | none => fail "reaction target event id does not fit SQLite"
  | some targetEventId => do
    let eligible ← query (fun db : Database => db.targetEligible roomId targetEventId)
    if !eligible then pure .targetUnavailable
    else
      let present ← query (fun db : Database =>
        db.hasReaction (reactionKey roomId targetEventId actorUserId request.token))
      let pruned ← Reactions.pruneExpiredAuditRows now
      if !Reactions.changes request.action present then pure .unchanged
      else
        let room ← Reactions.ensureAuditCapacity roomId (tokenBytes request.token)
          (Reactions.maxAuditPrunedPerMutation - pruned)
        if !room then pure .saturated
        else
          -- a refusal here commits what the audit table has lost
          let fits ← Reactions.activeHasRoom request.action roomId targetEventId actorUserId.toNat
            (tokenBytes request.token)
          if !fits then pure .saturated
          else
            let event ← recordReaction roomId actorUserId request targetEventId now
            pure (.changed event)

end

/-! What a request does. -/

/-- One more row is within the limits of the active table. -/
structure ActiveFits (t : Table key) (row : ReactionRow) : Prop where
  actorTarget : (t.rows.countP (fun r => r.roomId == row.roomId &&
    r.targetEventId == row.targetEventId && r.actorUserId == row.actorUserId) : Int) + 1 ≤
      Reactions.maxActiveTokensPerActorTarget
  target : (t.rows.countP (fun r => r.roomId == row.roomId &&
    r.targetEventId == row.targetEventId) : Int) + 1 ≤ Reactions.maxActiveRowsPerTarget
  roomRows : (t.rows.countP (fun r => r.roomId == row.roomId) : Int) + 1 ≤
    Reactions.maxActiveRowsPerRoom
  roomBytes : (((t.rows.filter (fun r => r.roomId == row.roomId)).map
    ReactionRow.retainedBytes).sum : Int) + row.retainedBytes ≤ Reactions.maxActiveBytesPerRoom
  rows : (t.rows.length : Int) + 1 ≤ Reactions.maxActiveRowsGlobal
  bytes : ((t.rows.map ReactionRow.retainedBytes).sum : Int) + row.retainedBytes ≤
    Reactions.maxActiveBytesGlobal

/-- The active table after a request that changes it. -/
def ActiveChange (old new : Table key) : Prop :=
  match action with
  | .add => ActiveFits old row ∧ new.rows = row :: old.rows ∧ ∀ r ∈ old.rows, r.key ≠ row.key
  | .remove => new = old.deleteWhere (fun r => r.key == row.key) ∧ ∃ r ∈ old.rows, r.key = row.key

/-- The bytes of the audit row of a request. -/
def reactionAuditBytes : Int :=
  saturatingAdd Reactions.auditFixedRetainedBytes (tokenBytes token)

/-- The most bytes an audit row retains: no token has more than 11. -/
def reactionAuditWidth : Nat := 44

/-- The audit table when room was made for a row, or was not. -/
def reactionRoom (db : Database) (roomId : RoomId) (token : ReactionToken) (now : Int) :
    Bool × Table ReactionEventRow.key :=
  reactionAudit.madeRoom (fun _ => true) roomId (reactionAuditBytes token)
    (reactionAudit.budget (fun _ => true) now db.roomReactionEvents)
    (reactionAudit.pruned (fun _ => true) now db.roomReactionEvents)

/-- All that a request may do. -/
inductive ReactionOutcome (db : Database) (roomId : RoomId) (actorUserId : UserId)
    (request : ReactionRequest) (now : Int) : ReactionMutationResult → Database → Prop where
  | unavailable (heligible : db.targetEligible roomId request.targetEventId = false) :
    ReactionOutcome db roomId actorUserId request now .targetUnavailable db
  | unchanged (heligible : db.targetEligible roomId request.targetEventId = true)
      (hsame : Reactions.changes request.action (db.hasReaction
        (reactionKey roomId request.targetEventId actorUserId request.token)) = false) :
    ReactionOutcome db roomId actorUserId request now .unchanged
      { db with roomReactionEvents :=
          reactionAudit.pruned (fun _ => true) now db.roomReactionEvents }
  | saturated (heligible : db.targetEligible roomId request.targetEventId = true)
      (hchanges : Reactions.changes request.action (db.hasReaction
        (reactionKey roomId request.targetEventId actorUserId request.token)) = true)
      (hfull : (reactionRoom db roomId request.token now).1 = false ∨ request.action = .add ∧
        ¬ActiveFits db.roomReactions
          (reactionRow roomId request.targetEventId actorUserId request.token now)) :
    ReactionOutcome db roomId actorUserId request now .saturated
      { db with roomReactionEvents := (reactionRoom db roomId request.token now).2 }
  | changed (heligible : db.targetEligible roomId request.targetEventId = true)
      (hchanges : Reactions.changes request.action (db.hasReaction
        (reactionKey roomId request.targetEventId actorUserId request.token)) = true)
      (hroom : (reactionRoom db roomId request.token now).1 = true) {id : Int}
      (hpos : 0 < id)
      (hid : id = maxReactionEventId (reactionRoom db roomId request.token now).2 roomId + 1)
      {active : Table key}
      (hactive : ActiveChange request.action
        (reactionRow roomId request.targetEventId actorUserId request.token now)
        db.roomReactions active)
      {events : Table ReactionEventRow.key}
      (hevents : events.rows =
        reactionEventRow roomId id request.targetEventId actorUserId request now ::
          (reactionRoom db roomId request.token now).2.rows) :
    ReactionOutcome db roomId actorUserId request now
      (.changed
        { reactionEventId := id.toNat
          targetEventId := request.targetEventId
          actorUserId
          token := request.token
          action := request.action
          atUnix := now })
      { db with roomReactions := active, roomReactionEvents := events }

section
variable {db db' : Database} {roomId : RoomId} {actorUserId : UserId} {request : ReactionRequest}
  {targetEventId now : Int}

theorem tokenBytes_le : tokenBytes token ≤ 11 := by
  cases token <;> decide

theorem reactionAuditBytes_eq : reactionAuditBytes token = 33 + tokenBytes token := by
  have := tokenBytes_le token
  unfold reactionAuditBytes saturatingAdd Reactions.auditFixedRetainedBytes i64Min i64Max
  omega

theorem reactionAuditBytes_le : reactionAuditBytes token ≤ (reactionAuditWidth : Nat) := by
  have := tokenBytes_le token
  rw [reactionAuditBytes_eq, reactionAuditWidth]
  omega

theorem reactionEventRow_narrow (roomId : RoomId) (id target : Int) (actorUserId : UserId)
    (request : ReactionRequest) (now : Int) :
    (reactionEventRow roomId id target actorUserId request now).retainedBytes ≤
      reactionAuditWidth := by
  have hbytes := reactionAuditBytes_le request.token
  show (reactionAuditBytes request.token).toNat ≤ reactionAuditWidth
  omega

theorem activeUsage_ok {room : Option RoomId} {u : Int × Int} :
    Reactions.activeUsage room db = .ok (u, db') ↔
      (((db.roomReactions.rows.filter (fun r => room.all (r.roomId == ·))).map
        ReactionRow.retainedBytes).sum : Int) ≤ i64Max ∧
      u = (((db.roomReactions.rows.filter (fun r => room.all (r.roomId == ·))).length : Int),
        (((db.roomReactions.rows.filter (fun r => room.all (r.roomId == ·))).map
          ReactionRow.retainedBytes).sum : Int)) ∧ db' = db := by
  rw [Reactions.activeUsage, query_bind, lift_ok, AuditLog.rowUsage_ok, and_assoc]

theorem activeBytes_eq :
    saturatingAdd Reactions.activeFixedRetainedBytes (tokenBytes token) = 24 + tokenBytes token := by
  have := tokenBytes_le token
  unfold saturatingAdd Reactions.activeFixedRetainedBytes i64Min i64Max
  omega

theorem activeAddHasCapacity_ok {token : ReactionToken} {b : Bool}
    (h : Reactions.activeAddHasCapacity roomId targetEventId actorUserId.toNat
      (tokenBytes token) db = .ok (b, db')) :
    db' = db ∧ (b = true ↔ ActiveFits db.roomReactions
      (reactionRow roomId targetEventId actorUserId token now)) := by
  rw [Reactions.activeAddHasCapacity, query_bind, query_bind] at h
  obtain ⟨room, db₁, hroom, h⟩ := bind_ok.mp h
  obtain ⟨_, rfl, rfl⟩ := activeUsage_ok.mp hroom
  obtain ⟨whole, db₂, hwhole, h⟩ := bind_ok.mp h
  obtain ⟨_, rfl, rfl⟩ := activeUsage_ok.mp hwhole
  obtain ⟨hb, rfl⟩ := pure_eq_ok h
  refine ⟨rfl, ?_⟩
  have hbytes : ((reactionRow roomId targetEventId actorUserId token now).retainedBytes :
      Int) = 24 + tokenBytes token := by
    rw [ReactionRow.retainedBytes]
    exact Int.natCast_add 24 _
  -- no limit is near `i64::MAX`, so saturation does not change a comparison
  have hlimit := @AuditLog.saturatingAdd_le_iff
  rw [hb, activeBytes_eq]
  simp only [Bool.and_eq_true, decide_eq_true_eq]
  rw [hlimit (by decide), hlimit (by decide), hlimit (by decide), hlimit (by decide),
    hlimit (by decide), hlimit (by decide), ← hbytes, ← List.countP_eq_length_filter,
    ← List.countP_eq_length_filter]
  simp only [Option.all_none, Option.all_some, List.filter_true, List.countP_true]
  constructor
  · intro ⟨⟨⟨⟨⟨h₁, h₂⟩, h₃⟩, h₄⟩, h₅⟩, h₆⟩
    exact ⟨h₁, h₂, h₃, h₄, h₅, h₆⟩
  · intro ⟨h₁, h₂, h₃, h₄, h₅, h₆⟩
    exact ⟨⟨⟨⟨⟨h₁, h₂⟩, h₃⟩, h₄⟩, h₅⟩, h₆⟩

theorem insertReaction_ok {row : ReactionRow} (h : db.insertReaction row = .ok db') :
    ∃ t, t.rows = row :: db.roomReactions.rows ∧ (∀ r ∈ db.roomReactions.rows, r.key ≠ row.key) ∧
      db' = { db with roomReactions := t } := by
  unfold Database.insertReaction at h
  split at h
  · cases h
  · obtain ⟨t, ht, rfl⟩ := Outcome.map_ok.mp h
    obtain ⟨hrows, hfresh⟩ := Table.insert_ok.mp ht
    exact ⟨t, hrows, hfresh, rfl⟩

theorem insertReactionEvent_ok {row : ReactionEventRow} (h : db.insertReactionEvent row = .ok db') :
    0 < row.reactionEventId ∧
    ∃ t, t.rows = row :: db.roomReactionEvents.rows ∧ db' = { db with roomReactionEvents := t } := by
  unfold Database.insertReactionEvent at h
  split at h
  · cases h
  · next hchecks =>
    obtain ⟨t, ht, rfl⟩ := Outcome.map_ok.mp h
    simp only [Bool.not_eq_true', Bool.not_eq_false, Bool.and_eq_true, decide_eq_true_eq] at hchecks
    exact ⟨hchecks.2, t, (Table.insert_ok.mp ht).1, rfl⟩

theorem nextReactionEventId_bind_ok {β : Type} {g : Int → Txn Database ServerError β}
    {r : β × Database} (h : (nextReactionEventId roomId >>= g) db = .ok r) :
    g (maxReactionEventId db.roomReactionEvents roomId + 1) db = .ok r := by
  obtain ⟨id, db₁, hid, h⟩ := bind_ok.mp h
  rw [nextReactionEventId, query_bind] at hid
  split at hid
  · exact (abort_ok.mp hid).elim
  · obtain ⟨rfl, rfl⟩ := pure_eq_ok hid
    exact h

/-- The active table after a request that may write it. -/
theorem changeActive_ok {action : ReactionAction} {row : ReactionRow} {x : Unit}
    (hfits : action = .add → ActiveFits db.roomReactions row)
    (hpresent : action = .remove → ∃ r ∈ db.roomReactions.rows, r.key = row.key)
    (h : changeActive action row db = .ok (x, db')) :
    ∃ active, ActiveChange action row db.roomReactions active ∧
      db' = { db with roomReactions := active } := by
  cases action with
  | add =>
    obtain ⟨db₁, hdb, he⟩ := Outcome.map_ok.mp h
    cases he
    obtain ⟨t, hrows, hfresh, rfl⟩ := insertReaction_ok (Outcome.mapError_ok.mp hdb)
    exact ⟨t, ⟨hfits rfl, hrows, hfresh⟩, rfl⟩
  | remove =>
    have h : (execute (fun db => db.deleteReaction row.key) : Txn Database ServerError Unit) db =
      .ok (x, db') := h
    cases execute_ok.mp h
    exact ⟨_, ⟨rfl, hpresent rfl⟩, rfl⟩

/-- An admitted request writes the active row or deletes it, and adds an audit row. -/
theorem recordReaction_ok {event : ReactionEvent}
    (hfits : request.action = .add → ActiveFits db.roomReactions
      (reactionRow roomId targetEventId actorUserId request.token now))
    (hpresent : request.action = .remove → ∃ r ∈ db.roomReactions.rows,
      r.key = reactionKey roomId targetEventId actorUserId request.token)
    (h : recordReaction roomId actorUserId request targetEventId now db = .ok (event, db')) :
    0 < maxReactionEventId db.roomReactionEvents roomId + 1 ∧
    ∃ (active : Table key) (events : Table ReactionEventRow.key),
      ActiveChange request.action (reactionRow roomId targetEventId actorUserId request.token now)
        db.roomReactions active ∧
      events.rows = reactionEventRow roomId (maxReactionEventId db.roomReactionEvents roomId + 1)
        targetEventId actorUserId request now :: db.roomReactionEvents.rows ∧
      db' = { db with roomReactions := active, roomReactionEvents := events } ∧
      event =
        { reactionEventId := (maxReactionEventId db.roomReactionEvents roomId + 1).toNat
          targetEventId := request.targetEventId
          actorUserId
          token := request.token
          action := request.action
          atUnix := now } := by
  obtain ⟨_, db₁, hactive, h⟩ := bind_ok.mp h
  obtain ⟨active, hchange, rfl⟩ := changeActive_ok hfits hpresent hactive
  obtain ⟨db₂, hinsert, h⟩ := sql_bind_ok.mp (nextReactionEventId_bind_ok h)
  obtain ⟨hpos, events, hevents, rfl⟩ := insertReactionEvent_ok hinsert
  obtain ⟨rfl, rfl⟩ := pure_eq_ok h
  exact ⟨hpos, active, events, hchange, hevents, rfl, rfl⟩

theorem hasReaction_iff {key : RoomId × Int × Int × String} :
    db.hasReaction key = true ↔ ∃ r ∈ db.roomReactions.rows, r.key = key := by
  rw [Database.hasReaction, Option.isSome_iff_exists]
  exact exists_congr fun r => Table.find?_eq_some

theorem activeHasRoom_ok (now : Int) {b : Bool}
    (h : Reactions.activeHasRoom request.action roomId targetEventId actorUserId.toNat
      (tokenBytes request.token) db = .ok (b, db')) :
    db' = db ∧ (b = true ↔ (request.action = .add → ActiveFits db.roomReactions
      (reactionRow roomId targetEventId actorUserId request.token now))) := by
  cases haction : request.action with
  | add =>
    rw [haction] at h
    obtain ⟨hdb, hb⟩ := activeAddHasCapacity_ok h
    exact ⟨hdb, hb.trans ⟨fun hf _ => hf, fun hf => hf rfl⟩⟩
  | remove =>
    rw [haction] at h
    obtain ⟨rfl, rfl⟩ := pure_eq_ok h
    exact ⟨rfl, iff_of_true rfl fun hadd => by cases hadd⟩

/-- A request that ends well has one of the outcomes. -/
theorem applyReaction_outcome {result : ReactionMutationResult}
    (h : applyReactionMutationAt roomId actorUserId request now db = .ok (result, db')) :
    ReactionOutcome db roomId actorUserId request now result db' := by
  unfold applyReactionMutationAt at h
  cases htarget : toI64 request.targetEventId with
  | none =>
    simp only [htarget] at h
    exact (fail_ok.mp h).elim
  | some target =>
    obtain ⟨rfl, _⟩ := toI64_some.mp htarget
    simp only [htarget, query_bind] at h
    cases heligible : db.targetEligible roomId request.targetEventId with
    | false =>
      simp only [heligible, Bool.not_false, if_true] at h
      obtain ⟨rfl, rfl⟩ := pure_eq_ok h
      exact .unavailable heligible
    | true =>
      simp only [heligible, Bool.not_true, Bool.false_eq_true, if_false, query_bind] at h
      rw [Reactions.pruneExpiredAuditRows, bind_run AuditLog.pruneExpired_eq] at h
      cases hchanges : Reactions.changes request.action (db.hasReaction
          (reactionKey roomId request.targetEventId actorUserId request.token)) with
      | false =>
        simp only [hchanges, Bool.not_false, if_true] at h
        obtain ⟨rfl, rfl⟩ := pure_eq_ok h
        exact .unchanged heligible hchanges
      | true =>
        simp only [hchanges, Bool.not_true, Bool.false_eq_true, if_false] at h
        -- room is made in the audit table before the active limits are checked
        obtain ⟨room, db₁, hensure, h⟩ := bind_ok.mp h
        obtain ⟨_, hroom, hdb₁⟩ := (AuditLog.ensureCapacity_ok fun _ _ => rfl).mp hensure
        replace hroom : room = (reactionRoom db roomId request.token now).1 := hroom
        replace hdb₁ : db₁ = { db with roomReactionEvents :=
          (reactionRoom db roomId request.token now).2 } := hdb₁
        subst hdb₁
        cases room with
        | false =>
          obtain ⟨rfl, rfl⟩ := pure_eq_ok h
          exact .saturated heligible hchanges (.inl hroom.symm)
        | true =>
          obtain ⟨fits, db₂, hactive, h⟩ := bind_ok.mp h
          obtain ⟨rfl, hfits⟩ := activeHasRoom_ok now hactive
          cases fits with
          | false =>
            obtain ⟨rfl, rfl⟩ := pure_eq_ok h
            have hfull := mt hfits.mpr Bool.false_ne_true
            exact .saturated heligible hchanges (.inr (Classical.not_imp.mp hfull))
          | true =>
            obtain ⟨event, db₃, hrecord, h⟩ := bind_ok.mp h
            obtain ⟨rfl, rfl⟩ := pure_eq_ok h
            have hpresent : request.action = .remove → ∃ r ∈ db.roomReactions.rows,
                r.key = reactionKey roomId request.targetEventId actorUserId request.token := by
              intro haction
              rw [haction] at hchanges
              exact hasReaction_iff.mp hchanges
            obtain ⟨hpos, active, events, hchange, hevents, rfl, rfl⟩ :=
              recordReaction_ok (hfits.mp rfl) hpresent hrecord
            exact .changed heligible hchanges hroom.symm hpos rfl hchange hevents

end
end Omen.Server
