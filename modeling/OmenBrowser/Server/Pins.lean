import OmenBrowser.Server.Reactions

/- Pins of room events (`server/src/store/pins.rs`).

   A room has at most one pin for a target. A request that pins or unpins prunes the audit table
   for age, checks the active limits if it pins, makes room in the audit table, and adds an audit
   row; a pin refers to its audit row by the id of that row. Audit rows of active pins are not
   pruned, but the one of a pin that is about to go may be. `room_pin_events` has an
   `AUTOINCREMENT` key: SQLite keeps the largest id it ever gave in `sqlite_sequence`.

   Correspondence (Rust/SQL ↔ Lean):
     the row of `sqlite_sequence`                 ↔ `SequencedDatabase.pinSequence`
     the query for `target_eligible`              ↔ `Database.pinEligible`
     `NOT EXISTS(SELECT 1 FROM room_pins ..)`     ↔ `Database.isPrunable`, `Database.isReleasable`
     the statements after the capacity checks     ↔ `recordPin`
   `pin_snapshot` reads only and is not modelled. -/
namespace Omen.Server
open Wire Sql Ints Omen.Protocol Txn

def maxActivePinsPerRoom : Int := 64
def maxActivePinsGlobal : Int := 4096
def maxActivePinBytesGlobal : Int := 1024 * 1024
def maxPinAuditRowsPerRoom : Int := 1024
def maxPinAuditBytesPerRoom : Int := 256 * 1024
def maxPinAuditRowsGlobal : Int := 16384
def maxPinAuditBytesGlobal : Int := 4 * 1024 * 1024
def pinAuditRetentionAgeSeconds : Int := 180 * 24 * 60 * 60
def maxPinAuditPrunedPerMutation : Nat := 64
def activePinRetainedBytes : Nat := 32
def pinAuditRetainedBytes : Nat := 41

inductive PinMutationResult where
  | changed (event : PinEvent)
  | unchanged
  | targetUnavailable
  | saturated
  deriving DecidableEq, Repr

/-- The tables, and the largest id `room_pin_events` ever gave. -/
structure SequencedDatabase where
  database : Database
  pinSequence : Int

def onDatabase {α : Type} (x : Txn Database ServerError α) : Txn SequencedDatabase ServerError α :=
  zoom SequencedDatabase.database (fun db s => { s with database := db }) x

def pinAudit : AuditLog PinEventRow.pinEventId where
  table := Database.roomPinEvents
  put t db := { db with roomPinEvents := t }
  roomId := PinEventRow.roomId
  eventId := PinEventRow.pinEventId
  atUnix := PinEventRow.atUnix
  retainedBytes := PinEventRow.retainedBytes
  retentionAgeSeconds := pinAuditRetentionAgeSeconds
  maxPrunedPerMutation := maxPinAuditPrunedPerMutation
  maxRowsPerRoom := maxPinAuditRowsPerRoom
  maxBytesPerRoom := maxPinAuditBytesPerRoom
  maxRowsGlobal := maxPinAuditRowsGlobal
  maxBytesGlobal := maxPinAuditBytesGlobal
  table_put _ _ := rfl
  put_table := Eq.refl
  put_put _ _ _ := rfl
  limits := by decide

/-! Reading the tables. -/

def Database.pin? (db : Database) (roomId : RoomId) (targetEventId : Int) : Option PinRow :=
  db.roomPins.find? (roomId, targetEventId)

/-- `revision_action = 2`. -/
def Database.isTombstoned (db : Database) (roomId : RoomId) (eventId : Int) : Bool :=
  (db.roomMessageRevisionState.find? (roomId, eventId)).any (fun r => r.revisionAction == 2)

def Database.pinEligible (db : Database) (roomId : RoomId) (eventId : Int) : Bool :=
  db.targetEligible roomId eventId && !db.isTombstoned roomId eventId

/-- No active pin refers to the audit row. -/
def Database.isPrunable (db : Database) (r : PinEventRow) : Bool :=
  !db.roomPins.rows.any (fun p => p.pinEventId == r.pinEventId)

/-- No active pin refers to the audit row, or only the one that is about to go. -/
def Database.isReleasable (releasable : Option Int) (db : Database) (r : PinEventRow) : Bool :=
  db.isPrunable r || releasable == some r.pinEventId

def activePinAddHasCapacity (roomId : RoomId) : Txn Database ServerError Bool := do
  let roomRows ← query (fun db : Database =>
    db.roomPins.rows.countP (fun p => p.roomId == roomId))
  let pins ← query (fun db : Database => db.roomPins.rows)
  let whole ← lift (rowUsage PinRow.retainedBytes pins)
  pure (decide (saturatingAdd roomRows 1 ≤ maxActivePinsPerRoom) &&
    decide (saturatingAdd whole.1 1 ≤ maxActivePinsGlobal) &&
    decide (saturatingAdd whole.2 activePinRetainedBytes ≤ maxActivePinBytesGlobal))

def pruneExpiredPinAudit (now : Int) : Txn Database ServerError Nat :=
  pinAudit.pruneExpired Database.isPrunable now

def ensurePinAuditCapacity (roomId : RoomId) (releasable : Option Int) (left : Nat) :
    Txn Database ServerError Bool :=
  pinAudit.ensureCapacity (Database.isReleasable releasable) roomId pinAuditRetainedBytes left

variable (action : PinAction)

/-- Only a pin needs room in the active table. -/
def pinHasRoom (roomId : RoomId) : Txn Database ServerError Bool :=
  match action with
  | .pin => activePinAddHasCapacity roomId
  | .unpin => pure true

variable (current : Option PinRow)

def pinChanges : Bool :=
  match action with
  | .pin => current.isNone
  | .unpin => current.isSome

/-- The target of a pin must be eligible, the one of an unpin must be so or be pinned. -/
def pinTargetAvailable (eligible : Bool) : Bool :=
  match action with
  | .pin => eligible
  | .unpin => current.isSome || eligible

/-- The audit row that may go with its pin. -/
def releasablePinEventId : Option Int :=
  match action with
  | .pin => none
  | .unpin => current.map PinRow.pinEventId

/-! Writing. -/

/-- The id `AUTOINCREMENT` gives next: larger than any the table has or had. -/
def SequencedDatabase.nextPinEventId (s : SequencedDatabase) : Int :=
  max s.pinSequence (maxOrZero (s.database.roomPinEvents.rows.map PinEventRow.pinEventId)) + 1

def PinEventRow.meetsChecks (r : PinEventRow) : Bool :=
  decide (0 < r.targetEventId) && decide (0 < r.actorUserId) && decide (r.pinAction = 1 ∨ r.pinAction = 2) &&
  decide (0 ≤ r.atUnix)

/-- `INSERT INTO room_pin_events`; fails when the ids are used up. -/
def SequencedDatabase.insertPinEvent (s : SequencedDatabase) (row : Int → PinEventRow) :
    Except Sql.Error (Int × SequencedDatabase) :=
  let id := s.nextPinEventId
  if id > i64Max then .error .databaseFull
  else if !(row id).meetsChecks then .error .constraintFailed
  else (s.database.roomPinEvents.insert (row id)).map (fun t =>
    (id, { database := { s.database with roomPinEvents := t }, pinSequence := id }))

def PinRow.meetsChecks (r : PinRow) : Bool :=
  decide (0 < r.targetEventId) && decide (0 < r.pinEventId) && decide (0 < r.actorUserId) &&
  decide (0 ≤ r.pinnedAt)

/-- `INSERT INTO room_pins`, with `UNIQUE(pin_event_id)`. -/
def Database.insertPin (db : Database) (row : PinRow) : Except Sql.Error Database :=
  if !row.meetsChecks then .error .constraintFailed
  else if db.roomPins.rows.any (fun p => p.pinEventId == row.pinEventId) then
    .error .constraintFailed
  else (db.roomPins.insert row).map (fun t => { db with roomPins := t })

/-- `DELETE FROM room_pins`, with its row count. -/
def deletePin (roomId : RoomId) (targetEventId : Int) : Txn Database ServerError Nat := do
  let deleted ← query (fun db : Database =>
    db.roomPins.rows.countP (fun p => p.key == (roomId, targetEventId)))
  execute (fun db : Database => { db with
    roomPins := db.roomPins.deleteWhere (fun p => p.key == (roomId, targetEventId)) })
  pure deleted

variable (row : PinRow)

def changePin : Txn Database ServerError Unit :=
  match action with
  | .pin => sql (fun db => db.insertPin row)
  | .unpin => do
    let deleted ← deletePin row.roomId row.targetEventId
    require (deleted = 1) "pin state changed during mutation"

def pinEventRow (roomId : RoomId) (targetEventId : Int) (actorUserId : UserId) (action : PinAction)
    (now pinEventId : Int) : PinEventRow :=
  { pinEventId
    roomId
    targetEventId
    actorUserId := actorUserId.toNat
    pinAction := action.code
    atUnix := now
    retainedBytes := pinAuditRetainedBytes }

def pinRow (roomId : RoomId) (targetEventId : Int) (actorUserId : UserId) (now pinEventId : Int) :
    PinRow :=
  { roomId
    targetEventId
    pinEventId
    actorUserId := actorUserId.toNat
    pinnedAt := now
    retainedBytes := activePinRetainedBytes }

/-- Write an admitted request. -/
def recordPin (roomId : RoomId) (actorUserId : UserId) (request : PinRequest)
    (targetEventId now : Int) : Txn SequencedDatabase ServerError PinEvent := do
  let pinEventId ← statement (fun s : SequencedDatabase =>
    (s.insertPinEvent (pinEventRow roomId targetEventId actorUserId request.action now)).mapError
      ServerError.sqlite)
  require (0 < pinEventId) "pin event identifier space is exhausted"
  onDatabase (changePin request.action (pinRow roomId targetEventId actorUserId now pinEventId))
  pure
    { pinEventId := pinEventId.toNat
      targetEventId := request.targetEventId
      action := request.action
      actorUserId
      atUnix := now }

/-! A request. -/

def applyPinMutationAt (roomId : RoomId) (actorUserId : UserId) (request : PinRequest) (now : Int) :
    Txn SequencedDatabase ServerError PinMutationResult :=
  if actorUserId = 0 then fail "pin actor user id must be nonzero"
  else
    match toI64 request.targetEventId with
    | none => fail "pin target event id does not fit SQLite"
    | some targetEventId => do
      let current ← query (fun s : SequencedDatabase => s.database.pin? roomId targetEventId)
      let eligible ← query (fun s : SequencedDatabase =>
        s.database.pinEligible roomId targetEventId)
      if !pinTargetAvailable request.action current eligible then pure .targetUnavailable
      else
        let pruned ← onDatabase (pruneExpiredPinAudit now)
        if !pinChanges request.action current then pure .unchanged
        else
          -- an unpin is not held against the active limits
          let fits ← onDatabase (pinHasRoom request.action roomId)
          if !fits then pure .saturated
          else
            -- the audit row of a pin that is about to go may be released for its own
            let room ← onDatabase (ensurePinAuditCapacity roomId
              (releasablePinEventId request.action current) (maxPinAuditPrunedPerMutation - pruned))
            if !room then pure .saturated
            else
              let event ← recordPin roomId actorUserId request targetEventId now
              pure (.changed event)

/-! What a request does. -/

/-- One more pin is within the limits of the active table. -/
structure PinFits (t : Table PinRow.key) (roomId : RoomId) : Prop where
  room : (t.rows.countP (fun p => p.roomId == roomId) : Int) + 1 ≤ maxActivePinsPerRoom
  rows : (t.rows.length : Int) + 1 ≤ maxActivePinsGlobal
  bytes : ((t.rows.map PinRow.retainedBytes).sum : Int) + activePinRetainedBytes ≤
    maxActivePinBytesGlobal

/-- The active table after a request that changes it. -/
def PinChange (old new : Table PinRow.key) : Prop :=
  match action with
  | .pin => PinFits old row.roomId ∧ new.rows = row :: old.rows ∧
      (∀ p ∈ old.rows, p.key ≠ row.key) ∧ ∀ p ∈ old.rows, p.pinEventId ≠ row.pinEventId
  | .unpin => new = old.deleteWhere (fun p => p.key == row.key) ∧ ∃ p ∈ old.rows, p.key = row.key

/-- The audit table without the rows past the retention age that one request prunes. -/
def prunedPinAudit (db : Database) (now : Int) : Table PinEventRow.pinEventId :=
  pinAudit.pruned db.isPrunable now db.roomPinEvents

section
variable (db : Database) (roomId : RoomId)

/-- The audit table when room was made for a row, or was not. -/
def pinRoom (releasable : Option Int) (now : Int) : Bool × Table PinEventRow.pinEventId :=
  pinAudit.madeRoom (Database.isReleasable releasable db) roomId pinAuditRetainedBytes
    (pinAudit.budget db.isPrunable now db.roomPinEvents) (prunedPinAudit db now)

/-- The request is available and changes the active table. -/
structure PinAdmitted (request : PinRequest) : Prop where
  available : pinTargetAvailable request.action (db.pin? roomId request.targetEventId)
    (db.pinEligible roomId request.targetEventId) = true
  changes : pinChanges request.action (db.pin? roomId request.targetEventId) = true

/-- The audit row a request may release. -/
def releasedBy (request : PinRequest) : Option Int :=
  releasablePinEventId request.action (db.pin? roomId request.targetEventId)

end

/-- All that a request may do. -/
inductive PinOutcome (s : SequencedDatabase) (roomId : RoomId) (actorUserId : UserId)
    (request : PinRequest) (now : Int) : PinMutationResult → SequencedDatabase → Prop where
  | unavailable (h : pinTargetAvailable request.action (s.database.pin? roomId request.targetEventId)
      (s.database.pinEligible roomId request.targetEventId) = false) :
    PinOutcome s roomId actorUserId request now .targetUnavailable s
  | unchanged (havailable : pinTargetAvailable request.action
        (s.database.pin? roomId request.targetEventId)
        (s.database.pinEligible roomId request.targetEventId) = true)
      (hsame : pinChanges request.action (s.database.pin? roomId request.targetEventId) = false) :
    PinOutcome s roomId actorUserId request now .unchanged
      { s with database := { s.database with roomPinEvents := prunedPinAudit s.database now } }
  | activeFull (hadmitted : PinAdmitted s.database roomId request) (hpin : request.action = .pin)
      (hfull : ¬PinFits s.database.roomPins roomId) :
    PinOutcome s roomId actorUserId request now .saturated
      { s with database := { s.database with roomPinEvents := prunedPinAudit s.database now } }
  | auditFull (hadmitted : PinAdmitted s.database roomId request)
      (hfits : request.action = .pin → PinFits s.database.roomPins roomId)
      (hfull : (pinRoom s.database roomId (releasedBy s.database roomId request) now).1 = false) :
    PinOutcome s roomId actorUserId request now .saturated
      { s with database := { s.database with roomPinEvents :=
          (pinRoom s.database roomId (releasedBy s.database roomId request) now).2 } }
  | changed (hadmitted : PinAdmitted s.database roomId request)
      (hroom : (pinRoom s.database roomId (releasedBy s.database roomId request) now).1 = true)
      {id : Int}
      (hid : id = max s.pinSequence (maxOrZero ((pinRoom s.database roomId
        (releasedBy s.database roomId request) now).2.rows.map PinEventRow.pinEventId)) + 1)
      (hpos : 0 < id)
      {pins : Table PinRow.key}
      (hpins : PinChange request.action (pinRow roomId request.targetEventId actorUserId now id)
        s.database.roomPins pins)
      {events : Table PinEventRow.pinEventId}
      (hevents : events.rows =
        pinEventRow roomId request.targetEventId actorUserId request.action now id ::
          (pinRoom s.database roomId (releasedBy s.database roomId request) now).2.rows) :
    PinOutcome s roomId actorUserId request now
      (.changed
        { pinEventId := id.toNat
          targetEventId := request.targetEventId
          action := request.action
          actorUserId
          atUnix := now })
      { database := { s.database with roomPins := pins, roomPinEvents := events }
        pinSequence := id }

section
variable {s s' : SequencedDatabase} {db db' : Database} {roomId : RoomId} {actorUserId : UserId}
  {request : PinRequest} {targetEventId now : Int}

theorem onDatabase_bind_ok {α β : Type} {x : Txn Database ServerError α}
    {g : α → Txn SequencedDatabase ServerError β} {r : β × SequencedDatabase} :
    (onDatabase x >>= g) s = .ok r ↔
      ∃ a db', x s.database = .ok (a, db') ∧ g a { s with database := db' } = .ok r := by
  rw [bind_ok]
  constructor
  · intro ⟨a, s₁, hx, hg⟩
    obtain ⟨db', hdb, hs⟩ := zoom_ok.mp hx
    exact ⟨a, db', hdb, hs ▸ hg⟩
  · intro ⟨a, db', hx, hg⟩
    exact ⟨a, _, zoom_ok.mpr ⟨db', hx, rfl⟩, hg⟩

theorem activePinAddHasCapacity_ok {b : Bool}
    (h : activePinAddHasCapacity roomId db = .ok (b, db')) :
    db' = db ∧ (b = true ↔ PinFits db.roomPins roomId) := by
  have hlimit := @AuditLog.saturatingAdd_le_iff
  rw [activePinAddHasCapacity, query_bind, query_bind] at h
  obtain ⟨whole, hwhole, h⟩ := lift_bind_ok.mp h
  obtain ⟨_, rfl⟩ := AuditLog.rowUsage_ok.mp hwhole
  obtain ⟨hb, rfl⟩ := pure_eq_ok h
  refine ⟨rfl, ?_⟩
  rw [hb]
  simp only [Bool.and_eq_true, decide_eq_true_eq]
  rw [hlimit (by decide), hlimit (by decide), hlimit (by decide)]
  constructor
  · intro ⟨⟨h₁, h₂⟩, h₃⟩
    exact ⟨h₁, h₂, h₃⟩
  · intro ⟨h₁, h₂, h₃⟩
    exact ⟨⟨h₁, h₂⟩, h₃⟩

theorem pinHasRoom_ok {b : Bool} (h : pinHasRoom request.action roomId db = .ok (b, db')) :
    db' = db ∧ (b = true ↔ (request.action = .pin → PinFits db.roomPins roomId)) := by
  cases haction : request.action with
  | pin =>
    rw [haction] at h
    obtain ⟨hdb, hb⟩ := activePinAddHasCapacity_ok h
    exact ⟨hdb, hb.trans ⟨fun hf _ => hf, fun hf => hf rfl⟩⟩
  | unpin =>
    rw [haction] at h
    obtain ⟨rfl, rfl⟩ := pure_eq_ok h
    exact ⟨rfl, iff_of_true rfl fun hpin => by cases hpin⟩

theorem insertPin_ok {row : PinRow} (h : db.insertPin row = .ok db') :
    ∃ t, t.rows = row :: db.roomPins.rows ∧ (∀ p ∈ db.roomPins.rows, p.key ≠ row.key) ∧
      (∀ p ∈ db.roomPins.rows, p.pinEventId ≠ row.pinEventId) ∧ db' = { db with roomPins := t } := by
  unfold Database.insertPin at h
  split at h
  · cases h
  · split at h
    · cases h
    · next hunique =>
      obtain ⟨t, ht, rfl⟩ := Outcome.map_ok.mp h
      obtain ⟨hrows, hfresh⟩ := Table.insert_ok.mp ht
      refine ⟨t, hrows, hfresh, ?_, rfl⟩
      intro p hp hid
      exact hunique (List.any_eq_true.mpr ⟨p, hp, beq_iff_eq.mpr hid⟩)

theorem changePin_ok {action : PinAction} {row : PinRow} {x : Unit}
    (hfits : action = .pin → PinFits db.roomPins row.roomId)
    (hpresent : action = .unpin → ∃ p ∈ db.roomPins.rows, p.key = row.key)
    (h : changePin action row db = .ok (x, db')) :
    ∃ pins, PinChange action row db.roomPins pins ∧ db' = { db with roomPins := pins } := by
  cases action with
  | pin =>
    obtain ⟨db₁, hdb, he⟩ := Outcome.map_ok.mp h
    cases he
    obtain ⟨t, hrows, hkeys, hids, rfl⟩ := insertPin_ok (Outcome.mapError_ok.mp hdb)
    exact ⟨t, ⟨hfits rfl, hrows, hkeys, hids⟩, rfl⟩
  | unpin =>
    obtain ⟨n, db₁, hdelete, h⟩ := bind_ok.mp h
    rw [deletePin, query_bind, execute_bind] at hdelete
    obtain ⟨rfl, rfl⟩ := pure_eq_ok hdelete
    unfold require at h
    split at h
    · obtain ⟨_, rfl⟩ := pure_eq_ok h
      exact ⟨_, ⟨rfl, hpresent rfl⟩, rfl⟩
    · exact (fail_ok.mp h).elim

theorem insertPinEvent_ok {row : Int → PinEventRow} {id : Int}
    (h : s.insertPinEvent row = .ok (id, s')) :
    id = s.nextPinEventId ∧ ∃ t, t.rows = row id :: s.database.roomPinEvents.rows ∧
      s' = { database := { s.database with roomPinEvents := t }, pinSequence := id } := by
  unfold SequencedDatabase.insertPinEvent at h
  dsimp only at h
  split at h
  · cases h
  · split at h
    · cases h
    · obtain ⟨t, ht, he⟩ := Outcome.map_ok.mp h
      cases he
      exact ⟨rfl, t, (Table.insert_ok.mp ht).1, rfl⟩

theorem pin?_eq_some {p : PinRow} :
    db.pin? roomId targetEventId = some p ↔ p ∈ db.roomPins.rows ∧ p.key = (roomId, targetEventId) :=
  Table.find?_eq_some

/-- An admitted request adds an audit row, and writes the pin that refers to it or deletes one. -/
theorem recordPin_ok {event : PinEvent}
    (h : recordPin roomId actorUserId request targetEventId now s = .ok (event, s'))
    (hfits : request.action = .pin → PinFits s.database.roomPins roomId)
    (hpresent : request.action = .unpin →
      ∃ p ∈ s.database.roomPins.rows, p.key = (roomId, targetEventId)) :
    0 < s.nextPinEventId ∧
    ∃ (pins : Table PinRow.key) (events : Table PinEventRow.pinEventId),
      PinChange request.action (pinRow roomId targetEventId actorUserId now s.nextPinEventId)
        s.database.roomPins pins ∧
      events.rows = pinEventRow roomId targetEventId actorUserId request.action now
        s.nextPinEventId :: s.database.roomPinEvents.rows ∧
      s' =
        { database := { s.database with roomPins := pins, roomPinEvents := events }
          pinSequence := s.nextPinEventId } ∧
      event =
        { pinEventId := s.nextPinEventId.toNat
          targetEventId := request.targetEventId
          action := request.action
          actorUserId
          atUnix := now } := by
  obtain ⟨id, s₁, hinsert, h⟩ := bind_ok.mp h
  obtain ⟨rfl, events, hevents, rfl⟩ := insertPinEvent_ok (Outcome.mapError_ok.mp hinsert)
  obtain ⟨hpos, h⟩ := require_bind_ok.mp h
  obtain ⟨_, db₁, hchange, h⟩ := onDatabase_bind_ok.mp h
  obtain ⟨pins, hpins, rfl⟩ := changePin_ok hfits hpresent hchange
  obtain ⟨rfl, rfl⟩ := pure_eq_ok h
  exact ⟨hpos, pins, events, hpins, hevents, rfl, rfl⟩

/-- A request that ends well has one of the outcomes. -/
theorem applyPin_outcome {result : PinMutationResult}
    (h : applyPinMutationAt roomId actorUserId request now s = .ok (result, s')) :
    PinOutcome s roomId actorUserId request now result s' := by
  unfold applyPinMutationAt at h
  split at h
  · exact (fail_ok.mp h).elim
  cases htarget : toI64 request.targetEventId with
  | none =>
    simp only [htarget] at h
    exact (fail_ok.mp h).elim
  | some target =>
    obtain ⟨rfl, _⟩ := toI64_some.mp htarget
    simp only [htarget, query_bind] at h
    cases havailable : pinTargetAvailable request.action
        (s.database.pin? roomId request.targetEventId)
        (s.database.pinEligible roomId request.targetEventId) with
    | false =>
      simp only [havailable, Bool.not_false, if_true] at h
      obtain ⟨rfl, rfl⟩ := pure_eq_ok h
      exact .unavailable havailable
    | true =>
      simp only [havailable, Bool.not_true, Bool.false_eq_true, if_false] at h
      -- from here on the rows past the age are gone, whatever the result
      obtain ⟨pruned, db₁, hprune, h⟩ := onDatabase_bind_ok.mp h
      cases (AuditLog.pruneExpired_eq.symm.trans hprune)
      cases hchanges : pinChanges request.action (s.database.pin? roomId request.targetEventId) with
      | false =>
        simp only [hchanges, Bool.not_false, if_true] at h
        obtain ⟨rfl, rfl⟩ := pure_eq_ok h
        exact .unchanged havailable hchanges
      | true =>
        have hadmitted : PinAdmitted s.database roomId request := ⟨havailable, hchanges⟩
        simp only [hchanges, Bool.not_true, Bool.false_eq_true, if_false] at h
        obtain ⟨fits, db₂, hactive, h⟩ := onDatabase_bind_ok.mp h
        obtain ⟨rfl, hfits⟩ := pinHasRoom_ok hactive
        cases fits with
        | false =>
          obtain ⟨rfl, rfl⟩ := pure_eq_ok h
          obtain ⟨hpin, hfull⟩ := Classical.not_imp.mp (mt hfits.mpr Bool.false_ne_true)
          exact .activeFull hadmitted hpin hfull
        | true =>
          -- the active limits are met: only the audit table may still be full
          obtain ⟨room, db₃, hensure, h⟩ := onDatabase_bind_ok.mp h
          obtain ⟨_, hroom, hdb₃⟩ := (AuditLog.ensureCapacity_ok fun _ _ => rfl).mp hensure
          replace hroom : room = (pinRoom s.database roomId
            (releasedBy s.database roomId request) now).1 := hroom
          replace hdb₃ : db₃ = { s.database with roomPinEvents :=
            (pinRoom s.database roomId (releasedBy s.database roomId request) now).2 } := hdb₃
          subst hdb₃
          cases room with
          | false =>
            obtain ⟨rfl, rfl⟩ := pure_eq_ok h
            exact .auditFull hadmitted (hfits.mp rfl) hroom.symm
          | true =>
            obtain ⟨event, s₁, hrecord, h⟩ := bind_ok.mp h
            obtain ⟨rfl, rfl⟩ := pure_eq_ok h
            have hpresent : request.action = .unpin → ∃ p ∈ s.database.roomPins.rows,
                p.key = (roomId, (request.targetEventId : Int)) := by
              intro haction
              rw [haction] at hchanges
              obtain ⟨p, hp⟩ := Option.isSome_iff_exists.mp hchanges
              exact ⟨p, pin?_eq_some.mp hp⟩
            obtain ⟨hpos, pins, events, hpins, hevents, rfl, rfl⟩ :=
              recordPin_ok hrecord (hfits.mp rfl) hpresent
            exact .changed hadmitted hroom.symm rfl hpos hpins hevents

end
end Omen.Server
