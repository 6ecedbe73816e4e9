import OmenBrowser.Lib.Pruning
import OmenBrowser.Server.Events

/- Slow mode of a room (`server/src/store/slow_mode.rs`).

   A room with an interval keeps, for each user that published in it, the time before which
   the user may not publish again. An admission reads the deadline of the user, prunes a
   batch of deadlines that have passed, checks the number of rows if it has to add one, and
   writes the new deadline; a publication is an admission with the event it admits, in one
   transaction.

   Correspondence (Rust/SQL ↔ Lean):
     the columns of `rooms` that are read         ↔ `RoomPolicyRow`
     `room_slow_mode_admissions`                  ↔ `PublicationTables.admissions`
     `rowid IN (SELECT .. ORDER BY .. LIMIT ..)`  ↔ `Table.batch`, `Table.deleteRows`
     the statements after the capacity check      ↔ `recordAdmission`
   `joined_at` and `last_seen_at` of a membership are left out. -/
namespace Omen.Server
open Wire Sql Ints Omen.Protocol

def roomSlowModeMaxSeconds : UInt32 := 86400
def slowModeAdmissionMaxPerRoom : Nat := 4096
def slowModeAdmissionMaxGlobal : Nat := 16384
def slowModeAdmissionPruneBatch : Nat := 64

inductive SlowModeAdmission where
  | disabled
  | admitted (notBeforeUnix : Int) (pruned : Nat)
  | rejected (retryAfterSeconds : UInt32)
  | roomNotFound
  | saturated
  deriving DecidableEq, Repr

inductive SlowModeRoomPublication where
  | stored (event : ServerRoomEvent) (admission : SlowModeAdmission)
  | rejected (retryAfterSeconds : UInt32)
  | roomNotFound
  | saturated

structure SlowModeLimits where
  perRoom : Nat
  global : Nat
  pruneBatch : Nat

def slowModeProductionLimits : SlowModeLimits :=
  { perRoom := slowModeAdmissionMaxPerRoom
    global := slowModeAdmissionMaxGlobal
    pruneBatch := slowModeAdmissionPruneBatch }

/-! Tables. -/

structure RoomPolicyRow where
  roomId : RoomId
  archived : Bool
  slowModeSeconds : Int
  roomRevision : Nat

structure AdmissionRow where
  roomId : RoomId
  userId : UserId
  notBeforeUnix : Int
  updatedAt : Int

variable (r : AdmissionRow)

def AdmissionRow.key : RoomId × UserId := (r.roomId, r.userId)

/-- `ORDER BY not_before_unix, room_id, user_id`. -/
def AdmissionRow.compareExpiry (a b : AdmissionRow) : Ordering :=
  (compare a.notBeforeUnix b.notBeforeUnix).then
    ((compare a.roomId b.roomId).then (compare a.userId.toNat b.userId.toNat))

def AdmissionRow.expired (now : Int) (r : AdmissionRow) : Bool := decide (r.notBeforeUnix ≤ now)

variable (roomId : RoomId) (userId : UserId)

/-- The row an admission writes. -/
def AdmissionRow.admitted (now notBeforeUnix : Int) : AdmissionRow :=
  { roomId
    userId
    notBeforeUnix
    updatedAt := now }

/-- The row with the deadline of `row`. -/
def AdmissionRow.renewed (row r : AdmissionRow) : AdmissionRow :=
  { r with notBeforeUnix := row.notBeforeUnix, updatedAt := row.updatedAt }

theorem AdmissionRow.key_renewed (row r : AdmissionRow) : (row.renewed r).key = r.key := rfl

def AdmissionRow.meetsChecks : Bool :=
  decide (0 ≤ r.notBeforeUnix) && decide (0 ≤ r.updatedAt)

structure PublicationTables where
  database : Database
  rooms : Table RoomPolicyRow.roomId
  admissions : Table AdmissionRow.key

def onRoomTables {α : Type} (x : Txn Database ServerError α) :
    Txn PublicationTables ServerError α :=
  Txn.zoom PublicationTables.database (fun db s => { s with database := db }) x

namespace PublicationTables

variable (s : PublicationTables)

/-- `SELECT .. FROM rooms WHERE room_id = ?1 AND archived = 0`. -/
def room? (roomId : RoomId) : Option RoomPolicyRow :=
  (s.rooms.find? roomId).filter (fun r => !r.archived)

def roomSlowModeSeconds (roomId : RoomId) : Except ServerError (Option UInt32) :=
  match s.room? roomId with
  | none => .ok none
  | some room =>
    match toU32 room.slowModeSeconds with
    | none => .error (.message "stored room slow-mode interval is invalid")
    | some seconds =>
      if seconds > roomSlowModeMaxSeconds then
        .error (.message "stored room slow-mode interval exceeds the protocol bound")
      else .ok (some seconds)

def deadline? (roomId : RoomId) (userId : UserId) : Option Int :=
  (s.admissions.find? (roomId, userId)).map AdmissionRow.notBeforeUnix

/-- The rows of a room. -/
def admissionCount (roomId : RoomId) : Nat :=
  s.admissions.rows.countP (fun r => r.roomId == roomId)

/-- The user has no row, and there is no room for one more. -/
def isSaturated (roomId : RoomId) (userId : UserId) (limits : SlowModeLimits) : Bool :=
  (s.admissions.find? (roomId, userId)).isNone &&
    (decide (limits.perRoom ≤ s.admissionCount roomId) ||
      decide (limits.global ≤ s.admissions.rows.length))

/-- The deadlines that one admission prunes. -/
def expiredBatch (now : Int) (limits : SlowModeLimits) : List AdmissionRow :=
  s.admissions.batch AdmissionRow.compareExpiry (AdmissionRow.expired now) limits.pruneBatch

def pruned (now : Int) (limits : SlowModeLimits) : PublicationTables :=
  { s with admissions := s.admissions.deleteRows (s.expiredBatch now limits) }

/-- `INSERT INTO room_slow_mode_admissions .. ON CONFLICT(room_id, user_id) DO UPDATE`. -/
def upsertAdmission (row : AdmissionRow) : Except Sql.Error PublicationTables :=
  if row.meetsChecks then
    .ok { s with admissions := s.admissions.upsert row row.renewed row.key_renewed }
  else .error .constraintFailed

end PublicationTables

/-! The admission. -/

def retryAfter (notBeforeUnix now : Int) : UInt32 :=
  min ((toU32 (saturatingSub notBeforeUnix now)).getD roomSlowModeMaxSeconds) roomSlowModeMaxSeconds

variable (now : Int)

def recordAdmission (seconds : UInt32) (pruned : Nat) :
    Txn PublicationTables ServerError SlowModeAdmission :=
  match checkedAddI64 now seconds.toNat with
  | none => fail "slow-mode deadline overflow"
  | some notBefore => do
    sql (fun s => s.upsertAdmission (.admitted roomId userId now notBefore))
    pure (.admitted notBefore pruned)

def admitRoomPublicationWithLimits (limits : SlowModeLimits) :
    Txn PublicationTables ServerError SlowModeAdmission := do
  require (¬(roomId = 0 ∨ userId = 0 ∨ now < 0))
    "slow-mode admission requires nonzero room/user ids and nonnegative time"
  let tables ← Txn.query id
  let slowModeSeconds ← Txn.lift (tables.roomSlowModeSeconds roomId)
  match slowModeSeconds with
  | none => pure .roomNotFound
  | some seconds =>
    if seconds = 0 then pure .disabled
    else match (tables.deadline? roomId userId).filter (fun deadline => decide (now < deadline)) with
      | some notBefore => pure (.rejected (retryAfter notBefore now))
      | none => do
        Txn.execute (fun s => s.pruned now limits)
        let saturated ← Txn.query (fun s => s.isSaturated roomId userId limits)
        if saturated then pure .saturated
        else recordAdmission roomId userId now seconds (tables.expiredBatch now limits).length

def admitRoomPublication : Txn PublicationTables ServerError SlowModeAdmission :=
  admitRoomPublicationWithLimits roomId userId now slowModeProductionLimits

/-! The publication. -/

/-- `INSERT INTO room_members .. ON CONFLICT(room_id, user_id) DO UPDATE SET last_seen_at`. -/
def joinRoomOn : Txn Database ServerError Unit :=
  Txn.execute (fun db => { db with
    roomMembers := db.roomMembers.insertOrIgnore { roomId, userId := userId.toNat } })

variable (kind : ServerRoomEventKind)

/-- What an admitted publication writes. -/
def storePublication (hook : Except ServerError Unit) (retention : RoomHistoryRetentionPolicy)
    (clock : Clock) (admission : SlowModeAdmission) :
    Txn PublicationTables ServerError SlowModeRoomPublication := do
  Txn.lift hook
  let event ← onRoomTables do
    joinRoomOn roomId userId
    appendEventInTransaction roomId (some userId) kind retention clock
  pure (.stored event admission)

def commitRoomPublicationWithSlowModeAndHook (now : Int) (hook : Except ServerError Unit)
    (retention : RoomHistoryRetentionPolicy) (clock : Clock) :
    Txn PublicationTables ServerError SlowModeRoomPublication := do
  let admission ← admitRoomPublication roomId userId now
  match admission with
  | .disabled | .admitted _ _ =>
    storePublication roomId userId kind hook retention clock admission
  | .rejected retryAfterSeconds => pure (.rejected retryAfterSeconds)
  | .roomNotFound => pure .roomNotFound
  | .saturated => pure .saturated

/-! Room settings (`server/src/store.rs`). -/

/-- The new interval of a room, behind the interval it had. -/
def updateRoomSlowModeSeconds (slowModeSeconds : UInt32) :
    Txn PublicationTables ServerError UInt32 := do
  require (slowModeSeconds ≤ roomSlowModeMaxSeconds) "room slow mode cannot exceed 86400 seconds"
  let room ← Txn.query (fun s : PublicationTables => s.room? roomId)
  match room with
  | none => fail "room not found"
  | some room =>
    match toU32 room.slowModeSeconds with
    | none => fail "stored room slow-mode interval is invalid"
    | some previousSeconds => do
      Txn.execute (fun s => { s with
        rooms := s.rooms.updateWhere
          (fun r => r.roomId == roomId && !r.archived && r.slowModeSeconds != slowModeSeconds.toNat)
          (fun r => { r with
            slowModeSeconds := slowModeSeconds.toNat
            roomRevision := r.roomRevision + 1 })
          (fun _ => rfl) })
      pure previousSeconds

def archiveRoom : Txn PublicationTables ServerError Unit := do
  require (roomId ≠ 1) "the lobby room cannot be archived"
  let room ← Txn.query (fun s : PublicationTables => s.room? roomId)
  require (room.isSome = true) "room not found"
  Txn.execute (fun s => { s with
    rooms := s.rooms.updateWhere (fun r => r.roomId == roomId && !r.archived)
      (fun r => { r with archived := true, roomRevision := r.roomRevision + 1 })
      (fun _ => rfl) })

end Omen.Server
