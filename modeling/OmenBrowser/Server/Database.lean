import OmenBrowser.Lib.Ints
import OmenBrowser.Lib.Ordered
import OmenBrowser.Protocol.RichMessage
import OmenBrowser.Server.Store

/- The tables of the chat server (`server/migrations/001_init.sql` and the schema steps of
   `server/src/store.rs`), as far as rooms, users, events and what hangs on events go.

   A table carries its primary key; `Users` carries the second unique column of `users` as
   well. A column with `CHECK(.. >= 0)` is a natural number. `TargetTable` names the six
   tables whose rows hang on an event by `(room_id, target_event_id)`.

   Correspondence (Rust/SQL ↔ Lean):
     `room_events.at`, `room_pins.pinned_at`       ↔ `atUnix`, `pinnedAt`
     `INTEGER PRIMARY KEY` of `users`              ↔ `Users.nextId`, one more than the largest
     the `table: &str` of `delete_target_rows`     ↔ `TargetTable`
   Columns that nothing here reads or writes are left out (`lxmf_visibility`, the roles of a
   membership, everything of a room but its id). -/
namespace Omen.Server
open Wire Sql Ints Omen.Protocol

/-! Users. -/

structure UserRow where
  userId : Int
  identityHash : Bytes
  displayName : String
  roleBits : Nat
  statusBits : Nat
  profileRevision : Nat
  nicknameColourRgb : Option Nat
  lxmfDestination : Option String
  firstSeenAt : Int
  lastSeenAt : Option Int

structure RoomMemberRow where
  roomId : RoomId
  userId : Int

def RoomMemberRow.key (m : RoomMemberRow) : RoomId × Int := (m.roomId, m.userId)

/-- `users`: no two users share an id or an identity. -/
structure Users where
  table : Table UserRow.userId
  identities : (table.rows.map UserRow.identityHash).Nodup

namespace Users

def empty : Users := ⟨Table.empty, List.nodup_nil⟩

variable (u : Users)

def rows : List UserRow := u.table.rows

/-- `SELECT .. FROM users WHERE rns_identity_hash = ?1`. -/
def byIdentity? (identityHash : Bytes) : Option UserRow :=
  u.rows.find? (fun r => r.identityHash == identityHash)

/-- The id SQLite gives to the next row of an `INTEGER PRIMARY KEY` without `AUTOINCREMENT`:
one more than the largest in use. -/
def nextId : Int :=
  match (u.rows.map UserRow.userId).max? with
  | some largest => largest + 1
  | none => 1

/-- `DELETE FROM users WHERE user_id = ?1`. -/
def delete (userId : Int) : Users :=
  ⟨u.table.deleteWhere (fun r => r.userId == userId),
    u.identities.sublist (List.filter_sublist.map UserRow.identityHash)⟩

/-- An update of columns outside the two keys. -/
def updateWhere (p : UserRow → Bool) (f : UserRow → UserRow) (hid : ∀ r, (f r).userId = r.userId)
    (hidentity : ∀ r, (f r).identityHash = r.identityHash) : Users :=
  ⟨u.table.updateWhere p f hid, by
    have h : (UserRow.identityHash ∘ fun r => if p r then f r else r) = UserRow.identityHash := by
      funext r; simp only [Function.comp]; split
      · exact hidentity r
      · rfl
    simp only [Table.updateWhere, List.map_map, h]; exact u.identities⟩

/-- `INSERT INTO users`: fails on an id or an identity that is taken. -/
def insert (r : UserRow) : Except Sql.Error Users :=
  match ht : u.table.insert r with
  | .error e => .error e
  | .ok t =>
    if h : r.identityHash ∈ u.rows.map UserRow.identityHash then .error .constraintFailed
    else .ok ⟨t, by
      rw [(Table.insert_ok.mp ht).1, List.map_cons]
      exact List.nodup_cons.mpr ⟨h, u.identities⟩⟩

end Users

/-! Rooms and their events. -/

structure RoomRow where
  roomId : RoomId

structure RoomEventRow where
  roomId : RoomId
  eventId : Int
  eventKind : Int
  actorUserId : Option Int
  targetUserId : Option Int
  atUnix : Int
  payload : Option Bytes
  replyToEventId : Option Int
  mentionUserIds : Option Bytes
  deleted : Bool

def RoomEventRow.key (e : RoomEventRow) : RoomId × Int := (e.roomId, e.eventId)

/-- The last event id given out in a room. -/
structure SequenceRow where
  roomId : RoomId
  lastEventId : Nat

/-- The usage ledger of a room, with the state of its backfill. -/
structure UsageRow where
  roomId : RoomId
  eventCount : Nat
  retainedBytes : Nat
  backfillThroughEventId : Nat
  backfillTargetEventId : Nat
  backfillComplete : Bool
  lastCompactedAt : Option Int

/-! What hangs on an event. -/

structure ReactionRow where
  roomId : RoomId
  targetEventId : Int
  actorUserId : Int
  reactionToken : String
  createdAt : Int

def ReactionRow.key (r : ReactionRow) : RoomId × Int × Int × String :=
  (r.roomId, r.targetEventId, r.actorUserId, r.reactionToken)

structure ReactionEventRow where
  roomId : RoomId
  reactionEventId : Int
  targetEventId : Int
  actorUserId : Int
  reactionToken : String
  reactionAction : Nat
  atUnix : Int
  retainedBytes : Nat

def ReactionEventRow.key (r : ReactionEventRow) : RoomId × Int := (r.roomId, r.reactionEventId)

structure RevisionStateRow where
  roomId : RoomId
  targetEventId : Int
  latestRevisionEventId : Int
  revisionAction : Nat
  actorUserId : Int
  replacementBody : Option Bytes
  revisionNumber : Nat
  atUnix : Int
  retainedBytes : Nat

def RevisionStateRow.key (r : RevisionStateRow) : RoomId × Int := (r.roomId, r.targetEventId)

structure RevisionEventRow where
  roomId : RoomId
  revisionEventId : Int
  targetEventId : Int
  actorUserId : Int
  revisionAction : Nat
  replacementBody : Option Bytes
  revisionNumber : Nat
  atUnix : Int
  retainedBytes : Nat

def RevisionEventRow.key (r : RevisionEventRow) : RoomId × Int := (r.roomId, r.revisionEventId)

structure PinRow where
  roomId : RoomId
  targetEventId : Int
  pinEventId : Int
  actorUserId : Int
  pinnedAt : Int
  retainedBytes : Nat

def PinRow.key (r : PinRow) : RoomId × Int := (r.roomId, r.targetEventId)

structure PinEventRow where
  pinEventId : Int
  roomId : RoomId
  targetEventId : Int
  actorUserId : Int
  pinAction : Nat
  atUnix : Int
  retainedBytes : Nat

/-! The database. -/

structure Database where
  users : Users
  rooms : Table RoomRow.roomId
  roomMembers : Table RoomMemberRow.key
  roomEvents : Table RoomEventRow.key
  roomEventSequences : Table SequenceRow.roomId
  roomHistoryUsage : Table UsageRow.roomId
  roomReactions : Table ReactionRow.key
  roomReactionEvents : Table ReactionEventRow.key
  roomMessageRevisionState : Table RevisionStateRow.key
  roomMessageRevisionEvents : Table RevisionEventRow.key
  roomPins : Table PinRow.key
  roomPinEvents : Table PinEventRow.pinEventId

def Database.empty : Database :=
  { users := Users.empty
    rooms := Table.empty
    roomMembers := Table.empty
    roomEvents := Table.empty
    roomEventSequences := Table.empty
    roomHistoryUsage := Table.empty
    roomReactions := Table.empty
    roomReactionEvents := Table.empty
    roomMessageRevisionState := Table.empty
    roomMessageRevisionEvents := Table.empty
    roomPins := Table.empty
    roomPinEvents := Table.empty }

variable (db : Database) (roomId : RoomId)

/-- The stored events of a room, oldest id first. -/
def Database.history : List RoomEventRow :=
  orderBy (byKey RoomEventRow.eventId) (db.roomEvents.rows.filter (fun e => e.roomId == roomId))

/-- The tables whose rows hang on an event. -/
inductive TargetTable where
  | roomReactions
  | roomReactionEvents
  | roomMessageRevisionState
  | roomMessageRevisionEvents
  | roomPins
  | roomPinEvents
  deriving DecidableEq, Repr

variable (eventIds : List Int)

/-- `room_id = ? AND target_event_id IN (..)`. -/
def isTarget (room : RoomId) (target : Int) : Bool :=
  room == roomId && eventIds.contains target

/-- The rows of a table that hang on one of the events, counted. -/
def Database.countTargets :
    TargetTable → Nat
  | .roomReactions =>
    db.roomReactions.rows.countP (fun r => isTarget roomId eventIds r.roomId r.targetEventId)
  | .roomReactionEvents =>
    db.roomReactionEvents.rows.countP (fun r => isTarget roomId eventIds r.roomId r.targetEventId)
  | .roomMessageRevisionState =>
    db.roomMessageRevisionState.rows.countP
      (fun r => isTarget roomId eventIds r.roomId r.targetEventId)
  | .roomMessageRevisionEvents =>
    db.roomMessageRevisionEvents.rows.countP
      (fun r => isTarget roomId eventIds r.roomId r.targetEventId)
  | .roomPins => db.roomPins.rows.countP (fun r => isTarget roomId eventIds r.roomId r.targetEventId)
  | .roomPinEvents =>
    db.roomPinEvents.rows.countP (fun r => isTarget roomId eventIds r.roomId r.targetEventId)

/-- `DELETE FROM {table} WHERE room_id = ? AND target_event_id IN (..)`. -/
def Database.deleteTargets :
    TargetTable → Database
  | .roomReactions => { db with
      roomReactions := db.roomReactions.deleteWhere
        (fun r => isTarget roomId eventIds r.roomId r.targetEventId) }
  | .roomReactionEvents => { db with
      roomReactionEvents := db.roomReactionEvents.deleteWhere
        (fun r => isTarget roomId eventIds r.roomId r.targetEventId) }
  | .roomMessageRevisionState => { db with
      roomMessageRevisionState := db.roomMessageRevisionState.deleteWhere
        (fun r => isTarget roomId eventIds r.roomId r.targetEventId) }
  | .roomMessageRevisionEvents => { db with
      roomMessageRevisionEvents := db.roomMessageRevisionEvents.deleteWhere
        (fun r => isTarget roomId eventIds r.roomId r.targetEventId) }
  | .roomPins => { db with
      roomPins := db.roomPins.deleteWhere
        (fun r => isTarget roomId eventIds r.roomId r.targetEventId) }
  | .roomPinEvents => { db with
      roomPinEvents := db.roomPinEvents.deleteWhere
        (fun r => isTarget roomId eventIds r.roomId r.targetEventId) }

end Omen.Server
