import OmenBrowser.Lib.Pruning
import OmenBrowser.Protocol.RoomPolicy
import OmenBrowser.Server.Database

/- The rooms of the store (`server/src/store.rs`), and how a room is put into a frame
   (`server/src/session.rs`).

   A topic is stored as it comes: `update_room_topic` does not ask how long it is. A room is
   checked when it is written for a session, by the check of the protocol.

   Correspondence (Rust ↔ Lean):
     `rooms`, `room_from_row`                     ↔ `RoomTable`, `StoredRoom.room`
     `WHERE .. AND archived = 0`                  ↔ `StoredRoom.open`
     `room_by_id`, `room_by_name`, `list_rooms`   ↔ `RoomTable.byId?`, `RoomTable.byName?`, `RoomTable.list`
     `update_room_topic`                          ↔ `updateRoomTopic`
     `room_to_value`, `room_to_value_for_shape`   ↔ `roomToValue`, `roomToValueForShape`
   The times at which a room was made are left out. -/
namespace Omen.Server
open Wire Sql Omen.Protocol

/-! The table. -/

/-- `ServerRoom` has the fields of the entry it is written as. -/
abbrev ServerRoom := RoomCatalogEntry

/-- A row of `rooms`. -/
structure StoredRoom where
  roomId : RoomId
  name : String
  topic : Option String
  roomRevision : Nat
  policyBits : Nat
  slowModeSeconds : Nat
  uploadMaxFileBytes : Option Nat
  archived : Bool

/-- `room_from_row`. -/
def StoredRoom.room (r : StoredRoom) : ServerRoom :=
  { roomId := UInt32.ofNat r.roomId
    name := r.name
    topic := r.topic
    roomRevision := UInt64.ofNat r.roomRevision
    policyBits := UInt64.ofNat r.policyBits
    slowModeSeconds := UInt32.ofNat r.slowModeSeconds
    uploadMaxFileBytes := r.uploadMaxFileBytes.map UInt64.ofNat }

/-- The row of a room that is made. -/
def StoredRoom.created (roomId : RoomId) (name : String) (topic : Option String) : StoredRoom :=
  { roomId
    name
    topic
    roomRevision := 0
    policyBits := 0
    slowModeSeconds := 0
    uploadMaxFileBytes := none
    archived := false }

/-- The row with another topic. -/
def StoredRoom.retopic (topic : Option String) (r : StoredRoom) : StoredRoom :=
  { r with topic, roomRevision := r.roomRevision + 1 }

abbrev RoomTable := Table StoredRoom.roomId

namespace RoomTable
variable (rooms : RoomTable)

def byId? (roomId : UInt32) : Option StoredRoom :=
  (rooms.find? roomId.toNat).filter (fun r => !r.archived)

def byName? (name : String) : Option StoredRoom :=
  rooms.rows.find? (fun r => r.name == name && !r.archived)

/-- `ORDER BY name`. -/
def list : List StoredRoom :=
  orderBy (fun a b => compareBytes (utf8 a.name) (utf8 b.name))
    (rooms.rows.filter (fun r => !r.archived))

theorem mem_list {rooms : RoomTable} {r : StoredRoom} :
    r ∈ rooms.list ↔ r ∈ rooms.rows ∧ r.archived = false := by
  simp [list, mem_orderBy]

end RoomTable

/-! Writing rooms. -/

/-- The room with the topic it has now. -/
def updateRoomTopic (roomId : UInt32) (topic : Option String) :
    Txn RoomTable ServerError ServerRoom := do
  Txn.execute fun rooms => rooms.updateWhere (fun r => r.roomId == roomId.toNat && !r.archived)
    (StoredRoom.retopic topic) (fun _ => rfl)
  let room ← Txn.query fun rooms : RoomTable => rooms.byId? roomId
  match room with
  | some r => pure r.room
  | none => fail "room was not found after topic update"

/-! Rooms in frames. -/

/-- What the frames of the server hold before they are shaped. -/
def roomToValue (room : ServerRoom) : FrameValue :=
  .array [.u64 room.roomId.toUInt64, .string room.name,
    (room.topic.map FrameValue.string).getD .nil, .u64 room.roomRevision]

def roomToValueForShape (room : ServerRoom) (shape : RoomCatalogShape) :
    Except ServerError FrameValue :=
  (room.intoFrameValueForShape shape).mapError fun error =>
    .message ("stored room cannot be encoded: " ++ error.text)

/-- A room can be written if and only if it passes the check, whatever the shape. -/
theorem roomToValueForShape_ok {room : ServerRoom} (shape : RoomCatalogShape) :
    (∃ value, roomToValueForShape room shape = .ok value) ↔ room.Valid := by
  unfold roomToValueForShape
  simp only [Outcome.mapError_ok, RoomCatalogEntry.intoFrameValue_ok, exists_and_left, exists_eq,
    and_true]

/-- The rooms of the catalog, each in the shape, if every one can be written. -/
def roomValues (rooms : List StoredRoom) (shape : RoomCatalogShape) :
    Except ServerError (List FrameValue) :=
  rooms.mapM fun r => roomToValueForShape r.room shape

theorem roomValues_ok {rooms : List StoredRoom} (shape : RoomCatalogShape) :
    (∃ values, roomValues rooms shape = .ok values) ↔ ∀ r ∈ rooms, r.room.Valid := by
  have heach : (∀ r ∈ rooms, r.room.Valid) ↔
      ∀ r ∈ rooms, ∃ value, roomToValueForShape r.room shape = .ok value :=
    forall₂_congr fun _ _ => (roomToValueForShape_ok shape).symm
  rw [heach]
  exact Outcome.exists_mapM_ok

end Omen.Server
