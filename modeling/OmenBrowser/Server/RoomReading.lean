import OmenBrowser.Server.ParkingEngine
import OmenBrowser.Server.Rooms

/- The handlers that read a room for its members (`handle_join_room`, `handle_history_before` and
   `handle_history_recent` of `server/src/session.rs`), up to what they park.

   A peer joins a room by its name and becomes a member of it; the answer is put together of the
   room, its users and its latest events. A member asks for older or for recent events by the id
   of the room. Which rooms there are is among the other tables of the store, `rooms` says where.

   Correspondence (Rust ↔ Lean):
     `handle_join_room`                 ↔ `joinRoom`
     `self.store.room_by_name(..)?`     ↔ `RoomTable.byName?` of `RoomSettings.rooms`
     `self.store.room_by_id(..)?`       ↔ `RoomSettings.roomExists`
     `SessionLimits` and the settings of the engine    ↔ `RoomSettings` -/
namespace Omen.Server
open Wire Sql Omen.Protocol

variable {τ ρ : Type}

/-- What the handlers of the rooms are made with, and where the rooms are among the tables. -/
structure RoomSettings (τ : Type) where
  humanBytes : HumanBytes
  limits : SessionLimits
  serverMotd : Option String
  pingIntervalSeconds : UInt64
  uploadMaxFileBytes : UInt64
  historyRetention : RoomHistoryRetentionPolicy
  rooms : τ → RoomTable

namespace RoomSettings
variable (c : RoomSettings τ)

def roomExists (roomId : UInt32) (rest : Database × τ × ρ) : Bool :=
  ((c.rooms rest.2.1).byId? roomId).isSome

/-- The fields of an acceptance, with the rooms there are. -/
def acceptFields (rest : Database × τ × ρ) : AcceptFields :=
  { rooms := (c.rooms rest.2.1).list
    serverMotd := c.serverMotd
    uploadQuotaBytes := c.limits.uploadQuotaBytes
    pingIntervalSeconds := c.pingIntervalSeconds
    uploadMaxFileBytes := c.uploadMaxFileBytes }

/-- The name in the body, or the lobby. -/
def joinedName (body : FrameBody) : String := (bodyString body).getD "lobby"

/-- The latest events of the room, as they are put into frames. -/
def backlog (roomId : UInt32) (db : Database) : Except ServerError (List FrameValue) := do
  let events ← db.latestEvents roomId.toNat c.limits.joinBacklogEvents
  events.mapM (eventToValue c.humanBytes)

/-- The room is joined, and read for the answer. -/
def enterRoom (user : ServerUser) (active : List ServerPeer) (coloured : Bool) (room : ServerRoom) :
    Session τ ρ (Found JoinReply) := do
  onStore (inDatabase (joinRoomOn room.roomId.toNat user.userId))
  let users ← userValuesForJoin room.roomId user active coloured
  let events ← Act.read (fun s => c.backlog room.roomId s.database)
  let events ← Act.lift events
  pure (.found ⟨room.roomId, roomToValue room, users, events⟩)

def joinRoom (user : ServerUser) (seq : UInt32) (body : FrameBody) (active : List ServerPeer)
    (coloured : Bool) : Session τ ρ (Found JoinReply) := do
  let row ← Act.read (fun s => (c.rooms s.store.rest.2.1).byName? (joinedName body))
  match row with
  | none => pure (.answered [⟨errorFrame seq none .roomNotFound "room not found", rfl⟩])
  | some row => c.enterRoom user active coloured row.room

end RoomSettings

/-- What a handler reads of the database. -/
def readDatabase (read : Database → Except ServerError (Found (List FrameValue))) :
    Session τ ρ (Found (List FrameValue)) := do
  let found ← Act.read (fun s => read s.database)
  Act.lift found

/-- The reading, with the handlers of the rooms. -/
def Reading.ofRooms (c : RoomSettings τ) (reading : Reading τ ρ) : Reading τ ρ :=
  { reading with
    joinRoom := c.joinRoom
    historyBefore := fun user seq roomId body => readDatabase fun db =>
      Omen.Server.historyBefore c.humanBytes c.limits.historyBatchSize db user seq roomId body
    historyRecent := fun user seq roomId body => readDatabase fun db =>
      Omen.Server.historyRecent c.humanBytes c.limits.historyBatchSize db user seq roomId body }

end Omen.Server
