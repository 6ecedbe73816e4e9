import OmenBrowser.Server.RoomReading

/- The handlers that take a user out of a room (`handle_part_room` and `handle_durable_part_room` of
   `server/src/session.rs`).

   Both write the same three things: the membership is deleted, the room gets a line saying who left,
   and the answer is a result with the room in it. A durable part writes them in the transaction
   that stores its result, and its line is appended by the commit itself.

   Correspondence (Rust ↔ Lean):
     `leave_room`, `leave_durable_room`     ↔ `leaveRoomOn`
     `append_event`                         ↔ `appendEvent`
     `handle_part_room`                     ↔ `RoomSettings.partRoom`, behind `handlePartRoom`
     the callback of `handle_durable_part_room`, behind the ban ↔ `RoomSettings.durablePart` -/
namespace Omen.Server
open Wire Sql Omen.Protocol

variable {τ ρ : Type}

/-- `DELETE FROM room_members WHERE room_id = ?1 AND user_id = ?2`. -/
def leaveRoomOn (roomId : RoomId) (userId : UserId) : Txn Database ServerError Unit :=
  Txn.execute fun db => { db with
    roomMembers := db.roomMembers.deleteWhere fun m =>
      m.roomId == roomId && m.userId == (userId.toNat : Int) }

/-- The line of the room. -/
def leftKind (user : ServerUser) (room : ServerRoom) : ServerRoomEventKind :=
  .system s!"{user.displayName} left #{room.name}"

/-- The result of a part. -/
def partResult (seq roomId : UInt32) (room : ServerRoom) : Frame :=
  Frame.new .commandResult seq (some roomId) (.fields [.string "part", roomToValue room])

namespace RoomSettings
variable (c : RoomSettings τ)

/-- An event of the room, appended in a transaction of its own. -/
def appendEvent (roomId : UInt32) (actorUserId : Option UserId) (kind : ServerRoomEventKind) :
    Session τ ρ ServerRoomEvent := do
  let appended ← currentUnixSeconds
  let enforced ← currentUnixSeconds
  let compacted ← currentUnixSeconds
  onStore (inDatabase (appendEventInTransaction roomId.toNat actorUserId kind c.historyRetention
    ⟨appended, enforced, compacted⟩))

/-- The part of a user who is let in, of a room that was found. -/
def partRoom (user : ServerUser) (seq roomId : UInt32) : Session τ ρ (List Frame) := do
  let row ← Act.read (fun s => (c.rooms s.store.rest.2.1).byId? roomId)
  match row with
  | none => pure [errorFrame seq (some roomId) .roomNotFound "room not found"]
  | some row =>
    onStore (inDatabase (leaveRoomOn roomId.toNat user.userId))
    let event ← c.appendEvent roomId (some user.userId) (leftKind user row.room)
    let value ← Act.lift (eventToValue c.humanBytes event)
    pure [partResult seq roomId row.room, Frame.new .roomEvent seq (some roomId) (.fields [value])]

/-- What the callback of a durable part plans for a user who is let in. -/
def durablePart (durable : DurableServing τ ρ) (request : DurableRequest) (roomId : UInt32)
    (user : ServerUser) : Txn (Database × τ × ρ) ServerError (DurableRoomEventPlan Unit) := do
  let row ← Txn.query (fun rest : Database × τ × ρ => (c.rooms rest.2.1).byId? roomId)
  match row with
  | none =>
    let result ← Txn.lift (encodeDurableResult durable
      (errorFrame request.seq (some roomId) .roomNotFound "room not found"))
    pure (.response result)
  | some row =>
    inDatabase (leaveRoomOn roomId.toNat user.userId)
    let result ← Txn.lift (encodeDurableResult durable (partResult request.seq roomId row.room))
    pure (.eventWithResult (some user.userId) (leftKind user row.room) () result)

/-- A part has no body. -/
def partChecks (request : DurableRequest) : Except (ChatErrorCode × String) Unit :=
  match request.envelope.body with
  | .empty => .ok ()
  | _ => .error (.durableMutationMalformed, "durable part request is malformed")

end RoomSettings

/-- The handlers, with the rooms of the tables. -/
def Serving.ofRooms (c : RoomSettings τ) (serving : Serving τ ρ) : Serving τ ρ :=
  { serving with
    limits := c.limits
    roomExists := c.roomExists
    acceptFields := fun rest => .ok (c.acceptFields rest)
    partRoom := c.partRoom }

/-- The durable handlers, with the rooms of the tables. -/
def DurableServing.ofRooms (c : RoomSettings τ) (durable : DurableServing τ ρ) : DurableServing τ ρ :=
  { durable with
    historyRetention := c.historyRetention
    checks := fun request =>
      if request.op = .partRoom then RoomSettings.partChecks request else durable.checks request
    eventToValue := Omen.Server.eventToValue c.humanBytes
    partRoom := c.durablePart durable }

/-! A request to part from a room, for runs on given inputs. -/

/-- The hash of the request to part from room 1. -/
def partHash : RequestHash :=
  ⟨be 32 0x02d5856ba500b99dd8befa86efead95a125c2ae8e0d07ee3f28f66f56c9a8077, length_be _ _⟩

abbrev partDurable : DurableServing RoomTable Unit :=
  { DurableServing.bare with sha256 := fun _ => partHash }

def partEnvelope : DurableMutationEnvelope where
  mutationId := ⟨List.replicate 16 9, rfl⟩
  requestHash := partHash
  body := .empty

def partRequest (seq : UInt32) : Frame := Frame.new .partRoom seq (some 1) partEnvelope.wire

end Omen.Server
