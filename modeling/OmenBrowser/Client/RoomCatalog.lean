import OmenBrowser.Client.Session
import OmenBrowser.Protocol.RoomPolicy
import OmenBrowser.Server.LiveTables
import OmenBrowser.Server.Rooms

/- The shape the client reads a room in (`chat/live.rs`), and the shape the server sends it in.

   Correspondence (Rust ↔ Lean):
     `room_catalog_shape` of the client           ↔ `Client.roomCatalogShape`
     `parse_room_policy_for_shape`                ↔ `parseRoomPolicyForShape` -/
namespace Omen.Client
open Text Omen.Protocol Outcome
open Omen.Server (LiveServer LinkId roomToValue)

variable {e : RoomCatalogEntry} {shape : RoomCatalogShape} {value : FrameValue}

/-! The client. -/

structure ChatRoomSummary where
  serverId : String
  roomId : UInt32
  name : String
  topic : Option String
  unread : UInt32
  joined : Bool
  deriving DecidableEq, Repr

structure ParsedRoom where
  summary : ChatRoomSummary
  policy : Option RoomPolicyProjection
  deriving DecidableEq, Repr

/-- The client's shape, from the capabilities that are active for the session. -/
def roomCatalogShape (active : CapabilityFlags) : RoomCatalogShape :=
  if active.roomMediaPolicy then .mediaPolicy
  else if active.slowMode then .slowMode
  else if active.announcementRooms then .policyBits
  else .legacy

def parseRoomPolicyForShape (value : FrameValue) (serverId : String) (joined : Bool)
    (shape : RoomCatalogShape) : Option ParsedRoom := do
  let room ← (RoomCatalogEntry.fromFrameValueForShape value shape).toOption
  let policy ← (room.policyProjectionForShape shape).toOption
  some
    { summary :=
        { serverId
          roomId := room.roomId
          name := room.name
          topic := room.topic
          unread := 0
          joined }
      policy }

open RoomCatalogEntry

/-- The client reads the room and its policy as the shape shows them. -/
theorem parseRoomPolicy_into (h : e.intoFrameValueForShape shape = .ok value) (serverId : String)
    (joined : Bool) :
    parseRoomPolicyForShape value serverId joined shape =
      some ⟨⟨serverId, e.roomId, e.name, e.topic, 0, joined⟩, e.shownPolicy shape⟩ := by
  have hread := fromFrameValue_into h
  have hpolicy := policyProjection_project (intoFrameValue_ok.mp h).1 shape
  have hsame : (e.project shape).roomId = e.roomId ∧ (e.project shape).name = e.name ∧
      (e.project shape).topic = e.topic := by
    cases shape <;> exact ⟨rfl, rfl, rfl⟩
  simp only [parseRoomPolicyForShape, hread, hpolicy, Except.toOption, Option.bind_eq_bind,
    Option.bind_some, hsame.1, hsame.2.1, hsame.2.2]

/-- The client's shape is the server's, for a client whose request the server answers. -/
theorem roomCatalogShape_activate {requests : ClientRequests}
    {clientInstanceId : Option ClientInstanceId} {accepted : CapabilityFlags}
    (h : Answers requests clientInstanceId accepted) (alreadyAccepted : Bool) :
    roomCatalogShape (activate requests clientInstanceId alreadyAccepted
      (Server.acceptedCapabilities accepted)) = Server.roomCatalogShape accepted := by
  have hmedia := h.has_activate alreadyAccepted .roomMediaPolicy
  have hslow := h.has_activate alreadyAccepted .slowMode
  have hannounce := h.has_activate alreadyAccepted .announcementRooms
  simp only [CapabilityFlags.has] at hmedia hslow hannounce
  unfold roomCatalogShape Server.roomCatalogShape
  rw [hmedia, hslow, hannounce]

/-- Server and client choose one shape for one set of capabilities, on every link, in the accept of a
session and in what the client activates for it; an entry is read in the shape it was written in as
its projection to that shape, with the policy the shape shows, and in no other shape; what the frames
of the server hold unshaped is the smallest shape; and a projection to a larger shape changes nothing of
one to a smaller. -/
theorem room_catalog_shapes_agree {σ : Type} :
    (∀ (s : LiveServer σ) (linkId : LinkId) (active : CapabilityFlags),
      s.negotiated s.announcementRoomLinks linkId = active.announcementRooms →
      s.negotiated s.slowModeLinks linkId = active.slowMode →
      s.negotiated s.roomMediaPolicyLinks linkId = active.roomMediaPolicy →
      s.catalogShape linkId = roomCatalogShape active) ∧
    (∀ (features : Server.EngineFeatures) (negotiation : Option SessionOpenNegotiation)
      (requests : ClientRequests) (clientInstanceId : Option ClientInstanceId) (alreadyAccepted : Bool),
      Requested negotiation requests clientInstanceId →
      roomCatalogShape (activate requests clientInstanceId alreadyAccepted
        (Server.acceptedCapabilities (Server.select features negotiation))) =
        Server.roomCatalogShape (Server.select features negotiation)) ∧
    (∀ (e : RoomCatalogEntry) (shape : RoomCatalogShape) (value : FrameValue),
      e.intoFrameValueForShape shape = .ok value →
      fromFrameValueForShape value shape = .ok (e.project shape) ∧
      (∀ serverId joined, parseRoomPolicyForShape value serverId joined shape =
        some ⟨⟨serverId, e.roomId, e.name, e.topic, 0, joined⟩, e.shownPolicy shape⟩) ∧
      (shape = .legacy → value = roomToValue e) ∧
      ∀ other, other ≠ shape → fromFrameValueForShape value other = .error .invalidShape) ∧
    ∀ (e : RoomCatalogEntry) (small large : RoomCatalogShape), shapeFields small ≤ shapeFields large →
      (e.project large).project small = e.project small := by
  refine ⟨fun s linkId active hannounce hslow hmedia => ?_,
    fun features negotiation requests clientInstanceId alreadyAccepted hrequested => ?_,
    fun e shape value h => ⟨fromFrameValue_into h, parseRoomPolicy_into h, fun hlegacy => ?_,
      fun other hother => fromFrameValue_other h hother⟩, fun e small large h => e.project_project h⟩
  · unfold LiveServer.catalogShape roomCatalogShape
    rw [hannounce, hslow, hmedia]
  · exact roomCatalogShape_activate (select_answers hrequested) alreadyAccepted
  · subst hlegacy
    exact (intoFrameValue_ok.mp h).2

/-! A room with a slow mode and a limit on uploads. -/

def slowRoom : RoomCatalogEntry :=
  { roomId := 7
    name := "announcements"
    topic := some "Operator updates"
    roomRevision := 3
    policyBits := 1
    slowModeSeconds := 30
    uploadMaxFileBytes := some 65536 }

/-- Without the media policy, the limit is left out; the other shapes do not read it. -/
theorem room_catalog_shapes_agree_slow :
    fromFrameValueForShape (.array [.u64 7, .string "announcements", .string "Operator updates", .u64 3,
        .u64 1, .u64 30]) .slowMode = .ok { slowRoom with uploadMaxFileBytes := none } ∧
      (slowRoom.project .slowMode).project .policyBits = slowRoom.project .policyBits := by
  refine ⟨((room_catalog_shapes_agree (σ := Unit)).2.2.1 slowRoom .slowMode _ ?_).1,
    (room_catalog_shapes_agree (σ := Unit)).2.2.2 slowRoom .policyBits .slowMode (by decide)⟩
  have hvalid : slowRoom.validate = .ok () := by decide +kernel
  exact intoFrameValue_ok.mpr ⟨validate_ok.mp hvalid, rfl⟩

end Omen.Client