import OmenBrowser.Server.HistoryDelivery
import OmenBrowser.Server.ReplayedMutations
import OmenBrowser.Server.UserlistBroadcasts

/- A durable mutation that is answered from the store is silent (`server/src/live.rs`).

   Nothing but the stamps of its rows is written, and only the stored answer is sent. The one thing
   the live server does again is what it derives from the answer of a part: its link is taken out
   of its room, and the links that stay in the room are sent its users. That list is made as every
   list of users is: the users of the active peers are seen again, and are members of the room. -/
namespace Omen.Server
open Wire Sql Omen.Protocol Act

variable {τ ρ : Type} {s : ParkingServer τ ρ} {linkId : LinkId} {peer : ServerPeer} {mutation : Frame}
  {binding : DurableSessionBinding} {envelope : DurableMutationEnvelope} {frame : Bytes}

/-- What is left of the server when a mutation was answered from the store. Beside the stamps, the
packet's own traces and the answer to the origin, only the origin's room may be another: none after
a part that is granted, and, where the request names a room to join, whatever the link then hears.
Only after such a part, and only if the link had a room, the links left in the room that was parted
from are sent its users: those of the active peers are seen again, and nothing stays parked. -/
def AnsweredSilently (host : Host) (engine : SessionEngine (SessionState τ (PendingResourceStore × ρ)))
    (durable : DurableServing τ (PendingResourceStore × ρ)) (key : DurableMutationKey) (linkId : LinkId)
    (mutation : Frame) (size : Nat) (frame : Bytes) (s s' : ParkingServer τ ρ) : Prop :=
  ∃ e' rooms, Stamps key s.engine e' ∧
    (∀ l, l ≠ linkId → rooms[l]? = s.linkRooms[l]?) ∧
    (joinedRoomIdFromFrame mutation = none → rooms = s.linkRooms ∨
      PartGranted durable mutation frame ∧ rooms = s.linkRooms.erase linkId) ∧
    let silent := answeredServer host engine durable linkId mutation size frame s e' rooms
    s' = silent ∨ ∃ roomId, PartGranted durable mutation frame ∧ mutation.roomId = some roomId ∧
      s.linkRooms.contains linkId = true ∧ rooms = s.linkRooms.erase linkId ∧
      UserlistSent host roomId (silent.activePeersInRoom roomId) (silent.roomLinkIdsIncluding roomId)
        silent s' ∧
      NothingNew silent.pending s'.pending

abbrev lobbyDurable : DurableServing RoomTable Unit := partDurable.ofRooms roomSettings

abbrev memberEngine : SessionEngine (SessionState RoomTable (PendingResourceStore × Unit)) :=
  roomEngine memberBatches roomSettings Reading.bare Serving.bare partDurable Publishing.bare

/-- What is stored as the answer of the part. -/
def partedFrame : Bytes :=
  ((encodeFrame Rmpv.reference
    (partResult 3 1 (StoredRoom.created 1 "lobby" none).room)).toOption).getD []

/-- A room of which nothing is stored, and a transport that loses the answer of the first part. -/
def sharedLobby : ParkingServer RoomTable Unit :=
  LiveServer.new (lobbyState lobbyDatabase)
    { Transport.accepting with refuses := fun call linkId => call == 7 && linkId == firstLink }

def bobOpen : Frame :=
  Frame.new .sessionOpen 1 none (.fields [.string protocolName, .string "bob"])

def lobbyJoin : Frame := Frame.new .joinRoom 2 (some 1) (.text "lobby")

/-- Both links open a session and join the room, and the first one parts from it. -/
def partedInputs : List LiveInput :=
  [.linkOpened firstLink firstPeer 0,
    .linkData firstLink omenchatLinkContext (some (openFrame 1 [durableMutationCapability])) 70 0,
    .linkOpened secondLink secondPeer 0,
    .linkData secondLink omenchatLinkContext (some bobOpen) 30 0,
    .linkData firstLink omenchatLinkContext (some lobbyJoin) 9 0,
    .linkData secondLink omenchatLinkContext (some lobbyJoin) 9 0,
    .linkData firstLink omenchatLinkContext (some (partRequest 3)) 90 0]

def unansweredPart : ParkingServer RoomTable Unit :=
  (Machine.run (liveStep Host.reference memberEngine) sharedLobby partedInputs).2

theorem unansweredPart_stored : ∃ binding, AnsweredFromStore lobbyDurable.parking unansweredPart firstLink
    firstPeer (partRequest 5) (activeRoomPeers unansweredPart firstLink firstPeer (some (partRequest 5)))
    binding partEnvelope partedFrame := by
  have hbound : (durableBinding unansweredPart firstLink firstPeer).map (·.clientInstanceId) =
      some ⟨List.replicate 16 5, rfl⟩ := by decide +kernel
  obtain ⟨binding, hbinding, hclient⟩ := Option.map_eq_some_iff.mp hbound
  have hinUse : (unansweredPart.engine.store.clients.find?
      ⟨firstPeer.identityHash, ⟨List.replicate 16 5, rfl⟩⟩).map (·.retiredAt.isSome) = some false := by
    decide +kernel
  have hstored : (unansweredPart.engine.store.results.find?
      ⟨firstPeer.identityHash, ⟨List.replicate 16 5, rfl⟩, partEnvelope.mutationId⟩).map
        (fun r => (r.requestHash, r.resultFrame)) = some (partEnvelope.requestHash, partedFrame) := by
    decide +kernel
  have hframe : (validateResultFrame lobbyDurable.parking.rmpv partedFrame).toOption = some () := by
    decide +kernel
  obtain ⟨r, hr, hrow⟩ := Option.map_eq_some_iff.mp hstored
  refine ⟨binding, DurableMutationEnvelope.fromFrameBody_wire rfl, hbinding, ⟨rfl, rfl, rfl⟩, ?_⟩
  unfold StoredFor
  rw [hclient]
  exact {
    validKey := rfl
    inUse := Option.map_eq_some_iff.mp hinUse
    stored := ⟨r, hr, congrArg Prod.fst hrow, congrArg Prod.snd hrow⟩
    validFrame := Outcome.toOption_eq_some.mp hframe }

end Omen.Server
