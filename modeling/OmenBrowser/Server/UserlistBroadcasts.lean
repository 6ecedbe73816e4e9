import OmenBrowser.Server.LiveParking

/- A room's list of users, made and sent to each of its links (`broadcast_userlist_for_room` of
   `server/src/live.rs`).

   The list is made anew for each link, by what the link has negotiated. Whatever is refused on the
   way, what the loop leaves is known: the users of the active peers and their memberships of
   the room are refreshed, frames with the list went to links of the room, and nothing else
   has changed (`UserlistSent`). -/
namespace Omen.Server
open Wire Sql Omen.Protocol Act List

variable {τ ρ : Type}

/-! The frame. -/

/-- The frame is a list of the users of the room, or offers one. -/
structure IsUserlistOf (roomId : UInt32) (frame : Frame) : Prop where
  op : frame.op = .userListSnapshotInline ∨ frame.op = .userListSnapshotResource
  seq : frame.seq = 0
  roomId : frame.roomId = some roomId

variable {roomId : UInt32} {peers : List ServerPeer} {frame : Frame}

section Frames
variable (c : BatchConfig)

/-- What the frame offers is in the store. -/
def Kept (frame : Frame) (s : PendingResourceStore) : Prop :=
  responseCarriesResource frame.op = true →
    ∃ resourceId payload, resourceOfferId frame.body = some resourceId ∧ s.get resourceId = some payload

theorem userlistFrame_ok {users : List FrameValue} {s s' : PendingResourceStore}
    (h : userlistFrame c roomId users s = (.ok frame, s')) : IsUserlistOf roomId frame ∧ Kept frame s' := by
  have hshape : frame.seq = 0 ∧ frame.roomId = some roomId := by
    obtain ⟨op, _, _, h⟩ := bind_eq_ok.mp h
    obtain ⟨body, _, _, hend⟩ := bind_eq_ok.mp h
    cases hend
    exact ⟨rfl, rfl⟩
  obtain ⟨hop, _⟩ | ⟨hoffer, rfl⟩ := HistoryReply.batchedFrame_ok _ h
  · refine ⟨⟨.inl hop, hshape.1, hshape.2⟩, fun hcarries => ?_⟩
    rw [hop] at hcarries
    cases hcarries
  · refine ⟨⟨.inr (by rw [hoffer]; rfl), hshape.1, hshape.2⟩, fun _ => ?_⟩
    rw [hoffer]
    refine ⟨_, (c.reply 0 roomId "userlist").payload users, resourceOfferId_body _, ?_⟩
    rw [PendingResourceStore.get_put, if_pos rfl]

end Frames

/-- No link sees the list in another shape, so what is sent of it is the frame itself. -/
theorem preflight_userlist {host : Host} {c : BatchConfig} {reading : Reading τ ρ}
    {serving : Serving τ ρ} {durable : DurableServing τ ρ} {publishing : Publishing τ ρ}
    {s : ParkingServer τ ρ} {linkId : LinkId} {outgoing : Outgoing} (hframe : IsUserlistOf roomId frame)
    (hkept : Kept frame s.pending)
    (h : preflight host (parkingEngine c reading serving durable publishing) s linkId frame = .ok outgoing) :
    encode host frame = .ok outgoing.bytes := by
  have hshaped : shapeFrame (parkingEngine c reading serving durable publishing) s linkId frame =
      .ok frame := by
    unfold shapeFrame
    rcases hframe.op with hop | hop
    · rw [hop, if_neg (by simp)]
      cases s.catalogShape linkId <;> rfl
    · rw [hop, if_neg (by simp)]
      cases s.catalogShape linkId <;> rfl
  unfold preflight at h
  obtain ⟨shaped, hshape, h⟩ := Outcome.bind_ok.mp h
  rw [hshaped] at hshape
  cases hshape
  split at h
  · next hcarries =>
    obtain ⟨resourceId, payload, hoffer, hget⟩ := hkept hcarries
    obtain ⟨prepared, hprepared, h⟩ := Outcome.bind_ok.mp h
    have hfound : prepareResponseResource (parkingEngine c reading serving durable publishing) frame
        s.engine = .ok (some (resourceId, payload)) := by
      have hother : ¬frame.op = .uploadResourceOffer := by
        rcases hframe.op with hop | hop <;> rw [hop] <;> decide
      unfold prepareResponseResource
      rw [if_neg hother, hoffer]
      exact congrArg (fun found => Except.ok (found.map (resourceId, ·))) hget
    rw [hfound] at hprepared
    cases hprepared
    obtain ⟨bytes, hbytes, hend⟩ := Outcome.bind_ok.mp h
    cases hend
    exact hbytes
  · obtain ⟨bytes, hbytes, hend⟩ := Outcome.bind_ok.mp h
    cases hend
    exact hbytes

/-! One link, and all of them. -/

/-- What was sent are lists of the room's users to its links, with what they offer. -/
def UserlistsOnly (host : Host) (roomId : UInt32) (links : List LinkId) : Transport → Transport → Prop :=
  SentOnly (fun sent => sent.linkId ∈ links ∧
      ∃ frame, IsUserlistOf roomId frame ∧ encode host frame = .ok sent.bytes)
    (fun resource => resource.linkId ∈ links)

/-- The server behind a broadcast of a room's list of users. -/
structure UserlistSent (host : Host) (roomId : UInt32) (peers : List ServerPeer) (links : List LinkId)
    (s s' : ParkingServer τ ρ) : Prop where
  engine : SessionState.Refreshed roomId peers s.engine.withoutPending s'.engine.withoutPending
  transport : UserlistsOnly host roomId links s.transport s'.transport
  others : s' = { s with engine := s'.engine, transport := s'.transport }

namespace UserlistSent
variable {host : Host} {links : List LinkId}

theorem refl (s : ParkingServer τ ρ) : UserlistSent host roomId peers links s s where
  engine := .refl _
  transport := SentOnly.refl _
  others := rfl

theorem trans (s s' s'' : ParkingServer τ ρ) (h : UserlistSent host roomId peers links s s')
    (h' : UserlistSent host roomId peers links s' s'') : UserlistSent host roomId peers links s s'' where
  engine := .trans _ _ _ h.engine h'.engine
  transport := SentOnly.trans _ _ _ h.transport h'.transport
  others := by
    rw [h'.others, h.others]

instance : IsPreorder (ParkingServer τ ρ) (UserlistSent host roomId peers links) where
  refl := refl
  trans := trans

end UserlistSent

section Broadcast
variable (host : Host) (c : BatchConfig) (reading : Reading τ ρ) (serving : Serving τ ρ)
  (durable : DurableServing τ ρ) (publishing : Publishing τ ρ)

theorem activeUserlistFrame_refreshed (roomId : UInt32) (peers : List ServerPeer) (coloured : Bool)
    (e : SessionState τ (PendingResourceStore × ρ)) :
    let made := (publishing.withParking c reading).activeUserlistFrame roomId peers coloured e
    SessionState.Refreshed roomId peers e.withoutPending made.2.withoutPending ∧
      ∀ frame, made.1 = .ok frame → IsUserlistOf roomId frame ∧ Kept frame made.2.pending := by
  have hread : SessionState.Refreshed roomId peers e.withoutPending
      (beside (userValuesForActivePeers roomId peers coloured) e).2.withoutPending :=
    userValues_refreshed roomId peers coloured e.withoutPending
  intro made
  rcases hvalues : beside (userValuesForActivePeers roomId peers coloured) e with ⟨result, e₁⟩
  rw [hvalues] at hread
  cases result with
  | error error =>
    have hmade : made = (.error error, e₁) := bind_error hvalues
    rw [hmade]
    exact ⟨hread, nofun⟩
  | ok users =>
    have hmade : made = onPending (userlistFrame c roomId users) e₁ := bind_ok hvalues
    rw [hmade]
    exact ⟨hread, fun frame hframe => userlistFrame_ok c (Prod.ext hframe rfl)⟩

/-- The list for one link: made, sent or refused, and released. -/
theorem sendUserlist_sent {links : List LinkId} {linkId : LinkId} (hlink : linkId ∈ links) :
    Act.Steps (UserlistSent host roomId peers links) (do
      let coloured ← read (fun s : ParkingServer τ ρ => s.negotiated s.nicknameColourLinks linkId)
      let frame ← onEngine
        ((parkingEngine c reading serving durable publishing).activeUserlistFrame roomId peers coloured)
      let sent ← attempt
        (sendResponseFrame host (parkingEngine c reading serving durable publishing) linkId frame)
      releaseResponseResource (parkingEngine c reading serving durable publishing) frame
      lift sent) := by
  intro s
  rw [read_bind]
  generalize s.negotiated s.nicknameColourLinks linkId = coloured
  obtain ⟨hengine, hframe⟩ :=
    activeUserlistFrame_refreshed c reading publishing roomId peers coloured s.engine
  rcases hmade : (publishing.withParking c reading).activeUserlistFrame roomId peers coloured s.engine
    with ⟨result, e⟩
  rw [hmade] at hengine hframe
  have hrun : onEngine ((parkingEngine c reading serving durable publishing).activeUserlistFrame roomId
      peers coloured) s = (result, { s with engine := e }) :=
    congrArg (fun ended => (ended.1, { s with engine := ended.2 })) hmade
  have hmoved : UserlistSent host roomId peers links s { s with engine := e } :=
    ⟨hengine, SentOnly.refl _, rfl⟩
  cases result with
  | error error =>
    rw [bind_error hrun]
    exact hmoved
  | ok frame =>
    rw [bind_ok hrun, attempt_bind]
    obtain ⟨huserlist, hkept⟩ := hframe frame rfl
    -- the send is attempted, a link that refuses it leaves the rest as it is
    have hsent : UserlistSent host roomId peers links { s with engine := e } (sendResponseFrame host
        (parkingEngine c reading serving durable publishing) linkId frame { s with engine := e }).2 := by
      unfold sendResponseFrame
      rw [read_bind]
      cases hprepared : preflight host (parkingEngine c reading serving durable publishing)
          { s with engine := e } linkId frame with
      | error error =>
        rw [id, hprepared]
        exact .refl _
      | ok outgoing =>
        rw [id, hprepared, lift_bind]
        have hencoded : encode host frame = .ok outgoing.bytes := by
          refine preflight_userlist huserlist ?_ hprepared
          exact hkept
        refine ⟨.refl _, ?_, rfl⟩
        exact transmit_sent _ _ outgoing ⟨hlink, frame, huserlist, hencoded⟩ (fun _ _ => hlink) s.transport
    -- whatever became of the send, what was parked for the list is taken out again
    have hreleased : Act.Steps (UserlistSent host roomId peers links)
        (releaseResponseResource (parkingEngine c reading serving durable publishing) frame) := by
      have htake (resourceId : String) : Act.Steps (ε := ServerError)
          (UserlistSent host roomId peers links) (modify fun s : ParkingServer τ ρ => { s with
            engine := (parkingEngine c reading serving durable publishing).takeResourcePayload resourceId
              s.engine }) := fun s => ⟨.refl _, SentOnly.refl _, rfl⟩
      refine .ite (.ite ?_ ?_) (.pure _)
      · split
        · exact .pure _
        · exact htake _
      · split
        · exact .throw _
        · exact htake _
    exact .trans _ _ _ hmoved (.trans _ _ _ hsent
      (Act.Steps.bind hreleased (fun _ => .lift _) _))

/-- A broadcast of a room's list of users changes nothing but what the list itself needs, and is sent
to the links of the room. -/
theorem broadcastUserlistForRoom_sent (roomId : UInt32) (s : ParkingServer τ ρ) :
    UserlistSent host roomId (s.activePeersInRoom roomId) (s.roomLinkIdsIncluding roomId) s
      (broadcastUserlistForRoom host (parkingEngine c reading serving durable publishing) roomId s).2 := by
  unfold broadcastUserlistForRoom
  rw [read_bind, read_bind]
  generalize s.activePeersInRoom roomId = peers
  have heach (links : List LinkId) (hlinks : ∀ linkId ∈ links, linkId ∈ s.roomLinkIdsIncluding roomId) :
      Act.Steps (UserlistSent host roomId peers (s.roomLinkIdsIncluding roomId))
        (forEach (fun linkId => do
          let coloured ← read (fun s : ParkingServer τ ρ => s.negotiated s.nicknameColourLinks linkId)
          let frame ← onEngine ((parkingEngine c reading serving durable publishing).activeUserlistFrame
            roomId peers coloured)
          let sent ← attempt
            (sendResponseFrame host (parkingEngine c reading serving durable publishing) linkId frame)
          releaseResponseResource (parkingEngine c reading serving durable publishing) frame
          lift sent) links) := by
    induction links with
    | nil => exact .pure _
    | cons linkId links ih =>
      refine .bind (sendUserlist_sent host c reading serving durable publishing
        (hlinks linkId mem_cons_self)) fun _ => ?_
      exact ih fun l hl => hlinks l (mem_cons_of_mem linkId hl)
  exact heach _ (fun _ h => h) s

end Broadcast

end Omen.Server
