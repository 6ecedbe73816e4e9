import OmenBrowser.Server.BannedRequests
import OmenBrowser.Server.LiveBroadcasts

/- What the live server does for a banned user (`server/src/live.rs`).

   A request of a banned user is turned away by the engine; the server sends the refusal to the
   link it came from, and to nobody else. Two requests are heard of all the same: one for another
   nickname colour, and a repeated one to part whose stored answer, from before the ban, grants it:
   the server takes the link out of its room once more, and the others in the room that was parted
   are sent the userlist. -/
namespace Omen.Server
open Wire Sql Omen.Protocol List Act DurableMutationEnvelope

variable {τ ρ : Type} {α : Type}
  {linkId : LinkId} {responses : List Frame} {frame : Frame}
  {s : LiveServer (SessionState τ ρ)} {peer : ServerPeer} {size : Nat}

/-! What is sent to one link. -/

/-- All that was sent from `t` to `t'` was sent to this link. -/
structure OnlyTo (linkId : LinkId) (t t' : Transport) : Prop where
  frames : ∃ sent, t'.frames = t.frames ++ sent ∧ ∀ frame ∈ sent, frame.linkId = linkId
  resources : ∃ sent, t'.resources = t.resources ++ sent ∧ ∀ resource ∈ sent, resource.linkId = linkId
  closedLinks : t'.closedLinks = t.closedLinks

theorem OnlyTo.refl (linkId : LinkId) (t : Transport) : OnlyTo linkId t t :=
  ⟨appended_refl _ _, appended_refl _ _, rfl⟩

theorem OnlyTo.trans {t₁ t₂ t₃ : Transport} (h₁ : OnlyTo linkId t₁ t₂) (h₂ : OnlyTo linkId t₂ t₃) :
    OnlyTo linkId t₁ t₃ :=
  ⟨appended_trans h₁.frames h₂.frames, appended_trans h₁.resources h₂.resources,
    h₂.closedLinks.trans h₁.closedLinks⟩

theorem transmit_onlyTo (linkId : LinkId) (outgoing : Outgoing) :
    Act.Steps (OnlyTo linkId) (transmit linkId outgoing) := by
  intro t
  have hsent := transmit_sent (fun frame => frame.linkId = linkId)
    (fun resource => resource.linkId = linkId) outgoing rfl (fun _ _ => rfl) t
  exact ⟨hsent.frames, hsent.resources, hsent.closedLinks⟩

/-! The server. -/

section
variable (identityHash : Bytes) (linkId : LinkId) (s s' : LiveServer (SessionState τ ρ))

/-- Nothing is stored but what a look-up of the identity refreshes, and nothing is sent but to this
link. -/
structure Inert : Prop where
  tables : Refreshes identityHash s.engine.store.rest s'.engine.store.rest
  sent : OnlyTo linkId s.transport s'.transport

/-- Inert, and every link hears the room it heard. -/
structure Quiet : Prop extends Inert identityHash linkId s s' where
  rooms : s'.linkRooms = s.linkRooms

end

/-- The identity is banned in the server's store. -/
def Bans (identityHash : Bytes) (s : LiveServer (SessionState τ ρ)) : Prop :=
  BannedIn identityHash s.engine

section Quiet
variable {identityHash : Bytes} {linkId : LinkId}

theorem Inert.refl (s : LiveServer (SessionState τ ρ)) : Inert identityHash linkId s s :=
  ⟨.refl _, .refl _ _⟩

theorem Inert.trans {s₁ s₂ s₃ : LiveServer (SessionState τ ρ)} (h₁ : Inert identityHash linkId s₁ s₂)
    (h₂ : Inert identityHash linkId s₂ s₃) : Inert identityHash linkId s₁ s₃ :=
  ⟨h₁.tables.trans h₂.tables, h₁.sent.trans h₂.sent⟩

theorem quiet_guards (identityHash : Bytes) (linkId : LinkId) :
    Act.Guards (@Bans τ ρ identityHash) (Quiet identityHash linkId) where
  refl s := ⟨.refl s, rfl⟩
  trans _ _ _ h₁ h₂ := ⟨h₁.toInert.trans h₂.toInert, h₂.rooms.trans h₁.rooms⟩
  kept _ _ hbans h := h.tables.bans hbans

instance : IsPreorder _ (@Quiet τ ρ identityHash linkId) := (quiet_guards _ _).preorder

theorem quiet_refl (s : LiveServer (SessionState τ ρ)) : Quiet identityHash linkId s s :=
  (quiet_guards identityHash linkId).refl s

theorem onEngine_quiet {x : Session τ ρ α} {q : α → Prop}
    (hx : Act.Upholds (BannedIn identityHash) (OnlyLooksUp identityHash) q x) :
    Act.Upholds (Bans identityHash) (Quiet identityHash linkId) q (onEngine x) := by
  intro s hbans
  obtain ⟨hlooks, hend⟩ := hx s.engine hbans
  exact ⟨⟨⟨hlooks, .refl _ _⟩, rfl⟩, hend⟩

variable (host : Host) (serving : Serving τ ρ) (durable : DurableServing τ ρ)
  (publishing : Publishing τ ρ)

theorem sendResponseFrame_quiet (identityHash : Bytes) (linkId : LinkId) (frame : Frame) :
    Act.Steps (Quiet identityHash linkId)
      (sendResponseFrame host (sessionEngine serving durable publishing) linkId frame) := by
  refine .bind (.read _) fun s => ?_
  refine .bind (.lift _) fun outgoing s => ?_
  exact ⟨⟨.refl _, transmit_onlyTo linkId outgoing s.transport⟩, rfl⟩

/-- A resource that is released was kept in memory. -/
theorem releaseResponseResource_quiet (identityHash : Bytes) (linkId : LinkId) (frame : Frame) :
    Act.Steps (Quiet identityHash linkId)
      (releaseResponseResource (sessionEngine serving durable publishing) frame) := by
  have htake (resourceId : String) : Act.Steps (Quiet identityHash linkId)
      (modify fun s : LiveServer (SessionState τ ρ) => { s with
        engine := (sessionEngine serving durable publishing).takeResourcePayload resourceId s.engine } :
        Live (SessionState τ ρ) Unit) :=
    .modify fun s => ⟨⟨.of_tables rfl rfl, .refl _ _⟩, rfl⟩
  unfold releaseResponseResource
  split
  · split
    · split
      · exact .pure ()
      · exact htake _
    · split
      · exact .throw _
      · exact htake _
  · exact .pure ()

/-! A request that is turned away. -/

theorem appendJoinAcceptUserId_turned (userId : UserId) (h : TurnedAll responses) :
    appendJoinAcceptUserId userId responses = .ok responses := by
  induction responses with
  | nil => rfl
  | cons response responses ih =>
    have hop : response.op ≠ .joinAccept := by
      rcases h response mem_cons_self with hop | hop | hop <;> rw [hop] <;> exact nofun
    rw [appendJoinAcceptUserId, if_neg hop, ih fun r hr => h r (mem_cons_of_mem _ hr)]
    rfl

theorem snapshotRoom_turned (h : TurnedAll responses) : snapshotRoom responses = none := by
  refine findSome?_eq_none_iff.mpr fun response hresponse => ?_
  rcases h response hresponse with hop | hop | hop <;> rw [hop]

theorem broadcastResponses_turned (frame : Frame) (h : TurnedAll responses) :
    broadcastResponses frame responses = [] := by
  refine flatMap_eq_nil_iff.mpr fun response hresponse => ?_
  have hown : isRoomBroadcastResponse response.op = false ∧ response.op ≠ .roomEvent := by
    rcases h response hresponse with hop | hop | hop <;> rw [hop] <;> exact ⟨rfl, nofun⟩
  unfold splitResponse
  rw [if_neg fun hevent => hown.2 hevent.2, hown.1]
  rfl

/-- The outcome of a request that was turned away: there is nothing more to do. -/
structure Unheeded (outcome : FrameDispatchOutcome) : Prop where
  sessionAccepted : outcome.sessionAccepted = false
  moderationDisconnectSucceeded : outcome.moderationDisconnectSucceeded = false

theorem dispatchOutcome_turned (frame : Frame) (answers : List Frame) (h : TurnedAll responses) :
    Unheeded (dispatchOutcome frame responses answers) ∧
      (dispatchOutcome frame responses answers).partSucceeded = false := by
  have hnone (response : Frame) (hresponse : response ∈ responses) :
      response.op ≠ .sessionAccept ∧ commandResultName response = none := by
    unfold commandResultName
    rcases h response hresponse with hop | hop | hop <;> rw [hop] <;> exact ⟨nofun, rfl⟩
  refine ⟨⟨?_, ?_⟩, ?_⟩
  · refine Bool.and_eq_false_imp.mpr fun _ => any_eq_false.mpr fun response hresponse => ?_
    simpa using (hnone response hresponse).1
  · refine Bool.and_eq_false_imp.mpr fun _ => any_eq_false.mpr fun response hresponse => ?_
    simp [isSuccessfulDisconnectResponse, (hnone response hresponse).2]
  · refine Bool.and_eq_false_imp.mpr fun _ => any_eq_false.mpr fun response hresponse => ?_
    simp [isSuccessfulPartResponse, (hnone response hresponse).2]

variable {peer : ServerPeer}

theorem appendSnapshot_turned (kind : SnapshotKind) (linkId : LinkId) (peer : ServerPeer)
    (request : Frame) (h : TurnedAll responses) :
    Act.Upholds (Bans peer.identityHash) (Quiet peer.identityHash linkId) TurnedAll
      (appendSnapshot (sessionEngine serving durable publishing) kind linkId peer request responses) := by
  have hguards := @quiet_guards τ ρ peer.identityHash linkId
  refine .bind hguards (.of_steps (.read _)) fun active _ => ?_
  rw [snapshotRoom_turned h, ite_self]
  exact .pure hguards h

theorem executeFrame_turned (linkId : LinkId) (peer : ServerPeer) (frame : Frame)
    (active : List ServerPeer) :
    Act.Upholds (Bans peer.identityHash) (Quiet peer.identityHash linkId) TurnedAll
      (executeFrame (sessionEngine serving durable publishing) linkId peer frame active) := by
  have hguards := @quiet_guards τ ρ peer.identityHash linkId
  refine .bind hguards (.of_steps (.read _)) fun features _ => ?_
  refine .bind hguards (onEngine_quiet (handleFrame_turns serving peer frame active features))
    fun responses hturned => ?_
  refine .bind hguards (Q := TurnedAll) ?_ fun responses hturned => ?_
  · refine .bind hguards (.of_steps (.read _)) fun asked _ => ?_
    split
    · have hlooks : Act.Upholds (BannedIn peer.identityHash) (OnlyLooksUp peer.identityHash)
          (fun _ => True) ((sessionEngine serving durable publishing).localUserId peer) :=
        .bind (onlyLooksUp_guards _) (ensurePeer_looks peer) fun _ _ => .pure (onlyLooksUp_guards _) trivial
      refine .bind hguards (onEngine_quiet hlooks) fun userId _ => .lift hguards fun answers hanswers => ?_
      rw [appendJoinAcceptUserId_turned userId hturned] at hanswers
      rwa [← Except.ok.inj hanswers]
    · exact .pure hguards hturned
  · refine .bind hguards (appendSnapshot_turned serving durable publishing _ _ _ _ hturned)
      fun responses hturned => ?_
    refine .bind hguards (appendSnapshot_turned serving durable publishing _ _ _ _ hturned)
      fun responses hturned => ?_
    exact appendSnapshot_turned serving durable publishing _ _ _ _ hturned

theorem sendEach_quiet (identityHash : Bytes) (linkId : LinkId) (responses : List Frame) :
    Act.Steps (Quiet identityHash linkId) (forEach (sendResponseFrame host
      (sessionEngine serving durable publishing) linkId) responses) :=
  .forEach
    (sendResponseFrame_quiet host serving durable publishing identityHash linkId) responses

/-- A request that is handled with nothing left to do. -/
abbrev Spends (peer : ServerPeer) (linkId : LinkId)
    (x : Live (SessionState τ ρ) FrameDispatchOutcome) : Prop :=
  Act.Upholds (Bans peer.identityHash) (Quiet peer.identityHash linkId)
    (fun outcome => Unheeded outcome ∧ outcome.partSucceeded = false) x

theorem handleNewFrame_spends (linkId : LinkId) (peer : ServerPeer) (frame : Frame)
    (fingerprint : Option Bytes) (active : List ServerPeer) :
    Spends peer linkId (handleNewFrame host (sessionEngine serving durable publishing) linkId peer frame
      fingerprint active) := by
  have hguards := @quiet_guards τ ρ peer.identityHash linkId
  refine .bind hguards (executeFrame_turned serving durable publishing linkId peer frame active)
    fun responses hturned => ?_
  dsimp only
  rw [broadcastResponses_turned frame hturned, append_nil]
  have hremember : Act.Steps (Quiet peer.identityHash linkId)
      (remember host linkId frame.seq fingerprint (originResponses frame responses) :
        Live (SessionState τ ρ) Unit) := by
    unfold remember
    split
    · exact .pure ()
    · exact .modify fun s => ⟨⟨.refl _, .refl _ _⟩, rfl⟩
  have hdelivered : Act.Steps (Quiet peer.identityHash linkId) (deliver host
      (sessionEngine serving durable publishing) linkId (originResponses frame responses) []) :=
    .bind (sendEach_quiet host serving durable publishing _ linkId _)
      fun _ => .pure ()
  refine .bind hguards (.of_steps hremember) fun _ _ => ?_
  refine .bind hguards (.of_steps (.attempt hdelivered)) fun sent _ => ?_
  refine .bind hguards (.of_steps (.forEach
    (releaseResponseResource_quiet serving durable publishing _ linkId) _)) fun _ _ => ?_
  refine .bind hguards (.of_steps (.lift sent)) fun _ _ => ?_
  exact .pure hguards (dispatchOutcome_turned frame _ hturned)

/-- A frame that is no durable mutation. -/
theorem handleDecodedFrame_spends (linkId : LinkId) (peer : ServerPeer) (active : List ServerPeer)
    (hplain : isDurableMutationEnvelope frame.body = false) :
    Spends peer linkId (handleDecodedFrame host (sessionEngine serving durable publishing) linkId peer
      (some frame) active) := by
  have hguards := @quiet_guards τ ρ peer.identityHash linkId
  have hunheeded (answers : List Frame) : Unheeded (FrameDispatchOutcome.default answers) ∧
      (FrameDispatchOutcome.default answers).partSucceeded = false := ⟨⟨rfl, rfl⟩, rfl⟩
  unfold handleDecodedFrame
  simp only [hplain, Bool.false_eq_true, if_false]
  refine .bind hguards (.of_steps (.lift _)) fun fingerprint _ => ?_
  refine .bind hguards (.of_steps (.read _)) fun found _ => ?_
  cases found with
  | hit responses =>
    exact .bind hguards (.of_steps (sendEach_quiet host serving durable publishing _ linkId responses))
      fun _ _ => .pure hguards (hunheeded _)
  | collision =>
    exact .bind hguards (.of_steps (sendResponseFrame_quiet host serving durable publishing _ linkId _))
      fun _ _ => .pure hguards (hunheeded _)
  | miss => exact handleNewFrame_spends host serving durable publishing linkId peer frame _ active

/-! A durable mutation. -/

section
variable (durable : DurableServing τ ρ) (s : LiveServer (SessionState τ ρ)) (linkId : LinkId)
  (peer : ServerPeer) (frame : Frame)

/-- The request gives the banned user another nickname colour. -/
def ColoursAnew : Prop :=
  frame.op = .nicknameColourSet ∧ frame.roomId = none ∧ boundTo s.nicknameColourLinks linkId peer = true ∧
    ∃ envelope binding, fromFrameBody frame.body = .ok envelope ∧
      durableBinding s linkId peer = some binding ∧
      Recolours durable peer binding.clientInstanceId envelope s.engine

/-- The request to part was granted before, and the answer is stored. -/
def PartsAgain : Prop :=
  ∃ envelope binding result, fromFrameBody frame.body = .ok envelope ∧
    durableBinding s linkId peer = some binding ∧
    StoredBefore ⟨peer.identityHash, binding.clientInstanceId, envelope.mutationId⟩
      envelope.requestHash result s.engine.store ∧ PartGranted durable frame result

end

theorem executeDurable_hushes (active : List ServerPeer) {binding : DurableSessionBinding}
    {envelope : DurableMutationEnvelope} (hbans : Bans peer.identityHash s)
    (henvelope : fromFrameBody frame.body = .ok envelope)
    (hbinding : durableBinding s linkId peer = some binding)
    (hcolour : ¬ ColoursAnew durable s linkId peer frame) :
    let x := executeDurable (sessionEngine serving durable publishing) linkId peer frame active binding
      envelope
    Quiet peer.identityHash linkId s (x s).2 ∧ ∀ dispatch, (x s).1 = .ok dispatch →
      HushedDispatch durable ⟨peer.identityHash, binding.clientInstanceId, envelope.mutationId⟩
        envelope.requestHash frame.seq s.engine.store dispatch := by
  have herror (code : ChatErrorCode) (text : String) (dispatch : DurableMutationDispatch)
      (h : (.ok (durableErrorDispatch frame.seq frame.roomId code text) :
        Except ServerError DurableMutationDispatch) = .ok dispatch) :
      HushedDispatch durable ⟨peer.identityHash, binding.clientInstanceId, envelope.mutationId⟩
        envelope.requestHash frame.seq s.engine.store dispatch := by
    rw [← Except.ok.inj h]
    exact .error _ _ _ _
  intro x
  unfold x executeDurable
  by_cases hop : frame.op = .nicknameColourSet
  · rw [if_pos hop, read_bind]
    split
    · next hcoloured =>
      have hsame : ¬ Recolours durable peer binding.clientInstanceId envelope s.engine := fun h =>
        hcolour ⟨hop, hcoloured.2, hcoloured.1, envelope, binding, henvelope, hbinding, h⟩
      obtain ⟨hlooks, hdispatch⟩ := handleDurableNicknameColour_hushes frame.seq hbans hsame
      exact ⟨⟨⟨hlooks, .refl _ _⟩, rfl⟩, hdispatch⟩
    · split
      · exact ⟨quiet_refl s, herror _ _⟩
      · exact ⟨quiet_refl s, herror _ _⟩
  · rw [if_neg hop]
    obtain ⟨hlooks, hdispatch⟩ := handleDurableMutation_hushes serving durable
      (contextUnder peer active binding) frame.seq frame.roomId frame.op binding.clientInstanceId
      envelope hbans
    exact ⟨⟨⟨hlooks, .refl _ _⟩, rfl⟩, hdispatch⟩

theorem deliverDurable_hushed {key : DurableMutationKey} {hash : RequestHash} {e : SessionState τ ρ}
    {dispatch : DurableMutationDispatch}
    (h : HushedDispatch durable key hash frame.seq e.store dispatch) :
    Act.Upholds (Bans peer.identityHash) (Quiet peer.identityHash linkId)
      (fun outcome => Unheeded outcome ∧ (outcome.partSucceeded = true →
        ∃ result, StoredBefore key hash result e.store ∧ PartGranted durable frame result))
      (deliverDurable host (sessionEngine serving durable publishing) linkId peer frame dispatch) := by
  have hguards := @quiet_guards τ ρ peer.identityHash linkId
  unfold deliverDurable
  rw [h.disconnects, h.broadcasts]
  refine .bind hguards (Q := fun _ => True) (.pure hguards trivial) fun _ _ => ?_
  refine .bind hguards (.of_steps (sendResponseFrame_quiet host serving durable publishing _ linkId _))
    fun _ _ => ?_
  refine .bind hguards (Q := fun _ => True) (.pure hguards trivial) fun _ _ => .pure hguards ?_
  refine ⟨⟨rfl, rfl⟩, fun hpart => ?_⟩
  obtain ⟨hop, hgranted⟩ := Bool.and_eq_true_iff.mp hpart
  obtain ⟨result, hstored, hdecoded⟩ := h.parts hgranted
  exact ⟨result, hstored, beq_iff_eq.mp hop, dispatch.origin, hdecoded, hgranted⟩

section
variable (active : List ServerPeer) (hbans : Bans peer.identityHash s)
  (hcolour : ¬ ColoursAnew durable s linkId peer frame)
include hbans hcolour

theorem handleDurableMutationFrame_hushed :
    let x := handleDurableMutationFrame host (sessionEngine serving durable publishing) linkId peer
      frame active
    Quiet peer.identityHash linkId s (x s).2 ∧ ∀ outcome, (x s).1 = .ok outcome →
      Unheeded outcome ∧ (outcome.partSucceeded = true → PartsAgain durable s linkId peer frame) := by
  have hguards := @quiet_guards τ ρ peer.identityHash linkId
  -- a request that is not executed is answered with an error, and nothing else
  have herror (code : ChatErrorCode) (text : String) :
      Spends peer linkId (answerError host (sessionEngine serving durable publishing) linkId frame code
        text) :=
    .bind hguards (.of_steps (sendResponseFrame_quiet host serving durable publishing _ linkId _))
      fun _ _ => .pure hguards ⟨⟨rfl, rfl⟩, rfl⟩
  have hanswered {code : ChatErrorCode} {text : String} (outcome : FrameDispatchOutcome)
      (h : (answerError host (sessionEngine serving durable publishing) linkId frame code text s).1 =
        .ok outcome) :
      Unheeded outcome ∧ (outcome.partSucceeded = true → PartsAgain durable s linkId peer frame) := by
    obtain ⟨hunheeded, hpart⟩ := (herror code text s hbans).2 outcome h
    exact ⟨hunheeded, fun hparted => absurd hparted (by rw [hpart]; exact Bool.false_ne_true)⟩
  intro x
  unfold x handleDurableMutationFrame
  cases henvelope : fromFrameBody frame.body with
  | error e => exact ⟨(herror _ _ s hbans).1, hanswered⟩
  | ok envelope =>
    dsimp only
    rw [read_bind]
    cases hbinding : durableBinding s linkId peer with
    | none => exact ⟨(herror _ _ s hbans).1, hanswered⟩
    | some binding =>
      obtain ⟨hquiet, hhushed⟩ := executeDurable_hushes serving durable publishing active hbans
        henvelope hbinding hcolour
      dsimp only
      rcases hexecuted : executeDurable (sessionEngine serving durable publishing) linkId peer frame
        active binding envelope s with ⟨r, s₁⟩
      rw [hexecuted] at hquiet hhushed
      cases r with
      | error e =>
        rw [bind_error hexecuted]
        exact ⟨hquiet, nofun⟩
      | ok dispatch =>
        rw [bind_ok hexecuted]
        obtain ⟨hdelivered, houtcome⟩ := deliverDurable_hushed host serving durable publishing
          (hhushed dispatch rfl) s₁ (hquiet.tables.bans hbans)
        refine ⟨hguards.trans _ _ _ hquiet hdelivered, fun outcome h => ?_⟩
        obtain ⟨hunheeded, hpart⟩ := houtcome outcome h
        refine ⟨hunheeded, fun hparted => ?_⟩
        obtain ⟨result, hstored, hgranted⟩ := hpart hparted
        exact ⟨envelope, binding, result, henvelope, hbinding, hstored, hgranted⟩

theorem handleDecodedFrame_quiet :
    let x := handleDecodedFrame host (sessionEngine serving durable publishing) linkId peer (some frame)
      active
    Quiet peer.identityHash linkId s (x s).2 ∧ ∀ outcome, (x s).1 = .ok outcome →
      Unheeded outcome ∧ (outcome.partSucceeded = true → PartsAgain durable s linkId peer frame) := by
  cases hdurable : isDurableMutationEnvelope frame.body with
  | false =>
    obtain ⟨hquiet, hspends⟩ := handleDecodedFrame_spends host serving durable publishing linkId peer
      active hdurable s hbans
    refine ⟨hquiet, fun outcome houtcome => ?_⟩
    obtain ⟨hunheeded, hpart⟩ := hspends outcome houtcome
    exact ⟨hunheeded, fun hparted => absurd hparted (by rw [hpart]; exact Bool.false_ne_true)⟩
  | true =>
    rw [handleDecodedFrame_durable host _ hdurable]
    exact handleDurableMutationFrame_hushed host serving durable publishing active hbans hcolour

end

/-! A packet. -/

/-- The request is heard of: it gives its user another colour, or it is answered as the part it was
before, and another link hears the room. -/
def Heard (durable : DurableServing τ ρ) (s : LiveServer (SessionState τ ρ)) (linkId : LinkId)
    (peer : ServerPeer) (frame : Frame) : Prop :=
  ColoursAnew durable s linkId peer frame ∨
  (PartsAgain durable s linkId peer frame ∧ s.linkRooms.contains linkId = true ∧
    ∃ roomId other, frame.roomId = some roomId ∧ other ≠ linkId ∧ s.linkRooms[other]? = some roomId)

/-- Nobody is looked up for a packet that is no command. -/
theorem packetState_plain (hop : frame.op ≠ .command) (s : LiveServer (SessionState τ ρ)) :
    packetState (sessionEngine serving durable publishing) linkId peer (some frame) size s =
      s.recordTraffic linkId size (some frame.op) := by
  have hnobody (candidate : ServerPeer) (active : List ServerPeer) :
      (sessionEngine serving durable publishing).moderationDisconnectTargetForFrame candidate frame
        active = (pure none : Session τ ρ (Option Bytes)) := if_pos hop
  unfold packetState packetLookup moderationTarget
  dsimp only
  rw [hnobody]
  rfl

theorem ColoursAnew.of_packet
    (h : ColoursAnew durable (packetState (sessionEngine serving durable publishing) linkId peer
      (some frame) size s) linkId (candidatePeer peer (some frame)) frame) :
    ColoursAnew durable s linkId peer frame := by
  obtain ⟨hop, hrest⟩ := h
  rw [packetState_plain serving durable publishing (by rw [hop]; exact nofun),
    candidatePeer_of_op (by rw [hop]; exact nofun)] at hrest
  exact ⟨hop, hrest⟩

theorem PartsAgain.of_packet
    (h : PartsAgain durable (packetState (sessionEngine serving durable publishing) linkId peer
      (some frame) size s) linkId (candidatePeer peer (some frame)) frame) :
    frame.op = .partRoom ∧ PartsAgain durable s linkId peer frame := by
  obtain ⟨_, _, _, _, _, _, hop, _⟩ := id h
  rw [packetState_plain serving durable publishing (by rw [hop]; exact nofun),
    candidatePeer_of_op (by rw [hop]; exact nofun)] at h
  exact ⟨hop, h⟩

/-- The packet up to its dispatch. -/
theorem dispatchPacket_quiet (frame : Option Frame) (size : Nat) (hbans : Bans peer.identityHash s)
    (hcolour : ∀ f, frame = some f → ¬ ColoursAnew durable s linkId peer f) :
    let x := dispatchPacket host (sessionEngine serving durable publishing) linkId peer frame size
    Quiet peer.identityHash linkId s (x s).2 ∧ ∀ target outcome, (x s).1 = .ok (target, outcome) →
      Unheeded outcome ∧ (outcome.partSucceeded = true →
        ∃ f, frame = some f ∧ f.op = .partRoom ∧ PartsAgain durable s linkId peer f) := by
  have hguards := @quiet_guards τ ρ peer.identityHash linkId
  intro x
  unfold x
  rw [dispatchPacket_eq]
  cases frame with
  | none => exact ⟨⟨⟨.refl _, .refl _ _⟩, rfl⟩, nofun⟩
  | some frame =>
    have hidentity := candidatePeer_identityHash peer (some frame)
    have hlooked : Quiet peer.identityHash linkId s (packetState
        (sessionEngine serving durable publishing) linkId peer (some frame) size s) := by
      have hlooks := moderationDisconnectTarget_looks (candidatePeer peer (some frame)) frame
        (packetActive linkId peer (some frame) size s) s.engine (hidentity ▸ hbans)
      rw [hidentity] at hlooks
      exact ⟨⟨hlooks.1, .refl _ _⟩, rfl⟩
    have hbanned : Bans (candidatePeer peer (some frame)).identityHash (packetState
        (sessionEngine serving durable publishing) linkId peer (some frame) size s) := by
      rw [hidentity]
      exact hlooked.tables.bans hbans
    generalize hstate : packetState (sessionEngine serving durable publishing) linkId peer (some frame)
      size s = looked at hlooked hbanned
    generalize hactive : packetActive linkId peer (some frame) size s = active
    have hspared : ¬ ColoursAnew durable looked linkId (candidatePeer peer (some frame)) frame := by
      rw [← hstate]
      exact fun h => hcolour frame rfl (h.of_packet serving durable publishing)
    obtain ⟨hquiet, hended⟩ := handleDecodedFrame_quiet host serving durable publishing active hbanned
      hspared
    rw [hidentity] at hquiet
    refine ⟨hguards.trans _ _ _ hlooked hquiet, fun target outcome houtcome => ?_⟩
    obtain ⟨ended, hok, hpair⟩ := Outcome.map_ok.mp houtcome
    obtain ⟨hunheeded, hpart⟩ := hended ended hok
    cases hpair
    refine ⟨hunheeded, fun hparted => ⟨frame, rfl, ?_⟩⟩
    have hparts := hpart hparted
    rw [← hstate] at hparts
    exact hparts.of_packet serving durable publishing

/-- The userlist of a room no link hears is sent to nobody. -/
theorem broadcastUserlistForRoom_unheard {σ : Type} (engine : SessionEngine σ) {roomId : UInt32}
    {s : LiveServer σ} (h : ∀ l : LinkId, s.linkRooms[l]? ≠ some roomId) :
    (broadcastUserlistForRoom host engine roomId s).2 = s := by
  have hnone : s.roomLinkIdsIncluding roomId = [] := by
    refine map_eq_nil_iff.mpr (filter_eq_nil_iff.mpr fun p hp hroom => ?_)
    have hheard := Std.ExtTreeMap.mem_toList_iff_getElem?_eq_some.mp hp
    rw [beq_iff_eq.mp hroom] at hheard
    exact h p.1 hheard
  unfold broadcastUserlistForRoom
  rw [read_bind, read_bind, hnone]
  rfl

theorem handlePacket_inert (frame : Option Frame) (size : Nat) (hbans : Bans peer.identityHash s)
    (hheard : ∀ f, frame = some f → ¬ Heard durable s linkId peer f) :
    Inert peer.identityHash linkId s (handlePacket host (sessionEngine serving durable publishing) linkId
      peer frame size s).2 := by
  obtain ⟨hquiet, hended⟩ := dispatchPacket_quiet host serving durable publishing frame size hbans
    fun f hf hcolour => hheard f hf (.inl hcolour)
  unfold handlePacket
  rw [attempt_bind]
  cases hdispatched : (dispatchPacket host (sessionEngine serving durable publishing) linkId peer frame
      size s).1 with
  | error e => exact hquiet.toInert
  | ok dispatched =>
    obtain ⟨target, outcome⟩ := dispatched
    obtain ⟨hunheeded, hpart⟩ := hended target outcome hdispatched
    have hsubscribes (roomId : Option UInt32) (s' : LiveServer (SessionState τ ρ)) :
        Inert peer.identityHash linkId s' (subscribe linkId roomId s').2 := by
      cases roomId with
      | none => exact .refl _
      | some roomId => exact ⟨.refl _, .refl _ _⟩
    show Inert _ _ _ (settleDispatch host (sessionEngine serving durable publishing) linkId peer
      (candidatePeer peer frame) frame target outcome _).2
    rw [settleDispatch_steps, hunheeded.sessionAccepted, hunheeded.moderationDisconnectSucceeded]
    cases hparted : outcome.partSucceeded with
    | false => exact hquiet.toInert.trans (hsubscribes _ _)
    | true =>
      obtain ⟨f, rfl, hop, hparts⟩ := hpart hparted
      have hjoined : (some f).bind joinedRoomIdFromFrame = none := by
        show joinedRoomIdFromFrame f = none
        unfold joinedRoomIdFromFrame
        rw [hop]
      have hroom : (some f).bind partedRoomIdFromFrame = f.roomId := if_pos hop
      rw [if_pos rfl, hjoined, hroom]
      cases hroomId : f.roomId with
      | none => exact hquiet.toInert
      | some roomId =>
        have hrooms := hquiet.rooms
        generalize (dispatchPacket host (sessionEngine serving durable publishing) linkId peer (some f)
          size s).2 = s₁ at hquiet hrooms
        obtain ⟨hsubscribed, hunsubscribed⟩ | hunsubscribed := unsubscribe_some host
          (sessionEngine serving durable publishing) linkId roomId s₁
        · -- the link heard a room, so no other link hears the one it parted
          have halone (l : LinkId) : (s₁.linkRooms.erase linkId)[l]? ≠ some roomId := by
            intro hl
            by_cases hown : l = linkId
            · rw [hown, LinkMap.getElem?_erase_self] at hl
              cases hl
            · rw [LinkMap.getElem?_erase_ne _ (Ne.symm hown), hrooms] at hl
              rw [hrooms] at hsubscribed
              exact hheard f rfl (.inr ⟨hparts, hsubscribed, roomId, l, hroomId, hown, hl⟩)
          rw [broadcastUserlistForRoom_unheard host _ halone] at hunsubscribed
          show Inert _ _ _ (unsubscribe host (sessionEngine serving durable publishing) linkId
            (some roomId) s₁).2
          rw [hunsubscribed]
          exact ⟨hquiet.tables, hquiet.sent⟩
        · show Inert _ _ _ (unsubscribe host (sessionEngine serving durable publishing) linkId
            (some roomId) s₁).2
          rw [hunsubscribed]
          exact ⟨hquiet.tables, hquiet.sent⟩

/-! Uploads. -/

section
variable (identityHash : Bytes) (linkId : LinkId) {response : Frame} (h : Turned response)
include h

theorem broadcastRoomEvent_turned :
    Act.Upholds (Bans identityHash) (Quiet identityHash linkId) (fun _ => True)
      (broadcastRoomEvent host (sessionEngine serving durable publishing) linkId response) := by
  have hown : isRoomBroadcastResponse response.op = false := by
    rcases h with hop | hop | hop <;> rw [hop] <;> rfl
  refine .of_steps fun s => ?_
  unfold broadcastRoomEvent LiveServer.roomEventTargets
  rw [read_bind, hown]
  exact quiet_refl s

/-- What answers an upload goes to its link. -/
theorem answerUpload_quiet :
    Act.Upholds (Bans identityHash) (Quiet identityHash linkId) (fun _ => True)
      (sendResponseFrame host (sessionEngine serving durable publishing) linkId response >>= fun _ =>
        broadcastRoomEvent host (sessionEngine serving durable publishing) linkId response) :=
  .bind (quiet_guards _ _)
    (.of_steps (sendResponseFrame_quiet host serving durable publishing _ linkId response))
    fun _ _ => broadcastRoomEvent_turned host serving durable publishing _ linkId h

end

theorem handleResourceReceived_inert (resourceId : Option String) (data : Bytes)
    (hpeer : s.peers[linkId]? = some peer) (hbans : Bans peer.identityHash s) :
    Inert peer.identityHash linkId s (handleResourceReceived host
      (sessionEngine serving durable publishing) linkId resourceId data s).2 := by
  have hguards := @quiet_guards τ ρ peer.identityHash linkId
  unfold handleResourceReceived
  rw [read_bind, hpeer]
  cases resourceId with
  | none => exact .refl s
  | some resourceId =>
    dsimp only
    rw [read_bind]
    have hanswers (responses : List Frame) (hturned : TurnedAll responses) :
        Act.Upholds (Bans peer.identityHash) (Quiet peer.identityHash linkId) (fun _ => True) (do
          let sent ← attempt (forEach (fun response => do
            sendResponseFrame host (sessionEngine serving durable publishing) linkId response
            broadcastRoomEvent host (sessionEngine serving durable publishing) linkId response) responses)
          forEach (releaseResponseResource (sessionEngine serving durable publishing)) responses
          lift sent) := by
      refine .bind hguards (.attempt (.forEach hguards fun response hresponse =>
        answerUpload_quiet host serving durable publishing _ linkId (hturned response hresponse)))
        fun sent _ => ?_
      refine .bind hguards (.of_steps (.forEach
        (releaseResponseResource_quiet serving durable publishing _ linkId) _)) fun _ _ => ?_
      exact .of_steps (.lift sent)
    exact (Act.Upholds.bind hguards (onEngine_quiet (handleUploadResource_turns serving peer resourceId
      data _)) hanswers s hbans).1.toInert

theorem handleChannelAttachmentData_inert (data : Bytes) (hpeer : s.peers[linkId]? = some peer)
    (hbans : Bans peer.identityHash s) :
    Inert peer.identityHash linkId s (handleChannelAttachmentData host
      (sessionEngine serving durable publishing) linkId data s).2 := by
  have hguards := @quiet_guards τ ρ peer.identityHash linkId
  unfold handleChannelAttachmentData
  rw [read_bind, hpeer]
  dsimp only
  rw [read_bind]
  split
  · rw [read_bind, read_bind, modify_bind]
    have hhandled := handleChannelUpload_turns serving linkId peer data
      (boundTo s.roomMediaPolicyLinks linkId peer) s.channelUploads hbans
    change OnlyLooksUp _ _ ((sessionEngine serving durable publishing).channelUpload linkId peer data
      (boundTo s.roomMediaPolicyLinks linkId peer) s.channelUploads s.engine).2 ∧
      ∀ responses, ((sessionEngine serving durable publishing).channelUpload linkId peer data
        (boundTo s.roomMediaPolicyLinks linkId peer) s.channelUploads s.engine).1.1 = .ok responses →
          TurnedAll responses at hhandled
    generalize (sessionEngine serving durable publishing).channelUpload linkId peer data
      (boundTo s.roomMediaPolicyLinks linkId peer) s.channelUploads s.engine = handled at hhandled ⊢
    obtain ⟨hlooks, hturned⟩ := hhandled
    have hanswers (responses : List Frame) (h : TurnedAll responses) :
        Act.Upholds (Bans peer.identityHash) (Quiet peer.identityHash linkId) (fun _ => True)
          (forEach (fun response => do
            sendResponseFrame host (sessionEngine serving durable publishing) linkId response
            broadcastRoomEvent host (sessionEngine serving durable publishing) linkId response
            releaseResponseResource (sessionEngine serving durable publishing) response) responses) := by
      refine .forEach hguards fun response hresponse => ?_
      refine .bind hguards (.of_steps (sendResponseFrame_quiet host serving durable publishing _ linkId
        response)) fun _ _ => ?_
      refine .bind hguards (broadcastRoomEvent_turned host serving durable publishing _ linkId
        (h response hresponse)) fun _ _ => ?_
      exact .of_steps (releaseResponseResource_quiet serving durable publishing _ linkId response)
    have hstaged : Quiet peer.identityHash linkId s
        (LiveServer.applyStage linkId handled.1.2 { s with engine := handled.2 }) := by
      cases handled.1.2 with
      | keep | start | drop => exact ⟨⟨hlooks, .refl _ _⟩, rfl⟩
    refine (hguards.trans _ _ _ hstaged ?_).toInert
    exact (Act.Upholds.bind hguards (.lift hguards hturned) hanswers _
      (hstaged.tables.bans hbans)).1
  · exact .refl s

/-! A run. -/

/-- The link and the peer a frame or an upload is handled for. -/
def speaker {σ : Type} (s : LiveServer σ) : LiveInput → Option (LinkId × ServerPeer)
  | .linkData linkId context frame _ now => (arrive linkId context frame now s).1.map (linkId, ·)
  | .channelAttachmentData linkId _ => (s.peers[linkId]?).map (linkId, ·)
  | .resourceReceived linkId _ _ => (s.peers[linkId]?).map (linkId, ·)
  | _ => none

/-- The frame of the input is heard of. -/
def HeardInput (durable : DurableServing τ ρ) (s : LiveServer (SessionState τ ρ)) : LiveInput → Prop
  | .linkData linkId context (some frame) _ now =>
    ∃ peer, (arrive linkId context (some frame) now s).1 = some peer ∧
      Heard durable (arrive linkId context (some frame) now s).2 linkId peer frame
  | _ => False

theorem arrive_untouched {σ : Type} {context : UInt8} {frame : Option Frame} {now : Int}
    {s s' : LiveServer σ} (h : arrive linkId context frame now s = (some peer, s')) :
    s'.engine = s.engine ∧ s'.transport = s.transport := by
  have hnoted : ∀ noted : LiveServer σ, (noted = s.noteContext linkId context ∨ noted = s) →
      noted.engine = s.engine ∧ noted.transport = s.transport := by
    rintro noted (rfl | rfl)
    · exact ⟨rfl, rfl⟩
    · exact ⟨rfl, rfl⟩
  unfold arrive at h
  split at h
  · cases h
  · dsimp only at h
    generalize hn : (if frame.isSome ∧ context ≠ 0 then s.noteContext linkId context else s) = noted at h
    have hsame := hnoted noted (by rw [← hn]; exact ite_eq_or_eq _ _ _)
    split at h
    · cases h
      exact hsame
    · split at h
      · split at h
        · cases h
          exact hsame
        · cases h
      · cases h

theorem liveStep_inert {i : LiveInput} (hspeaker : speaker s i = some (linkId, peer))
    (hbans : Bans peer.identityHash s) (hheard : ¬ HeardInput durable s i) :
    Inert peer.identityHash linkId s
      (liveStep host (sessionEngine serving durable publishing) s i).2 := by
  cases i with
  | linkData linkId context frame size now =>
    obtain ⟨peer, harrived, hpair⟩ := Option.map_eq_some_iff.mp hspeaker
    cases hpair
    have harrive : arrive linkId context frame now s =
        (some peer, (arrive linkId context frame now s).2) := Prod.ext harrived rfl
    obtain ⟨hengine, htransport⟩ := arrive_untouched harrive
    rw [(linkData_known host _ harrive size).1]
    have hspared (f : Frame) (hf : frame = some f) :
        ¬ Heard durable (arrive linkId context frame now s).2 linkId peer f := by
      subst hf
      exact fun h => hheard ⟨peer, harrived, h⟩
    generalize (arrive linkId context frame now s).2 = s₁ at hengine htransport hspared
    obtain ⟨htables, hsent⟩ := handlePacket_inert host serving durable publishing frame size
      (show Bans peer.identityHash s₁ from (congrArg (BannedIn _) hengine).mpr hbans) hspared
    rw [hengine] at htables
    rw [htransport] at hsent
    exact ⟨htables, hsent⟩
  | channelAttachmentData linkId data =>
    obtain ⟨peer, hpeer, hpair⟩ := Option.map_eq_some_iff.mp hspeaker
    cases hpair
    exact handleChannelAttachmentData_inert host serving durable publishing data hpeer hbans
  | resourceReceived linkId resourceId data =>
    obtain ⟨peer, hpeer, hpair⟩ := Option.map_eq_some_iff.mp hspeaker
    cases hpair
    exact handleResourceReceived_inert host serving durable publishing resourceId data hpeer hbans
  | linkOpened | peerIdentified | resourceTerminal | linkClosed | disconnectIdentity
  | expirePendingHandshakes => cases hspeaker

/-- In every run, whatever a banned peer sends, if it is not heard of: no table of the store changes
but for what a look-up refreshes of the peer's own row, and nothing is sent to another link. -/
theorem banned_peers_inert (host : Host) (serving : Serving τ ρ) (durable : DurableServing τ ρ)
    (publishing : Publishing τ ρ) (s : LiveServer (SessionState τ ρ)) (inputs : List LiveInput)
    (h : Machine.Meets (liveStep host (sessionEngine serving durable publishing))
      (fun s i => ∀ linkId peer, speaker s i = some (linkId, peer) → Bans peer.identityHash s →
        ¬ HeardInput durable s i) s inputs) :
    Machine.Meets (liveStep host (sessionEngine serving durable publishing))
      (fun s i => ∀ linkId peer, speaker s i = some (linkId, peer) → Bans peer.identityHash s →
        Inert peer.identityHash linkId s
          (liveStep host (sessionEngine serving durable publishing) s i).2) s inputs := by
  refine Machine.meets_of_invariant (I := fun _ => True) (fun _ _ _ _ => trivial)
    (fun s i _ hspared => ?_) h trivial
  intro linkId peer hspeaker hbans
  exact liveStep_inert host serving durable publishing hspeaker hbans
    (hspared linkId peer hspeaker hbans)

end Quiet

/-! A user is banned while their session is open, and asks for a nickname colour. -/

/-- The user's row, banned. -/
def bannedRow : UserRow :=
  { UserRow.created 1 firstPeer 0 with statusBits := 1 }

def bannedUsers : Users := ⟨⟨[bannedRow], nodup_singleton _⟩, nodup_singleton _⟩

def colouringServer : LiveServer (SessionState RoomTable (PendingResourceStore × Unit)) :=
  (Machine.run (liveStep Host.reference bareEngine) newServer
    [.linkOpened firstLink firstPeer 0,
      .linkData firstLink omenchatLinkContext
        (some (openFrame 1 [durableMutationCapability, nicknameColoursCapability])) 90 0]).2

def bannedServer : LiveServer (SessionState RoomTable (PendingResourceStore × Unit)) :=
  { colouringServer with
    engine := lobbyState { lobbyDatabase with users := bannedUsers } }

def colourEnvelope : DurableMutationEnvelope where
  mutationId := ⟨List.replicate 16 8, rfl⟩
  requestHash := ⟨List.replicate 32 0, .refl 32⟩
  body := .fields [.u64 0xff0000]

def colourFrame : Frame := Frame.new .nicknameColourSet 2 none colourEnvelope.wire

theorem bannedServer_bans : Bans firstPeer.identityHash bannedServer := ⟨bannedRow, rfl, rfl⟩

/-- A join of the banned user leaves everything as it is. -/
theorem banned_peers_inert_join :
    Machine.Meets (liveStep Host.reference bareEngine)
      (fun s i => ∀ linkId peer, speaker s i = some (linkId, peer) → Bans peer.identityHash s →
        Inert peer.identityHash linkId s (liveStep Host.reference bareEngine s i).2) bannedServer
      [.linkData firstLink omenchatLinkContext
        (some (Frame.new .joinRoom 2 (some 1) (.text "lobby"))) 9 0] := by
  refine banned_peers_inert Host.reference _ _ _ bannedServer _ ⟨fun linkId peer _ _ hheard => ?_, trivial⟩
  obtain ⟨_, _, ⟨hop, _⟩ | ⟨⟨_, _, _, _, _, _, hop, _⟩, _⟩⟩ := hheard
  · cases hop
  · cases hop

/-- The banned user is given the colour they ask for. -/
theorem banned_user_coloured :
    Bans firstPeer.identityHash bannedServer ∧
    speaker bannedServer (.linkData firstLink omenchatLinkContext (some colourFrame) 90 0) =
      some (firstLink, firstPeer) ∧
    ¬ Inert firstPeer.identityHash firstLink bannedServer (liveStep Host.reference bareEngine bannedServer
      (.linkData firstLink omenchatLinkContext (some colourFrame) 90 0)).2 := by
  refine ⟨bannedServer_bans, by decide +kernel, fun hinert => ?_⟩
  obtain ⟨refresh, hrefresh, hrows⟩ := hinert.tables.users
  have hcolours := congrArg (map UserRow.nicknameColourRgb) hrows
  have hkept : UserRow.nicknameColourRgb ∘ refresh = UserRow.nicknameColourRgb := by
    funext r
    rw [Function.comp, (hrefresh r).standing]
  rw [map_map, hkept] at hcolours
  revert hcolours
  decide +kernel

end Omen.Server
