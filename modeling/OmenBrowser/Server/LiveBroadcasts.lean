import OmenBrowser.Server.LiveDelivery
import OmenBrowser.Server.SessionLaws

/- What becomes of the news of a request when links are refused (the sends and the broadcast
   loops of `server/src/live.rs`).

   Each loop returns at the first send that fails, and so does the loop around it. The news
   that stand behind it are lost, whoever they are for: a link that is refused keeps the ones
   after it from hearing of what is already committed. `disconnect_identity` goes on with the
   next room when a room's user list cannot be sent; the loops here do not.

   The request itself is executed once, whatever becomes of the news. -/
namespace Omen.Server
open Wire Omen.Protocol Act List Delivery

variable {σ : Type}
  {t : Transport} {dead : LinkId → Bool} {linkId : LinkId} {peer : ServerPeer}
  {frame response : Frame} {s sending : LiveServer σ} {active : List ServerPeer}
  {responses : List Frame} {x : Live σ Unit}

/-- What is to be sent for an executed request: the answers, and then the news. -/
structure FanOut where
  answers : List Delivery
  news : List Delivery

namespace FanOut

/-- The transport once the answers are sent. -/
def answered (f : FanOut) (t : Transport) : Transport := (forEach perform f.answers t).2

/-- The transport once all is sent. -/
def sent (f : FanOut) (t : Transport) : Transport :=
  (forEach perform (f.answers ++ f.news) t).2

/-- The news that are not sent: those from the first that fails on, or all when an answer fails. -/
def lost (dead : LinkId → Bool) (f : FanOut) : List Delivery :=
  if f.answers.all (goes dead) then f.news.dropWhile (goes dead) else f.news

/-- No news are lost but those for links that are refused. -/
def Clear (dead : LinkId → Bool) (f : FanOut) : Prop := ∀ d ∈ f.lost dead, dead d.linkId = true

end FanOut

/-- Whether a list of deliveries succeeds, and which links are refused after it. -/
theorem perform_each_result (ht : t.Refuses dead) (ds : List Delivery) :
    (forEach perform ds t).2.Refuses dead ∧
    (ds.all (goes dead) = true → (forEach perform ds t).1 = .ok ()) ∧
    (ds.all (goes dead) = false → ∃ e, (forEach perform ds t).1 = .error e) := by
  induction ds generalizing t with
  | nil => exact ⟨ht, fun _ => rfl, nofun⟩
  | cons d ds ih =>
    obtain ⟨hrefuses, hgoes, hfails⟩ := d.perform_frames ht
    rw [all_cons]
    cases h : d.goes dead with
    | true =>
      obtain ⟨hresult, _⟩ := hgoes h
      have hboth : forEach perform (d :: ds) t =
          forEach perform ds (d.perform t).2 := bind_ok (Prod.ext hresult rfl)
      rw [hboth, Bool.true_and]
      exact ih hrefuses
    | false =>
      obtain ⟨⟨e, hresult⟩, _⟩ := hfails h
      have hboth : forEach perform (d :: ds) t = (.error e, (d.perform t).2) :=
        bind_error (Prod.ext hresult rfl)
      rw [hboth, Bool.false_and]
      exact ⟨hrefuses, nofun, fun _ => ⟨e, rfl⟩⟩

/-- All links that are not refused hear the news if and only if the news are clear. -/
theorem FanOut.received_iff_clear (ht : t.Refuses dead) (f : FanOut) :
    Received dead (fun _ => true) f.news (f.answered t) (f.sent t) ↔ f.Clear dead := by
  obtain ⟨hrefuses, hgoes, hfails⟩ := perform_each_result ht f.answers
  unfold FanOut.Clear FanOut.lost FanOut.sent
  rw [forEach_append]
  cases hall : f.answers.all (goes dead) with
  | true =>
    rw [bind_ok (Prod.ext (hgoes hall) rfl), if_pos rfl]
    refine (received_iff hrefuses (fun _ => true) f.news).trans ?_
    exact forall₂_congr fun d _ => ⟨fun h => h rfl, fun h _ => h⟩
  | false =>
    obtain ⟨e, hfailed⟩ := hfails hall
    rw [bind_error (Prod.ext hfailed rfl), if_neg (by decide)]
    -- nothing is sent after the answers
    unfold Received FanOut.answered
    rw [drop_length, filter_nil]
    refine ⟨?_, fun hdead => ⟨[], ?_, List.Sublist.refl _⟩⟩
    · rintro ⟨frames, hframes, hsub⟩ d hd
      rw [sublist_nil.mp hsub, map_nil, map_eq_nil_iff, filter_eq_nil_iff] at hframes
      simpa using hframes d hd
    · rw [map_nil, map_eq_nil_iff, filter_eq_nil_iff]
      intro d hd
      simp [hdead d hd]

/-! The requests that are executed. -/

section Requests
variable (host : Host) (engine : SessionEngine σ)

/-- A frame is executed, and this is to be sent for it from this state on. A durable mutation has
made its disconnects by then, and its news are for the links of `durableTargets`. -/
inductive FansOut (linkId : LinkId) (peer : ServerPeer) (frame : Frame) (active : List ServerPeer)
    (s : LiveServer σ) : LiveServer σ → FanOut → Prop
  | legacy {fingerprint : Option Bytes} {responses : List Frame} {s₁ : LiveServer σ}
      (hplain : isDurableMutationEnvelope frame.body = false)
      (hfingerprint : requestFingerprint host frame = .ok fingerprint)
      (hmiss : lookupReplay s linkId frame.seq fingerprint = .miss)
      (hexecuted : executeFrame engine linkId peer frame active s = (.ok responses, s₁)) :
      FansOut linkId peer frame active s s₁
        { answers := answersTo host engine s₁ linkId (originResponses frame responses)
          news := roomNews host engine s₁ linkId (broadcastResponses frame responses) }
  | durable {envelope : DurableMutationEnvelope} {binding : DurableSessionBinding}
      {dispatch : DurableMutationDispatch} {s₁ s₂ : LiveServer σ} {targets : Frame → List LinkId}
      (hdurable : isDurableMutationEnvelope frame.body = true)
      (henvelope : DurableMutationEnvelope.fromFrameBody frame.body = .ok envelope)
      (hbinding : durableBinding s linkId peer = some binding)
      (hexecuted : executeDurable engine linkId peer frame active binding envelope s = (.ok dispatch, s₁))
      (hdisconnected : (disconnectTarget host engine dispatch.disconnectIdentity s₁).2 = s₂)
      (htargets : ∀ broadcast ∈ dispatch.broadcasts,
        s₂.durableTargets engine linkId peer broadcast = .ok (targets broadcast)) :
      FansOut linkId peer frame active s s₂
        { answers := answersTo host engine s₂ linkId [dispatch.origin]
          news := dispatch.broadcasts.flatMap
            (fun broadcast => newsFor host engine s₂ broadcast (targets broadcast)) }

variable {host engine}

theorem handleDecodedFrame_new {fingerprint : Option Bytes}
    (hplain : isDurableMutationEnvelope frame.body = false)
    (hfingerprint : requestFingerprint host frame = .ok fingerprint)
    (hmiss : lookupReplay s linkId frame.seq fingerprint = .miss) (active : List ServerPeer) :
    handleDecodedFrame host engine linkId peer (some frame) active s =
      handleNewFrame host engine linkId peer frame fingerprint active s := by
  unfold handleDecodedFrame
  simp only [hplain, Bool.false_eq_true, if_false]
  rw [hfingerprint, lift_bind, read_bind, hmiss]

theorem handleDecodedFrame_executed {envelope : DurableMutationEnvelope}
    {binding : DurableSessionBinding} (hdurable : isDurableMutationEnvelope frame.body = true)
    (henvelope : DurableMutationEnvelope.fromFrameBody frame.body = .ok envelope)
    (hbinding : durableBinding s linkId peer = some binding) (active : List ServerPeer) :
    handleDecodedFrame host engine linkId peer (some frame) active s =
      (executeDurable engine linkId peer frame active binding envelope >>=
        deliverDurable host engine linkId peer frame) s := by
  rw [handleDecodedFrame_durable host engine hdurable]
  unfold handleDurableMutationFrame
  rw [henvelope]
  dsimp only
  rw [read_bind, hbinding]

section
variable {f : FanOut} (h : FansOut host engine linkId peer frame active s sending f)
include h

/-- What is sent for a request is its fan-out. -/
theorem FansOut.transport :
    (handleDecodedFrame host engine linkId peer (some frame) active s).2.transport =
      f.sent sending.transport := by
  cases h with
  | @legacy fingerprint responses s₁ hplain hfingerprint hmiss hexecuted =>
    rw [handleDecodedFrame_new hplain hfingerprint hmiss]
    have hkept := (executeFrame_blind engine linkId peer frame active).transport s
    rw [hexecuted] at hkept
    have hsent := handleNewFrame_executed host engine hexecuted fingerprint s.transport
    rw [show sending.transport = s.transport from hkept]
    exact congrArg LiveServer.transport hsent
  | durable hdurable henvelope hbinding hexecuted hdisconnected htargets =>
    rw [handleDecodedFrame_executed hdurable henvelope hbinding, bind_ok hexecuted]
    exact congrArg LiveServer.transport
      (deliverDurable_state host engine hdisconnected htargets)

/-- The links that are refused are the same when the sending begins. -/
theorem FansOut.refuses (ht : s.transport.Refuses dead) : sending.transport.Refuses dead := by
  cases h with
  | legacy hplain hfingerprint hmiss hexecuted =>
    have hkept := (executeFrame_blind engine linkId peer frame active).transport s
    rw [hexecuted] at hkept
    rw [show sending.transport = s.transport from hkept]
    exact ht
  | @durable envelope binding dispatch s₁ _ _ _ _ _ hexecuted hdisconnected _ =>
    have hkept := (executeDurable_blind engine linkId peer frame active binding envelope).transport s
    rw [hexecuted] at hkept
    have hrefusals := disconnectTarget_refusals host engine dispatch.disconnectIdentity s₁
    rw [hdisconnected] at hrefusals
    intro n l
    rw [show sending.transport.refuses = s₁.transport.refuses from hrefusals,
      show s₁.transport = s.transport from hkept]
    exact ht n l

end

/-! Uploads: each response goes to the origin and then to the others. -/

/-- The other links. -/
def otherThan (origin linkId : LinkId) : Bool := linkId != origin

variable (host engine)

def uploadRound (s : LiveServer σ) (linkId : LinkId) (response : Frame) : List Delivery :=
  deliveryOf host engine s linkId response ::
    newsFor host engine s response (s.roomEventTargets linkId response)

def uploadPlan (s : LiveServer σ) (linkId : LinkId) (responses : List Frame) : List Delivery :=
  responses.flatMap (uploadRound host engine s linkId)

/-- With a resource released after each response, as for an attachment that came over a channel. -/
def channelPlan (linkId : LinkId) : LiveServer σ → List Frame → List Delivery
  | _, [] => []
  | s, response :: responses => uploadRound host engine s linkId response ++
      channelPlan linkId (releaseResponseResource engine response s).2 responses

theorem uploadRound_performs (s : LiveServer σ) (linkId : LinkId) (response : Frame) :
    Performs s (do
      sendResponseFrame host engine linkId response
      broadcastRoomEvent host engine linkId response) (uploadRound host engine s linkId response) :=
  (sendResponseFrame_performs host engine s linkId response).seq
    (broadcastRoomEvent_performs host engine s linkId response)

/-- A resource received is answered and announced as planned, and then released. -/
theorem handleResourceReceived_executed {resourceId : String} {data : Bytes} {s₁ : LiveServer σ}
    (hpeer : s.peers[linkId]? = some peer)
    (hexecuted : onEngine (engine.handleUploadResource peer resourceId data
      (boundTo s.roomMediaPolicyLinks linkId peer)) s = (.ok responses, s₁))
    (t : Transport) :
    (handleResourceReceived host engine linkId (some resourceId) data (s.on t)).2 =
      ((forEach (releaseResponseResource engine) responses s₁).2).on
        (forEach perform (uploadPlan host engine s₁ linkId responses) t).2 := by
  have hexecuted' : onEngine (engine.handleUploadResource peer resourceId data
      (boundTo (s.on t).roomMediaPolicyLinks linkId peer)) (s.on t) = (.ok responses, s₁.on t) := by
    have hboth := Blind.onEngine (engine.handleUploadResource peer resourceId data
      (boundTo s.roomMediaPolicyLinks linkId peer)) s t
    rwa [hexecuted] at hboth
  have hsent : Performs s₁ (forEach (fun response => do
      sendResponseFrame host engine linkId response
      broadcastRoomEvent host engine linkId response) responses)
      (uploadPlan host engine s₁ linkId responses) :=
    Performs.forEach fun response _ => uploadRound_performs host engine s₁ linkId response
  have hreleased := Blind.forEach (releaseResponseResource_blind engine) responses s₁
  unfold handleResourceReceived
  rw [read_bind, show (s.on t).peers[linkId]? = some peer from hpeer]
  dsimp only
  rw [read_bind, bind_ok hexecuted', attempt_bind, hsent t,
    bind_state fun _ _ => rfl, hreleased]

/-- The frames that carry a resource are not shaped. -/
theorem shapeFrame_resource (hcarries : responseCarriesResource response.op = true)
    (s : LiveServer σ) (linkId : LinkId) : shapeFrame engine s linkId response = .ok response := by
  have hother : ∀ op, responseCarriesResource op = false → response.op ≠ op := by
    rintro op hop rfl
    rw [hcarries] at hop
    cases hop
  have hdelta := hother .userDelta rfl
  have hroom : ¬(response.op = .joinAccept ∨ response.op = .roomDelta ∨ response.op = .commandResult) := by
    simp [hother .joinAccept rfl, hother .roomDelta rfl, hother .commandResult rfl]
  unfold shapeFrame
  rw [if_neg fun h => hdelta h.2]
  cases s.catalogShape linkId with
  | legacy => rfl
  | _ => exact if_neg hroom

/-- What was sent can be released. -/
theorem releaseResponseResource_ok {outgoing : Outgoing}
    (hsent : preflight host engine s linkId response = .ok outgoing) :
    (releaseResponseResource engine response s).1 = .ok () := by
  unfold releaseResponseResource
  split
  · next hcarries =>
    split
    · cases uploadResourceIdFromOffer response <;> rfl
    · next hupload =>
      cases hid : resourceOfferId response.body with
      | some resourceId => rfl
      | none =>
        unfold preflight at hsent
        rw [shapeFrame_resource engine hcarries] at hsent
        simp only [Outcome.bind_ok, Except.ok.injEq, exists_eq_left', hcarries, if_true,
          prepareResponseResource, if_neg hupload, hid] at hsent
        obtain ⟨_, h, _⟩ := hsent
        cases h
  · rfl

theorem perform_round_sent {t' : Transport}
    (h : forEach perform (uploadRound host engine s linkId response) t = (.ok (), t')) :
    ∃ outgoing, preflight host engine s linkId response = .ok outgoing := by
  cases hprepared : preflight host engine s linkId response with
  | ok outgoing => exact ⟨outgoing, rfl⟩
  | error e =>
    obtain ⟨_, _, hfirst, _⟩ := bind_eq_ok.mp h
    have hthrow : (deliveryOf host engine s linkId response).perform t = (.error e, t) := by
      unfold deliveryOf perform
      rw [hprepared]
      rfl
    rw [hthrow] at hfirst
    cases hfirst

/-- The responses to an attachment are answered, announced and released one after the other. -/
theorem channelResponses_transport (linkId : LinkId) (responses : List Frame) (s : LiveServer σ)
    (t : Transport) :
    (forEach (fun response => do
      sendResponseFrame host engine linkId response
      broadcastRoomEvent host engine linkId response
      releaseResponseResource engine response) responses (s.on t)).2.transport =
      (forEach perform (channelPlan host engine linkId s responses) t).2 := by
  induction responses generalizing s t with
  | nil => rfl
  | cons response responses ih =>
    let round : Live σ Unit := do
      sendResponseFrame host engine linkId response
      broadcastRoomEvent host engine linkId response
    have hround := uploadRound_performs host engine s linkId response t
    have hloop : forEach (fun response => do
        sendResponseFrame host engine linkId response
        broadcastRoomEvent host engine linkId response
        releaseResponseResource engine response) (response :: responses) =
        round >>= fun _ => releaseResponseResource engine response >>= fun _ =>
          forEach (fun response => do
            sendResponseFrame host engine linkId response
            broadcastRoomEvent host engine linkId response
            releaseResponseResource engine response) responses := by
      simp only [forEach, round, bind_assoc]
    rw [hloop, channelPlan, forEach_append]
    rcases h : forEach perform (uploadRound host engine s linkId response) t with ⟨r, t'⟩
    rw [h] at hround
    cases r with
    | error e => rw [bind_error hround, bind_error h]; rfl
    | ok _ =>
      obtain ⟨outgoing, houtgoing⟩ := perform_round_sent host engine h
      have hreleased := releaseResponseResource_blind engine response s t'
      rw [releaseResponseResource_ok host engine houtgoing] at hreleased
      rw [bind_ok hround, bind_ok h, bind_ok hreleased]
      exact ih _ _

/-- What is sent for an attachment that came over a channel. -/
theorem handleChannelAttachmentData_executed {data : Bytes} {change : StageChange} {e : σ}
    (hpeer : s.peers[linkId]? = some peer)
    (hnegotiated : boundTo s.channelAttachmentLinks linkId peer = true)
    (hexecuted : engine.channelUpload linkId peer data (boundTo s.roomMediaPolicyLinks linkId peer)
      s.channelUploads s.engine = ((.ok responses, change), e)) :
    (handleChannelAttachmentData host engine linkId data s).2.transport =
      (forEach perform (channelPlan host engine linkId
        (({ s with engine := e } : LiveServer σ).applyStage linkId change) responses) s.transport).2 := by
  have hsent := channelResponses_transport host engine linkId responses
    (({ s with engine := e } : LiveServer σ).applyStage linkId change) s.transport
  have hon : (({ s with engine := e } : LiveServer σ).applyStage linkId change).on s.transport =
      ({ s with engine := e } : LiveServer σ).applyStage linkId change := by
    cases change <;> rfl
  unfold handleChannelAttachmentData
  rw [read_bind, hpeer]
  dsimp only
  rw [read_bind, hnegotiated, if_pos rfl, read_bind, read_bind, hexecuted, modify_bind,
    lift_bind, ← hsent, hon]

/-! The request itself is not touched. -/

/-- The action only sends, whatever the state is. -/
def SendsOnly (x : Live σ Unit) : Prop := ∀ s, ∃ ds, Performs s x ds

theorem SendsOnly.state (h : SendsOnly x) (s : LiveServer σ) (t t' : Transport) :
    (x (s.on t)).2.on t' = s.on t' := by
  obtain ⟨ds, hds⟩ := h s
  rw [hds t]
  rfl

theorem SendsOnly.bind {y : Live σ Unit} (hx : SendsOnly x) (hy : SendsOnly y) :
    SendsOnly (x >>= fun _ => y) := by
  intro s
  obtain ⟨ds, hds⟩ := hx s
  obtain ⟨ds', hds'⟩ := hy s
  exact ⟨ds ++ ds', hds.seq hds'⟩

theorem SendsOnly.forEach {α : Type} {x : α → Live σ Unit} (hx : ∀ a, SendsOnly (x a)) (l : List α) :
    SendsOnly (forEach x l) := by
  induction l with
  | nil => exact fun _ => ⟨[], Performs.pure⟩
  | cons a l ih => exact (hx a).bind ih

theorem sendResponseFrame_sendsOnly (linkId : LinkId) (frame : Frame) :
    SendsOnly (sendResponseFrame host engine linkId frame) :=
  fun s => ⟨_, sendResponseFrame_performs host engine s linkId frame⟩

theorem broadcastDurable_sendsOnly (origin : LinkId) (actor : ServerPeer) (broadcast : Frame) :
    SendsOnly (broadcastDurable host engine origin actor broadcast) := by
  intro s
  cases htargets : s.durableTargets engine origin actor broadcast with
  | ok targets => exact ⟨_, broadcastDurable_performs host engine htargets⟩
  | error e =>
    refine ⟨[⟨origin, .error e⟩], fun t => ?_⟩
    have htargets' := (durableTargets_on engine s t origin actor broadcast).trans htargets
    unfold broadcastDurable
    rw [read_bind, id, htargets']
    rfl

/-- The server that is left is the same whatever the transport refuses. -/
def Unmoved {α : Type} (x : Live σ α) (s : LiveServer σ) : Prop :=
  ∀ t t', (x (s.on t)).2.on t' = (x s).2.on t'

theorem SendsOnly.unmoved {α : Type} (h : SendsOnly x) {f : Unit → Live σ α}
    (hf : ∀ a s, (f a s).2 = s) (s : LiveServer σ) : Unmoved (x >>= f) s := by
  intro t t'
  rw [bind_state hf, bind_state hf, h.state s t t']
  exact (h.state s s.transport t').symm

theorem handleNewFrame_unmoved (linkId : LinkId) (peer : ServerPeer) (frame : Frame)
    (fingerprint : Option Bytes) (active : List ServerPeer) (s : LiveServer σ) :
    Unmoved (handleNewFrame host engine linkId peer frame fingerprint active) s := by
  intro t t'
  rcases h : executeFrame engine linkId peer frame active s with ⟨r, s₁⟩
  cases r with
  | error e =>
    have hboth := executeFrame_blind engine linkId peer frame active s t
    rw [h] at hboth
    rw [handleNewFrame_failed host engine hboth, handleNewFrame_failed host engine h]
    rfl
  | ok responses =>
    rw [handleNewFrame_executed host engine h fingerprint t]
    have hself := handleNewFrame_executed host engine h fingerprint s.transport
    rw [show s.on s.transport = s from rfl] at hself
    rw [hself]
    rfl

theorem answerError_unmoved (linkId : LinkId) (frame : Frame) (code : ChatErrorCode) (text : String)
    (s : LiveServer σ) : Unmoved (answerError host engine linkId frame code text) s :=
  (sendResponseFrame_sendsOnly host engine linkId _).unmoved (fun _ _ => rfl) s

theorem deliverDurable_unmoved (linkId : LinkId) (peer : ServerPeer) (frame : Frame)
    {dispatch : DurableMutationDispatch} (hnobody : dispatch.disconnectIdentity = none)
    (s : LiveServer σ) : Unmoved (deliverDurable host engine linkId peer frame dispatch) s := by
  have hsends : SendsOnly (sendResponseFrame host engine linkId dispatch.origin >>= fun _ =>
      forEach (broadcastDurable host engine linkId peer) dispatch.broadcasts) :=
    (sendResponseFrame_sendsOnly host engine linkId _).bind
      (SendsOnly.forEach (fun broadcast => broadcastDurable_sendsOnly host engine linkId peer broadcast) _)
  unfold deliverDurable
  rw [hnobody, ← bind_assoc (sendResponseFrame host engine linkId dispatch.origin)]
  exact hsends.unmoved (fun _ _ => rfl) s

/-- A frame that disconnects nobody leaves the same server behind, whatever the transport refuses. -/
theorem handleDecodedFrame_unmoved
    (hnobody : frameDisconnects engine linkId peer (some frame) active s = none) :
    Unmoved (handleDecodedFrame host engine linkId peer (some frame) active) s := by
  cases hdurable : isDurableMutationEnvelope frame.body with
  | true =>
    rw [handleDecodedFrame_durable host engine hdurable]
    unfold handleDurableMutationFrame
    cases henvelope : DurableMutationEnvelope.fromFrameBody frame.body with
    | error e => exact answerError_unmoved host engine linkId frame _ _ s
    | ok envelope =>
      intro t t'
      dsimp only
      rw [read_bind, read_bind, show durableBinding (s.on t) linkId peer =
        durableBinding s linkId peer from rfl]
      cases hbinding : durableBinding s linkId peer with
      | none => exact answerError_unmoved host engine linkId frame _ _ s t t'
      | some binding =>
        -- the mutation is executed before anything is sent, and does not see the transport
        have hboth := executeDurable_blind engine linkId peer frame active binding envelope s t
        rcases h : executeDurable engine linkId peer frame active binding envelope s with ⟨r, s₁⟩
        rw [h] at hboth
        cases r with
        | error e =>
          dsimp only
          rw [bind_error hboth, bind_error h]
          rfl
        | ok dispatch =>
          dsimp only
          rw [bind_ok hboth, bind_ok h]
          refine deliverDurable_unmoved host engine linkId peer frame ?_ s₁ t t'
          simpa [frameDisconnects, hdurable, durableDispatchOf, henvelope, hbinding, h,
            Except.toOption] using hnobody
  | false =>
    intro t t'
    unfold handleDecodedFrame
    simp only [hdurable, Bool.false_eq_true, if_false]
    cases hfingerprint : requestFingerprint host frame with
    | error e => rfl
    | ok fingerprint =>
      rw [lift_bind, lift_bind, read_bind, read_bind,
        show lookupReplay (s.on t) linkId frame.seq fingerprint =
          lookupReplay s linkId frame.seq fingerprint from rfl]
      cases lookupReplay s linkId frame.seq fingerprint with
      | hit responses =>
        exact (SendsOnly.forEach (sendResponseFrame_sendsOnly host engine linkId) responses).unmoved
          (fun _ _ => rfl) s t t'
      | collision =>
        exact (sendResponseFrame_sendsOnly host engine linkId _).unmoved (fun _ _ => rfl) s t t'
      | miss => exact handleNewFrame_unmoved host engine linkId peer frame fingerprint active s t t'

/-- The news of a frame, an upload or an attachment reach every link that is not refused and that
they are for if and only if none of them stand behind a send that fails; and whatever fails, the
request stays executed as it was. -/
theorem broadcasts_isolated_iff {dead : LinkId → Bool} {s : LiveServer σ}
    (hdead : s.transport.Refuses dead) (linkId : LinkId) (peer : ServerPeer) :
    (∀ frame active sending f, FansOut host engine linkId peer frame active s sending f →
      (Received dead (fun _ => true) f.news (f.answered sending.transport)
        (handleDecodedFrame host engine linkId peer (some frame) active s).2.transport ↔
          f.Clear dead)) ∧
    (∀ resourceId data responses s₁, s.peers[linkId]? = some peer →
      onEngine (engine.handleUploadResource peer resourceId data
        (boundTo s.roomMediaPolicyLinks linkId peer)) s = (.ok responses, s₁) →
      (Received dead (otherThan linkId) (uploadPlan host engine s₁ linkId responses) s.transport
        (handleResourceReceived host engine linkId (some resourceId) data s).2.transport ↔
          Unobstructed dead (otherThan linkId) (uploadPlan host engine s₁ linkId responses)) ∧
      Unmoved (handleResourceReceived host engine linkId (some resourceId) data) s) ∧
    (∀ data responses change e, s.peers[linkId]? = some peer →
      boundTo s.channelAttachmentLinks linkId peer = true →
      engine.channelUpload linkId peer data (boundTo s.roomMediaPolicyLinks linkId peer)
        s.channelUploads s.engine = ((.ok responses, change), e) →
      let executed := ({ s with engine := e } : LiveServer σ).applyStage linkId change
      (Received dead (otherThan linkId) (channelPlan host engine linkId executed responses) s.transport
        (handleChannelAttachmentData host engine linkId data s).2.transport ↔
          Unobstructed dead (otherThan linkId) (channelPlan host engine linkId executed responses))) ∧
    (∀ frame active, frameDisconnects engine linkId peer (some frame) active s = none →
      Unmoved (handleDecodedFrame host engine linkId peer (some frame) active) s) ∧
    ∀ frame active binding envelope t,
      executeDurable engine linkId peer frame active binding envelope (s.on t) =
        ((executeDurable engine linkId peer frame active binding envelope s).1,
          (executeDurable engine linkId peer frame active binding envelope s).2.on t) := by
  -- the three fan-outs, then what was executed before the first send
  refine ⟨?_, ?_, ?_, ?_, ?_⟩
  · intro frame active sending f hfans
    rw [hfans.transport]
    exact f.received_iff_clear (hfans.refuses hdead)
  · intro resourceId data responses s₁ hpeer hexecuted
    have hself : (handleResourceReceived host engine linkId (some resourceId) data s).2 = _ :=
      handleResourceReceived_executed host engine hpeer hexecuted s.transport
    refine ⟨?_, fun t t' => ?_⟩
    · rw [hself]
      exact received_iff hdead (otherThan linkId) _
    · rw [hself, handleResourceReceived_executed host engine hpeer hexecuted t]
      rfl
  · intro data responses change e hpeer hnegotiated hexecuted
    rw [handleChannelAttachmentData_executed host engine hpeer hnegotiated hexecuted]
    exact received_iff hdead (otherThan linkId) _
  · intro frame active hnobody
    exact handleDecodedFrame_unmoved host engine hnobody
  · intro frame active binding envelope t
    exact executeDurable_blind engine linkId peer frame active binding envelope s t

end Requests

/-! Three links hear a room, and the second is refused. -/

def thirdLink : LinkId := Vector.replicate 16 3
def thirdPeer : ServerPeer := ⟨replicate 16 51, "cid", none⟩

/-- An engine that writes every message as the room's next event. -/
def echoEngine : SessionEngine (SessionState RoomTable (PendingResourceStore × Unit)) :=
  roomEngine memberBatches roomSettings Reading.bare
    { Serving.bare with
      roomText := fun _ _ _ seq roomId _ => pure [Frame.new .roomEvent seq (some roomId)
        (.fields [.array [.u64 1, .u64 1, .nil, .i64 0, .nil, .nil]])] }
    DurableServing.bare Publishing.bare

def lobbyServer : LiveServer (SessionState RoomTable (PendingResourceStore × Unit)) :=
  ((Machine.run (liveStep Host.reference echoEngine) newServer
    [.linkOpened firstLink firstPeer 0, .linkOpened secondLink secondPeer 0,
      .linkOpened thirdLink thirdPeer 0,
      .linkData firstLink omenchatLinkContext (some (Frame.new .joinRoom 1 (some 1) (.text "lobby"))) 9 0,
      .linkData secondLink omenchatLinkContext (some (Frame.new .joinRoom 1 (some 1) (.text "lobby"))) 9 0,
      .linkData thirdLink omenchatLinkContext
        (some (Frame.new .joinRoom 1 (some 1) (.text "lobby"))) 9 0]).2).on
    { Transport.accepting with refuses := fun _ linkId => linkId == secondLink }

def lobbyMessage : Frame := Frame.new .roomMessage 2 (some 1) (.text "hello")

def lobbyExecuted : Except ServerError (List Frame) × LiveServer (SessionState RoomTable (PendingResourceStore × Unit)) :=
  executeFrame echoEngine firstLink firstPeer lobbyMessage [] lobbyServer

def lobbyFanOut : FanOut :=
  { answers := answersTo Host.reference echoEngine lobbyExecuted.2 firstLink
      (originResponses lobbyMessage (lobbyExecuted.1.toOption.getD []))
    news := roomNews Host.reference echoEngine lobbyExecuted.2 firstLink
      (broadcastResponses lobbyMessage (lobbyExecuted.1.toOption.getD [])) }

theorem lobby_fansOut : FansOut Host.reference echoEngine firstLink firstPeer lobbyMessage []
    lobbyServer lobbyExecuted.2 lobbyFanOut := by
  have hok : lobbyExecuted.1.toOption.isSome = true := by decide +kernel
  obtain ⟨responses, hresponses⟩ := Option.isSome_iff_exists.mp hok
  have hexecuted : executeFrame echoEngine firstLink firstPeer lobbyMessage [] lobbyServer =
      (.ok (lobbyExecuted.1.toOption.getD []), lobbyExecuted.2) := by
    rw [hresponses]
    exact Prod.ext (Outcome.toOption_eq_some.mp hresponses) rfl
  cases hfingerprint : requestFingerprint Host.reference lobbyMessage with
  | error e =>
    have hsome : (requestFingerprint Host.reference lobbyMessage).toOption.isSome = true := by
      decide +kernel
    rw [hfingerprint] at hsome
    cases hsome
  | ok fingerprint =>
    have hcache : lobbyServer.replayCache = [] := isEmpty_iff.mp (by decide +kernel)
    have hmiss : lookupReplay lobbyServer firstLink lobbyMessage.seq fingerprint = .miss := by
      cases fingerprint with
      | none => rfl
      | some request =>
        unfold lookupReplay
        rw [hcache]
        rfl
    exact FansOut.legacy rfl hfingerprint hmiss hexecuted

/-- The message of the first link is heard in the room if and only if its news are clear. -/
theorem broadcasts_isolated_lobby :
    lobbyServer.transport.Refuses (· == secondLink) ∧
    (Received (· == secondLink) (fun _ => true) lobbyFanOut.news
      (lobbyFanOut.answered lobbyExecuted.2.transport)
      (handleDecodedFrame Host.reference echoEngine firstLink firstPeer (some lobbyMessage) []
        lobbyServer).2.transport ↔ lobbyFanOut.Clear (· == secondLink)) :=
  ⟨fun _ _ => rfl, (broadcasts_isolated_iff Host.reference echoEngine (fun _ _ => rfl) firstLink
    firstPeer).1 lobbyMessage [] _ _ lobby_fansOut⟩

/-- The second link is refused, and the third, which is subscribed, does not hear the message. -/
theorem refused_link_silences_room :
    ¬ Received (· == secondLink) (fun _ => true) lobbyFanOut.news
      (lobbyFanOut.answered lobbyExecuted.2.transport)
      (handleDecodedFrame Host.reference echoEngine firstLink firstPeer (some lobbyMessage) []
        lobbyServer).2.transport := by
  have hdead : lobbyExecuted.2.transport.Refuses (· == secondLink) :=
    lobby_fansOut.refuses fun _ _ => rfl
  rw [lobby_fansOut.transport, lobbyFanOut.received_iff_clear hdead]
  intro hclear
  have hall : (lobbyFanOut.lost (· == secondLink)).all (fun d => d.linkId == secondLink) = true :=
    all_eq_true.mpr hclear
  revert hall
  decide +kernel

end Omen.Server
