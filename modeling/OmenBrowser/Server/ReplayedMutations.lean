import OmenBrowser.Server.LiveDelivery
import OmenBrowser.Server.SessionLaws

/- A durable mutation that is answered from the stored result (`server/src/live.rs`).

   Where a result is stored for a request, the commit ends before the callback runs, whichever
   handler it is: only the last-seen stamps of the result and of its client instance are written,
   and the dispatch has the stored response, nobody to disconnect and nothing to publish. What the
   server derives from the request and from the response it derives again: above all a part that
   was granted takes the room of its link away once more. -/
namespace Omen.Server
open Wire Sql Omen.Protocol Act DurableMutationEnvelope

variable {τ ρ κ : Type} {ε α : Type}
  {e' : SessionState τ ρ}

/-! The commit. -/

/-- A result is stored for the request, and its client instance is registered and in use. -/
structure Replays (rmpv : Rmpv) (key : DurableMutationKey) (hash : RequestHash) (frame : Bytes)
    (s : ReplayStore κ) : Prop where
  validKey : validateKey key = .ok ()
  inUse : ∃ c, s.clients.find? key.client = some c ∧ c.retiredAt.isSome = false
  stored : ∃ r, s.results.find? key = some r ∧ r.requestHash = hash ∧ r.resultFrame = frame
  validFrame : validateResultFrame rmpv frame = .ok ()

/-- The result and its client instance were seen now. -/
def stamped (key : DurableMutationKey) (now : Int) (s : ReplayStore κ) : ReplayStore κ :=
  touchClient key.client now (touchResult key now (touchClient key.client now s))

section Commit
variable {rmpv : Rmpv} {key : DurableMutationKey} {hash : RequestHash} {frame : Bytes}

theorem commit_replays {s : ReplayStore κ} (h : Replays rmpv key hash frame s) (now : Int)
    (build : Txn κ ServerError Bytes) :
    commitDurableMutationResult rmpv key hash now build s =
      .ok (.replayed frame, stamped key now s) := by
  obtain ⟨c, hclient, hactive⟩ := h.inUse
  obtain ⟨r, hresult, hhash, rfl⟩ := h.stored
  have hensure : ensureClientInstance key now productionLimits s =
      .ok (false, touchClient key.client now s) := by
    rw [ensureClientInstance, Txn.query_bind, hclient]
    show Except.ok (c.retiredAt.isSome, touchClient key.client now s) = _
    rw [hactive]
  have hreplay : replayOrAdmit rmpv key hash now productionLimits build
      (touchClient key.client now s) = .ok (.replayed r.resultFrame, stamped key now s) := by
    rw [replayOrAdmit, Txn.query_bind, show (touchClient key.client now s).results.find? key = some r
      from hresult]
    dsimp only
    rw [if_neg (not_not.mpr hhash)]
    exact Txn.lift_bind_ok.mpr ⟨(), h.validFrame, rfl⟩
  refine Txn.lift_bind_ok.mpr ⟨(), h.validKey, ?_⟩
  refine Txn.lift_bind_ok.mpr ⟨(), rfl, ?_⟩
  exact Txn.bind_ok.mpr ⟨false, _, hensure, hreplay⟩

theorem commitCapturing_replays {κ' : Type} {s : ReplayStore κ} (h : Replays rmpv key hash frame s)
    (now : Int) (start : κ') (callback : Txn (κ × κ') ServerError Bytes) :
    commitCapturing rmpv key hash now start callback s =
      (.ok (.replayed frame, start), stamped key now s) := by
  have hbeside : Replays rmpv key hash frame
      (⟨s.results, s.clients, (s.rest, start)⟩ : ReplayStore (κ × κ')) :=
    ⟨h.validKey, h.inUse, h.stored, h.validFrame⟩
  unfold commitCapturing
  unfold Txn.atomically
  rw [commit_replays hbeside now callback]
  rfl

end Commit

/-! The handlers. -/

section Durable
variable {serving : Serving τ ρ} {durable : DurableServing τ ρ}

/-- The engine has only read its clock and stamped the rows of the request. -/
structure Stamps (key : DurableMutationKey) (e e' : SessionState τ ρ) : Prop where
  store : e'.store = stamped key (e.clock e.readings) e.store
  clock : e'.clock = e.clock

/-- The stored response under the number of the new request, and nothing beside it. -/
def replayDispatch (durable : DurableServing τ ρ) (seq : UInt32) (frame : Bytes) :
    Except ServerError DurableMutationDispatch :=
  resultDispatch (decodeDurableReplayResult durable frame seq) (.ok []) none 0

variable {frame : Bytes} {e : SessionState τ ρ}

section
variable (request : DurableRequest) (clientInstanceId : ClientInstanceId)
  (h : Replays durable.rmpv (request.key clientInstanceId) request.envelope.requestHash frame e.store)
include h

theorem commitEffect_replays (prepare : Int → Txn (Database × τ × ρ) ServerError (DurableMutationEffectPlan ε)) :
    ∃ e', commitEffect durable request clientInstanceId prepare e = (.ok (.replayed frame), e') ∧
      Stamps (request.key clientInstanceId) e e' := by
  have hcommit := commitCapturing_replays h (e.clock e.readings) none
    (effectCallback (prepare (e.clock (e.readings + 1))))
  refine ⟨{ e with
    store := stamped (request.key clientInstanceId) (e.clock e.readings) e.store
    readings := e.readings + 2 }, ?_, ⟨rfl, rfl⟩⟩
  show ((commitDurableMutationEffectResult durable.rmpv (request.key clientInstanceId)
    request.envelope.requestHash (e.clock e.readings) (prepare (e.clock (e.readings + 1))) e.store).1, _) = _
  unfold commitDurableMutationEffectResult
  rw [hcommit]
  rfl

theorem commitRoomEvent_replays (roomId : UInt32)
    (prepare : Int → Txn (Database × τ × ρ) ServerError (DurableRoomEventPlan α))
    (encodeResult : ServerRoomEvent → Except ServerError Bytes) :
    ∃ e', commitRoomEvent durable request roomId clientInstanceId prepare encodeResult e =
        (.ok (.replayed frame), e') ∧ Stamps (request.key clientInstanceId) e e' := by
  have hcommit := commitCapturing_replays h (e.clock e.readings) (none, none)
    (roomEventCallback roomId.toNat durable.historyRetention
      ⟨e.clock (e.readings + 2), e.clock (e.readings + 3), e.clock (e.readings + 4)⟩
      (prepare (e.clock (e.readings + 1))) encodeResult)
  refine ⟨{ e with
    store := stamped (request.key clientInstanceId) (e.clock e.readings) e.store
    readings := e.readings + 5 }, ?_, ⟨rfl, rfl⟩⟩
  show ((commitDurableRoomEventResult roomId.toNat durable.historyRetention
    ⟨e.clock (e.readings + 2), e.clock (e.readings + 3), e.clock (e.readings + 4)⟩
    (prepare (e.clock (e.readings + 1))) encodeResult durable.rmpv (request.key clientInstanceId)
    request.envelope.requestHash (e.clock e.readings) e.store).1, _) = _
  unfold commitDurableRoomEventResult
  rw [hcommit]
  rfl

end

variable {request : DurableRequest} {clientInstanceId : ClientInstanceId}

/-- What every handler checks of a request before its commit. -/
structure Canonical (durable : DurableServing τ ρ) (request : DurableRequest) : Prop where
  hash : canonicalMutationRequestHash durable.sha256 request.op request.roomId request.envelope.body =
    .ok request.envelope.requestHash
  checks : durable.checks request = .ok ()

theorem checkRequest_canonical (h : Canonical durable request) (tooLarge mismatch : String) :
    checkRequest durable request tooLarge mismatch = .ok () := by
  unfold checkRequest
  rw [h.hash]
  dsimp only
  rw [if_pos rfl, h.checks]
  rfl

/-- The request passes what its handler checks, so its commit is asked. -/
def Committed (durable : DurableServing τ ρ) (request : DurableRequest)
    (binding : DurableSessionBinding) (coloured : Bool) : Prop :=
  match request.op with
  | .roomMessage | .roomAction | .roomNotice | .partRoom =>
    request.roomId.isSome ∧ Canonical durable request
  | .command => Canonical durable request
  | .roomReaction =>
    binding.reactions = true ∧ request.roomId.isSome ∧ Canonical durable request
  | .roomMessageRevision =>
    binding.messageRevisions = true ∧ request.roomId.isSome ∧ Canonical durable request
  | .roomPin => binding.pins = true ∧ request.roomId.isSome ∧ Canonical durable request
  | .nicknameColourSet =>
    coloured = true ∧ request.roomId = none ∧ (nicknameColourSet request.envelope.body).isSome ∧
      canonicalMutationRequestHash durable.sha256 .nicknameColourSet none request.envelope.body =
        .ok request.envelope.requestHash
  | _ => False

/-- The request is answered again as it was answered, and its rows are stamped. -/
def Redispatches (durable : DurableServing τ ρ) (request : DurableRequest)
    (clientInstanceId : ClientInstanceId) (frame : Bytes) (e : SessionState τ ρ)
    (x : Session τ ρ DurableMutationDispatch) : Prop :=
  ∃ e', x e = (replayDispatch durable request.seq frame, e') ∧
    Stamps (request.key clientInstanceId) e e'

theorem Redispatches.of_commit {x : Session τ ρ α} {commit : α}
    {dispatch : α → Except ServerError DurableMutationDispatch} (hx : x e = (.ok commit, e'))
    (hstamps : Stamps (request.key clientInstanceId) e e')
    (hdispatch : dispatch commit = replayDispatch durable request.seq frame) :
    Redispatches durable request clientInstanceId frame e
      (x >>= fun commit => lift (dispatch commit)) := by
  refine ⟨e', ?_, hstamps⟩
  rw [bind_ok hx, hdispatch]
  rfl

theorem inDurableRoom_canonical {roomId : UInt32} (hroom : request.roomId = some roomId)
    (h : Canonical durable request) (missing tooLarge mismatch : String)
    (run : UInt32 → Session τ ρ DurableMutationDispatch) :
    inDurableRoom durable request missing tooLarge mismatch run = run roomId := by
  unfold inDurableRoom
  rw [hroom]
  rw [checkRequest_canonical h]

/-- The request for a colour. -/
def colourRequest (peer : ServerPeer) (seq : UInt32) (envelope : DurableMutationEnvelope) :
    DurableRequest :=
  { peer, activeRoomPeers := [], seq, roomId := none, op := .nicknameColourSet
    noticeAck := false, replyMentions := false, envelope }

/-- The request a frame is under the session's binding. -/
def requestUnder (peer : ServerPeer) (active : List ServerPeer) (frame : Frame)
    (binding : DurableSessionBinding) (envelope : DurableMutationEnvelope) : DurableRequest :=
  { peer, activeRoomPeers := active, seq := frame.seq, roomId := frame.roomId
    op := frame.op, noticeAck := binding.durableNoticeAck, replyMentions := binding.replyMentions
    envelope }

def contextUnder (peer : ServerPeer) (active : List ServerPeer) (binding : DurableSessionBinding) :
    DurableMutationPeerContext :=
  { peer
    activeRoomPeers := active
    durableNoticeAck := binding.durableNoticeAck
    replyMentions := binding.replyMentions
    reactions := binding.reactions
    messageRevisions := binding.messageRevisions
    pins := binding.pins }

variable {peer : ServerPeer} {active : List ServerPeer} {binding : DurableSessionBinding}
  {envelope : DurableMutationEnvelope} {mutation : Frame}

/-- What is stored for the mutation, under the session's client instance. -/
def StoredFor (durable : DurableServing τ ρ) (peer : ServerPeer) (binding : DurableSessionBinding)
    (envelope : DurableMutationEnvelope) (frame : Bytes) (e : SessionState τ ρ) : Prop :=
  Replays durable.rmpv ⟨peer.identityHash, binding.clientInstanceId, envelope.mutationId⟩
    envelope.requestHash frame e.store

theorem nicknameColour_redispatches {colour : Option Nat}
    (hcolour : nicknameColourSet envelope.body = some colour)
    (hhash : canonicalMutationRequestHash durable.sha256 .nicknameColourSet none envelope.body =
      .ok envelope.requestHash)
    (hstored : StoredFor durable peer binding envelope frame e) (seq : UInt32) :
    Redispatches durable (colourRequest peer seq envelope) binding.clientInstanceId frame e
      (handleDurableNicknameColour durable peer seq binding.clientInstanceId envelope) := by
  have hrun : handleDurableNicknameColour durable peer seq binding.clientInstanceId envelope =
      (commitEffect durable (colourRequest peer seq envelope) binding.clientInstanceId
        (fun seenAt => do
          let user ← inDatabase (ensureUserOn peer seenAt)
          colourPlan durable (colourRequest peer seq envelope) colour user) >>= fun commit =>
        lift (effectDispatch durable seq none (fun broadcast =>
          { broadcasts := broadcast.toList, disconnectIdentity := none }) commit)) := by
    unfold handleDurableNicknameColour
    rw [hhash]
    dsimp only
    rw [if_pos rfl, hcolour]
    rfl
  rw [hrun]
  obtain ⟨e', hcommit, hstamps⟩ :=
    commitEffect_replays (colourRequest peer seq envelope) binding.clientInstanceId hstored _
  exact .of_commit hcommit hstamps rfl

section Handlers
variable (hstored : Replays durable.rmpv (request.key clientInstanceId) request.envelope.requestHash
  frame e.store) (hcanonical : Canonical durable request)
include hstored hcanonical

theorem roomText_redispatches (hroom : request.roomId.isSome) :
    Redispatches durable request clientInstanceId frame e
      (handleDurableRoomText serving durable request clientInstanceId) := by
  obtain ⟨roomId, hroom⟩ := Option.isSome_iff_exists.mp hroom
  obtain ⟨e', hcommit, hstamps⟩ := commitRoomEvent_replays request clientInstanceId hstored roomId _ _
  unfold handleDurableRoomText
  rw [inDurableRoom_canonical hroom hcanonical]
  exact .of_commit hcommit hstamps rfl

theorem partRoom_redispatches (hroom : request.roomId.isSome) :
    Redispatches durable request clientInstanceId frame e
      (handleDurablePartRoom serving durable request clientInstanceId) := by
  obtain ⟨roomId, hroom⟩ := Option.isSome_iff_exists.mp hroom
  obtain ⟨e', hcommit, hstamps⟩ := commitRoomEvent_replays request clientInstanceId hstored roomId _ _
  unfold handleDurablePartRoom
  rw [inDurableRoom_canonical hroom hcanonical]
  exact .of_commit hcommit hstamps rfl

theorem projection_redispatches (missing noun : String) (hroom : request.roomId.isSome) :
    Redispatches durable request clientInstanceId frame e
      (handleDurableProjection serving durable missing noun request clientInstanceId) := by
  obtain ⟨roomId, hroom⟩ := Option.isSome_iff_exists.mp hroom
  obtain ⟨e', hcommit, hstamps⟩ := commitEffect_replays request clientInstanceId hstored _
  unfold handleDurableProjection
  rw [inDurableRoom_canonical hroom hcanonical]
  exact .of_commit hcommit hstamps rfl

theorem command_redispatches :
    Redispatches durable request clientInstanceId frame e
      (handleDurableCommand durable request clientInstanceId) := by
  obtain ⟨e', hcommit, hstamps⟩ := commitEffect_replays request clientInstanceId hstored _
  unfold handleDurableCommand
  rw [checkRequest_canonical hcanonical]
  exact .of_commit hcommit hstamps rfl

end Handlers

theorem mutation_redispatches (serving : Serving τ ρ) {coloured : Bool} {mutation : Frame}
    (hop : mutation.op ≠ .nicknameColourSet)
    (hcommitted : Committed durable (requestUnder peer active mutation binding envelope) binding coloured)
    (hstored : StoredFor durable peer binding envelope frame e) :
    Redispatches durable (requestUnder peer active mutation binding envelope)
      binding.clientInstanceId frame e
      (handleDurableMutationWithActivePeers serving durable (contextUnder peer active binding)
        mutation.seq mutation.roomId mutation.op binding.clientInstanceId envelope) := by
  have hstored : Replays durable.rmpv
      ((requestUnder peer active mutation binding envelope).key binding.clientInstanceId)
      (requestUnder peer active mutation binding envelope).envelope.requestHash frame e.store := hstored
  unfold Committed at hcommitted
  unfold handleDurableMutationWithActivePeers
  rw [show (requestUnder peer active mutation binding envelope).op = mutation.op from rfl]
    at hcommitted
  split
  case h_1 hkind | h_2 hkind | h_3 hkind =>
    rw [hkind] at hcommitted
    exact roomText_redispatches hstored hcommitted.2 hcommitted.1
  case h_4 hkind =>
    rw [hkind] at hcommitted
    exact partRoom_redispatches hstored hcommitted.2 hcommitted.1
  case h_5 hkind =>
    rw [hkind] at hcommitted
    exact command_redispatches hstored hcommitted
  case h_6 hkind =>
    rw [hkind] at hcommitted
    rw [if_pos (show (contextUnder peer active binding).reactions = true from hcommitted.1)]
    exact projection_redispatches hstored hcommitted.2.2 _ _ hcommitted.2.1
  case h_7 hkind =>
    rw [hkind] at hcommitted
    rw [if_pos (show (contextUnder peer active binding).messageRevisions = true from hcommitted.1)]
    exact projection_redispatches hstored hcommitted.2.2 _ _ hcommitted.2.1
  case h_8 hkind =>
    rw [hkind] at hcommitted
    rw [if_pos (show (contextUnder peer active binding).pins = true from hcommitted.1)]
    exact projection_redispatches hstored hcommitted.2.2 _ _ hcommitted.2.1
  case h_9 =>
    -- no other kind comes to a commit here
    split at hcommitted
    case h_9 hkind => exact absurd hkind hop
    case h_10 => exact hcommitted.elim
    all_goals contradiction

end Durable

/-! The live server. -/

section Live
variable (host : Host) (serving : Serving τ ρ) (durable : DurableServing τ ρ)
  (publishing : Publishing τ ρ)

/-- The mutation comes to its commit, and its result is stored: it is answered from the store. -/
structure AnsweredFromStore (s : LiveServer (SessionState τ ρ)) (linkId : LinkId) (peer : ServerPeer)
    (mutation : Frame) (active : List ServerPeer) (binding : DurableSessionBinding)
    (envelope : DurableMutationEnvelope) (frame : Bytes) : Prop where
  parsed : fromFrameBody mutation.body = .ok envelope
  bound : durableBinding s linkId peer = some binding
  committed : Committed durable (requestUnder peer active mutation binding envelope) binding
    (boundTo s.nicknameColourLinks linkId peer)
  stored : StoredFor durable peer binding envelope frame s.engine

variable {host serving durable publishing}
variable {s : LiveServer (SessionState τ ρ)} {linkId : LinkId} {peer : ServerPeer} {mutation : Frame}
  {active : List ServerPeer} {binding : DurableSessionBinding} {envelope : DurableMutationEnvelope}
  {frame : Bytes}

theorem onEngine_run {σ : Type} {x : Act σ ServerError α} {s : LiveServer σ} {e' : σ}
    {result : Except ServerError α} (h : x s.engine = (result, e')) :
    onEngine x s = (result, { s with engine := e' }) := by
  show ((x s.engine).1, { s with engine := (x s.engine).2 }) = _
  rw [h]

theorem executeDurable_redispatches (serving : Serving τ ρ) (publishing : Publishing τ ρ)
    (h : AnsweredFromStore durable s linkId peer mutation active binding envelope frame) :
    ∃ e', executeDurable (sessionEngine serving durable publishing) linkId peer mutation active binding
        envelope s = (replayDispatch durable mutation.seq frame, { s with engine := e' }) ∧
      Stamps ⟨peer.identityHash, binding.clientInstanceId, envelope.mutationId⟩ s.engine e' := by
  have hcommitted := h.committed
  unfold executeDurable
  by_cases hop : mutation.op = .nicknameColourSet
  · unfold Committed at hcommitted
    rw [show (requestUnder peer active mutation binding envelope).op = .nicknameColourSet from hop]
      at hcommitted
    obtain ⟨hcoloured, hroom, hcolour, hhash⟩ := hcommitted
    obtain ⟨colour, hcolour⟩ := Option.isSome_iff_exists.mp hcolour
    obtain ⟨e', hrun, hstamps⟩ :=
      nicknameColour_redispatches hcolour hhash h.stored mutation.seq
    refine ⟨e', ?_, hstamps⟩
    rw [if_pos hop, read_bind, if_pos ⟨hcoloured, hroom⟩]
    exact onEngine_run hrun
  · obtain ⟨e', hrun, hstamps⟩ := mutation_redispatches serving hop hcommitted h.stored
    refine ⟨e', ?_, hstamps⟩
    rw [if_neg hop]
    exact onEngine_run hrun

/-- The response again, if it can be read. -/
def replayDeliveries (host : Host) (engine : SessionEngine (SessionState τ ρ))
    (durable : DurableServing τ ρ) (s : LiveServer (SessionState τ ρ)) (linkId : LinkId) (seq : UInt32)
    (frame : Bytes) : List Delivery :=
  match decodeDurableReplayResult durable frame seq with
  | .ok response => [deliveryOf host engine s linkId response]
  | .error _ => []

/-- The request was to part, and its stored response grants it. -/
def PartGranted (durable : DurableServing τ ρ) (mutation : Frame) (frame : Bytes) : Prop :=
  mutation.op = .partRoom ∧
    ∃ response, decodeDurableReplayResult durable frame mutation.seq = .ok response ∧
      isSuccessfulPartResponse response = true

/-- What a link is sent depends on the engine's tables, not on the replay store. -/
theorem deliveryOf_rest (host : Host) (h : e'.store.rest = s.engine.store.rest) (linkId : LinkId)
    (response : Frame) :
    deliveryOf host (sessionEngine serving durable publishing) { s with engine := e' } linkId response =
      deliveryOf host (sessionEngine serving durable publishing) s linkId response := by
  obtain ⟨⟨results, clients, rest⟩, clock, readings⟩ := e'
  obtain rfl : rest = s.engine.store.rest := h
  rfl

theorem Stamps.rest {key : DurableMutationKey} {e : SessionState τ ρ} (h : Stamps key e e') :
    e'.store.rest = e.store.rest := by
  rw [h.store]
  rfl

/-- The frame is handled with nothing but its answer: the server is as it was, but for the stamps, the
answer sent, and what the link is known to hear. -/
theorem handleDecodedFrame_redispatches (host : Host) (serving : Serving τ ρ)
    (publishing : Publishing τ ρ)
    (h : AnsweredFromStore durable s linkId peer mutation active binding envelope frame) :
    ∃ e', Stamps ⟨peer.identityHash, binding.clientInstanceId, envelope.mutationId⟩ s.engine e' ∧
      (handleDecodedFrame host (sessionEngine serving durable publishing) linkId peer (some mutation)
        active s).2 = { s with
          engine := e'
          transport := (forEach Delivery.perform (replayDeliveries host
            (sessionEngine serving durable publishing) durable s linkId mutation.seq frame)
              s.transport).2 } ∧
      ∀ outcome, (handleDecodedFrame host (sessionEngine serving durable publishing) linkId peer
        (some mutation) active s).1 = .ok outcome →
          outcome.sessionAccepted = false ∧ outcome.moderationDisconnectSucceeded = false ∧
          (outcome.partSucceeded = true → PartGranted durable mutation frame) := by
  obtain ⟨e', hexecuted, hstamps⟩ := executeDurable_redispatches serving publishing h
  refine ⟨e', hstamps, ?_⟩
  have hwire : isDurableMutationEnvelope mutation.body = true := by
    rw [fromFrameBody_ok h.parsed]
    rfl
  have hrun : handleDecodedFrame host (sessionEngine serving durable publishing) linkId peer
      (some mutation) active s = (executeDurable (sessionEngine serving durable publishing) linkId peer
        mutation active binding envelope >>= fun dispatch =>
          deliverDurable host (sessionEngine serving durable publishing) linkId peer mutation dispatch)
        s := by
    rw [handleDecodedFrame_durable host _ hwire]
    unfold handleDurableMutationFrame
    rw [h.parsed]
    dsimp only
    rw [read_bind, h.bound]
  rw [hrun]
  unfold replayDeliveries
  -- a stored result that cannot be read is an error, and nothing is sent
  cases hdecoded : decodeDurableReplayResult durable frame mutation.seq with
  | error error =>
    have herror : replayDispatch durable mutation.seq frame = .error error := by
      unfold replayDispatch
      rw [hdecoded]
      rfl
    rw [bind_error (hexecuted.trans (congrArg (·, _) herror))]
    exact ⟨rfl, nofun⟩
  | ok response =>
    have hok : replayDispatch durable mutation.seq frame = .ok ⟨response, [], none, 0⟩ := by
      unfold replayDispatch
      rw [hdecoded]
      rfl
    rw [bind_ok (hexecuted.trans (congrArg (·, _) hok))]
    have hsent := answers_performs host (sessionEngine serving durable publishing)
      { s with engine := e' } linkId [response] s.transport
    rw [forEach_singleton, answersTo, List.map_singleton, deliveryOf_rest host hstamps.rest] at hsent
    have hdelivered : deliverDurable host (sessionEngine serving durable publishing) linkId peer
        mutation ⟨response, [], none, 0⟩ = (sendResponseFrame host
          (sessionEngine serving durable publishing) linkId response >>= fun _ =>
            pure { FrameDispatchOutcome.default [response] with
              partSucceeded := mutation.op == .partRoom && isSuccessfulPartResponse response }) := rfl
    rw [hdelivered, bind_pure]
    refine ⟨congrArg Prod.snd hsent, fun outcome houtcome => ?_⟩
    obtain ⟨_, _, rfl⟩ := Outcome.map_ok.mp houtcome
    refine ⟨rfl, rfl, fun hpart => ?_⟩
    obtain ⟨hop, hgranted⟩ := Bool.and_eq_true_iff.mp hpart
    exact ⟨beq_iff_eq.mp hop, response, hdecoded, hgranted⟩

/-- An envelope names no command, so nobody is looked up for it. -/
theorem moderationTarget_envelope (hparsed : fromFrameBody mutation.body =
    .ok envelope) (peer : ServerPeer) (active : List ServerPeer) (s : LiveServer (SessionState τ ρ)) :
    moderationTarget (sessionEngine serving durable publishing) peer (some mutation) active s =
      (.ok none, s) := by
  have hnobody : moderationDisconnectTarget peer mutation active =
      (pure none : Session τ ρ (Option Bytes)) := by
    unfold moderationDisconnectTarget
    split
    · rfl
    · have hstring : bodyString mutation.body = some durableMutationEnvelopeTag := by
        rw [fromFrameBody_ok hparsed]
        rfl
      have hsplit : ¬ ((splitCommand durableMutationEnvelopeTag).1 = "kick" ∨
          (splitCommand durableMutationEnvelopeTag).1 = "ban") := by decide +kernel
      rw [hstring]
      dsimp only
      rw [if_neg hsplit]
  have hlooked : onEngine ((sessionEngine serving durable publishing).moderationDisconnectTargetForFrame
      peer mutation active) s = (.ok none, s) := onEngine_run (congrFun hnobody s.engine)
  unfold moderationTarget
  dsimp only
  rw [attempt_bind, hlooked]
  rfl

theorem unsubscribe_some {σ : Type} (host : Host) (engine : SessionEngine σ) (linkId : LinkId)
    (roomId : UInt32) (s : LiveServer σ) :
    (s.linkRooms.contains linkId = true ∧
      (unsubscribe host engine linkId (some roomId) s).2 = (broadcastUserlistForRoom host engine roomId
        { s with linkRooms := s.linkRooms.erase linkId }).2) ∨
      (unsubscribe host engine linkId (some roomId) s).2 =
        { s with linkRooms := s.linkRooms.erase linkId } := by
  unfold unsubscribe
  dsimp only
  rw [read_bind, modify_bind]
  split
  · next hsubscribed => exact .inl ⟨hsubscribed, rfl⟩
  · exact .inr rfl

/-- Only a session-open frame names its peer. -/
theorem candidatePeer_of_op {frame : Frame} (hop : frame.op ≠ .sessionOpen) (peer : ServerPeer) :
    candidatePeer peer (some frame) = peer := by
  show (peerFromSessionOpen peer frame).getD peer = peer
  unfold peerFromSessionOpen
  rw [if_pos hop]
  rfl

/-- The server once the packet was looked up: its context is noted. -/
def notedServer (s : LiveServer (SessionState τ ρ)) (linkId : LinkId) (context : UInt8) :
    LiveServer (SessionState τ ρ) :=
  if context ≠ 0 then s.noteContext linkId context else s

theorem Committed.not_sessionOpen {request : DurableRequest} {coloured : Bool}
    (h : Committed durable request binding coloured) : request.op ≠ .sessionOpen := by
  intro hop
  unfold Committed at h
  rw [hop] at h
  exact h

/-- The server with the answer sent again, and nothing but the traffic noted beside it. -/
def answeredServer (host : Host) (engine : SessionEngine (SessionState τ ρ))
    (durable : DurableServing τ ρ) (linkId : LinkId) (mutation : Frame) (size : Nat) (frame : Bytes)
    (s : LiveServer (SessionState τ ρ)) (e' : SessionState τ ρ) (rooms : LinkMap UInt32) :
    LiveServer (SessionState τ ρ) :=
  { s.recordTraffic linkId size (some mutation.op) with
    engine := e'
    linkRooms := rooms
    transport := (forEach Delivery.perform
      (replayDeliveries host engine durable s linkId mutation.seq frame) s.transport).2 }

/-- What the server keeps of the rooms of its links, and whom it tells: a link that asked to part and is
granted it hears no room any more, and the room is sent its users if the link had one. -/
def Resettles (host : Host) (engine : SessionEngine (SessionState τ ρ)) (durable : DurableServing τ ρ)
    (linkId : LinkId) (mutation : Frame) (size : Nat) (frame : Bytes) (e' : SessionState τ ρ)
    (s s' : LiveServer (SessionState τ ρ)) : Prop :=
  ∃ rooms, (∀ l, l ≠ linkId → rooms[l]? = s.linkRooms[l]?) ∧
    (joinedRoomIdFromFrame mutation = none → rooms = s.linkRooms ∨
      PartGranted durable mutation frame ∧ rooms = s.linkRooms.erase linkId) ∧
    (s' = answeredServer host engine durable linkId mutation size frame s e' rooms ∨
      ∃ roomId, PartGranted durable mutation frame ∧ mutation.roomId = some roomId ∧
        s.linkRooms.contains linkId = true ∧ rooms = s.linkRooms.erase linkId ∧
        s' = (broadcastUserlistForRoom host engine roomId
          (answeredServer host engine durable linkId mutation size frame s e' rooms)).2)

theorem Resettles.untouched {engine : SessionEngine (SessionState τ ρ)} {e' : SessionState τ ρ}
    {s : LiveServer (SessionState τ ρ)} {size : Nat} :
    Resettles host engine durable linkId mutation size frame e' s
      (answeredServer host engine durable linkId mutation size frame s e' s.linkRooms) :=
  ⟨s.linkRooms, fun _ _ => rfl, fun _ => .inl rfl, .inl rfl⟩

/-- What the request and its answer make of the rooms of the links. -/
theorem settleDispatch_resettles {engine : SessionEngine (SessionState τ ρ)} {e' : SessionState τ ρ}
    {s : LiveServer (SessionState τ ρ)} {size : Nat} {outcome : FrameDispatchOutcome}
    (hsession : outcome.sessionAccepted = false)
    (hmoderation : outcome.moderationDisconnectSucceeded = false)
    (hpart : outcome.partSucceeded = true → PartGranted durable mutation frame) :
    Resettles host engine durable linkId mutation size frame e' s
      (settleDispatch host engine linkId peer peer (some mutation) none outcome
        (answeredServer host engine durable linkId mutation size frame s e' s.linkRooms)).2 := by
  rw [settleDispatch_steps, hsession, hmoderation]
  cases hjoined : joinedRoomIdFromFrame mutation with
  | some roomId =>
    -- a join-like request is no part
    have hstays : outcome.partSucceeded = false := by
      by_contra hparted
      have hpartRoom := (hpart (by simpa using hparted)).1
      unfold joinedRoomIdFromFrame at hjoined
      rw [hpartRoom] at hjoined
      cases hjoined
    rw [hstays, show (some mutation).bind joinedRoomIdFromFrame = some roomId from hjoined]
    refine ⟨s.linkRooms.insert linkId roomId, fun l hl => ?_, fun hnone => ?_, .inl rfl⟩
    · exact LinkMap.getElem?_insert_ne _ _ (Ne.symm hl)
    · rw [hjoined] at hnone
      cases hnone
  | none =>
    rw [show (some mutation).bind joinedRoomIdFromFrame = none from hjoined]
    cases hparted : outcome.partSucceeded with
    | false => exact .untouched
    | true =>
      have hgranted := hpart hparted
      have hroom : (some mutation).bind partedRoomIdFromFrame = mutation.roomId := by
        show partedRoomIdFromFrame mutation = _
        unfold partedRoomIdFromFrame
        rw [if_pos hgranted.1]
      rw [if_pos rfl, hroom]
      cases hroomId : mutation.roomId with
      | none => exact .untouched
      | some roomId =>
        refine ⟨s.linkRooms.erase linkId, fun l hl => ?_, fun _ => .inr ⟨hgranted, rfl⟩, ?_⟩
        · exact LinkMap.getElem?_erase_ne _ (Ne.symm hl)
        · obtain ⟨hsubscribed, hparted⟩ | hparted := unsubscribe_some host engine linkId roomId
            (answeredServer host engine durable linkId mutation size frame s e' s.linkRooms)
          · exact .inr ⟨roomId, hgranted, hroomId, hsubscribed, rfl, hparted⟩
          · exact .inl hparted

theorem arrive_noted {context : UInt8} {now : Int} (hpeer : s.peers[linkId]? = some peer) :
    arrive linkId context (some mutation) now s = (some peer, notedServer s linkId context) := by
  have hknown : (notedServer s linkId context).peers = s.peers := by
    unfold notedServer
    split
    · rfl
    · rfl
  unfold notedServer at hknown ⊢
  unfold arrive
  rw [if_neg (by simp)]
  simp only [Option.isSome_some, true_and]
  rw [hknown, hpeer]

/-- What the packet leaves before it is dispatched does not touch the stored answer. -/
theorem AnsweredFromStore.noted (h : AnsweredFromStore durable s linkId peer mutation
      (activeRoomPeers s linkId peer (some mutation)) binding envelope frame)
    (context : UInt8) (size : Nat) :
    AnsweredFromStore durable
      ((notedServer s linkId context).recordTraffic linkId size (some mutation.op)) linkId peer
      mutation (packetActive linkId peer (some mutation) size (notedServer s linkId context))
      binding envelope frame := by
  unfold packetActive
  rw [candidatePeer_of_op h.committed.not_sessionOpen peer]
  unfold notedServer
  split
  · exact ⟨h.parsed, h.bound, h.committed, h.stored⟩
  · exact ⟨h.parsed, h.bound, h.committed, h.stored⟩

/-- A mutation that is answered from the store writes the stamps, and then does what its request and its
answer say of the rooms of the links. -/
theorem linkData_resettles (host : Host) (serving : Serving τ ρ) (durable : DurableServing τ ρ)
    (publishing : Publishing τ ρ) (context : UInt8) (size : Nat) (now : Int)
    (hpeer : s.peers[linkId]? = some peer)
    (h : AnsweredFromStore durable s linkId peer mutation
      (activeRoomPeers s linkId peer (some mutation)) binding envelope frame) :
    ∃ e', Stamps ⟨peer.identityHash, binding.clientInstanceId, envelope.mutationId⟩
        (notedServer s linkId context).engine e' ∧
      Resettles host (sessionEngine serving durable publishing) durable linkId mutation size frame e'
        (notedServer s linkId context)
        (liveStep host (sessionEngine serving durable publishing) s
          (.linkData linkId context (some mutation) size now)).2 := by
  have hcandidate : candidatePeer peer (some mutation) = peer :=
    candidatePeer_of_op h.committed.not_sessionOpen peer
  have hanswered := h.noted context size
  rw [(linkData_known host _ (arrive_noted hpeer) size).1]
  generalize notedServer s linkId context = noted at hanswered
  -- a durable envelope names no target to moderate
  have hlookup : packetLookup (sessionEngine serving durable publishing) linkId peer (some mutation) size
      noted = (.ok none, noted.recordTraffic linkId size (some mutation.op)) := by
    unfold packetLookup
    rw [hcandidate]
    exact moderationTarget_envelope h.parsed peer _ _
  obtain ⟨e', hstamps, hstate, houtcome⟩ := handleDecodedFrame_redispatches host serving
    publishing hanswered
  have hdispatched := dispatchPacket_eq host (sessionEngine serving durable publishing) linkId peer
    (some mutation) size noted
  rw [hcandidate, packetState, hlookup] at hdispatched
  refine ⟨e', hstamps, ?_⟩
  unfold handlePacket
  rw [attempt_bind, hdispatched, hstate]
  cases hresult : (handleDecodedFrame host (sessionEngine serving durable publishing) linkId peer
      (some mutation) (packetActive linkId peer (some mutation) size noted)
      (noted.recordTraffic linkId size (some mutation.op))).1 with
  | error e => exact .untouched
  | ok outcome =>
    obtain ⟨hsession, hmoderation, hpart⟩ := houtcome outcome hresult
    have htarget : packetTarget (sessionEngine serving durable publishing) linkId peer (some mutation)
        size noted = none := by
      unfold packetTarget
      rw [hlookup]
      rfl
    show Resettles _ _ _ _ _ _ _ _ _ (settleDispatch host (sessionEngine serving durable publishing)
      linkId peer (candidatePeer peer (some mutation)) (some mutation) (packetTarget _ _ _ _ _ _) outcome _).2
    rw [hcandidate, htarget]
    exact settleDispatch_resettles hsession hmoderation hpart

end Live

end Omen.Server
