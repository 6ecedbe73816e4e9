import OmenBrowser.Server.FrameShapes
import OmenBrowser.Server.LiveTables

/- What the live server relies on of the session engine.

   A durable mutation publishes and disconnects only what its own commit has stored for the first
   time. Nobody is disconnected on their own request. A session is accepted with capabilities that
   were asked for, and with durable mutations only for a client instance. -/
namespace Omen.Server
open Wire Sql Omen.Protocol Except

variable {τ ρ : Type} {α ε : Type}
  {dispatch : DurableMutationDispatch} {seq : UInt32} {roomId : Option UInt32}
  {request : DurableRequest} {clientInstanceId : ClientInstanceId} {s s' : SessionState τ ρ}
  {peer : ServerPeer} {tooLarge mismatch : String}
  {run : UInt32 → Session τ ρ DurableMutationDispatch} {identityHash : Bytes}
  {envelope : DurableMutationEnvelope} {responses : List Frame}
  {negotiation : Option SessionOpenNegotiation}

/-! How a commit is dispatched. -/

section Durable
variable {serving : Serving τ ρ} {durable : DurableServing τ ρ}

theorem resultDispatch_ok {origin : Except ServerError Frame}
    {broadcasts : Except ServerError (List Frame)} {target : Option Bytes} {pruned : Nat}
    (h : resultDispatch origin broadcasts target pruned = .ok dispatch) :
    origin = .ok dispatch.origin ∧ broadcasts = .ok dispatch.broadcasts ∧
      dispatch.disconnectIdentity = target := by
  obtain ⟨frame, horigin, h⟩ := Outcome.bind_ok.mp h
  obtain ⟨frames, hbroadcasts, h⟩ := Outcome.bind_ok.mp h
  cases h
  exact ⟨horigin, hbroadcasts, rfl⟩

/-- What is published of an effect is the effect that was stored. -/
theorem effectDispatch_ok {publish : ε → DurableCommandEffect}
    {commit : DurableMutationEffectCommit ε}
    (h : effectDispatch durable seq roomId publish commit = .ok dispatch) :
    (∃ result effect pruned, commit = .stored result effect pruned ∧
      dispatch.broadcasts = (publish effect).broadcasts ∧
      dispatch.disconnectIdentity = (publish effect).disconnectIdentity) ∨
    (dispatch.broadcasts = [] ∧ dispatch.disconnectIdentity = none) := by
  cases commit with
  | stored result effect pruned =>
    obtain ⟨_, hbroadcasts, htarget⟩ := resultDispatch_ok h
    exact .inl ⟨result, effect, pruned, rfl, (ok.inj hbroadcasts).symm, htarget⟩
  | storedResponse | replayed =>
    obtain ⟨_, hbroadcasts, htarget⟩ := resultDispatch_ok h
    exact .inr ⟨(ok.inj hbroadcasts).symm, htarget⟩
  | conflict =>
    cases h
    exact .inr ⟨rfl, rfl⟩
  | expired =>
    cases h
    exact .inr ⟨rfl, rfl⟩

theorem roomEventDispatch_ok {roomId : UInt32} {commit : DurableRoomEventCommit α}
    (h : roomEventDispatch durable seq roomId commit = .ok dispatch) :
    dispatch.disconnectIdentity = none ∧
    ((∃ result event admission pruned, commit = .stored result event admission pruned) ∨
      dispatch.broadcasts = []) := by
  cases commit with
  | stored result event admission pruned =>
    obtain ⟨_, _, htarget⟩ := resultDispatch_ok h
    exact ⟨htarget, .inl ⟨result, event, admission, pruned, rfl⟩⟩
  | storedResponse | replayed =>
    obtain ⟨_, hbroadcasts, htarget⟩ := resultDispatch_ok h
    exact ⟨htarget, .inr (ok.inj hbroadcasts).symm⟩
  | conflict =>
    cases h
    exact ⟨rfl, .inr rfl⟩
  | expired =>
    cases h
    exact ⟨rfl, .inr rfl⟩

/-- An effect that is handed over was planned by a run of the callback. -/
theorem commitEffect_planned
    {prepare : Int → Txn (Database × τ × ρ) ServerError (DurableMutationEffectPlan ε)}
    {result : Bytes} {effect : ε} {pruned : Nat}
    (h : commitEffect durable request clientInstanceId prepare s =
      (.ok (.stored result effect pruned), s')) :
    ∃ seenAt tables tables', prepare seenAt tables = .ok (.effect result effect, tables') := by
  obtain ⟨hcommit, _⟩ := Prod.mk.inj h
  have hwhole := effectResult_whole durable.rmpv (request.key clientInstanceId)
    request.envelope.requestHash (s.clock s.readings) (prepare (s.clock (s.readings + 1))) s.store
  rw [show (commitDurableMutationEffectResult durable.rmpv (request.key clientInstanceId)
    request.envelope.requestHash (s.clock s.readings) (prepare (s.clock (s.readings + 1))) s.store).1 =
      .ok (.stored result effect pruned) from hcommit] at hwhole
  exact ⟨_, _, _, (hwhole.stored result pruned (some effect) rfl).2⟩

/-- What a user who is let in is served, or the refusal. -/
theorem admittedUser_ok {now : Int} {refusal : Txn (Database × τ × ρ) ServerError α}
    {serve : ServerUser → Txn (Database × τ × ρ) ServerError α} {tables tables' : Database × τ × ρ}
    {a : α} (h : admittedUser peer now refusal serve tables = .ok (a, tables')) :
    ∃ user seen, inDatabase (ensureUserOn peer now) tables = .ok (user, seen) ∧
      (if user.isBanned then refusal else serve user) seen = .ok (a, tables') := by
  obtain ⟨user, seen, hseen, h⟩ := Txn.bind_ok.mp h
  exact ⟨user, seen, hseen, h⟩

theorem lift_map_ok {β : Type} {x : Except ServerError β} {f : β → α} {d d' : ε} {a : α}
    (h : Txn.lift (x.map f) d = .ok (a, d')) : ∃ b, a = f b ∧ d' = d := by
  obtain ⟨hx, hd⟩ := Txn.lift_ok.mp h
  obtain ⟨b, _, hb⟩ := Outcome.map_ok.mp hx
  exact ⟨b, hb.symm, hd⟩

/-- A request that is refused before its commit is answered with one error. -/
theorem checkRequest_error (h : checkRequest durable request tooLarge mismatch = .error dispatch) :
    ∃ code text, dispatch = durableErrorDispatch request.seq request.roomId code text := by
  unfold checkRequest at h
  split at h
  · exact ⟨_, _, (error.inj h).symm⟩
  · split at h
    · cases hchecks : durable.checks request with
      | error e =>
        rw [hchecks] at h
        exact ⟨e.1, e.2, (error.inj h).symm⟩
      | ok =>
        rw [hchecks] at h
        cases h
    · exact ⟨_, _, (error.inj h).symm⟩

theorem handleDurableCommand_spares
    (h : handleDurableCommand durable request clientInstanceId s = (.ok dispatch, s')) :
    dispatch.disconnectIdentity ≠ some request.peer.identityHash := by
  unfold handleDurableCommand at h
  cases hcheck : checkRequest durable request "durable command body exceeds canonical bounds"
      "durable command hash does not match its canonical body" with
  | error refused =>
    rw [hcheck] at h
    obtain ⟨hdispatch, _⟩ := Prod.mk.inj h
    cases hdispatch
    obtain ⟨code, text, rfl⟩ := checkRequest_error hcheck
    simp [durableErrorDispatch]
  | ok =>
    rw [hcheck] at h
    obtain ⟨commit, s₁, hcommit, h⟩ := Act.bind_eq_ok.mp h
    obtain ⟨hdispatch, _⟩ := Prod.mk.inj h
    rcases effectDispatch_ok hdispatch with ⟨result, effect, pruned, rfl, _, htarget⟩ | ⟨_, htarget⟩
    · obtain ⟨seenAt, tables, tables', hplanned⟩ := commitEffect_planned hcommit
      obtain ⟨user, seen, _, hserved⟩ := admittedUser_ok hplanned
      rw [htarget]
      intro hown
      split at hserved
      · obtain ⟨_, hplan, _⟩ := lift_map_ok hserved
        cases hplan
      · exact durable.command_target request user seen _ tables' _ hserved result effect rfl hown rfl
    · simp [htarget]

/-- A handler that works in a room, checked, publishes what its commit published. -/
theorem inDurableRoom_ok {missing : String}
    (h : inDurableRoom durable request missing tooLarge mismatch run s = (.ok dispatch, s')) :
    (∃ code text roomId, dispatch = durableErrorDispatch request.seq roomId code text ∧ s' = s) ∨
    ∃ roomId, request.roomId = some roomId ∧
      checkRequest durable request tooLarge mismatch = .ok () ∧ run roomId s = (.ok dispatch, s') := by
  unfold inDurableRoom at h
  cases hroom : request.roomId with
  | none =>
    rw [hroom] at h
    obtain ⟨hdispatch, hs⟩ := Prod.mk.inj h
    exact .inl ⟨_, _, _, (ok.inj hdispatch).symm, hs.symm⟩
  | some roomId =>
    rw [hroom] at h
    cases hcheck : checkRequest durable request tooLarge mismatch with
    | error refused =>
      rw [hcheck] at h
      obtain ⟨hdispatch, hs⟩ := Prod.mk.inj h
      cases hdispatch
      obtain ⟨code, text, rfl⟩ := checkRequest_error hcheck
      exact .inl ⟨code, text, _, rfl, hs.symm⟩
    | ok =>
      rw [hcheck] at h
      exact .inr ⟨roomId, rfl, rfl, h⟩

theorem roomEvent_spares {roomId : UInt32} {x : Session τ ρ (DurableRoomEventCommit α)}
    (h : (x >>= fun commit => Act.lift (roomEventDispatch durable seq roomId commit)) s =
      (.ok dispatch, s'))
    : dispatch.disconnectIdentity ≠ some identityHash := by
  obtain ⟨commit, s₁, _, h⟩ := Act.bind_eq_ok.mp h
  obtain ⟨hdispatch, _⟩ := Prod.mk.inj h
  simp [(roomEventDispatch_ok hdispatch).1]

/-- What a mutation with at most one broadcast does not do. -/
theorem effect_spares {x : Session τ ρ (DurableMutationEffectCommit (Option Frame))}
    (h : (x >>= fun commit => Act.lift (effectDispatch durable seq roomId (fun broadcast =>
      { broadcasts := broadcast.toList, disconnectIdentity := none }) commit)) s =
      (.ok dispatch, s'))
    : dispatch.disconnectIdentity ≠ some identityHash := by
  obtain ⟨commit, s₁, _, h⟩ := Act.bind_eq_ok.mp h
  obtain ⟨hdispatch, _⟩ := Prod.mk.inj h
  rcases effectDispatch_ok hdispatch with ⟨_, _, _, _, _, htarget⟩ | ⟨_, htarget⟩
  · simp [htarget]
  · simp [htarget]

theorem inDurableRoom_spares {missing : String}
    (hrun : ∀ roomId dispatch s s', run roomId s = (.ok dispatch, s') →
      dispatch.disconnectIdentity ≠ some identityHash)
    (h : inDurableRoom durable request missing tooLarge mismatch run s = (.ok dispatch, s')) :
    dispatch.disconnectIdentity ≠ some identityHash := by
  rcases inDurableRoom_ok h with ⟨_, _, _, rfl, _⟩ | ⟨roomId, _, _, h⟩
  · simp [durableErrorDispatch]
  · exact hrun roomId dispatch s s' h

theorem handleDurableNicknameColour_spares
    (h : handleDurableNicknameColour durable peer seq clientInstanceId envelope s =
      (.ok dispatch, s'))
    : dispatch.disconnectIdentity ≠ some identityHash := by
  unfold handleDurableNicknameColour at h
  cases hhash : canonicalMutationRequestHash durable.sha256 .nicknameColourSet none envelope.body with
  | error e =>
    rw [hhash] at h
    cases h
    simp [durableErrorDispatch]
  | ok hash =>
    rw [hhash] at h
    dsimp only at h
    split at h
    · cases hcolour : nicknameColourSet envelope.body with
      | none =>
        rw [hcolour] at h
        cases h
        simp [durableErrorDispatch]
      | some colour =>
        rw [hcolour] at h
        exact effect_spares h
    · cases h
      simp [durableErrorDispatch]

theorem handleDurableMutation_spares {peers : DurableMutationPeerContext} {op : ChatOp}
    (h : handleDurableMutationWithActivePeers serving durable peers seq roomId op clientInstanceId
      envelope s = (.ok dispatch, s')) :
    dispatch.disconnectIdentity ≠ some peers.peer.identityHash := by
  have herror : ∀ code text, (pure (durableErrorDispatch seq roomId code text) :
      Session τ ρ DurableMutationDispatch) s = (.ok dispatch, s') →
      dispatch.disconnectIdentity ≠ some peers.peer.identityHash := by
    intro code text h
    cases h
    simp [durableErrorDispatch]
  have hprojection : ∀ missing noun request, handleDurableProjection serving durable missing noun
      request clientInstanceId s = (.ok dispatch, s') →
      dispatch.disconnectIdentity ≠ some peers.peer.identityHash := fun _ _ _ h =>
    inDurableRoom_spares (fun _ _ _ _ h => effect_spares h) h
  unfold handleDurableMutationWithActivePeers at h
  split at h
  · exact inDurableRoom_spares (fun _ _ _ _ h => roomEvent_spares h) h
  · exact inDurableRoom_spares (fun _ _ _ _ h => roomEvent_spares h) h
  · exact inDurableRoom_spares (fun _ _ _ _ h => roomEvent_spares h) h
  · exact inDurableRoom_spares (fun _ _ _ _ h => roomEvent_spares h) h
  · exact handleDurableCommand_spares h
  · split at h
    · exact hprojection _ _ _ h
    · exact herror _ _ h
  · split at h
    · exact hprojection _ _ _ h
    · exact herror _ _ h
  · split at h
    · exact hprojection _ _ _ h
    · exact herror _ _ h
  · exact herror _ _ h

end Durable

theorem moderationTargetOf_spares {target : String} {active : List ServerPeer}
    (h : moderationTargetOf peer target active s = (.ok (some identityHash), s')) :
    identityHash ≠ peer.identityHash := by
  obtain ⟨actor, s₁, _, h⟩ := Act.bind_eq_ok.mp h
  cases actor with
  | none => cases h
  | some actor =>
    dsimp only at h
    split at h
    · cases h
    · cases hresolved : resolveActivePeerTarget active target with
      | none =>
        rw [hresolved] at h
        cases h
      | some targetPeer =>
        rw [hresolved] at h
        dsimp only at h
        split at h
        · cases h
        · next hother =>
          obtain ⟨user, s₂, _, h⟩ := Act.bind_eq_ok.mp h
          have htarget := ok.inj (Prod.mk.inj h).1
          split at htarget
          · cases htarget
          · rw [← Option.some.inj htarget]
            exact hother

/-- The engine disconnects nobody on their own request. -/
theorem sessionEngine_spares (serving : Serving τ ρ) (durable : DurableServing τ ρ)
    (publishing : Publishing τ ρ) : (sessionEngine serving durable publishing).SparesRequester := by
  refine ⟨?_, ?_, ?_⟩
  · intro peers seq roomId op clientInstanceId envelope e dispatch e' h
    exact handleDurableMutation_spares h
  · intro peer seq clientInstanceId envelope e dispatch e' h
    exact handleDurableNicknameColour_spares h
  · intro peer frame active e identityHash e' h
    have h : moderationDisconnectTarget peer frame active e = (.ok (some identityHash), e') := h
    unfold moderationDisconnectTarget at h
    split at h
    · cases h
    · cases hcommand : bodyString frame.body with
      | none =>
        rw [hcommand] at h
        cases h
      | some command =>
        rw [hcommand] at h
        dsimp only at h
        split at h
        · exact moderationTargetOf_spares h
        · cases h

/-! What a session is accepted with. -/

/-- A user who is let in is served; another gets the refusal. -/
theorem admitted_ok {refusal : Frame} {serve : ServerUser → Session τ ρ (List Frame)}
    (h : admitted peer refusal serve s = (.ok responses, s')) :
    responses = [refusal] ∨ ∃ user s₁, serve user s₁ = (.ok responses, s') := by
  obtain ⟨user, s₁, _, h⟩ := Act.bind_eq_ok.mp h
  cases user with
  | none => exact .inl (ok.inj (Prod.mk.inj h).1).symm
  | some user => exact .inr ⟨user, s₁, h⟩

/-- Only an acceptance accepts anything. -/
theorem accepts_nothing (h : ∀ response ∈ responses, response.op ≠ .sessionAccept) (name : String) :
    responsesAcceptCapability responses name = false := by
  refine List.any_eq_false.mpr fun response hresponse => ?_
  rw [responseAcceptsCapability, if_neg (h response hresponse)]
  exact nofun

/-- The answer to a session-open frame is no acceptance, or accepts what was selected of its
negotiation. -/
theorem handleSessionOpen_accepts {serving : Serving τ ρ} {body : FrameBody}
    (h : handleSessionOpen serving peer seq body s = (.ok responses, s')) :
    (∀ response ∈ responses, response.op ≠ .sessionAccept) ∨
    ∃ negotiation, parseSessionOpenNegotiation body = .ok negotiation ∧
      ∀ name, responsesAcceptCapability responses name =
        (acceptedCapabilities (select serving.features negotiation)).contains name := by
  have hrefused (refusal : Frame) (hop : refusal.op ≠ .sessionAccept) :
      ∀ response ∈ [refusal], response.op ≠ .sessionAccept := by
    intro response hresponse
    rwa [List.mem_singleton.mp hresponse]
  rcases admitted_ok h with rfl | ⟨user, s₁, h⟩
  · exact .inl (hrefused _ nofun)
  · cases hparse : parseSessionOpenNegotiation body with
    | error e =>
      rw [hparse] at h
      cases h
      exact .inl (hrefused _ nofun)
    | ok negotiation =>
      rw [hparse] at h
      obtain ⟨fields, _, _, h⟩ := Act.bind_eq_ok.mp h
      obtain ⟨fields, _, _, h⟩ := Act.bind_eq_ok.mp h
      obtain ⟨response, _, hresponse, h⟩ := Act.bind_eq_ok.mp h
      cases h
      obtain ⟨read, hread, haccepted⟩ := sessionAcceptBody_parses fields
        (select_closed serving.features negotiation) (Prod.mk.inj hresponse).1
      refine .inr ⟨negotiation, rfl, fun name => ?_⟩
      rw [← haccepted]
      cases read with
      | none => simp [responsesAcceptCapability, responseAcceptsCapability, Frame.new, hread, acceptedOf]
      | some read =>
        simp [responsesAcceptCapability, responseAcceptsCapability, Frame.new, hread, acceptedOf]

theorem openNegotiation_eq {frame : Frame} (hop : frame.op = .sessionOpen)
    (h : parseSessionOpenNegotiation frame.body = .ok negotiation) :
    openNegotiation frame = negotiation := by
  rw [openNegotiation, if_pos hop, h]

theorem sessionOpenRequestsCapability_eq {frame : Frame} (h : openNegotiation frame = negotiation)
    (name : String) : sessionOpenRequestsCapability frame name = requests negotiation name := by
  rw [sessionOpenRequestsCapability, h]
  cases negotiation with
  | none => rfl
  | some negotiation => simp [requests, List.contains_eq_mem]

theorem sessionEngine_accepts (serving : Serving τ ρ) (durable : DurableServing τ ρ)
    (publishing : Publishing τ ρ) :
    (sessionEngine serving durable publishing).AcceptsRequested := by
  -- only a session open that parses is answered with an acceptance
  have hopen {peer : ServerPeer} {frame : Frame} {active : List ServerPeer}
      {negotiated : NegotiatedFeatures} {e e' : SessionState τ ρ} {responses : List Frame}
      (hop : frame.op = .sessionOpen)
      (h : (sessionEngine serving durable publishing).handleFrame peer frame active negotiated e =
        (.ok responses, e')) :
      (∀ response ∈ responses, response.op ≠ .sessionAccept) ∨
      ∃ negotiation, parseSessionOpenNegotiation frame.body = .ok negotiation ∧
        ∀ name, responsesAcceptCapability responses name =
          (acceptedCapabilities (select serving.features negotiation)).contains name := by
    have h : handleFrame serving peer frame active negotiated e = (.ok responses, e') := h
    rw [handleFrame, hop] at h
    exact handleSessionOpen_accepts h
  refine ⟨?_, ?_, ?_, ?_⟩
  · intro peer frame active negotiated e responses e' hop h c hc
    rcases hopen hop h with hnone | ⟨negotiation, hparse, hall⟩
    · rw [accepts_nothing hnone] at hc
      cases hc
    · rw [hall, List.contains_iff_mem, mem_accepted] at hc
      rw [sessionOpenRequestsCapability_eq (openNegotiation_eq hop hparse)]
      exact select_requested _ _ c hc
  · intro peer frame active negotiated e responses e' hop h c hc d hd
    rcases hopen hop h with hnone | ⟨negotiation, hparse, hall⟩
    · rw [accepts_nothing hnone] at hc
      cases hc
    · rw [hall, List.contains_iff_mem, mem_accepted] at hc ⊢
      exact select_closed _ _ c hc d hd
  · intro peer frame active negotiated e responses e' hop h hc
    rcases hopen hop h with hnone | ⟨negotiation, hparse, hall⟩
    · rw [accepts_nothing hnone] at hc
      cases hc
    · rw [hall, List.contains_iff_mem] at hc
      have hselected := (mem_accepted _ .durable).mp hc
      have hinstance :
          (hasInstance negotiation && requests negotiation durableMutationCapability) = true := hselected
      rw [requestedDurableClientInstance, openNegotiation_eq hop hparse]
      -- durable mutations are selected only if the request has an instance
      cases negotiation with
      | none => cases hinstance
      | some negotiation =>
        obtain ⟨hinstance, hrequested⟩ := Bool.and_eq_true_iff.mp hinstance
        have hcontains : negotiation.requestedCapabilities.contains durableMutationCapability = true := by
          simpa [requests, List.contains_eq_mem] using hrequested
        show (if negotiation.requestedCapabilities.contains durableMutationCapability then
          negotiation.clientInstanceId else none).isSome
        rw [if_pos hcontains]
        exact hinstance
  · intro peer frame active negotiated e responses e' hop h haccepted hrequested
    rcases hopen hop h with hnone | ⟨negotiation, hparse, hall⟩
    · obtain ⟨response, hresponse, hop⟩ := List.any_eq_true.mp haccepted
      exact absurd (beq_iff_eq.mp hop) (hnone response hresponse)
    · rw [sessionOpenRequestsCapability_eq (openNegotiation_eq hop hparse)] at hrequested
      rw [hall, List.contains_iff_mem]
      exact (mem_accepted _ .channelAttachment).mpr hrequested

/-- A session-open frame of the first peer that asks for these capabilities. -/
def openFrame (seq : UInt32) (capabilities : List String) : Frame :=
  Frame.new .sessionOpen seq none (.fields [.string protocolName, .string "ann", .nil,
    capabilitiesValue capabilities, .bytes (List.replicate 16 5)])

/-- A server that has seen nothing, for runs on given inputs. -/
def newServer : LiveServer (SessionState RoomTable (PendingResourceStore × Unit)) :=
  LiveServer.new (lobbyState lobbyDatabase) Transport.accepting

end Omen.Server
