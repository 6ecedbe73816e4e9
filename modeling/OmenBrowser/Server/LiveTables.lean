import OmenBrowser.Server.LiveDispatch

/- What the parts of the live server do to its tables.

   `LiveServer.entry` is all that is kept for a link. Sending, and the engine, change no entry;
   tearing a link down makes its entry `forgotten`, which is not empty: the capability for
   channel attachments and the staged uploads stay. -/
namespace Omen.Server
open Wire Omen.Protocol Act LinkReplayCache Std.ExtTreeMap

variable {σ α : Type}
  {l linkId : LinkId} {s s' s₁ s₂ s₃ : LiveServer σ} {lost lost' : LinkId → Prop}
  {cache : LinkReplayCache} {e : ReplayEntry} {peer : ServerPeer} {frame : Frame}
  {active : List ServerPeer} {dispatch : FrameDispatchOutcome} {context : UInt8}

/-- What the server keeps for one link, the replay cache apart. -/
structure LinkEntry where
  peer : Option ServerPeer
  room : Option UInt32
  responseContext : Option UInt8
  openedAt : Option Int
  traffic : Option LinkTrafficSummary
  identified : Option Unit
  sessionOpen : Option Unit
  durable : Option DurableSessionBinding
  moderationAudit : Option Bytes
  announcementRooms : Option Bytes
  slowMode : Option Bytes
  roomMediaPolicy : Option Bytes
  nicknameColours : Option Bytes
  channelAttachment : Option Bytes
  staged : List String

def LinkEntry.empty : LinkEntry :=
  ⟨none, none, none, none, none, none, none, none, none, none, none, none, none, none, []⟩

/-- What is left of a link that is torn down otherwise than by closing it. -/
def LinkEntry.forgotten (e : LinkEntry) : LinkEntry :=
  { LinkEntry.empty with channelAttachment := e.channelAttachment, staged := e.staged }

/-- The uploads staged for the link. -/
def LiveServer.stagedFor (s : LiveServer σ) (linkId : LinkId) : List String :=
  (s.channelUploads.filter (fun upload => upload.1 == linkId)).map (·.2)

def LiveServer.entry (s : LiveServer σ) (linkId : LinkId) : LinkEntry :=
  { peer := s.peers[linkId]?
    room := s.linkRooms[linkId]?
    responseContext := s.linkResponseContexts[linkId]?
    openedAt := s.linkOpenedAt[linkId]?
    traffic := s.linkTraffic[linkId]?
    identified := s.identifiedLinks[linkId]?
    sessionOpen := s.sessionOpenLinks[linkId]?
    durable := s.durableSessions[linkId]?
    moderationAudit := s.moderationAuditLinks[linkId]?
    announcementRooms := s.announcementRoomLinks[linkId]?
    slowMode := s.slowModeLinks[linkId]?
    roomMediaPolicy := s.roomMediaPolicyLinks[linkId]?
    nicknameColours := s.nicknameColourLinks[linkId]?
    channelAttachment := s.channelAttachmentLinks[linkId]?
    staged := s.stagedFor linkId }

/-! Maps of links. -/

namespace LinkMap
variable {ν : Type}

variable (m : LinkMap ν)

variable (k : LinkId) (v : ν)

theorem getElem?_erase_self : (m.erase k)[k]? = none := by
  rw [getElem?_erase, if_pos (Std.ReflCmp.compare_self)]

theorem getElem?_erase_ne {k : LinkId} (h : k ≠ l) : (m.erase k)[l]? = m[l]? := by
  rw [getElem?_erase, if_neg]
  intro heq
  exact h (Std.LawfulEqCmp.eq_of_compare heq)

theorem getElem?_insert_self : (m.insert k v)[k]? = some v := by
  rw [getElem?_insert, if_pos (Std.ReflCmp.compare_self)]

theorem getElem?_insert_ne {k : LinkId} (h : k ≠ l) : (m.insert k v)[l]? = m[l]? := by
  rw [getElem?_insert, if_neg]
  intro heq
  exact h (Std.LawfulEqCmp.eq_of_compare heq)

end LinkMap

/-! Sending, and what the engine does. -/

/-- Only the engine and the transport are different. -/
def SameTables (s s' : LiveServer σ) : Prop :=
  s' = { s with engine := s'.engine, transport := s'.transport }

theorem SameTables.refl (s : LiveServer σ) : SameTables s s := rfl

theorem SameTables.trans (s₁ s₂ s₃ : LiveServer σ) (h₁ : SameTables s₁ s₂) (h₂ : SameTables s₂ s₃) :
    SameTables s₁ s₃ := by
  unfold SameTables at *
  rw [h₂, h₁]

instance : IsPreorder (LiveServer σ) SameTables where
  refl := SameTables.refl
  trans := SameTables.trans

theorem SameTables.entry (h : SameTables s s') (linkId : LinkId) :
    s'.entry linkId = s.entry linkId := by
  rw [h]
  rfl

theorem SameTables.replayCache (h : SameTables s s') : s'.replayCache = s.replayCache := by
  rw [h]

section Same
variable (host : Host) (engine : SessionEngine σ)

theorem onEngine_same (x : Act σ ServerError α) : Act.Steps SameTables (onEngine x) := fun _ => rfl

theorem onTransport_same (x : Act Transport ServerError α) :
    Act.Steps (SameTables (σ := σ)) (onTransport x) := fun _ => rfl

theorem sendResponseFrame_same (linkId : LinkId) (frame : Frame) :
    Act.Steps SameTables (sendResponseFrame host engine linkId frame) := by
  refine .bind (.read _) fun s => ?_
  refine .bind (.lift _) fun outgoing => ?_
  exact onTransport_same _

theorem releaseResponseResource_same (frame : Frame) :
    Act.Steps SameTables (releaseResponseResource engine frame) := by
  unfold releaseResponseResource
  split
  · split
    · split
      · exact .pure _
      · exact .modify fun _ => rfl
    · split
      · exact .throw _
      · exact .modify fun _ => rfl
  · exact .pure _

theorem broadcastUserlistForRoom_same (roomId : UInt32) :
    Act.Steps SameTables (broadcastUserlistForRoom host engine roomId) := by
  refine .bind (.read _) fun linkIds => ?_
  refine .bind (.read _) fun peers => ?_
  refine .forEach (fun linkId => ?_) _
  refine .bind (.read _) fun coloured => ?_
  refine .bind (onEngine_same _) fun frame => ?_
  refine .bind
    (.attempt (sendResponseFrame_same host engine linkId frame)) fun sent => ?_
  exact .bind (releaseResponseResource_same engine frame) fun _ =>
    .lift _

theorem sendToEach_same (frame : Frame) (linkIds : List LinkId) :
    Act.Steps SameTables (sendToEach host engine frame linkIds) :=
  .forEach (fun linkId => sendResponseFrame_same host engine linkId frame) linkIds

variable (origin : LinkId)

theorem broadcastRoomEvent_same (frame : Frame) :
    Act.Steps SameTables (broadcastRoomEvent host engine origin frame) :=
  .bind (.read _) fun targets =>
    sendToEach_same host engine frame targets

theorem broadcastDurable_same (actor : ServerPeer) (frame : Frame) :
    Act.Steps SameTables (broadcastDurable host engine origin actor frame) := by
  refine .bind (.read _) fun s => ?_
  refine .bind (.lift _) fun targets => ?_
  exact sendToEach_same host engine frame targets

theorem appendSnapshot_same (kind : SnapshotKind) (linkId : LinkId) (peer : ServerPeer)
    (request : Frame) (responses : List Frame) :
    Act.Steps SameTables (appendSnapshot engine kind linkId peer request responses) := by
  refine .bind (.read _) fun active => ?_
  split
  · exact .pure _
  · exact .bind (onEngine_same _) fun _ =>
      .pure _

section
variable (linkId : LinkId)

theorem appendUserId_same (peer : ServerPeer) (request : Frame) (responses : List Frame) :
    Act.Steps SameTables (appendUserId engine linkId peer request responses) := by
  refine .bind (.read _) fun active => ?_
  split
  · exact .bind (onEngine_same _) fun _ =>
      .lift _
  · exact .pure _

theorem appendExtensions_same (peer : ServerPeer) (frame : Frame) (responses : List Frame) :
    Act.Steps SameTables (appendExtensions engine linkId peer frame responses) := by
  refine .bind (appendUserId_same engine linkId peer frame _) fun _ => ?_
  refine .bind (appendSnapshot_same engine _ linkId peer frame _) fun _ => ?_
  refine .bind (appendSnapshot_same engine _ linkId peer frame _) fun _ => ?_
  exact appendSnapshot_same engine _ linkId peer frame _

theorem executeFrame_same (peer : ServerPeer) (frame : Frame) (active : List ServerPeer) :
    Act.Steps SameTables (executeFrame engine linkId peer frame active) := by
  refine .bind (.read _) fun features => ?_
  refine .bind (onEngine_same _) fun responses => ?_
  exact appendExtensions_same engine linkId peer frame responses

theorem deliver_same (origin broadcasts : List Frame) :
    Act.Steps SameTables (deliver host engine linkId origin broadcasts) := by
  refine .bind ?_ fun _ => ?_
  · exact .forEach (fun frame => sendResponseFrame_same host engine linkId frame) origin
  · exact .forEach
      (fun frame => broadcastRoomEvent_same host engine linkId frame) broadcasts

theorem answerError_same (frame : Frame) (code : ChatErrorCode) (text : String) :
    Act.Steps SameTables (answerError host engine linkId frame code text) :=
  .bind (sendResponseFrame_same host engine linkId _) fun _ =>
    .pure _

theorem executeDurable_same (peer : ServerPeer) (frame : Frame)
    (active : List ServerPeer) (binding : DurableSessionBinding) (envelope : DurableMutationEnvelope) :
    Act.Steps SameTables (executeDurable engine linkId peer frame active binding envelope) := by
  unfold executeDurable
  split
  · refine .bind (.read _) fun coloured => ?_
    refine .ite (onEngine_same _) ?_
    exact .ite (.pure _) (.pure _)
  · exact onEngine_same _

end

end Same

/-! Links that are torn down. -/

/-- The lost links are forgotten, and nothing else is different for any link. -/
structure Retires (lost : LinkId → Prop) (s s' : LiveServer σ) : Prop where
  kept : ∀ l, ¬lost l → s'.entry l = s.entry l
  forgotten : ∀ l, lost l → s'.entry l = (s.entry l).forgotten
  cache : ∀ e ∈ s'.replayCache, e ∈ s.replayCache ∧ ¬lost e.linkId

theorem SameTables.retires (h : SameTables s s') : Retires (fun _ => False) s s' := by
  refine ⟨fun l _ => h.entry l, fun _ hfalse => hfalse.elim, fun e he => ⟨?_, fun hfalse => hfalse⟩⟩
  rwa [h.replayCache] at he

theorem Retires.trans (h₁ : Retires lost s₁ s₂) (h₂ : Retires lost' s₂ s₃) :
    Retires (fun l => lost l ∨ lost' l) s₁ s₃ := by
  refine ⟨?_, ?_, ?_⟩
  · intro l hl
    rw [h₂.kept l fun h => hl (.inr h), h₁.kept l fun h => hl (.inl h)]
  · intro l hl
    by_cases h' : lost' l
    · rw [h₂.forgotten l h']
      by_cases h : lost l
      · rw [h₁.forgotten l h]
        rfl
      · rw [h₁.kept l h]
    · rw [h₂.kept l h', h₁.forgotten l (hl.resolve_right h')]
  · intro e he
    obtain ⟨he, hlost'⟩ := h₂.cache e he
    obtain ⟨he, hlost⟩ := h₁.cache e he
    exact ⟨he, fun h => h.elim hlost hlost'⟩

theorem Retires.congr (h : Retires lost s s') (heq : ∀ l, lost l ↔ lost' l) :
    Retires lost' s s' := by
  obtain rfl : lost = lost' := funext fun l => propext (heq l)
  exact h

namespace LiveServer

theorem mem_removeLink :
    e ∈ removeLink cache linkId ↔ e ∈ cache ∧ e.linkId ≠ linkId := by
  simp [removeLink]

theorem forgetLink_retires (linkId : LinkId) (s : LiveServer σ) :
    Retires (· = linkId) s (s.forgetLink linkId) := by
  refine ⟨fun l hl => ?_, ?_, fun e he => mem_removeLink.mp he⟩
  · simp only [entry, forgetLink, LinkMap.getElem?_erase_ne _ (Ne.symm hl)]
    rfl
  · rintro l rfl
    simp only [entry, forgetLink, LinkMap.getElem?_erase_self]
    rfl

theorem retireDuplicatePeerLink_retires (linkId : LinkId) (s : LiveServer σ) :
    Retires (· = linkId) s (s.retireDuplicatePeerLink linkId) :=
  ((show SameTables s (s.closeOnTransport linkId) from rfl).retires.trans
    (forgetLink_retires linkId _)).congr fun _ => iff_of_eq (false_or _)

/-- Whatever retires each link of a list retires the list. -/
theorem retires_foldl {retire : LiveServer σ → LinkId → LiveServer σ}
    (hretire : ∀ s l, Retires (· = l) s (retire s l)) (linkIds : List LinkId) (s : LiveServer σ) :
    Retires (· ∈ linkIds) s (linkIds.foldl retire s) := by
  induction linkIds generalizing s with
  | nil => exact (SameTables.retires (SameTables.refl s)).congr fun l => by simp
  | cons linkId linkIds ih =>
    refine ((hretire s linkId).trans (ih _)).congr fun l => ?_
    simp

theorem mem_duplicateLinks :
    l ∈ s.duplicateLinks linkId peer ↔
      l ≠ linkId ∧ ∃ p, s.peers[l]? = some p ∧ p.identityHash = peer.identityHash := by
  simp only [duplicateLinks, List.mem_map, List.mem_filter, Bool.and_eq_true, bne_iff_ne, ne_eq,
    beq_iff_eq, Prod.exists, exists_and_right, exists_eq_right,
    mem_toList_iff_getElem?_eq_some]
  refine ⟨?_, ?_⟩
  · rintro ⟨p, hp, hne, hid⟩
    exact ⟨hne, p, hp, hid⟩
  · rintro ⟨hne, p, hp, hid⟩
    exact ⟨p, hp, hne, hid⟩

theorem replaceDuplicatePeerLinks_retires (linkId : LinkId) (peer : ServerPeer) (s : LiveServer σ) :
    Retires (· ∈ s.duplicateLinks linkId peer) s (s.replaceDuplicatePeerLinks linkId peer) :=
  retires_foldl (fun s l => retireDuplicatePeerLink_retires l s) _ s

theorem discardWithout_same (engine : SessionEngine σ) (identityHash : Bytes) (s : LiveServer σ) :
    SameTables s (s.discardPendingUploadsWithoutActivePeer engine identityHash) := by
  unfold discardPendingUploadsWithoutActivePeer
  split
  · rfl
  · rfl

theorem retireLink_retires (engine : SessionEngine σ) (linkId : LinkId) (s : LiveServer σ) :
    Retires (· = linkId) s (s.retireLink engine linkId) := by
  have hclosed : Retires (· = linkId) s ((s.closeOnTransport linkId).forgetLink linkId) :=
    retireDuplicatePeerLink_retires linkId s
  unfold retireLink
  split
  · exact (hclosed.trans (discardWithout_same engine _ _).retires).congr fun _ => iff_of_eq (or_false _)
  · exact hclosed

theorem expirePendingHandshakes_retires (engine : SessionEngine σ) (now : Int) (s : LiveServer σ) :
    Retires (· ∈ s.expiredHandshakes now) s (s.expirePendingHandshakes engine now) :=
  retires_foldl (fun s l => retireLink_retires engine l s) _ s

end LiveServer

/-- The links of an identity. -/
def LiveServer.linksOf (s : LiveServer σ) (identityHash : Bytes) (l : LinkId) : Prop :=
  ∃ p, s.peers[l]? = some p ∧ p.identityHash = identityHash

theorem disconnectIdentity_retires (host : Host) (engine : SessionEngine σ) (identityHash : Bytes)
    (s : LiveServer σ) :
    Retires (s.linksOf identityHash) s (disconnectIdentity host engine identityHash s).2 := by
  -- the links are forgotten, and then the rooms they were in are told
  let linkIds := (s.peers.toList.filter (fun p => p.2.identityHash == identityHash)).map (·.1)
  let left := linkIds.foldl (fun s linkId => (s.closeOnTransport linkId).forgetLink linkId)
    (s.discardPendingUploadsForIdentity engine identityHash)
  have hleft : Retires (· ∈ linkIds) s left :=
    ((show SameTables s (s.discardPendingUploadsForIdentity engine identityHash) from rfl).retires.trans
      (LiveServer.retires_foldl (fun s l => LiveServer.retireDuplicatePeerLink_retires l s)
        linkIds _)).congr fun _ => iff_of_eq (false_or _)
  have htold : SameTables left (disconnectIdentity host engine identityHash s).2 := by
    refine Act.Steps.forEach (fun roomId => ?_) _ left
    exact Act.Steps.bind
      (Act.Steps.attempt (broadcastUserlistForRoom_same host engine roomId)) fun _ =>
        Act.Steps.pure _
  refine (hleft.trans htold.retires).congr fun l => ?_
  rw [or_false]
  simp only [linkIds, LiveServer.linksOf, List.mem_map, List.mem_filter, beq_iff_eq, Prod.exists,
    exists_and_right, exists_eq_right, mem_toList_iff_getElem?_eq_some]

/-! A frame is dispatched. -/

/-- The lost links are forgotten, and the replay cache may have more only for the link the frame
came from. -/
structure Dispatched (linkId : LinkId) (lost : LinkId → Prop) (s s' : LiveServer σ) : Prop where
  kept : ∀ l, ¬lost l → s'.entry l = s.entry l
  forgotten : ∀ l, lost l → s'.entry l = (s.entry l).forgotten
  cache : ∀ e ∈ s'.replayCache, (e ∈ s.replayCache ∧ ¬lost e.linkId) ∨ e.linkId = linkId

theorem Retires.dispatched (h : Retires lost s s') (linkId : LinkId) :
    Dispatched linkId lost s s' :=
  ⟨h.kept, h.forgotten, fun e he => .inl (h.cache e he)⟩

theorem Dispatched.congr (h : Dispatched linkId lost s s') (heq : ∀ l, lost l ↔ lost' l) :
    Dispatched linkId lost' s s' := by
  obtain rfl : lost = lost' := funext fun l => propext (heq l)
  exact h

theorem Dispatched.before (h₁ : SameTables s₁ s₂) (h₂ : Dispatched linkId lost s₂ s₃) :
    Dispatched linkId lost s₁ s₃ := by
  refine ⟨fun l hl => ?_, fun l hl => ?_, fun e he => ?_⟩
  · rw [h₂.kept l hl, h₁.entry l]
  · rw [h₂.forgotten l hl, h₁.entry l]
  · rw [← h₁.replayCache]
    exact h₂.cache e he

theorem Dispatched.after (h₁ : Dispatched linkId lost s₁ s₂) (h₂ : SameTables s₂ s₃) :
    Dispatched linkId lost s₁ s₃ := by
  refine ⟨fun l hl => ?_, fun l hl => ?_, fun e he => ?_⟩
  · rw [h₂.entry l, h₁.kept l hl]
  · rw [h₂.entry l, h₁.forgotten l hl]
  · rw [h₂.replayCache] at he
    exact h₁.cache e he

/-- What a sequence does that begins by tearing links down and then only sends. -/
theorem Retires.bind {β : Type} {x : Live σ α} {f : α → Live σ β} (hx : Retires lost s (x s).2)
    (hf : ∀ a, Act.Steps SameTables (f a)) : Retires lost s ((x >>= f) s).2 := by
  rcases h : x s with ⟨r, s₁⟩
  rw [h] at hx
  cases r with
  | error e =>
    rw [bind_error h]
    exact hx
  | ok a =>
    rw [bind_ok h]
    exact (hx.trans (hf a s₁).retires).congr fun _ => iff_of_eq (or_false _)

/-- Making room only removes. -/
theorem mem_makeRoom {beyond : LinkReplayCache → Bool} {may : ReplayEntry → Bool} {n : Nat}
    {cache' : LinkReplayCache} {made : Bool}
    (hmade : LinkReplayCache.makeRoom beyond may n cache = (made, cache')) (h : e ∈ cache') :
    e ∈ cache := by
  induction n generalizing cache with
  | zero =>
    cases hmade
    exact h
  | succ n ih =>
    unfold LinkReplayCache.makeRoom at hmade
    split at hmade
    · split at hmade
      · cases hmade
        exact h
      · exact (List.mem_filter.mp (ih hmade)).1
    · cases hmade
      exact h

/-- An entry of the cache was there, or is of the link it was inserted for. -/
theorem mem_replayInsert {seq : UInt32} {request : Bytes} {origin : List Frame} {bytes : Nat}
    (h : e ∈ (insert cache linkId seq request origin bytes).2) :
    e ∈ cache ∨ e.linkId = linkId := by
  unfold LinkReplayCache.insert at h
  split at h
  · exact .inl h
  split at h
  · exact .inl h
  split at h
  · next hmade => exact .inl (mem_makeRoom hmade h)
  · next hmade =>
    split at h
    · next hagain => exact .inl (mem_makeRoom hmade (mem_makeRoom hagain h))
    · next hagain =>
      rcases List.mem_append.mp h with h | h
      · exact .inl (mem_makeRoom hmade (mem_makeRoom hagain h))
      · rw [List.mem_singleton.mp h]
        exact .inr rfl

section Dispatch
variable (host : Host) (engine : SessionEngine σ)

theorem remember_dispatched (linkId : LinkId) (seq : UInt32) (fingerprint : Option Bytes)
    (origin : List Frame) (s : LiveServer σ) :
    Dispatched linkId (fun _ => False) s (remember host linkId seq fingerprint origin s).2 := by
  unfold remember
  split
  · exact (SameTables.retires (SameTables.refl s)).dispatched linkId
  · refine ⟨fun _ _ => rfl, fun _ h => h.elim, fun e he => ?_⟩
    exact (mem_replayInsert he).imp_left fun h => ⟨h, fun h => h⟩

theorem handleNewFrame_dispatched (linkId : LinkId) (peer : ServerPeer) (frame : Frame)
    (fingerprint : Option Bytes) (active : List ServerPeer) (s : LiveServer σ) :
    Dispatched linkId (fun _ => False) s
      (handleNewFrame host engine linkId peer frame fingerprint active s).2 := by
  unfold handleNewFrame
  have hexecute := executeFrame_same engine linkId peer frame active s
  rcases h : executeFrame engine linkId peer frame active s with ⟨r, s₁⟩
  rw [h] at hexecute
  cases r with
  | error e =>
    rw [bind_error h]
    exact hexecute.retires.dispatched linkId
  | ok responses =>
    rw [bind_ok h]
    refine Dispatched.before hexecute ?_
    have hremembered := remember_dispatched host linkId frame.seq fingerprint
      (originResponses frame responses) s₁
    obtain ⟨s₂, hs₂⟩ : ∃ s₂, remember host linkId frame.seq fingerprint
        (originResponses frame responses) s₁ = (.ok (), s₂) := by
      unfold remember
      split
      · exact ⟨_, rfl⟩
      · exact ⟨_, rfl⟩
    rw [hs₂] at hremembered
    rw [bind_ok hs₂]
    refine hremembered.after ?_
    refine Act.Steps.bind (Act.Steps.attempt (deliver_same host engine linkId _ _))
      (fun sent => ?_) s₂
    refine Act.Steps.bind (Act.Steps.forEach (releaseResponseResource_same engine) _)
      fun _ => ?_
    exact Act.Steps.bind (Act.Steps.lift sent) fun _ =>
      Act.Steps.pure _

/-- The links of whom a durable mutation disconnects. -/
def LiveServer.linksOfTarget (s : LiveServer σ) (target : Option Bytes) (l : LinkId) : Prop :=
  ∃ identityHash, target = some identityHash ∧ s.linksOf identityHash l

theorem LiveServer.linksOfTarget_none (s : LiveServer σ) (l : LinkId) :
    s.linksOfTarget none l ↔ False := by
  simp [LiveServer.linksOfTarget]

theorem SameTables.retires_none (h : SameTables s s') :
    Retires (s.linksOfTarget none) s s' := h.retires.congr fun l => (s.linksOfTarget_none l).symm

theorem SameTables.linksOfTarget (h : SameTables s s') (target : Option Bytes) (l : LinkId) :
    s'.linksOfTarget target l ↔ s.linksOfTarget target l := by
  have hpeers : s'.peers = s.peers := by rw [h]
  simp only [LiveServer.linksOfTarget, LiveServer.linksOf, hpeers]

variable (target : Option Bytes)

theorem disconnectTarget_retires (s : LiveServer σ) :
    Retires (s.linksOfTarget target) s (disconnectTarget host engine target s).2 := by
  cases target with
  | none =>
    exact (SameTables.refl s).retires_none
  | some identityHash =>
    refine (disconnectIdentity_retires host engine identityHash s).congr fun l => ?_
    simp [LiveServer.linksOfTarget]

theorem disconnectTarget_ok (s : LiveServer σ) :
    (disconnectTarget host engine target s).1 = .ok () := by
  cases target with
  | none => rfl
  | some identityHash => exact forEach_ok (fun _ _ => rfl) _ _

theorem deliverDurable_retires (linkId : LinkId) (peer : ServerPeer) (frame : Frame)
    (dispatch : DurableMutationDispatch) (s : LiveServer σ) :
    Retires (s.linksOfTarget dispatch.disconnectIdentity) s
      (deliverDurable host engine linkId peer frame dispatch s).2 := by
  refine Retires.bind (disconnectTarget_retires host engine _ s) fun _ => ?_
  refine .bind (sendResponseFrame_same host engine linkId _) fun _ => ?_
  refine .bind ?_ fun _ => .pure _
  exact .forEach
    (fun broadcast => broadcastDurable_same host engine linkId peer broadcast) _

/-- The engine does not disconnect the one it serves: neither a durable mutation nor a command to
kick or ban is carried out against its own author. -/
structure SessionEngine.SparesRequester (engine : SessionEngine σ) : Prop where
  durable : ∀ peers seq roomId op clientInstanceId envelope e dispatch e',
    engine.handleDurableMutationWithActivePeers peers seq roomId op clientInstanceId envelope e =
      (.ok dispatch, e') → dispatch.disconnectIdentity ≠ some peers.peer.identityHash
  colour : ∀ peer seq clientInstanceId envelope e dispatch e',
    engine.handleDurableNicknameColour peer seq clientInstanceId envelope e = (.ok dispatch, e') →
      dispatch.disconnectIdentity ≠ some peer.identityHash
  moderation : ∀ peer frame active e identityHash e',
    engine.moderationDisconnectTargetForFrame peer frame active e = (.ok (some identityHash), e') →
      identityHash ≠ peer.identityHash

theorem onEngine_ok {x : Act σ ServerError α} {a : α} (h : onEngine x s = (.ok a, s')) :
    ∃ e', x s.engine = (.ok a, e') ∧ s' = { s with engine := e' } := by
  obtain ⟨hresult, hstate⟩ := Prod.mk.inj h
  refine ⟨(x s.engine).2, ?_, hstate.symm⟩
  rw [← hresult]

theorem executeDurable_spares (hspares : engine.SparesRequester) {binding : DurableSessionBinding}
    {envelope : DurableMutationEnvelope} {dispatch : DurableMutationDispatch}
    (h : executeDurable engine linkId peer frame active binding envelope s = (.ok dispatch, s')) :
    dispatch.disconnectIdentity ≠ some peer.identityHash := by
  unfold executeDurable at h
  split at h
  · obtain ⟨coloured, _, _, h⟩ := bind_eq_ok.mp h
    split at h
    · obtain ⟨e', he, _⟩ := onEngine_ok h
      exact hspares.colour _ _ _ _ _ _ _ he
    · split at h
      · obtain ⟨hdispatch, _⟩ := Prod.mk.inj h
        rw [← Except.ok.inj hdispatch]
        simp [durableErrorDispatch]
      · obtain ⟨hdispatch, _⟩ := Prod.mk.inj h
        rw [← Except.ok.inj hdispatch]
        simp [durableErrorDispatch]
  · obtain ⟨e', he, _⟩ := onEngine_ok h
    exact hspares.durable _ _ _ _ _ _ _ _ _ he

/-- A session is accepted with capabilities that were asked for, each with what it needs beside it, and
durable mutations for a client instance. -/
structure SessionEngine.AcceptsRequested (engine : SessionEngine σ) : Prop where
  requested : ∀ peer frame active negotiated e responses e', frame.op = .sessionOpen →
    engine.handleFrame peer frame active negotiated e = (.ok responses, e') →
      ∀ c : Capability, responsesAcceptCapability responses c.name = true →
        sessionOpenRequestsCapability frame c.name = true
  beside : ∀ peer frame active negotiated e responses e', frame.op = .sessionOpen →
    engine.handleFrame peer frame active negotiated e = (.ok responses, e') →
      ∀ c : Capability, responsesAcceptCapability responses c.name = true →
        ∀ d ∈ c.acceptedWith, responsesAcceptCapability responses d.name = true
  instanced : ∀ peer frame active negotiated e responses e', frame.op = .sessionOpen →
    engine.handleFrame peer frame active negotiated e = (.ok responses, e') →
      responsesAcceptCapability responses durableMutationCapability = true →
        (requestedDurableClientInstance frame).isSome
  attachments : ∀ peer frame active negotiated e responses e', frame.op = .sessionOpen →
    engine.handleFrame peer frame active negotiated e = (.ok responses, e') →
      responses.any (fun response => response.op == .sessionAccept) = true →
        sessionOpenRequestsCapability frame channelAttachmentCapability = true →
          responsesAcceptCapability responses channelAttachmentCapability = true

/-- What the engine makes of a durable mutation that the link may ask for. -/
def durableDispatchOf (linkId : LinkId) (peer : ServerPeer) (frame : Frame)
    (active : List ServerPeer) (s : LiveServer σ) : Option DurableMutationDispatch :=
  match DurableMutationEnvelope.fromFrameBody frame.body, durableBinding s linkId peer with
  | .ok envelope, some binding =>
    (executeDurable engine linkId peer frame active binding envelope s).1.toOption
  | _, _ => none

/-- Whom a frame disconnects while it is dispatched. -/
def frameDisconnects (linkId : LinkId) (peer : ServerPeer) (frame : Option Frame)
    (active : List ServerPeer) (s : LiveServer σ) : Option Bytes :=
  match frame with
  | some frame =>
    if isDurableMutationEnvelope frame.body then
      (durableDispatchOf engine linkId peer frame active s).bind (·.disconnectIdentity)
    else none
  | none => none

theorem durableDispatchOf_spares (hspares : engine.SparesRequester)
    {dispatch : DurableMutationDispatch}
    (h : durableDispatchOf engine linkId peer frame active s = some dispatch) :
    dispatch.disconnectIdentity ≠ some peer.identityHash := by
  unfold durableDispatchOf at h
  split at h
  · exact executeDurable_spares engine hspares (Prod.ext (Outcome.toOption_eq_some.mp h) rfl)
  · cases h

/-- Nobody is disconnected by a frame of their own. -/
theorem frameDisconnects_spares (hspares : engine.SparesRequester) (linkId : LinkId)
    (peer : ServerPeer) (frame : Option Frame) (active : List ServerPeer) (s : LiveServer σ) :
    frameDisconnects engine linkId peer frame active s ≠ some peer.identityHash := by
  cases frame with
  | none => exact nofun
  | some frame =>
    unfold frameDisconnects
    dsimp only
    split
    · intro h
      obtain ⟨dispatch, hdispatch, htarget⟩ := Option.bind_eq_some_iff.mp h
      exact durableDispatchOf_spares engine hspares hdispatch htarget
    · exact nofun

/-- How a durable mutation is handled: it is refused, or executed under the session's binding. -/
theorem handleDurableMutationFrame_cases (linkId : LinkId) (peer : ServerPeer) (frame : Frame)
    (active : List ServerPeer) (s : LiveServer σ) :
    (∃ code text, durableDispatchOf engine linkId peer frame active s = none ∧
      handleDurableMutationFrame host engine linkId peer frame active s =
        answerError host engine linkId frame code text s) ∨
    ∃ envelope binding, DurableMutationEnvelope.fromFrameBody frame.body = .ok envelope ∧
      durableBinding s linkId peer = some binding ∧
      durableDispatchOf engine linkId peer frame active s =
        (executeDurable engine linkId peer frame active binding envelope s).1.toOption ∧
      handleDurableMutationFrame host engine linkId peer frame active s =
        (executeDurable engine linkId peer frame active binding envelope >>=
          deliverDurable host engine linkId peer frame) s := by
  unfold handleDurableMutationFrame durableDispatchOf
  cases henvelope : DurableMutationEnvelope.fromFrameBody frame.body with
  | error e => exact .inl ⟨_, _, rfl, rfl⟩
  | ok envelope =>
    cases hbinding : durableBinding s linkId peer with
    | none =>
      refine .inl ⟨.durableMutationNotNegotiated,
        "durable mutations were not negotiated for this authenticated link", rfl, ?_⟩
      dsimp only
      rw [read_bind, hbinding]
    | some binding =>
      refine .inr ⟨envelope, binding, rfl, rfl, rfl, ?_⟩
      dsimp only
      rw [read_bind, hbinding]

/-- How a frame is handled that is no durable mutation: its fingerprint cannot be taken, or it is
answered from the replay cache, or refused because of it, or new. -/
theorem handleDecodedFrame_cases (hplain : isDurableMutationEnvelope frame.body = false)
    (peer : ServerPeer) (active : List ServerPeer) (s : LiveServer σ) :
    (∃ e, requestFingerprint host frame = .error e ∧
      handleDecodedFrame host engine linkId peer (some frame) active s = (.error e, s)) ∨
    ∃ fingerprint, requestFingerprint host frame = .ok fingerprint ∧
      ((∃ responses, lookupReplay s linkId frame.seq fingerprint = .hit responses ∧
        handleDecodedFrame host engine linkId peer (some frame) active s =
          (forEach (sendResponseFrame host engine linkId) responses >>= fun _ =>
            pure (FrameDispatchOutcome.default responses)) s) ∨
      (lookupReplay s linkId frame.seq fingerprint = .collision ∧
        handleDecodedFrame host engine linkId peer (some frame) active s =
          (sendResponseFrame host engine linkId (replayCollisionFrame frame.seq frame.roomId) >>=
            fun _ => pure (FrameDispatchOutcome.default
              [replayCollisionFrame frame.seq frame.roomId])) s) ∨
      (lookupReplay s linkId frame.seq fingerprint = .miss ∧
        handleDecodedFrame host engine linkId peer (some frame) active s =
          handleNewFrame host engine linkId peer frame fingerprint active s)) := by
  unfold handleDecodedFrame
  simp only [hplain, Bool.false_eq_true, if_false]
  cases hfingerprint : requestFingerprint host frame with
  | error e => exact .inl ⟨e, rfl, rfl⟩
  | ok fingerprint =>
    refine .inr ⟨fingerprint, rfl, ?_⟩
    cases hlookup : lookupReplay s linkId frame.seq fingerprint with
    | hit responses =>
      refine .inl ⟨responses, rfl, ?_⟩
      rw [lift_bind, read_bind, hlookup]
    | collision =>
      refine .inr (.inl ⟨rfl, ?_⟩)
      rw [lift_bind, read_bind, hlookup]
    | miss =>
      refine .inr (.inr ⟨rfl, ?_⟩)
      rw [lift_bind, read_bind, hlookup]

theorem handleDecodedFrame_durable (hdurable : isDurableMutationEnvelope frame.body = true)
    (linkId : LinkId) (peer : ServerPeer) (active : List ServerPeer) :
    handleDecodedFrame host engine linkId peer (some frame) active =
      handleDurableMutationFrame host engine linkId peer frame active := by
  simp only [handleDecodedFrame, hdurable, if_true]

theorem handleDurableMutationFrame_dispatched (linkId : LinkId) (peer : ServerPeer) (frame : Frame)
    (active : List ServerPeer) (s : LiveServer σ) :
    Retires (s.linksOfTarget ((durableDispatchOf engine linkId peer frame active s).bind
        (·.disconnectIdentity))) s
      (handleDurableMutationFrame host engine linkId peer frame active s).2 := by
  rcases handleDurableMutationFrame_cases host engine linkId peer frame active s with
    ⟨code, text, hnone, hrun⟩ | ⟨envelope, binding, _, _, hresult, hrun⟩
  · rw [hrun, hnone]
    exact (answerError_same host engine linkId frame _ _ s).retires_none
  · rw [hrun, hresult]
    have hsame := executeDurable_same engine linkId peer frame active binding envelope s
    rcases h : executeDurable engine linkId peer frame active binding envelope s with ⟨r, s₁⟩
    rw [h] at hsame
    cases r with
    | error e =>
      rw [bind_error h]
      exact hsame.retires_none
    | ok dispatch =>
      rw [bind_ok h]
      have hretires := hsame.retires.trans
        (deliverDurable_retires host engine linkId peer frame dispatch s₁)
      refine hretires.congr fun l => ?_
      rw [false_or]
      exact hsame.linksOfTarget _ l

theorem handleDecodedFrame_dispatched (linkId : LinkId) (peer : ServerPeer) (frame : Option Frame)
    (active : List ServerPeer) (s : LiveServer σ) :
    Dispatched linkId (s.linksOfTarget (frameDisconnects engine linkId peer frame active s)) s
      (handleDecodedFrame host engine linkId peer frame active s).2 := by
  cases frame with
  | none => exact (SameTables.refl s).retires_none.dispatched linkId
  | some frame =>
    cases hplain : isDurableMutationEnvelope frame.body with
    | true =>
      rw [handleDecodedFrame_durable host engine hplain]
      simp only [frameDisconnects, hplain, if_true]
      exact (handleDurableMutationFrame_dispatched host engine linkId peer frame active s).dispatched
        linkId
    | false =>
      simp only [frameDisconnects, hplain, Bool.false_eq_true, if_false]
      rcases handleDecodedFrame_cases host engine hplain peer active s with
        ⟨e, _, hrun⟩ | ⟨fingerprint, _, ⟨responses, _, hrun⟩ | ⟨_, hrun⟩ | ⟨_, hrun⟩⟩
      · rw [hrun]
        exact (SameTables.refl s).retires_none.dispatched linkId
      · rw [hrun]
        refine SameTables.retires_none ?_ |>.dispatched linkId
        refine Act.Steps.bind ?_ (fun _ => Act.Steps.pure _) s
        exact Act.Steps.forEach
          (fun response => sendResponseFrame_same host engine linkId response) _
      · rw [hrun]
        refine SameTables.retires_none ?_ |>.dispatched linkId
        exact Act.Steps.bind (sendResponseFrame_same host engine linkId _)
          (fun _ => Act.Steps.pure _) s
      · rw [hrun]
        refine (handleNewFrame_dispatched host engine linkId peer frame fingerprint active s).congr
          fun l => ?_
        exact (s.linksOfTarget_none l).symm

section
variable (h : handleDecodedFrame host engine linkId peer (some frame) active s = (.ok dispatch, s'))
include h

/-- A dispatch reports nothing, or that a durable part succeeded, or what the engine has answered. -/
theorem handleDecodedFrame_ok : (∃ answers, dispatch = .default answers) ∨
    dispatch.sessionAccepted = false ∧ dispatch.moderationDisconnectSucceeded = false ∧
      (dispatch.partSucceeded = true → frame.op = .partRoom) ∨
    ∃ responses s₁, executeFrame engine linkId peer frame active s = (.ok responses, s₁) ∧
      dispatch = dispatchOutcome frame responses (originResponses frame responses) := by
  have hdefault (answers : List Frame)
      (heq : Except.ok (ε := ServerError) (FrameDispatchOutcome.default answers) = .ok dispatch) :
      ∃ answers, dispatch = .default answers := ⟨answers, (Except.ok.inj heq).symm⟩
  cases hplain : isDurableMutationEnvelope frame.body with
  | true =>
    rw [handleDecodedFrame_durable host engine hplain] at h
    rcases handleDurableMutationFrame_cases host engine linkId peer frame active s with
      ⟨code, text, _, hrun⟩ | ⟨envelope, binding, _, _, _, hrun⟩
    · rw [hrun] at h
      obtain ⟨_, _, _, h⟩ := bind_eq_ok.mp h
      exact .inl (hdefault _ (Prod.mk.inj h).1)
    · rw [hrun] at h
      obtain ⟨result, _, _, h⟩ := bind_eq_ok.mp h
      obtain ⟨_, _, _, h⟩ := bind_eq_ok.mp h
      obtain ⟨_, _, _, h⟩ := bind_eq_ok.mp h
      obtain ⟨_, _, _, h⟩ := bind_eq_ok.mp h
      cases h
      exact .inr (.inl ⟨rfl, rfl, fun hpart => beq_iff_eq.mp (Bool.and_eq_true_iff.mp hpart).1⟩)
  | false =>
    rcases handleDecodedFrame_cases host engine hplain peer active s with
      ⟨e, _, hrun⟩ | ⟨fingerprint, _, ⟨responses, _, hrun⟩ | ⟨_, hrun⟩ | ⟨_, hrun⟩⟩
    · rw [hrun] at h
      cases h
    · rw [hrun] at h
      obtain ⟨_, _, _, h⟩ := bind_eq_ok.mp h
      exact .inl (hdefault _ (Prod.mk.inj h).1)
    · rw [hrun] at h
      obtain ⟨_, _, _, h⟩ := bind_eq_ok.mp h
      exact .inl (hdefault _ (Prod.mk.inj h).1)
    · rw [hrun] at h
      obtain ⟨responses, s₁, hexecute, h⟩ := bind_eq_ok.mp h
      obtain ⟨_, _, _, h⟩ := bind_eq_ok.mp h
      obtain ⟨_, _, _, h⟩ := bind_eq_ok.mp h
      obtain ⟨_, _, _, h⟩ := bind_eq_ok.mp h
      obtain ⟨_, _, _, h⟩ := bind_eq_ok.mp h
      exact .inr (.inr ⟨responses, s₁, hexecute, (Except.ok.inj (Prod.mk.inj h).1).symm⟩)

/-- What a dispatch may report is of its request's kind. -/
theorem handleDecodedFrame_outcome : (dispatch.sessionAccepted = true → frame.op = .sessionOpen) ∧
    (dispatch.moderationDisconnectSucceeded = true → frame.op = .command) ∧
    (dispatch.partSucceeded = true → frame.op = .partRoom) := by
  obtain ⟨answers, rfl⟩ | ⟨hsession, hmoderation, hpart⟩ | ⟨responses, _, _, rfl⟩ :=
    handleDecodedFrame_ok host engine h
  · simp [FrameDispatchOutcome.default]
  · rw [hsession, hmoderation]
    exact ⟨nofun, nofun, hpart⟩
  · refine ⟨fun hopen => ?_, fun hcommand => ?_, fun hpart => ?_⟩
    · exact beq_iff_eq.mp (Bool.and_eq_true_iff.mp hopen).1
    · exact beq_iff_eq.mp (Bool.and_eq_true_iff.mp hcommand).1
    · exact beq_iff_eq.mp (Bool.and_eq_true_iff.mp hpart).1

end

/-- The answers to most requests are the engine's. -/
theorem originResponses_eq (hmessage : frame.op ≠ .roomMessage) (haction : frame.op ≠ .roomAction)
    (responses : List Frame) : originResponses frame responses = responses := by
  unfold originResponses
  have hsplit (response : Frame) : (splitResponse frame.op frame.seq response).1 = [response] := by
    unfold splitResponse
    rw [if_neg fun h => h.1.elim hmessage haction]
  simp only [hsplit, List.flatMap_singleton']

theorem appendSnapshot_inactive {kind : SnapshotKind} (h : kind.follows frame.op = false)
    (linkId : LinkId) (peer : ServerPeer) (responses : List Frame) :
    appendSnapshot engine kind linkId peer frame responses = pure responses := by
  funext s
  unfold appendSnapshot
  rw [read_bind, h, Bool.and_false]
  rfl

theorem appendUserId_inactive (h : frame.op ≠ .joinRoom) (linkId : LinkId) (peer : ServerPeer)
    (responses : List Frame) :
    appendUserId engine linkId peer frame responses = pure responses := by
  funext s
  unfold appendUserId
  rw [read_bind, beq_eq_false_iff_ne.mpr h, Bool.false_and]
  rfl

/-- Nothing is appended to the answers of a request that does not ask for history. -/
theorem appendExtensions_none (hjoin : frame.op ≠ .joinRoom) (hrecent : frame.op ≠ .historyRecent)
    (hbefore : frame.op ≠ .historyBefore) (linkId : LinkId) (peer : ServerPeer)
    (responses : List Frame) :
    appendExtensions engine linkId peer frame responses = pure responses := by
  have hfollows (kind : SnapshotKind) : kind.follows frame.op = false := by
    unfold SnapshotKind.follows
    split
    · contradiction
    · contradiction
    · contradiction
    · rfl
  funext s
  unfold appendExtensions
  rw [appendUserId_inactive engine hjoin, pure_bind, appendSnapshot_inactive engine (hfollows _),
    pure_bind, appendSnapshot_inactive engine (hfollows _), pure_bind,
    appendSnapshot_inactive engine (hfollows _)]

/-- A session that is reported accepted was accepted by the engine, in its answer to the frame. -/
theorem handleDecodedFrame_accepted
    (h : handleDecodedFrame host engine linkId peer (some frame) active s = (.ok dispatch, s'))
    (haccepted : dispatch.sessionAccepted = true) :
    ∃ features e', engine.handleFrame peer frame active features s.engine = (.ok dispatch.answers, e') ∧
      dispatch = dispatchOutcome frame dispatch.answers dispatch.answers := by
  have hop := (handleDecodedFrame_outcome host engine h).1 haccepted
  obtain ⟨answers, rfl⟩ | ⟨hsession, _⟩ | ⟨responses, s₁, hexecute, rfl⟩ :=
    handleDecodedFrame_ok host engine h
  · cases haccepted
  · exact absurd (hsession.symm.trans haccepted) Bool.false_ne_true
  · rw [originResponses_eq (by rw [hop]; exact nofun) (by rw [hop]; exact nofun)]
    -- neither the user id nor a snapshot is appended to a session's answers
    obtain ⟨features, s₂, hfeatures, hexecute⟩ := bind_eq_ok.mp hexecute
    obtain ⟨answered, s₃, hengine, hexecute⟩ := bind_eq_ok.mp hexecute
    rw [appendExtensions_none engine (by rw [hop]; exact nofun) (by rw [hop]; exact nofun)
      (by rw [hop]; exact nofun)] at hexecute
    cases hexecute
    obtain ⟨e', he, _⟩ := onEngine_ok hengine
    obtain rfl := (Prod.mk.inj hfeatures).2
    exact ⟨features, e', he, rfl⟩

theorem withName_identityHash {named : ServerPeer} {name : Option String}
    (h : withName peer name = some named) : named.identityHash = peer.identityHash := by
  cases name with
  | none =>
    cases h
    rfl
  | some name =>
    obtain ⟨cleaned, _, rfl⟩ := Option.map_eq_some_iff.mp h
    rfl

theorem withAddress_identityHash (peer : ServerPeer) (lxmf : Option String) :
    (withAddress peer lxmf).identityHash = peer.identityHash := by
  cases lxmf with
  | none => rfl
  | some lxmf =>
    simp only [withAddress]
    split
    · rfl
    · rfl

/-- A session-open frame names its peer; it does not say who the peer is. -/
theorem peerFromSessionOpen_identityHash {candidate : ServerPeer}
    (h : peerFromSessionOpen peer frame = some candidate) :
    candidate.identityHash = peer.identityHash := by
  unfold peerFromSessionOpen at h
  split at h
  · cases h
  · split at h
    · cases h
    · split at h
      · exact withName_identityHash h
      · obtain ⟨named, hnamed, h⟩ := Option.bind_eq_some_iff.mp h
        cases h
        rw [withAddress_identityHash, withName_identityHash hnamed]
      · cases h

theorem candidatePeer_identityHash (peer : ServerPeer) (frame : Option Frame) :
    (candidatePeer peer frame).identityHash = peer.identityHash := by
  cases frame with
  | none => rfl
  | some frame =>
    cases hcandidate : peerFromSessionOpen peer frame with
    | none =>
      show ((peerFromSessionOpen peer frame).getD peer).identityHash = _
      rw [hcandidate]
      rfl
    | some candidate =>
      show ((peerFromSessionOpen peer frame).getD peer).identityHash = _
      rw [hcandidate]
      exact peerFromSessionOpen_identityHash hcandidate

/-! A packet is counted, the target of a kick or ban is looked up, and the frame is handled. -/

section
variable (linkId : LinkId) (peer : ServerPeer) (frame : Option Frame) (size : Nat)
  (s : LiveServer σ)

def packetActive : List ServerPeer :=
  activeRoomPeers (s.recordTraffic linkId size (frame.map (·.op))) linkId (candidatePeer peer frame)
    frame

/-- The look-up of the target, and the state the frame is handled in. -/
def packetLookup : Except ServerError (Option Bytes) × LiveServer σ :=
  moderationTarget engine (candidatePeer peer frame) frame (packetActive linkId peer frame size s)
    (s.recordTraffic linkId size (frame.map (·.op)))

def packetTarget : Option Bytes :=
  (packetLookup engine linkId peer frame size s).1.toOption.bind id

def packetState : LiveServer σ := (packetLookup engine linkId peer frame size s).2

theorem packetLookup_eq : packetLookup engine linkId peer frame size s =
      (.ok (packetTarget engine linkId peer frame size s),
        packetState engine linkId peer frame size s) := by
  cases frame with
  | none | some => rfl

theorem packetState_same : SameTables (s.recordTraffic linkId size (frame.map (·.op)))
      (packetState engine linkId peer frame size s) := by
  cases frame with
  | none => exact SameTables.refl _
  | some frame => exact onEngine_same _ _

theorem dispatchPacket_eq : dispatchPacket host engine linkId peer frame size s =
      ((handleDecodedFrame host engine linkId (candidatePeer peer frame) frame
          (packetActive linkId peer frame size s)
          (packetState engine linkId peer frame size s)).1.map
            (fun dispatch => (packetTarget engine linkId peer frame size s, dispatch)),
        (handleDecodedFrame host engine linkId (candidatePeer peer frame) frame
          (packetActive linkId peer frame size s) (packetState engine linkId peer frame size s)).2) := by
  unfold dispatchPacket
  rw [modify_bind, read_bind]
  refine (bind_ok (packetLookup_eq engine linkId peer frame size s)).trans ?_
  exact bind_pure _ _ _

/-- Whom the dispatch of a packet disconnects. -/
def packetDisconnects : Option Bytes :=
  frameDisconnects engine linkId (candidatePeer peer frame) frame (packetActive linkId peer frame size s)
    (packetState engine linkId peer frame size s)

theorem dispatchPacket_dispatched :
    Dispatched linkId (s.linksOfTarget (packetDisconnects engine linkId peer frame size s))
      (s.recordTraffic linkId size (frame.map (·.op)))
      (dispatchPacket host engine linkId peer frame size s).2 := by
  have hsame := packetState_same engine linkId peer frame size s
  rw [dispatchPacket_eq]
  refine Dispatched.before hsame ((handleDecodedFrame_dispatched host engine linkId _ frame _ _).congr
    fun l => ?_)
  exact hsame.linksOfTarget _ l

end

theorem dispatchPacket_outcome {size : Nat} {target : Option Bytes}
    (h : (dispatchPacket host engine linkId peer (some frame) size s).1 = .ok (target, dispatch)) :
    (dispatch.sessionAccepted = true → frame.op = .sessionOpen) ∧
    (dispatch.moderationDisconnectSucceeded = true → frame.op = .command) ∧
    (dispatch.partSucceeded = true → frame.op = .partRoom) := by
  rw [dispatchPacket_eq] at h
  obtain ⟨dispatch', hresult, heq⟩ := Outcome.map_ok.mp h
  cases heq
  exact handleDecodedFrame_outcome host engine (Prod.ext hresult rfl)

/-- The link a packet is from keeps its entry, up to the traffic, while the packet is dispatched. -/
theorem dispatchPacket_keeps (hspares : engine.SparesRequester)
    (hpeer : s.peers[linkId]? = some peer) (frame : Option Frame) (size : Nat) :
    (dispatchPacket host engine linkId peer frame size s).2.entry linkId =
      (s.recordTraffic linkId size (frame.map (·.op))).entry linkId := by
  refine (dispatchPacket_dispatched host engine linkId peer frame size s).kept linkId ?_
  rintro ⟨identityHash, htarget, p, hp, hid⟩
  cases hp.symm.trans hpeer
  refine frameDisconnects_spares engine hspares _ _ _ _ _ (htarget.trans ?_)
  rw [candidatePeer_identityHash, hid]

theorem subscribe_ok (linkId : LinkId) (roomId : Option UInt32) (s : LiveServer σ) :
    (subscribe linkId roomId s).1 = .ok () := by
  cases roomId with
  | none | some => rfl

/-- What follows a dispatch: a session that is accepted, a disconnect, a room that is joined, one that
is left. -/
theorem settleDispatch_steps (linkId : LinkId) (peer candidate : ServerPeer) (frame : Option Frame)
    (target : Option Bytes) (dispatch : FrameDispatchOutcome) (s : LiveServer σ) :
    settleDispatch host engine linkId peer candidate frame target dispatch s =
      unsubscribe host engine linkId
          (if dispatch.partSucceeded then frame.bind partedRoomIdFromFrame else none)
        (subscribe linkId (frame.bind joinedRoomIdFromFrame)
          (disconnectTarget host engine
            (if dispatch.moderationDisconnectSucceeded then target else none)
            (if dispatch.sessionAccepted then s.acceptSession linkId peer candidate dispatch
              else s)).2).2 := by
  unfold settleDispatch
  rw [modify_bind]
  refine (bind_ok (Prod.ext (disconnectTarget_ok host engine _ _) rfl)).trans ?_
  exact bind_ok (Prod.ext (subscribe_ok linkId _ _) rfl)

/-- What becomes of a packet that arrives: it is of a peer, or opens its link, or is dropped. Its
context may have been noted first. -/
theorem arrive_cases (linkId : LinkId) (context : UInt8) (frame : Option Frame) (now : Int)
    (s : LiveServer σ) :
    ∃ noted : LiveServer σ,
      (noted = s ∨ (frame.isSome ∧ context ≠ 0 ∧ noted = s.noteContext linkId context)) ∧
      ((∃ peer, s.peers[linkId]? = some peer ∧
          arrive linkId context frame now s = (some peer, noted)) ∨
        ((s.peers[linkId]? = none ∧ s.admits = true) ∧ arrive linkId context frame now s =
          (some (provisionalPeer linkId), noted.openLink linkId (provisionalPeer linkId) now)) ∨
        ∃ s', SameTables noted s' ∧ arrive linkId context frame now s = (none, s') ∧
          (noted = s ∨ (s.peers[linkId]? = none ∧
            ¬(frame.any (fun frame => frame.op == .sessionOpen) = true ∧ s.admits = true)))) := by
  unfold arrive
  split
  · exact ⟨s, .inl rfl, .inr (.inr ⟨s, SameTables.refl s, rfl, .inl rfl⟩)⟩
  · refine ⟨if frame.isSome ∧ context ≠ 0 then s.noteContext linkId context else s, ?_, ?_⟩
    · split
      · next h => exact .inr ⟨h.1, h.2, rfl⟩
      · exact .inl rfl
    · have hpeers : (if frame.isSome ∧ context ≠ 0 then s.noteContext linkId context else s).peers =
          s.peers := by
        split
        · rfl
        · rfl
      have hadmits : (if frame.isSome ∧ context ≠ 0 then s.noteContext linkId context else s).admits =
          s.admits := by
        split
        · rfl
        · rfl
      generalize (if frame.isSome ∧ context ≠ 0 then s.noteContext linkId context else s) = noted at *
      -- noting the context changes neither who is a peer nor who is let in
      rw [← hpeers, ← hadmits]
      cases hpeer : noted.peers[linkId]? with
      | some peer => exact .inl ⟨peer, rfl, by dsimp only; rw [hpeer]⟩
      | none =>
        dsimp only
        rw [hpeer]
        dsimp only
        split
        · next hopen =>
          split
          · next hadmits => exact .inr (.inl ⟨⟨rfl, hadmits⟩, rfl⟩)
          · next hfull =>
            refine .inr (.inr ⟨noted.closeOnTransport linkId, rfl, rfl, .inr ⟨rfl, fun h => hfull h.2⟩⟩)
        · next hopen =>
          exact .inr (.inr ⟨noted, SameTables.refl noted, rfl, .inr ⟨rfl, fun h => hopen h.1⟩⟩)

section
variable {frame : Option Frame} {now : Int}

/-- A packet is of a link that is in the table of peers when it is handled. -/
theorem arrive_peer (h : arrive linkId context frame now s = (some peer, s')) :
    s'.peers[linkId]? = some peer := by
  obtain ⟨noted, hnoted, ⟨p, hp, harrive⟩ | ⟨_, harrive⟩ | ⟨_, _, harrive, _⟩⟩ :=
    arrive_cases linkId context frame now s
  · obtain ⟨hpeer, rfl⟩ := Prod.mk.inj (harrive.symm.trans h)
    rw [← hpeer, ← hp]
    rcases hnoted with rfl | ⟨_, _, rfl⟩
    · rfl
    · rfl
  · obtain ⟨hpeer, rfl⟩ := Prod.mk.inj (harrive.symm.trans h)
    rw [← hpeer]
    exact LinkMap.getElem?_insert_self _ _ _
  · cases harrive.symm.trans h

/-- A packet of nobody is dropped. -/
theorem linkData_unknown (h : arrive linkId context frame now s = (none, s')) (size : Nat) :
    liveStep host engine s (.linkData linkId context frame size now) = (.ok (), s') ∧
      dispatchOf host engine s (.linkData linkId context frame size now) = none := by
  refine ⟨?_, ?_⟩
  · show handleLinkData host engine linkId context frame size now s = _
    rw [handleLinkData, h]
  · rw [dispatchOf, h]

/-- A packet of a peer is handled. -/
theorem linkData_known (h : arrive linkId context frame now s = (some peer, s')) (size : Nat) :
    liveStep host engine s (.linkData linkId context frame size now) =
        handlePacket host engine linkId peer frame size s' ∧
      dispatchOf host engine s (.linkData linkId context frame size now) =
        (dispatchPacket host engine linkId peer frame size s').1.toOption.map (·.2) := by
  refine ⟨?_, ?_⟩
  · show handleLinkData host engine linkId context frame size now s = _
    rw [handleLinkData, h]
  · rw [dispatchOf, h]

end

/-! The other events. -/

section
variable (linkId : LinkId)

variable (change : StageChange)

theorem applyStage_same (e : σ) (s : LiveServer σ) :
    SameTables (s.applyStage linkId change) (LiveServer.applyStage linkId change { s with engine := e }) := by
  cases change with
  | keep | start | drop => rfl

theorem LiveServer.applyStage_cache (s : LiveServer σ) :
    (s.applyStage linkId change).replayCache = s.replayCache := by
  cases change with
  | keep | start | drop => rfl

/-- An attachment frame of a known link may stage an upload of the link. -/
theorem handleChannelAttachmentData_same (data : Bytes) (s : LiveServer σ) :
    ∃ change, SameTables (s.applyStage linkId change)
        (handleChannelAttachmentData host engine linkId data s).2 ∧
      (s.peers[linkId]? = none → change = .keep) := by
  unfold handleChannelAttachmentData
  rw [read_bind]
  cases hpeer : s.peers[linkId]? with
  | none => exact ⟨.keep, SameTables.refl s, fun _ => rfl⟩
  | some peer =>
    dsimp only
    rw [read_bind]
    cases boundTo s.channelAttachmentLinks linkId peer with
    | false => exact ⟨.keep, SameTables.refl s, fun _ => rfl⟩
    | true =>
      simp only [if_true]
      rw [read_bind, read_bind, modify_bind]
      generalize engine.channelUpload linkId peer data _ s.channelUploads s.engine = handled
      refine ⟨handled.1.2, ?_, fun h => by cases h⟩
      refine SameTables.trans _ _ _ (applyStage_same linkId handled.1.2 handled.2 s) ?_
      refine Act.Steps.bind (Act.Steps.lift _) (fun responses => ?_) _
      refine Act.Steps.forEach (fun response => ?_) _
      refine Act.Steps.bind (sendResponseFrame_same host engine linkId response)
        fun _ => ?_
      refine Act.Steps.bind (broadcastRoomEvent_same host engine linkId response)
        fun _ => ?_
      exact releaseResponseResource_same engine response

theorem handleResourceReceived_same (resourceId : Option String) (data : Bytes) :
    Act.Steps SameTables (handleResourceReceived host engine linkId resourceId data) := by
  refine .bind (.read _) fun known => ?_
  split
  · refine .bind (.read _) fun media => ?_
    refine .bind (onEngine_same _) fun responses => ?_
    refine .bind (.attempt ?_) fun sent => ?_
    · refine .forEach (fun response => ?_) _
      exact .bind (sendResponseFrame_same host engine linkId response)
        fun _ => broadcastRoomEvent_same host engine linkId response
    · refine .bind ?_ fun _ => .lift sent
      exact .forEach (releaseResponseResource_same engine) _
  · exact .pure _

theorem handleResourceTerminal_same (direction : ResourceDirection)
    (outcome : ResourceOutcome) (expectedSize : Option UInt64) (s : LiveServer σ) :
    SameTables s (handleResourceTerminal engine linkId direction outcome expectedSize s) := by
  unfold handleResourceTerminal
  split
  · split
    · rfl
    · rfl
  · rfl

/-- A link that is closed is gone, and the room it was in is told. -/
theorem handleLinkClosed_same (s : LiveServer σ) :
    SameTables (closeLink engine linkId s) (handleLinkClosed host engine linkId s).2 := by
  unfold handleLinkClosed
  rw [read_bind, modify_bind]
  cases s.linkRooms[linkId]? with
  | none => exact SameTables.refl _
  | some roomId => exact broadcastUserlistForRoom_same host engine roomId _

end

end Dispatch

/-- Two links and their peers, for runs on given inputs. -/
def firstLink : LinkId := Vector.replicate 16 1
def secondLink : LinkId := Vector.replicate 16 2
def firstPeer : ServerPeer := ⟨List.replicate 16 17, "ann", none⟩
def secondPeer : ServerPeer := ⟨List.replicate 16 34, "bob", none⟩

end Omen.Server
