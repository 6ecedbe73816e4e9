import OmenBrowser.Server.LiveTables

/- A relation that every step of the live server is part of.

   `Walk R` says that `R` is a preorder in which the server may do what it does outside its
   engine's requests: change its tables and its transport, forget a link, discard uploads that
   are pending, and send a room its users. What the server does around the dispatch of a frame
   is then in `R`, and a step is if the dispatch, or the upload, is. -/
namespace Omen.Server
open Wire Omen.Protocol

variable {σ : Type}
  {s : LiveServer σ}

/-- Neither the engine nor the replay cache is touched. -/
structure Standing (s s' : LiveServer σ) : Prop where
  engine : s'.engine = s.engine
  replayCache : s'.replayCache = s.replayCache

theorem Standing.refl (s : LiveServer σ) : Standing s s := ⟨rfl, rfl⟩

theorem Standing.trans (s₁ s₂ s₃ : LiveServer σ) (h₁ : Standing s₁ s₂) (h₂ : Standing s₂ s₃) :
    Standing s₁ s₃ :=
  ⟨h₂.engine.trans h₁.engine, h₂.replayCache.trans h₁.replayCache⟩

instance : IsPreorder (LiveServer σ) Standing where
  refl := Standing.refl
  trans := Standing.trans

section Sends
variable (host : Host) (engine : SessionEngine σ)

variable (linkId : LinkId)

theorem sendResponseFrame_aside (frame : Frame) :
    Act.Steps Standing (sendResponseFrame host engine linkId frame) := by
  refine .bind (.read _) fun s => ?_
  refine .bind (.lift _) fun outgoing => ?_
  exact fun s => ⟨rfl, rfl⟩

theorem sendToEach_aside (response : Frame) (linkIds : List LinkId) :
    Act.Steps Standing (sendToEach host engine response linkIds) :=
  .forEach (fun linkId => sendResponseFrame_aside host engine linkId response) linkIds

theorem broadcastDurable_aside (origin : LinkId) (actor : ServerPeer) (broadcast : Frame) :
    Act.Steps Standing (broadcastDurable host engine origin actor broadcast) := by
  refine .bind (.read _) fun s => ?_
  refine .bind (.lift _) fun targets => ?_
  exact sendToEach_aside host engine broadcast targets

end Sends

theorem branch {R : LiveServer σ → LiveServer σ → Prop} {c : Prop} [Decidable c]
    {x y : LiveServer σ} (hx : R s x) (hy : R s y) : R s (if c then x else y) := by
  split
  · exact hx
  · exact hy

theorem arrive_aside (linkId : LinkId) (context : UInt8) (frame : Option Frame) (now : Int)
    (s : LiveServer σ) : Standing s (arrive linkId context frame now s).2 := by
  unfold arrive
  split
  · exact .refl s
  · have hnoted : Standing s (if frame.isSome ∧ context ≠ 0 then s.noteContext linkId context else s) :=
      branch ⟨rfl, rfl⟩ (.refl s)
    generalize (if frame.isSome ∧ context ≠ 0 then s.noteContext linkId context else s) = noted at *
    cases hpeer : noted.peers[linkId]? with
    | some peer =>
      dsimp only
      rw [hpeer]
      exact hnoted
    | none =>
      dsimp only
      rw [hpeer]
      dsimp only
      split
      · split
        · exact ⟨hnoted.engine, hnoted.replayCache⟩
        · exact ⟨hnoted.engine, hnoted.replayCache⟩
      · exact hnoted

structure Walk (host : Host) (engine : SessionEngine σ) (R : LiveServer σ → LiveServer σ → Prop) :
    Prop where
  refl : ∀ s, R s s
  trans : ∀ s₁ s₂ s₃, R s₁ s₂ → R s₂ s₃ → R s₁ s₃
  aside : ∀ s s', Standing s s' → R s s'
  forget : ∀ linkId s, R s (s.forgetLink linkId)
  discard : ∀ identityHash s, R s (s.discardPendingUploadsForIdentity engine identityHash)
  userlist : ∀ roomId, Act.Steps R (broadcastUserlistForRoom host engine roomId)

namespace Walk
variable {host : Host} {engine : SessionEngine σ} {R : LiveServer σ → LiveServer σ → Prop}
  {α : Type}

variable (h : Walk host engine R)
include h

theorem preorder : IsPreorder (LiveServer σ) R where
  refl := h.refl
  trans := h.trans

theorem touch {s' : LiveServer σ} (hengine : s'.engine = s.engine)
    (hcache : s'.replayCache = s.replayCache) : R s s' := h.aside s s' ⟨hengine, hcache⟩

/-- What is only sent is aside. -/
theorem sends {x : Live σ α} (hx : Act.Steps Standing x) : Act.Steps R x :=
  fun s => h.aside s _ (hx s)

/-! Links that go. -/

theorem foldl {retire : LiveServer σ → LinkId → LiveServer σ}
    (hretire : ∀ s linkId, R s (retire s linkId)) (linkIds : List LinkId) (s : LiveServer σ) :
    R s (linkIds.foldl retire s) := by
  induction linkIds generalizing s with
  | nil => exact h.refl s
  | cons linkId linkIds ih => exact h.trans _ _ _ (hretire s linkId) (ih _)

theorem closeForget (linkId : LinkId) (s : LiveServer σ) :
    R s ((s.closeOnTransport linkId).forgetLink linkId) :=
  h.trans s (s.closeOnTransport linkId) _ (h.touch rfl rfl) (h.forget linkId _)

theorem replaceDuplicatePeerLinks (linkId : LinkId) (peer : ServerPeer)
    (s : LiveServer σ) : R s (s.replaceDuplicatePeerLinks linkId peer) :=
  h.foldl (fun s linkId => h.closeForget linkId s) _ s

theorem discardWithout (identityHash : Bytes) (s : LiveServer σ) :
    R s (s.discardPendingUploadsWithoutActivePeer engine identityHash) :=
  branch (h.refl s) (h.discard identityHash s)

theorem retireLink (linkId : LinkId) (s : LiveServer σ) :
    R s (s.retireLink engine linkId) := by
  unfold LiveServer.retireLink
  split
  · exact h.trans _ _ _ (h.closeForget linkId s) (h.discardWithout _ _)
  · exact h.closeForget linkId s

theorem expirePendingHandshakes (now : Int) (s : LiveServer σ) :
    R s (s.expirePendingHandshakes engine now) :=
  h.foldl (fun s linkId => h.retireLink linkId s) _ s

theorem disconnectIdentity (identityHash : Bytes) :
    Act.Steps R (disconnectIdentity host engine identityHash) := by
  have := h.preorder
  refine .bind (.read _) fun linkIds => ?_
  refine .bind (.read _) fun affectedRooms => ?_
  refine .bind (.modify (h.discard identityHash)) fun _ => ?_
  refine .bind
    (.modify (h.foldl (fun s linkId => h.closeForget linkId s) linkIds)) fun _ => ?_
  refine .forEach (fun roomId => ?_) _
  exact .bind (.attempt (h.userlist roomId))
    fun _ => .pure _

theorem disconnectTarget (target : Option Bytes) :
    Act.Steps R (disconnectTarget host engine target) := by
  have := h.preorder
  cases target with
  | none => exact .pure _
  | some identityHash => exact h.disconnectIdentity identityHash

section
variable (linkId : LinkId)

theorem deliverDurable (peer : ServerPeer) (frame : Frame) (dispatch : DurableMutationDispatch) :
    Act.Steps R (deliverDurable host engine linkId peer frame dispatch) := by
  have := h.preorder
  refine .bind (h.disconnectTarget dispatch.disconnectIdentity) fun _ => ?_
  refine .bind
    (h.sends (sendResponseFrame_aside host engine linkId dispatch.origin)) fun _ => ?_
  refine .bind (.forEach
    (fun news => h.sends (broadcastDurable_aside host engine linkId peer news)) _) fun _ => ?_
  exact .pure _

theorem closeLink (s : LiveServer σ) : R s (closeLink engine linkId s) := by
  unfold Omen.Server.closeLink
  split
  · next peer _ =>
    have hclosed := h.trans _ _ _ (h.forget linkId s) (h.discardWithout peer.identityHash _)
    exact h.trans _ _ _ hclosed (h.touch rfl rfl)
  · exact h.trans _ _ _ (h.forget linkId s) (h.touch rfl rfl)

/-! Links that come, and sessions. -/

theorem identify (identityHash : Bytes)
    (s : LiveServer σ) : R s (s.identify linkId identityHash) := by
  unfold LiveServer.identify
  split
  · exact h.refl s
  · next existing _ =>
    generalize hcurrent : (if existing.identityHash = identityHash then s
      else s.changeIdentity linkId) = current
    have hchanged : R s current := by
      rw [← hcurrent]
      exact branch (h.refl s) (h.touch rfl rfl)
    have hmarked := h.trans s current (current.markIdentified linkId) hchanged (h.touch rfl rfl)
    have hreplaced := h.trans _ _ _ hmarked (h.replaceDuplicatePeerLinks linkId
      { existing with identityHash } (current.markIdentified linkId))
    exact h.trans _ _ _ hreplaced (h.touch rfl rfl)

theorem handleLinkOpened (peer : ServerPeer) (now : Int)
    (s : LiveServer σ) : R s (handleLinkOpened linkId peer now s) := by
  refine branch ?_ (h.touch rfl rfl)
  have hmarked : R s (if isProvisionalPeer (s.peerForLinkOpen linkId peer) then s
      else s.markIdentified linkId) := branch (h.refl s) (h.touch rfl rfl)
  refine h.trans _ _ _ hmarked ?_
  exact h.trans _ _ _ (h.replaceDuplicatePeerLinks linkId _ _) (h.touch rfl rfl)

theorem acceptSession (peer candidate : ServerPeer)
    (outcome : FrameDispatchOutcome) (s : LiveServer σ) :
    R s (s.acceptSession linkId peer candidate outcome) := by
  have hrenamed : R s (s.rename linkId peer candidate) := branch (h.refl s)
    (h.trans _ _ _ (h.replaceDuplicatePeerLinks linkId candidate s) (h.touch rfl rfl))
  exact branch (h.trans _ _ _ hrenamed (h.touch rfl rfl)) (h.trans _ _ _ hrenamed (h.touch rfl rfl))

theorem unsubscribe (roomId : Option UInt32) :
    Act.Steps R (unsubscribe host engine linkId roomId) := by
  have := h.preorder
  cases roomId with
  | none => exact .pure _
  | some roomId =>
    refine .bind (.read _) fun subscribed => ?_
    refine .bind (.modify fun s => h.touch rfl rfl) fun _ => ?_
    exact .ite (h.userlist roomId) (.pure _)

theorem settleDispatch (peer candidate : ServerPeer)
    (frame : Option Frame) (target : Option Bytes) (dispatch : FrameDispatchOutcome) :
    Act.Steps R (settleDispatch host engine linkId peer candidate frame target dispatch) := by
  have := h.preorder
  refine .bind (.modify fun s =>
    branch (h.acceptSession linkId peer candidate dispatch s) (h.refl s)) fun _ => ?_
  refine .bind (h.disconnectTarget _) fun _ => ?_
  refine .bind ?_ fun _ => h.unsubscribe linkId _
  cases frame.bind joinedRoomIdFromFrame with
  | none => exact .pure _
  | some roomId => exact .modify fun s => h.touch rfl rfl

theorem arrive (context : UInt8) (frame : Option Frame)
    (now : Int) (s : LiveServer σ) : R s (arrive linkId context frame now s).2 :=
  h.aside s _ (arrive_aside linkId context frame now s)

end

/-! A step. -/

/-- What follows the dispatch of a packet, or the failure of it. -/
theorem handlePacket {linkId : LinkId} {peer : ServerPeer}
    {frame : Option Frame} {size : Nat}
    (hdispatch : R s (dispatchPacket host engine linkId peer frame size s).2) :
    R s (handlePacket host engine linkId peer frame size s).2 := by
  unfold Omen.Server.handlePacket
  rw [Act.attempt_bind]
  cases (dispatchPacket host engine linkId peer frame size s).1 with
  | error e => exact hdispatch
  | ok dispatched => exact h.trans _ _ _ hdispatch (h.settleDispatch linkId peer _ frame _ _ _)

/-- A step is in the relation if the dispatch of its packet or its upload is. -/
theorem liveStep {i : LiveInput}
    (hpacket : ∀ linkId context frame size now peer arrived, i = .linkData linkId context frame size now →
      Omen.Server.arrive linkId context frame now s = (some peer, arrived) →
      R arrived (dispatchPacket host engine linkId peer frame size arrived).2)
    (hattachment : ∀ linkId data, Act.Steps R (handleChannelAttachmentData host engine linkId data))
    (hresource : ∀ linkId resourceId data,
      Act.Steps R (handleResourceReceived host engine linkId resourceId data))
    (hterminal : ∀ linkId direction outcome size,
      R s (handleResourceTerminal engine linkId direction outcome size s)) :
    R s (liveStep host engine s i).2 := by
  have := h.preorder
  cases i with
  | linkOpened linkId peer now => exact h.handleLinkOpened linkId peer now s
  | peerIdentified linkId identityHash => exact h.identify linkId _ s
  | linkData linkId context frame size now =>
    have harrived := h.arrive linkId context frame now s
    rcases harrive : Omen.Server.arrive linkId context frame now s with ⟨known, arrived⟩
    rw [harrive] at harrived
    cases known with
    | none =>
      rw [(linkData_unknown host engine harrive size).1]
      exact harrived
    | some peer =>
      rw [(linkData_known host engine harrive size).1]
      exact h.trans _ _ _ harrived
        (h.handlePacket (hpacket linkId context frame size now peer arrived rfl harrive))
  | channelAttachmentData linkId data => exact hattachment linkId data s
  | resourceReceived linkId resourceId data => exact hresource linkId resourceId data s
  | resourceTerminal linkId direction outcome size => exact hterminal linkId direction outcome size
  | linkClosed linkId =>
    have hclosed : Act.Steps R (handleLinkClosed host engine linkId) := by
      refine .bind (.read _) fun room => ?_
      refine .bind (.modify (h.closeLink linkId)) fun _ => ?_
      cases room with
      | none => exact .pure _
      | some roomId => exact h.userlist roomId
    exact hclosed s
  | disconnectIdentity identityHash => exact h.disconnectIdentity identityHash s
  | expirePendingHandshakes now => exact h.expirePendingHandshakes now s

end Walk
end Omen.Server
