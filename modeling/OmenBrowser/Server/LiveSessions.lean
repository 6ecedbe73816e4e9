import OmenBrowser.Server.SessionLaws

/- What the server keeps for a link (`server/src/live.rs`).

   Each way a link is torn down has its own list of tables to remove it from. Closing a link
   removes it from all of them; replacing a duplicate, disconnecting an identity and expiring
   a handshake leave the capability for channel attachments and the staged uploads. An
   accepted session removes what the one before it had negotiated, that capability again
   apart. The context of a packet is noted before the link is known. So the tables are right
   along a run that has nothing to forget in these places. -/
namespace Omen.Server
open Wire Omen.Protocol Option LiveServer LinkEntry

variable {σ : Type}
  {lost : LinkId → Prop} {s s' : LiveServer σ} {l linkId : LinkId}
  {peer candidate : ServerPeer} {target : Option Bytes} {i : LiveInput} {frame : Frame}
  {active : List ServerPeer} {negotiated : NegotiatedFeatures} {answers : List Frame}

/-! Nothing is kept for a link that is not a peer. -/

/-- If the link is not a peer, no table has it. -/
def LiveServer.TidyAt (s : LiveServer σ) (l : LinkId) : Prop :=
  s.peers[l]? = none → s.entry l = empty ∧ ∀ e ∈ s.replayCache, e.linkId ≠ l

/-- Every table has only links that are peers. -/
def LiveServer.Tidy (s : LiveServer σ) : Prop := ∀ l, s.TidyAt l

/-- There is nothing for the link that tearing it down would leave behind. -/
def LiveServer.Clean (s : LiveServer σ) (l : LinkId) : Prop :=
  s.channelAttachmentLinks[l]? = none ∧ s.stagedFor l = []

/-- What became of a link: nothing, or it was torn down. -/
structure Follows (l : LinkId) (torn : Prop) (s s' : LiveServer σ) : Prop where
  entry : s'.entry l = s.entry l ∨
    torn ∧ s'.entry l = (s.entry l).forgotten ∧ ∀ e ∈ s'.replayCache, e.linkId ≠ l
  cache : ∀ e ∈ s'.replayCache, e.linkId = l → e ∈ s.replayCache

namespace Follows
variable {l linkId : LinkId} {torn torn' : Prop} {s s' s₁ s₂ s₃ : LiveServer σ}

theorem of_entry (hentry : s'.entry l = s.entry l) (hcache : s'.replayCache = s.replayCache) :
    Follows l torn s s' := by
  refine ⟨.inl hentry, fun e he _ => ?_⟩
  rwa [hcache] at he

theorem of_same (h : SameTables s s') : Follows l torn s s' := of_entry (h.entry l) h.replayCache

theorem of_dispatched (h : Dispatched linkId lost s s') (hne : l ≠ linkId) (htorn : lost l → torn) :
    Follows l torn s s' := by
  refine ⟨?_, ?_⟩
  · by_cases hl : lost l
    · refine .inr ⟨htorn hl, h.forgotten l hl, ?_⟩
      rintro e he rfl
      rcases h.cache e he with ⟨_, hlost⟩ | hown
      · exact hlost hl
      · exact hne hown
    · exact .inl (h.kept l hl)
  · rintro e he rfl
    rcases h.cache e he with ⟨hin, _⟩ | hown
    · exact hin
    · exact absurd hown hne

theorem of_retires (h : Retires lost s s') (htorn : lost l → torn) : Follows l torn s s' := by
  refine ⟨?_, fun e he _ => (h.cache e he).1⟩
  by_cases hl : lost l
  · refine .inr ⟨htorn hl, h.forgotten l hl, ?_⟩
    rintro e he rfl
    exact (h.cache e he).2 hl
  · exact .inl (h.kept l hl)

/-- A link that was torn down before is not torn down again. -/
theorem trans (h₁ : Follows l torn s₁ s₂) (h₂ : Follows l torn' s₂ s₃)
    (htorn : s₂.entry l = s₁.entry l → torn' → torn) : Follows l torn s₁ s₃ := by
  refine ⟨?_, fun e he hl => h₁.cache e (h₂.cache e he hl) hl⟩
  rcases h₁.entry with hsame | ⟨ht, hforgotten, hcache⟩
  · rcases h₂.entry with hsame' | ⟨ht', hforgotten', hcache'⟩
    · exact .inl (hsame'.trans hsame)
    · exact .inr ⟨htorn hsame ht', by rw [hforgotten', hsame], hcache'⟩
  · refine .inr ⟨ht, ?_, fun e he hl => hcache e (h₂.cache e he hl) hl⟩
    rcases h₂.entry with hsame' | ⟨_, hforgotten', _⟩
    · rw [hsame', hforgotten]
    · rw [hforgotten', hforgotten]
      rfl

/-- A link that was torn down, or not, and then left as it is. -/
theorem keeps (h₁ : Follows l torn s₁ s₂) (h₂ : Follows l False s₂ s₃) : Follows l torn s₁ s₃ :=
  trans h₁ h₂ fun _ h => h.elim

theorem imp (h : Follows l torn s s') (htorn : torn → torn') : Follows l torn' s s' :=
  ⟨h.entry.imp_right fun h => ⟨htorn h.1, h.2⟩, h.cache⟩

theorem ite {c : Prop} [Decidable c] {x y : LiveServer σ} (hx : c → Follows l torn s x)
    (hy : ¬c → Follows l torn s y) : Follows l torn s (if c then x else y) := by
  split
  · next hc => exact hx hc
  · next hc => exact hy hc

/-- Nothing is kept for a link that was clean when it was torn down. -/
theorem tidyAt (h : Follows l torn s s') (htidy : s.TidyAt l) (hclean : torn → s.Clean l) :
    s'.TidyAt l := by
  intro hnone
  rcases h.entry with hsame | ⟨ht, hforgotten, hcache⟩
  · have hpeer : s.peers[l]? = none := (congrArg peer hsame).symm.trans hnone
    obtain ⟨hempty, hcache⟩ := htidy hpeer
    refine ⟨hsame.trans hempty, ?_⟩
    rintro e he rfl
    exact hcache e (h.cache e he rfl) rfl
  · obtain ⟨hattachment, hstaged⟩ := hclean ht
    refine ⟨?_, hcache⟩
    rw [hforgotten, forgotten]
    show LinkEntry.mk none none none none none none none none none none none none none
      (s.channelAttachmentLinks[l]?) (s.stagedFor l) = empty
    rw [hattachment, hstaged]
    rfl

end Follows

/-- The link is as it was, up to its name and what its session has negotiated. -/
structure Stays (l : LinkId) (s s' : LiveServer σ) : Prop where
  identity : (s'.peers[l]?).map (·.identityHash) = (s.peers[l]?).map (·.identityHash)
  identified : s'.identifiedLinks[l]? = s.identifiedLinks[l]?
  sessionOpen : (s.sessionOpenLinks[l]?).isSome → (s'.sessionOpenLinks[l]?).isSome

namespace Stays
variable {l linkId : LinkId} {s s' s₁ s₂ s₃ : LiveServer σ}

theorem of_entry (h : s'.entry l = s.entry l) : Stays l s s' := by
  refine ⟨?_, congrArg LinkEntry.identified h, fun hopen => ?_⟩
  · exact congrArg (fun e : LinkEntry => e.peer.map (·.identityHash)) h
  · rwa [show s'.sessionOpenLinks[l]? = s.sessionOpenLinks[l]? from congrArg LinkEntry.sessionOpen h]

theorem of_same (h : SameTables s s') : Stays l s s' := of_entry (h.entry l)

theorem trans (h₁ : Stays l s₁ s₂) (h₂ : Stays l s₂ s₃) : Stays l s₁ s₃ :=
  ⟨h₂.identity.trans h₁.identity, h₂.identified.trans h₁.identified,
    fun h => h₂.sessionOpen (h₁.sessionOpen h)⟩

end Stays

/-! What is done to one link is nothing to another. -/

namespace LiveServer
variable {l linkId : LinkId} (hne : linkId ≠ l) (s : LiveServer σ)
include hne

theorem getElem?_orInsert_ne {ν : Type} (links : LinkMap ν) (value : ν) :
    (orInsert links linkId value)[l]? = links[l]? := by
  unfold orInsert
  split
  · rfl
  · exact LinkMap.getElem?_insert_ne _ _ hne

theorem getElem?_setIf_ne (accepted : Bool) (identityHash : Bytes) (links : LinkMap Bytes) :
    (setIf accepted linkId identityHash links)[l]? = links[l]? := by
  unfold setIf
  split
  · exact LinkMap.getElem?_insert_ne _ _ hne
  · rfl

theorem entry_openLink (peer : ServerPeer) (now : Int) :
    (s.openLink linkId peer now).entry l = s.entry l := by
  simp only [entry, openLink, LinkMap.getElem?_insert_ne _ _ hne, getElem?_orInsert_ne hne]
  rfl

theorem entry_noteContext (context : UInt8) : (s.noteContext linkId context).entry l = s.entry l := by
  simp only [entry, noteContext, LinkMap.getElem?_insert_ne _ _ hne]
  rfl

theorem entry_recordTraffic (bytes : Nat) (op : Option ChatOp) :
    (s.recordTraffic linkId bytes op).entry l = s.entry l := by
  simp only [entry, recordTraffic, LinkMap.getElem?_insert_ne _ _ hne]
  rfl

theorem entry_changeIdentity : (s.changeIdentity linkId).entry l = s.entry l := by
  simp only [entry, changeIdentity, LinkMap.getElem?_erase_ne _ hne]
  rfl

theorem entry_markIdentified : (s.markIdentified linkId).entry l = s.entry l := by
  simp only [entry, markIdentified, LinkMap.getElem?_insert_ne _ _ hne]
  rfl

theorem entry_setPeer (peer : ServerPeer) : (s.setPeer linkId peer).entry l = s.entry l := by
  simp only [entry, setPeer, LinkMap.getElem?_insert_ne _ _ hne]
  rfl

theorem entry_resetSession : (s.resetSession linkId).entry l = s.entry l := by
  simp only [entry, resetSession, LinkMap.getElem?_insert_ne _ _ hne, LinkMap.getElem?_erase_ne _ hne]
  rfl

theorem entry_grantSession (identityHash : Bytes) (outcome : FrameDispatchOutcome) :
    (s.grantSession linkId identityHash outcome).entry l = s.entry l := by
  simp only [entry, grantSession, getElem?_setIf_ne hne]
  cases outcome.acceptedClientInstanceId with
  | none => rfl
  | some id =>
    simp only [LinkMap.getElem?_insert_ne _ _ hne]
    rfl

theorem entry_dropChannelAttachment : (s.dropChannelAttachment linkId).entry l = s.entry l := by
  simp only [entry, dropChannelAttachment, LinkMap.getElem?_erase_ne _ hne]
  rfl

omit hne in
/-- Uploads of other links may be dropped from the list. -/
theorem staged_filter {keep : LinkId × String → Bool} (hkeep : ∀ upload, upload.1 = l → keep upload = true)
    (uploads : List (LinkId × String)) :
    (uploads.filter keep).filter (fun upload => upload.1 == l) =
      uploads.filter (fun upload => upload.1 == l) := by
  rw [List.filter_filter]
  refine List.filter_congr fun upload _ => ?_
  cases hl : upload.1 == l with
  | false => rfl
  | true =>
    rw [Bool.true_and]
    exact hkeep upload (eq_of_beq hl)

theorem entry_discardChannelUploads : (s.discardChannelUploads linkId).entry l = s.entry l := by
  have hstaged : (s.discardChannelUploads linkId).stagedFor l = s.stagedFor l := by
    refine congrArg (List.map _) (staged_filter (fun upload hl => ?_) _)
    rw [hl]
    simp [Ne.symm hne]
  simp only [entry, hstaged]
  rfl

theorem entry_applyStage (change : StageChange) : (s.applyStage linkId change).entry l = s.entry l := by
  have hstaged : (s.applyStage linkId change).stagedFor l = s.stagedFor l := by
    cases change with
    | keep => rfl
    | start resourceId => simp [applyStage, stagedFor, hne]
    | drop resourceId =>
      refine congrArg (List.map _) (staged_filter (fun upload hl => ?_) _)
      have hdiffers : upload ≠ (linkId, resourceId) := by
        rintro rfl
        exact hne hl
      simp [hdiffers]
  simp only [entry, hstaged]
  cases change with
  | keep | start | drop => rfl

end LiveServer

/-! What became of the other links, event by event. -/

theorem LiveServer.mem_duplicateLinks_of_entry (h : s'.entry l = s.entry l)
    (hl : l ∈ s'.duplicateLinks linkId peer) : l ∈ s.duplicateLinks linkId peer := by
  obtain ⟨hne, p, hp, hid⟩ := mem_duplicateLinks.mp hl
  exact mem_duplicateLinks.mpr ⟨hne, p, (congrArg LinkEntry.peer h).symm.trans hp, hid⟩

theorem LiveServer.linksOfTarget_of_entry (h : s'.entry l = s.entry l)
    (hl : s'.linksOfTarget target l) : s.linksOfTarget target l := by
  obtain ⟨identityHash, htarget, p, hp, hid⟩ := hl
  exact ⟨identityHash, htarget, p, (congrArg peer h).symm.trans hp, hid⟩

section Events
variable (host : Host) (engine : SessionEngine σ) {l linkId : LinkId} (hne : linkId ≠ l)
include hne

theorem openLinkAs_follows (peer : ServerPeer) (now : Int) (s : LiveServer σ) :
    Follows l (l ∈ s.duplicateLinks linkId (s.peerForLinkOpen linkId peer)) s
      (openLinkAs linkId peer now s) := by
  refine Follows.keeps (Follows.trans ?_ (Follows.of_retires
    (replaceDuplicatePeerLinks_retires linkId _ _) id) fun h hl =>
      mem_duplicateLinks_of_entry h hl)
    (Follows.of_entry (entry_openLink hne _ _ _) rfl)
  exact Follows.ite (fun _ => Follows.of_same (SameTables.refl s))
    fun _ => Follows.of_entry (entry_markIdentified hne s) rfl

theorem identify_follows (identityHash : Bytes) (s : LiveServer σ) :
    Follows l (∃ existing, s.peers[linkId]? = some existing ∧
        l ∈ s.duplicateLinks linkId { existing with identityHash }) s
      (s.identify linkId identityHash) := by
  unfold identify
  split
  · exact Follows.of_same (SameTables.refl s)
  · next existing hexisting =>
    refine Follows.keeps (Follows.trans ?_ (Follows.of_retires
      (replaceDuplicatePeerLinks_retires linkId _ _) id) fun h hl =>
        ⟨existing, hexisting, mem_duplicateLinks_of_entry h hl⟩)
      (Follows.of_entry (entry_setPeer hne _ _) rfl)
    refine Follows.keeps ?_ (Follows.of_entry (entry_markIdentified hne _) rfl)
    exact Follows.ite (fun _ => Follows.of_same (SameTables.refl s))
      fun _ => Follows.of_entry (entry_changeIdentity hne s) rfl

theorem acceptSession_follows (peer candidate : ServerPeer) (outcome : FrameDispatchOutcome)
    (s : LiveServer σ) :
    Follows l (candidate ≠ peer ∧ l ∈ s.duplicateLinks linkId candidate) s
      (s.acceptSession linkId peer candidate outcome) := by
  have hreset : Follows l (candidate ≠ peer ∧ l ∈ s.duplicateLinks linkId candidate) s
      ((s.rename linkId peer candidate).resetSession linkId) := by
    refine Follows.keeps ?_ (Follows.of_entry (entry_resetSession hne _) rfl)
    refine Follows.ite (fun _ => Follows.of_same (SameTables.refl s)) fun hdiffers => ?_
    refine Follows.keeps ?_ (Follows.of_entry (entry_setPeer hne _ _) rfl)
    exact Follows.of_retires (replaceDuplicatePeerLinks_retires linkId candidate s)
      fun hl => ⟨hdiffers, hl⟩
  refine Follows.ite (fun _ => ?_) fun _ => hreset
  exact Follows.keeps hreset (Follows.of_entry (entry_grantSession hne _ _ _) rfl)

variable (roomId : Option UInt32)

theorem subscribe_follows (s : LiveServer σ) : Follows l False s (subscribe linkId roomId s).2 := by
  cases roomId with
  | none => exact Follows.of_same (SameTables.refl s)
  | some roomId =>
    refine Follows.of_entry ?_ rfl
    simp only [subscribe, Act.modify, entry, LinkMap.getElem?_insert_ne _ _ hne]
    rfl

theorem unsubscribe_follows (s : LiveServer σ) :
    Follows l False s (unsubscribe host engine linkId roomId s).2 := by
  cases roomId with
  | none => exact Follows.of_same (SameTables.refl s)
  | some roomId =>
    unfold unsubscribe
    dsimp only
    rw [Act.read_bind, Act.modify_bind]
    have herased : Follows l False s { s with linkRooms := s.linkRooms.erase linkId } :=
      Follows.of_entry (by
        simp only [entry, LinkMap.getElem?_erase_ne _ hne]
        rfl) rfl
    refine herased.keeps (Follows.of_same ?_)
    exact Act.Steps.ite (broadcastUserlistForRoom_same host engine roomId)
      (Act.Steps.pure _) _

theorem settleDispatch_follows (peer candidate : ServerPeer) (frame : Option Frame)
    (target : Option Bytes) (dispatch : FrameDispatchOutcome) (s : LiveServer σ) :
    Follows l ((dispatch.sessionAccepted = true ∧ candidate ≠ peer ∧ l ∈ s.duplicateLinks linkId candidate) ∨
        (dispatch.moderationDisconnectSucceeded = true ∧ s.linksOfTarget target l)) s
      (settleDispatch host engine linkId peer candidate frame target dispatch s).2 := by
  rw [settleDispatch_steps]
  have hleft : Follows l ((dispatch.sessionAccepted = true ∧ candidate ≠ peer ∧
        l ∈ s.duplicateLinks linkId candidate) ∨
        (dispatch.moderationDisconnectSucceeded = true ∧ s.linksOfTarget target l)) s
      (disconnectTarget host engine (if dispatch.moderationDisconnectSucceeded then target else none)
        (if dispatch.sessionAccepted then s.acceptSession linkId peer candidate dispatch else s)).2 := by
    refine Follows.trans (Follows.ite (fun haccepted => ?_) fun _ => Follows.of_same (SameTables.refl s))
      (Follows.of_retires (disconnectTarget_retires host engine _ _) id) fun h hl => ?_
    · refine (acceptSession_follows hne peer candidate dispatch s).imp fun ht => .inl ⟨haccepted, ht⟩
    · have hl := linksOfTarget_of_entry h hl
      cases hmoderation : dispatch.moderationDisconnectSucceeded with
      | true =>
        rw [hmoderation] at hl
        exact .inr ⟨rfl, hl⟩
      | false =>
        rw [hmoderation] at hl
        exact absurd hl (s.linksOfTarget_none l).mp
  refine Follows.trans (Follows.trans hleft (subscribe_follows hne _ _) fun _ h => h.elim)
    (unsubscribe_follows host engine hne _ _) fun _ h => h.elim

omit hne in
/-- The links that a packet tears down: those of whom its dispatch disconnects, the other links of a
peer whose session is accepted under another name, and those of whom it kicks or bans. -/
def packetTears (linkId : LinkId) (peer : ServerPeer) (frame : Option Frame) (size : Nat)
    (s : LiveServer σ) (l : LinkId) : Prop :=
  s.linksOfTarget (packetDisconnects engine linkId peer frame size s) l ∨
  ∃ target dispatch, (dispatchPacket host engine linkId peer frame size s).1 = .ok (target, dispatch) ∧
    ((dispatch.sessionAccepted = true ∧ candidatePeer peer frame ≠ peer ∧
        l ∈ s.duplicateLinks linkId (candidatePeer peer frame)) ∨
      (dispatch.moderationDisconnectSucceeded = true ∧ s.linksOfTarget target l))

theorem handlePacket_follows (peer : ServerPeer) (frame : Option Frame) (size : Nat)
    (s : LiveServer σ) :
    Follows l (packetTears host engine linkId peer frame size s l) s
      (handlePacket host engine linkId peer frame size s).2 := by
  have hcounted := s.entry_recordTraffic hne size (frame.map (·.op))
  have hdispatched : Follows l (packetTears host engine linkId peer frame size s l) s
      (dispatchPacket host engine linkId peer frame size s).2 := by
    have hafter := Follows.of_dispatched (dispatchPacket_dispatched host engine linkId peer frame size s)
      hne.symm id
    exact Follows.trans (Follows.of_entry hcounted rfl) hafter fun _ h => .inl h
  unfold handlePacket
  rw [Act.attempt_bind]
  cases hresult : (dispatchPacket host engine linkId peer frame size s).1 with
  | error e => exact hdispatched
  | ok dispatched =>
    obtain ⟨target, dispatch⟩ := dispatched
    refine hdispatched.trans (settleDispatch_follows host engine hne peer _ frame target dispatch _)
      fun h ht => .inr ⟨target, dispatch, hresult, ht.imp ?_ ?_⟩
    · rintro ⟨haccepted, hdiffers, hl⟩
      exact ⟨haccepted, hdiffers, mem_duplicateLinks_of_entry h hl⟩
    · rintro ⟨hmoderation, hl⟩
      exact ⟨hmoderation, linksOfTarget_of_entry h hl⟩

theorem arrive_follows (context : UInt8) (frame : Option Frame) (now : Int) (s : LiveServer σ) :
    Follows l False s (arrive linkId context frame now s).2 := by
  obtain ⟨noted, hnoted, hcases⟩ := arrive_cases linkId context frame now s
  have hnoted : Follows l False s noted := by
    rcases hnoted with rfl | ⟨_, _, rfl⟩
    · exact Follows.of_same (SameTables.refl _)
    · exact Follows.of_entry (s.entry_noteContext hne context) rfl
  rcases hcases with ⟨_, _, harrive⟩ | ⟨_, harrive⟩ | ⟨s', hsame, harrive, _⟩
  · rw [harrive]
    exact hnoted
  · rw [harrive]
    exact hnoted.keeps (Follows.of_entry (noted.entry_openLink hne _ now) rfl)
  · rw [harrive]
    exact hnoted.keeps (Follows.of_same hsame)

theorem closeLink_follows (s : LiveServer σ) : Follows l False s (closeLink engine linkId s) := by
  have hforgot : Follows l False s (s.forgetLink linkId) :=
    Follows.of_retires (s.forgetLink_retires linkId) fun h => hne h.symm
  refine Follows.keeps (Follows.keeps ?_
    (Follows.of_entry (entry_discardChannelUploads hne _) rfl))
    (Follows.of_entry (entry_dropChannelAttachment hne _) rfl)
  split
  · exact hforgot.keeps (Follows.of_same (discardWithout_same engine _ _))
  · exact hforgot

end Events

variable {context : UInt8} {now : Int} {p : ServerPeer} {size : Nat}

section Steps
variable (host : Host) (engine : SessionEngine σ)

/-- The link an event is about. -/
def LiveInput.ownLink : LiveInput → Option LinkId
  | .linkOpened linkId _ _ | .peerIdentified linkId _ | .linkData linkId _ _ _ _
  | .channelAttachmentData linkId _ | .resourceReceived linkId _ _ | .resourceTerminal linkId _ _ _
  | .linkClosed linkId => some linkId
  | .disconnectIdentity _ | .expirePendingHandshakes _ => none

/-- The links an event tears down otherwise than by closing them. -/
def tornDown (s : LiveServer σ) (i : LiveInput) (l : LinkId) : Prop :=
  match i with
  | .linkOpened linkId peer _ => (s.peers.contains linkId || s.admits) = true ∧
      l ∈ s.duplicateLinks linkId (s.peerForLinkOpen linkId peer)
  | .peerIdentified linkId identityHash => ∃ existing, s.peers[linkId]? = some existing ∧
      l ∈ s.duplicateLinks linkId { existing with identityHash := identityHash.toList }
  | .linkData linkId context frame size now => ∃ peer, (arrive linkId context frame now s).1 = some peer ∧
      packetTears host engine linkId peer frame size (arrive linkId context frame now s).2 l
  | .disconnectIdentity identityHash => s.linksOf identityHash l
  | .expirePendingHandshakes now => l ∈ s.expiredHandshakes now
  | _ => False

/-- What becomes of a link the event is not about. -/
theorem liveStep_follows (hown : i.ownLink ≠ some l) :
    Follows l (tornDown host engine s i l) s (liveStep host engine s i).2 := by
  have hne {linkId : LinkId} (h : i.ownLink = some linkId) : linkId ≠ l := by
    rintro rfl
    exact hown h
  cases i with
  | linkOpened linkId peer now =>
    refine Follows.ite (fun hadmitted => ?_) fun _ => Follows.of_same rfl
    exact (openLinkAs_follows (hne rfl) peer now s).imp fun ht => ⟨hadmitted, ht⟩
  | peerIdentified linkId identityHash => exact identify_follows (hne rfl) _ s
  | linkData linkId context frame size now =>
    have harrived := arrive_follows (hne rfl) context frame now s
    rcases harrive : arrive linkId context frame now s with ⟨known, arrived⟩
    rw [harrive] at harrived
    cases known with
    | none =>
      rw [(linkData_unknown host engine harrive size).1]
      exact harrived.imp False.elim
    | some peer =>
      rw [(linkData_known host engine harrive size).1]
      refine (harrived.imp False.elim).trans (handlePacket_follows host engine (hne rfl) peer frame size _)
        fun _ ht => ⟨peer, ?_, ?_⟩
      · rw [harrive]
      · rw [harrive]
        exact ht
  | channelAttachmentData linkId data =>
    obtain ⟨change, hsame, _⟩ := handleChannelAttachmentData_same host engine linkId data s
    exact Follows.keeps
      (Follows.of_entry (s.entry_applyStage (hne rfl) change) (applyStage_cache linkId change s))
      (Follows.of_same hsame)
  | resourceReceived linkId resourceId data =>
    exact Follows.of_same (handleResourceReceived_same host engine linkId resourceId data s)
  | resourceTerminal linkId direction outcome expectedSize =>
    exact Follows.of_same (handleResourceTerminal_same engine linkId direction outcome expectedSize s)
  | linkClosed linkId =>
    exact Follows.keeps (closeLink_follows engine (hne rfl) s)
      (Follows.of_same (handleLinkClosed_same host engine linkId s))
  | disconnectIdentity identityHash =>
    exact Follows.of_retires (disconnectIdentity_retires host engine identityHash s) id
  | expirePendingHandshakes now =>
    exact Follows.of_retires (expirePendingHandshakes_retires engine now s) id

/-! The link an event is about. -/

theorem LiveServer.TidyAt.of_peer (h : (s.peers[l]?).isSome) : s.TidyAt l := by
  intro hnone
  rw [hnone] at h
  cases h

theorem LiveServer.TidyAt.same (h : s.TidyAt l) (hsame : SameTables s s') : s'.TidyAt l := by
  have hfollows : Follows l False s s' := Follows.of_same hsame
  exact hfollows.tidyAt h False.elim

/-- The packets whose context is noted come from peers, or open their link. -/
def ContextKnown (s : LiveServer σ) (i : LiveInput) : Prop :=
  ∀ linkId context frame size now, i = .linkData linkId context (some frame) size now →
    context ≠ 0 → s.peers[linkId]? = none → frame.op = .sessionOpen ∧ s.admits = true

theorem arrive_unknown {frame : Option Frame} (h : arrive linkId context frame now s = (none, s'))
    (hknown : ContextKnown s (.linkData linkId context frame size now)) : SameTables s s' := by
  obtain ⟨noted, hnoted, ⟨_, _, harrive⟩ | ⟨_, harrive⟩ | ⟨s₁, hsame, harrive, hdropped⟩⟩ :=
    arrive_cases linkId context frame now s
  · cases harrive.symm.trans h
  · cases harrive.symm.trans h
  · obtain rfl := (Prod.mk.inj (harrive.symm.trans h)).2
    rcases hdropped with rfl | ⟨hnone, hrefused⟩
    · exact hsame
    · rcases hnoted with rfl | ⟨hsome, hcontext, _⟩
      · exact hsame
      · obtain ⟨frame, rfl⟩ := isSome_iff_exists.mp hsome
        obtain ⟨hop, hadmits⟩ := hknown _ _ _ _ _ rfl hcontext hnone
        exact absurd ⟨by simp [hop], hadmits⟩ hrefused

/-- A kick or a ban is not of the peer who asks for it. -/
theorem packetTarget_spares (hspares : engine.SparesRequester) (linkId : LinkId) (peer : ServerPeer)
    (frame : Option Frame) (size : Nat) (s : LiveServer σ) :
    packetTarget engine linkId peer frame size s ≠ some peer.identityHash := by
  cases frame with
  | none => exact nofun
  | some frame =>
    intro h
    have h : (engine.moderationDisconnectTargetForFrame (candidatePeer peer (some frame)) frame
        (packetActive linkId peer (some frame) size s) s.engine).1.toOption.bind id =
          some peer.identityHash := h
    obtain ⟨target, hfound, rfl⟩ := bind_eq_some_iff.mp h
    refine hspares.moderation _ _ _ _ peer.identityHash _
      (Prod.ext (Outcome.toOption_eq_some.mp hfound) rfl) ?_
    exact (candidatePeer_identityHash peer (some frame)).symm

theorem acceptSession_peer {outcome : FrameDispatchOutcome} (hpeer : s.peers[linkId]? = some peer) :
    (s.acceptSession linkId peer candidate outcome).peers[linkId]? = some candidate := by
  have hrenamed : (s.rename linkId peer candidate).peers[linkId]? = some candidate := by
    unfold rename
    split
    · next heq => rw [heq, hpeer]
    · exact LinkMap.getElem?_insert_self _ _ _
  unfold acceptSession
  dsimp only
  split
  · exact hrenamed
  · exact hrenamed

theorem replaceDuplicatePeerLinks_own (linkId : LinkId) (peer : ServerPeer) (s : LiveServer σ) :
    (s.replaceDuplicatePeerLinks linkId peer).entry linkId = s.entry linkId :=
  (s.replaceDuplicatePeerLinks_retires linkId peer).kept linkId fun h =>
    (mem_duplicateLinks.mp h).1 rfl

/-- A session that is accepted may rename its peer, and does not change who it is. -/
theorem acceptSession_stays {candidate : ServerPeer} (hpeer : s.peers[linkId]? = some peer)
    (hid : candidate.identityHash = peer.identityHash) (outcome : FrameDispatchOutcome) :
    Stays linkId s (s.acceptSession linkId peer candidate outcome) := by
  have hrenamed : Stays linkId s (s.rename linkId peer candidate) := by
    unfold rename
    split
    · exact Stays.of_same (SameTables.refl s)
    · have hown := replaceDuplicatePeerLinks_own linkId candidate s
      refine ⟨?_, congrArg identified hown, fun h => ?_⟩
      · rw [hpeer, show (setPeer linkId candidate _).peers[linkId]? = some candidate from
          LinkMap.getElem?_insert_self _ _ _]
        exact congrArg some hid
      · rwa [show (setPeer linkId candidate (s.replaceDuplicatePeerLinks linkId
          candidate)).sessionOpenLinks[linkId]? = s.sessionOpenLinks[linkId]? from
            congrArg sessionOpen hown]
  have hreset : Stays linkId s ((s.rename linkId peer candidate).resetSession linkId) := by
    refine hrenamed.trans ⟨rfl, rfl, fun _ => ?_⟩
    rw [show ((s.rename linkId peer candidate).resetSession linkId).sessionOpenLinks[linkId]? = some ()
      from LinkMap.getElem?_insert_self _ _ _]
    rfl
  unfold acceptSession
  dsimp only
  split
  · exact hreset.trans ⟨rfl, rfl, id⟩
  · exact hreset

theorem subscribe_stays (l linkId : LinkId) (roomId : Option UInt32) (s : LiveServer σ) :
    Stays l s (subscribe linkId roomId s).2 := by
  cases roomId with
  | none => exact Stays.of_same (SameTables.refl s)
  | some roomId => exact ⟨rfl, rfl, id⟩

theorem unsubscribe_stays (l linkId : LinkId) (roomId : Option UInt32) (s : LiveServer σ) :
    Stays l s (unsubscribe host engine linkId roomId s).2 := by
  cases roomId with
  | none => exact Stays.of_same (SameTables.refl s)
  | some roomId =>
    have hsame : SameTables { s with linkRooms := s.linkRooms.erase linkId }
        (unsubscribe host engine linkId (some roomId) s).2 :=
      Act.Steps.ite (broadcastUserlistForRoom_same host engine roomId)
        (Act.Steps.pure _) _
    have herased : Stays l s { s with linkRooms := s.linkRooms.erase linkId } := ⟨rfl, rfl, id⟩
    exact herased.trans (Stays.of_same hsame)

theorem disconnectTarget_stays {p : ServerPeer} (hp : s.peers[linkId]? = some p)
    {target : Option Bytes} (htarget : target ≠ some p.identityHash) :
    Stays linkId s (disconnectTarget host engine target s).2 := by
  refine Stays.of_entry ((disconnectTarget_retires host engine target s).kept linkId ?_)
  rintro ⟨identityHash, rfl, p', hp', rfl⟩
  cases hp.symm.trans hp'
  exact htarget rfl

/-- A packet leaves its link who it is. -/
theorem handlePacket_stays (hspares : engine.SparesRequester) (hpeer : s.peers[linkId]? = some peer)
    (frame : Option Frame) (size : Nat) :
    Stays linkId s (handlePacket host engine linkId peer frame size s).2 := by
  have hkept := dispatchPacket_keeps host engine hspares hpeer frame size
  have hcounted : Stays linkId s (s.recordTraffic linkId size (frame.map (·.op))) := ⟨rfl, rfl, id⟩
  have hdispatched : Stays linkId s (dispatchPacket host engine linkId peer frame size s).2 :=
    hcounted.trans (Stays.of_entry hkept)
  have hpeer' : (dispatchPacket host engine linkId peer frame size s).2.peers[linkId]? = some peer :=
    (congrArg LinkEntry.peer hkept).trans hpeer
  have htarget := packetTarget_spares engine hspares linkId peer frame size s
  unfold handlePacket
  rw [Act.attempt_bind]
  cases hresult : (dispatchPacket host engine linkId peer frame size s).1 with
  | error e => exact hdispatched
  | ok dispatched =>
    obtain ⟨target, dispatch⟩ := dispatched
    have hsame : packetTarget engine linkId peer frame size s = target := by
      rw [dispatchPacket_eq] at hresult
      obtain ⟨_, _, heq⟩ := Outcome.map_ok.mp hresult
      exact (Prod.mk.inj heq).1
    dsimp only
    rw [settleDispatch_steps]
    refine (Stays.trans ?_ (subscribe_stays linkId linkId _ _)).trans
      (unsubscribe_stays host engine linkId linkId _ _)
    -- the peer may be renamed, and is not whom the packet disconnects
    have haccepted : Stays linkId s (if dispatch.sessionAccepted then
        (dispatchPacket host engine linkId peer frame size s).2.acceptSession linkId peer
          (candidatePeer peer frame) dispatch
        else (dispatchPacket host engine linkId peer frame size s).2) := by
      split
      · exact hdispatched.trans
          (acceptSession_stays hpeer' (candidatePeer_identityHash peer frame) dispatch)
      · exact hdispatched
    obtain ⟨p, hp, hid⟩ := map_eq_some_iff.mp
      (haccepted.identity.trans (congrArg (Option.map ServerPeer.identityHash) hpeer))
    refine haccepted.trans (disconnectTarget_stays host engine hp ?_)
    rw [hid]
    split
    · rwa [← hsame]
    · exact nofun

/-- The link of a packet is still a peer when the packet has been handled. -/
theorem handlePacket_peer (hspares : engine.SparesRequester) (hpeer : s.peers[linkId]? = some peer)
    (frame : Option Frame) (size : Nat) :
    ((handlePacket host engine linkId peer frame size s).2.peers[linkId]?).isSome := by
  have hstays := (handlePacket_stays host engine hspares hpeer frame size).identity
  rw [← isSome_map, hstays, hpeer]
  rfl

section
variable (linkId : LinkId)

theorem LiveServer.applyStage_peers (change : StageChange) (s : LiveServer σ) :
    (s.applyStage linkId change).peers = s.peers := by
  cases change with
  | keep | start | drop => rfl

theorem LiveServer.entry_closed (s : LiveServer σ) :
    ((s.discardChannelUploads linkId).dropChannelAttachment linkId).entry linkId =
      { s.entry linkId with channelAttachment := none, staged := [] } := by
  have hstaged : (s.discardChannelUploads linkId).stagedFor linkId = [] := by
    simp [discardChannelUploads, stagedFor]
  have hdropped : ((s.discardChannelUploads linkId).dropChannelAttachment linkId).stagedFor linkId =
      [] := hstaged
  simp only [entry, hdropped]
  simp only [dropChannelAttachment, LinkMap.getElem?_erase_self]
  rfl

theorem closeLink_closed (s : LiveServer σ) :
    ∃ closed, SameTables (s.forgetLink linkId) closed ∧ closeLink engine linkId s =
      (closed.discardChannelUploads linkId).dropChannelAttachment linkId := by
  unfold closeLink
  split
  · exact ⟨_, discardWithout_same engine _ _, rfl⟩
  · exact ⟨_, SameTables.refl _, rfl⟩

/-- Closing a link leaves nothing of it. -/
theorem closeLink_entry (s : LiveServer σ) : (closeLink engine linkId s).entry linkId = empty := by
  obtain ⟨closed, hsame, hclosed⟩ := closeLink_closed engine linkId s
  rw [hclosed, entry_closed, hsame.entry, (s.forgetLink_retires linkId).forgotten linkId rfl]
  rfl

theorem closeLink_tidyAt (s : LiveServer σ) : (closeLink engine linkId s).TidyAt linkId := by
  obtain ⟨closed, hsame, hclosed⟩ := closeLink_closed engine linkId s
  intro _
  refine ⟨closeLink_entry engine linkId s, fun e he => ?_⟩
  rw [hclosed] at he
  have he : e ∈ closed.replayCache := he
  rw [hsame.replayCache] at he
  exact ((s.forgetLink_retires linkId).cache e he).2

end

/-- After an event, the link it is about is a peer, or nothing is kept for it. -/
theorem liveStep_own (hspares : engine.SparesRequester) (htidy : s.TidyAt l)
    (hknown : ContextKnown s i) (hown : i.ownLink = some l) :
    (liveStep host engine s i).2.TidyAt l := by
  cases i with
  | linkOpened linkId peer now =>
    obtain rfl := some.inj hown
    show (handleLinkOpened linkId peer now s).TidyAt linkId
    unfold handleLinkOpened
    split
    · refine LiveServer.TidyAt.of_peer ?_
      rw [show (openLinkAs linkId peer now s).peers[linkId]? = some _ from
        LinkMap.getElem?_insert_self _ _ _]
      rfl
    · exact htidy.same rfl
  | peerIdentified linkId identityHash =>
    obtain rfl := some.inj hown
    show (s.identify linkId identityHash.toList).TidyAt linkId
    unfold identify
    split
    · exact htidy
    · refine LiveServer.TidyAt.of_peer ?_
      rw [show (setPeer linkId _ _).peers[linkId]? = some _ from
        LinkMap.getElem?_insert_self _ _ _]
      rfl
  | linkData linkId context frame size now =>
    obtain rfl := some.inj hown
    -- a link that is not known is closed, a known one is a peer afterwards
    rcases harrive : arrive linkId context frame now s with ⟨known, arrived⟩
    cases known with
    | none =>
      rw [(linkData_unknown host engine harrive size).1]
      exact htidy.same (arrive_unknown harrive hknown)
    | some peer =>
      rw [(linkData_known host engine harrive size).1]
      exact LiveServer.TidyAt.of_peer
        (handlePacket_peer host engine hspares (arrive_peer harrive) frame size)
  | channelAttachmentData linkId data =>
    obtain rfl := some.inj hown
    obtain ⟨change, hsame, hkeep⟩ := handleChannelAttachmentData_same host engine linkId data s
    refine LiveServer.TidyAt.same ?_ hsame
    cases hpeer : s.peers[linkId]? with
    | none =>
      rw [hkeep hpeer]
      exact htidy
    | some peer =>
      refine LiveServer.TidyAt.of_peer ?_
      rw [applyStage_peers, hpeer]
      rfl
  | resourceReceived linkId resourceId data =>
    exact htidy.same (handleResourceReceived_same host engine linkId resourceId data s)
  | resourceTerminal linkId direction outcome expectedSize =>
    exact htidy.same (handleResourceTerminal_same engine linkId direction outcome expectedSize s)
  | linkClosed linkId =>
    obtain rfl := some.inj hown
    -- the engine is told of the link only, the tables are those of the close
    exact (closeLink_tidyAt engine linkId s).same (handleLinkClosed_same host engine linkId s)
  | disconnectIdentity | expirePendingHandshakes => cases hown

end Steps

/-! What is in force after a session is accepted. -/

/-- The capability is in force for the peer of the link. -/
def inForce (s : LiveServer σ) (linkId : LinkId) (peer : ServerPeer) : Capability → Bool
  | .durable => (durableBinding s linkId peer).isSome
  | .noticeAck => bindingHas s linkId peer (·.durableNoticeAck)
  | .replyMentions => bindingHas s linkId peer (·.replyMentions)
  | .reactions => bindingHas s linkId peer (·.reactions)
  | .messageRevisions => bindingHas s linkId peer (·.messageRevisions)
  | .pins => bindingHas s linkId peer (·.pins)
  | .announcementRooms => boundTo s.announcementRoomLinks linkId peer
  | .slowMode => boundTo s.slowModeLinks linkId peer
  | .roomMediaPolicy => boundTo s.roomMediaPolicyLinks linkId peer
  | .moderationAudit => boundTo s.moderationAuditLinks linkId peer
  | .nicknameColours => boundTo s.nicknameColourLinks linkId peer
  | .channelAttachment => boundTo s.channelAttachmentLinks linkId peer

theorem boundTo_setIf (accepted : Bool) (linkId : LinkId) (peer : ServerPeer) (links : LinkMap Bytes) :
    boundTo (setIf accepted linkId peer.identityHash links) linkId peer =
      (accepted || boundTo links linkId peer) := by
  cases accepted with
  | false => rfl
  | true => simp [setIf, boundTo]

theorem boundTo_erase (links : LinkMap Bytes) (linkId : LinkId) (peer : ServerPeer) :
    boundTo (links.erase linkId) linkId peer = false := by
  rw [boundTo, LinkMap.getElem?_erase_self]
  rfl

section Granted
variable {linkId : LinkId} {peer : ServerPeer} {outcome : FrameDispatchOutcome} {s : LiveServer σ}

variable (hnone : s.durableSessions[linkId]? = none)
include hnone

/-- The binding of a session that starts anew. -/
theorem grantSession_binding :
    (s.grantSession linkId peer.identityHash outcome).durableSessions[linkId]? =
      outcome.acceptedClientInstanceId.map (bindingOf outcome peer.identityHash) := by
  unfold grantSession
  cases outcome.acceptedClientInstanceId with
  | none => exact hnone
  | some id => exact LinkMap.getElem?_insert_self _ _ _

theorem grantSession_has
    (flag : DurableSessionBinding → Bool) {granted : Bool}
    (hflag : ∀ id, flag (bindingOf outcome peer.identityHash id) = granted) :
    bindingHas (s.grantSession linkId peer.identityHash outcome) linkId peer flag =
      (outcome.acceptedClientInstanceId.isSome && granted) := by
  rw [bindingHas, grantSession_binding hnone]
  cases outcome.acceptedClientInstanceId with
  | none => rfl
  | some id =>
    show (peer.identityHash == peer.identityHash &&
      flag (bindingOf outcome peer.identityHash id)) = (true && granted)
    rw [hflag, beq_self_eq_true]

theorem grantSession_durable
    (hidentified : s.identifiedLinks.contains linkId = true) :
    durableBinding (s.grantSession linkId peer.identityHash outcome) linkId peer =
      outcome.acceptedClientInstanceId.map (bindingOf outcome peer.identityHash) := by
  have hidentified : (s.grantSession linkId peer.identityHash outcome).identifiedLinks.contains linkId =
      true := hidentified
  rw [durableBinding, if_pos hidentified, grantSession_binding hnone]
  cases outcome.acceptedClientInstanceId with
  | none => rfl
  | some id => simp [bindingOf, Option.filter]

omit hnone

/-- Of a session that starts anew on an identified link, what was accepted is in force; channel
attachments may have been before. -/
theorem grantSession_inForce (renamed : LiveServer σ)
    (hidentified : renamed.identifiedLinks.contains linkId = true) (c : Capability) :
    inForce ((renamed.resetSession linkId).grantSession linkId peer.identityHash outcome) linkId peer c =
      match c with
      | .durable => outcome.acceptedClientInstanceId.isSome
      | .noticeAck | .replyMentions | .reactions | .messageRevisions | .pins =>
        outcome.acceptedClientInstanceId.isSome && outcome.accepted c
      | .channelAttachment =>
        outcome.accepted c || boundTo renamed.channelAttachmentLinks linkId peer
      | _ => outcome.accepted c := by
  have hnone : (renamed.resetSession linkId).durableSessions[linkId]? = none :=
    LinkMap.getElem?_erase_self _ _
  have herased (accepted : Bool) (links : LinkMap Bytes) :
      boundTo (setIf accepted linkId peer.identityHash (links.erase linkId)) linkId peer =
        accepted := by
    rw [boundTo_setIf, boundTo_erase, Bool.or_false]
  cases c with
  | durable =>
    show (durableBinding _ linkId peer).isSome = _
    rw [grantSession_durable hnone hidentified, isSome_map]
  | noticeAck | replyMentions | reactions | messageRevisions | pins =>
    exact grantSession_has hnone _ fun _ => rfl
  | announcementRooms => exact herased _ _
  | slowMode => exact herased _ _
  | roomMediaPolicy => exact herased _ _
  | moderationAudit => exact herased _ _
  | nicknameColours => exact herased _ _
  | channelAttachment => exact boundTo_setIf _ _ _ _

end Granted

section Accepted
variable (host : Host) (engine : SessionEngine σ)

variable {e e' : σ}

/-- What the engine accepted is what the outcome says, durable mutations for a client instance. -/
theorem dispatchOutcome_accepted (hlaw : engine.AcceptsRequested) (hop : frame.op = .sessionOpen)
    (h : engine.handleFrame peer frame active negotiated e = (.ok answers, e')) :
    (∀ c : Capability, (dispatchOutcome frame answers answers).accepted c =
      responsesAcceptCapability answers c.name) ∧
    (dispatchOutcome frame answers answers).acceptedClientInstanceId =
      (if responsesAcceptCapability answers durableMutationCapability then
        requestedDurableClientInstance frame else none) ∧
    (dispatchOutcome frame answers answers).acceptedClientInstanceId.isSome =
      responsesAcceptCapability answers durableMutationCapability := by
  have hinstance : (dispatchOutcome frame answers answers).acceptedClientInstanceId =
      (if responsesAcceptCapability answers durableMutationCapability then
        requestedDurableClientInstance frame else none) := by
    show acceptedDurableClientInstance (requestedDurableClientInstance frame) answers = _
    unfold acceptedDurableClientInstance
    cases requestedDurableClientInstance frame with
    | none => simp
    | some id => rfl
  refine ⟨fun c => ?_, hinstance, ?_⟩
  · show (sessionOpenRequestsCapability frame c.name && responsesAcceptCapability answers c.name) = _
    cases hc : responsesAcceptCapability answers c.name with
    | false => exact Bool.and_false _
    | true =>
      rw [hlaw.requested _ _ _ _ _ _ _ hop h c hc]
      rfl
  · rw [hinstance]
    cases hdurable : responsesAcceptCapability answers durableMutationCapability with
    | false => rfl
    | true => exact hlaw.instanced _ _ _ _ _ _ _ hop h hdurable

/-- After a session is accepted on an identified link, what is in force is what the engine accepted,
unless channel attachments were in force before and are not asked for. -/
theorem acceptSession_inForce (hlaw : engine.AcceptsRequested) {asked : ServerPeer}
    (hop : frame.op = .sessionOpen)
    (h : engine.handleFrame asked frame active negotiated e = (.ok answers, e'))
    (haccepted : answers.any (fun response => response.op == .sessionAccept) = true)
    (hidentified : (s.acceptSession linkId peer candidate
      (dispatchOutcome frame answers answers)).identifiedLinks.contains linkId = true)
    (hattachments : sessionOpenRequestsCapability frame channelAttachmentCapability = true ∨
      boundTo (s.rename linkId peer candidate).channelAttachmentLinks linkId candidate = false) :
    (∀ c, inForce (s.acceptSession linkId peer candidate (dispatchOutcome frame answers answers))
      linkId candidate c = responsesAcceptCapability answers c.name) ∧
    ∀ binding, durableBinding (s.acceptSession linkId peer candidate
      (dispatchOutcome frame answers answers)) linkId candidate = some binding →
        requestedDurableClientInstance frame = some binding.clientInstanceId := by
  obtain ⟨hall, hinstance, hdurable⟩ := dispatchOutcome_accepted engine hlaw hop h
  have hbefore : (s.rename linkId peer candidate).identifiedLinks.contains linkId = true := by
    unfold acceptSession at hidentified
    dsimp only at hidentified
    split at hidentified
    · assumption
    · exact hidentified
  have hgranted : s.acceptSession linkId peer candidate (dispatchOutcome frame answers answers) =
      ((s.rename linkId peer candidate).resetSession linkId).grantSession linkId candidate.identityHash
        (dispatchOutcome frame answers answers) := if_pos hbefore
  -- the tables of these are set only beside a durable session
  have hbeside (c : Capability) (hc : Capability.durable ∈ c.acceptedWith) :
      (responsesAcceptCapability answers durableMutationCapability &&
        responsesAcceptCapability answers c.name) = responsesAcceptCapability answers c.name := by
    cases hacceptsC : responsesAcceptCapability answers c.name with
    | false => exact Bool.and_false _
    | true =>
      rw [show responsesAcceptCapability answers durableMutationCapability = true from
        hlaw.beside _ _ _ _ _ _ _ hop h c hacceptsC .durable hc]
      rfl
  rw [hgranted]
  refine ⟨fun c => ?_, ?_⟩
  · rw [grantSession_inForce _ hbefore, hall, hdurable]
    cases c with
    | durable | announcementRooms | slowMode | roomMediaPolicy | moderationAudit
    | nicknameColours => rfl
    | noticeAck => exact hbeside .noticeAck (by decide)
    | replyMentions => exact hbeside .replyMentions (by decide)
    | reactions => exact hbeside .reactions (by decide)
    | messageRevisions => exact hbeside .messageRevisions (by decide)
    | pins => exact hbeside .pins (by decide)
    | channelAttachment =>
      -- the one table that a session open does not clear
      rcases hattachments with hrequested | hunbound
      · rw [show responsesAcceptCapability answers Capability.channelAttachment.name = true from
          hlaw.attachments _ _ _ _ _ _ _ hop h haccepted hrequested]
        rfl
      · rw [hunbound]
        exact Bool.or_false _
  · intro binding hbinding
    have hreset : ((s.rename linkId peer candidate).resetSession linkId).durableSessions[linkId]? =
      none := LinkMap.getElem?_erase_self _ _
    rw [grantSession_durable hreset hbefore, hinstance] at hbinding
    obtain ⟨id, hid, rfl⟩ := map_eq_some_iff.mp hbinding
    split at hid
    · exact hid
    · cases hid

/-- The session in force is the one that was accepted. -/
def SessionInForce (s : LiveServer σ) (i : LiveInput) : Prop :=
  ∀ linkId context frame size now dispatch, i = .linkData linkId context (some frame) size now →
    dispatchOf host engine s i = some dispatch → dispatch.sessionAccepted = true →
      (liveStep host engine s i).2.identifiedLinks.contains linkId = true →
        ∃ peer, (liveStep host engine s i).2.peers[linkId]? = some peer ∧
          (∀ c, inForce (liveStep host engine s i).2 linkId peer c =
            responsesAcceptCapability dispatch.answers c.name) ∧
          ∀ binding, durableBinding (liveStep host engine s i).2 linkId peer = some binding →
            requestedDurableClientInstance frame = some binding.clientInstanceId

/-- A session that is accepted asks for channel attachments, if its link has them. -/
def AttachmentsAsked (s : LiveServer σ) (i : LiveInput) : Prop :=
  ∀ (linkId : LinkId) context frame size now dispatch peer,
    i = .linkData linkId context (some frame) size now → dispatchOf host engine s i = some dispatch →
      dispatch.sessionAccepted = true → s.peers[linkId]? = some peer →
        boundTo s.channelAttachmentLinks linkId peer = true →
          sessionOpenRequestsCapability frame channelAttachmentCapability = true

/-- A packet with which a session is accepted does nothing else to the tables of its link. -/
theorem handlePacket_accepted {dispatch : FrameDispatchOutcome}
    (h : (dispatchPacket host engine linkId peer (some frame) size s).1 = .ok (target, dispatch))
    (haccepted : dispatch.sessionAccepted = true) :
    (handlePacket host engine linkId peer (some frame) size s).2 =
      (dispatchPacket host engine linkId peer (some frame) size s).2.acceptSession linkId peer
        (candidatePeer peer (some frame)) dispatch := by
  obtain ⟨hopen, hmoderation, hpart⟩ := dispatchPacket_outcome host engine h
  have hop := hopen haccepted
  have hmoderation : dispatch.moderationDisconnectSucceeded = false :=
    Bool.eq_false_iff.mpr fun h => by cases (hmoderation h).symm.trans hop
  have hpart : dispatch.partSucceeded = false :=
    Bool.eq_false_iff.mpr fun h => by cases (hpart h).symm.trans hop
  have hjoined : (some frame).bind joinedRoomIdFromFrame = none := by
    show joinedRoomIdFromFrame frame = none
    rw [joinedRoomIdFromFrame, hop]
  unfold handlePacket
  rw [Act.attempt_bind, h]
  dsimp only
  rw [settleDispatch_steps, haccepted, hmoderation, hpart, hjoined]
  rfl

theorem rename_attachments (linkId : LinkId) (peer candidate : ServerPeer) (s : LiveServer σ) :
    (s.rename linkId peer candidate).channelAttachmentLinks[linkId]? =
      s.channelAttachmentLinks[linkId]? := by
  unfold rename
  split
  · rfl
  · refine congrArg channelAttachment
      ((s.replaceDuplicatePeerLinks_retires linkId candidate).kept linkId fun h => ?_)
    exact (mem_duplicateLinks.mp h).1 rfl

theorem arrive_attachments (linkId : LinkId) (context : UInt8) (frame : Option Frame) (now : Int)
    (s : LiveServer σ) :
    (arrive linkId context frame now s).2.channelAttachmentLinks = s.channelAttachmentLinks := by
  obtain ⟨noted, hnoted, hcases⟩ := arrive_cases linkId context frame now s
  have hsame : noted.channelAttachmentLinks = s.channelAttachmentLinks := by
    rcases hnoted with rfl | ⟨_, _, rfl⟩
    · rfl
    · rfl
  rcases hcases with ⟨_, _, harrive⟩ | ⟨_, harrive⟩ | ⟨s', htables, harrive, _⟩
  · rw [harrive, hsame]
  · rw [harrive]
    exact hsame
  · rw [harrive, htables, ← hsame]

/-- The peer of a packet is the link's, if it is known. -/
theorem arrive_known {frame : Option Frame}
    (h : arrive linkId context frame now s = (some peer, s')) (hp : s.peers[linkId]? = some p) :
    peer = p := by
  obtain ⟨noted, _, ⟨q, hq, harrive⟩ | ⟨⟨hnone, _⟩, _⟩ | ⟨_, _, harrive, _⟩⟩ :=
    arrive_cases linkId context frame now s
  · have hpeer := some.inj (Prod.mk.inj (harrive.symm.trans h)).1
    rw [← hpeer]
    exact some.inj (hq.symm.trans hp)
  · rw [hnone] at hp
    cases hp
  · cases harrive.symm.trans h

theorem boundTo_congr {links links' : LinkMap Bytes} {peer' : ServerPeer}
    (hlinks : links'[linkId]? = links[linkId]?) (hpeer : peer'.identityHash = peer.identityHash) :
    boundTo links' linkId peer' = boundTo links linkId peer := by
  rw [boundTo, boundTo, hlinks, hpeer]

theorem liveStep_inForce (hspares : engine.SparesRequester) (hlaw : engine.AcceptsRequested)
    (htidy : s.Tidy) (hasked : AttachmentsAsked host engine s i) :
    SessionInForce host engine s i := by
  rintro linkId context frame size now dispatch rfl hdispatch haccepted hidentified
  have hattached := arrive_attachments linkId context (some frame) now s
  rcases harrive : arrive linkId context (some frame) now s with ⟨known, arrived⟩
  rw [harrive] at hattached
  have hasked' := hasked linkId context frame size now dispatch
  cases known with
  | none =>
    rw [(linkData_unknown host engine harrive size).2] at hdispatch
    cases hdispatch
  | some peer =>
    obtain ⟨hrun, hdispatched⟩ := linkData_known host engine harrive size
    rw [hrun] at hidentified ⊢
    obtain ⟨⟨target, _⟩, hfound, rfl⟩ := map_eq_some_iff.mp (hdispatched.symm.trans hdispatch)
    have hresult := Outcome.toOption_eq_some.mp hfound
    have hpeer := arrive_peer harrive
    have hkeeps := dispatchPacket_keeps host engine hspares hpeer (some frame) size
    obtain ⟨dispatch, hhandled, heq⟩ := Outcome.map_ok.mp
      ((congrArg Prod.fst (dispatchPacket_eq host engine linkId peer (some frame) size arrived)).symm.trans
        hresult)
    cases heq
    obtain ⟨features, e', hengine, houtcome⟩ :=
      handleDecodedFrame_accepted host engine (Prod.ext hhandled rfl) haccepted
    have hop := (dispatchPacket_outcome host engine hresult).1 haccepted
    rw [handlePacket_accepted host engine hresult haccepted] at hidentified ⊢
    refine ⟨candidatePeer peer (some frame), acceptSession_peer ?_, ?_⟩
    · exact (congrArg LinkEntry.peer hkeeps).trans hpeer
    · rw [houtcome] at hidentified ⊢
      refine acceptSession_inForce engine hlaw hop hengine ?_ hidentified ?_
      · rw [houtcome] at haccepted
        exact (Bool.and_eq_true_iff.mp haccepted).2
      · -- what is bound to the link now was bound to it before
        refine or_iff_not_imp_right.mpr fun hbound => ?_
        rw [Bool.not_eq_false, boundTo_congr ((rename_attachments _ _ _ _).trans
          ((congrArg channelAttachment hkeeps).trans (congrArg (·[linkId]?) hattached)))
          (candidatePeer_identityHash peer (some frame))] at hbound
        cases hp : s.peers[linkId]? with
        | none =>
          have hnone : s.channelAttachmentLinks[linkId]? = none :=
            congrArg channelAttachment (htidy linkId hp).1
          rw [boundTo, hnone] at hbound
          cases hbound
        | some p =>
          obtain rfl := arrive_known harrive hp
          exact hasked' peer rfl hdispatch haccepted hp hbound

end Accepted

/-! The tables along a run. -/

section Runs
variable (host : Host) (engine : SessionEngine σ)

/-- What is torn down without being closed is clean. -/
def TearsClean (s : LiveServer σ) (i : LiveInput) : Prop :=
  ∀ l, tornDown host engine s i l → s.Clean l

theorem liveStep_tidy (hspares : engine.SparesRequester) (htidy : s.Tidy)
    (hclean : TearsClean host engine s i) (hknown : ContextKnown s i) :
    (liveStep host engine s i).2.Tidy := by
  intro l
  by_cases hown : i.ownLink = some l
  · exact liveStep_own host engine hspares (htidy l) hknown hown
  · exact (liveStep_follows host engine hown).tidyAt (htidy l) (hclean l)

end Runs

section Sessions
variable {τ ρ : Type}

/-- Along every run in which a session that is accepted asks for the channel attachments its link has,
what is torn down without being closed is clean, and a context is noted only of peers: after each
accepted session what is in force on an identified link is what was accepted, and every table has
only links that are peers. -/
theorem sessions_exact (host : Host) (serving : Serving τ ρ) (durable : DurableServing τ ρ)
    (publishing : Publishing τ ρ) (engine : SessionState τ ρ) (transport : Transport)
    (inputs : List LiveInput)
    (hruns : Machine.Meets (liveStep host (sessionEngine serving durable publishing))
      (fun s i => AttachmentsAsked host (sessionEngine serving durable publishing) s i ∧
        TearsClean host (sessionEngine serving durable publishing) s i ∧ ContextKnown s i)
      (new engine transport) inputs) :
    Machine.Meets (liveStep host (sessionEngine serving durable publishing))
      (SessionInForce host (sessionEngine serving durable publishing))
      (new engine transport) inputs ∧
    (Machine.run (liveStep host (sessionEngine serving durable publishing))
      (new engine transport) inputs).2.Tidy := by
  have hspares := sessionEngine_spares serving durable publishing
  have hlaw := sessionEngine_accepts serving durable publishing
  have hstart : (new engine transport).Tidy := by
    intro l _
    refine ⟨?_, fun e he => by cases he⟩
    rfl
  have hkeep : ∀ s i, LiveServer.Tidy s →
      (AttachmentsAsked host (sessionEngine serving durable publishing) s i ∧
        TearsClean host (sessionEngine serving durable publishing) s i ∧ ContextKnown s i) →
      (liveStep host (sessionEngine serving durable publishing) s i).2.Tidy :=
    fun s i htidy hok => liveStep_tidy host _ hspares htidy hok.2.1 hok.2.2
  refine ⟨Machine.meets_of_invariant hkeep ?_ hruns hstart, Machine.run_invariant hkeep _ _ hruns hstart⟩
  intro s i htidy hok
  exact liveStep_inForce host _ hspares hlaw htidy hok.1

/-- The first peer opens a session with durable mutations and channel attachments. -/
def openedInputs : List LiveInput :=
  [.linkOpened firstLink firstPeer 0,
    .linkData firstLink omenchatLinkContext
      (some (openFrame 1 [durableMutationCapability, channelAttachmentCapability])) 90 0]

def openedServer : LiveServer (SessionState RoomTable (PendingResourceStore × Unit)) :=
  (Machine.run (liveStep Host.reference bareEngine) newServer openedInputs).2

theorem LiveServer.clean_of_empty
    (h : (s.channelAttachmentLinks.isEmpty && s.channelUploads.isEmpty) = true) (l : LinkId) :
    s.Clean l := by
  obtain ⟨hlinks, huploads⟩ := Bool.and_eq_true_iff.mp h
  rw [LiveServer.Clean, Std.ExtTreeMap.isEmpty_iff.mp hlinks, stagedFor,
    List.isEmpty_iff.mp huploads]
  exact ⟨Std.ExtTreeMap.getElem?_empty, rfl⟩

/-- A session is accepted on a link that is known, and channel attachments are in force. -/
theorem sessions_exact_opened :
    inForce openedServer firstLink firstPeer .channelAttachment = true ∧ openedServer.Tidy := by
  refine ⟨by decide +kernel, (sessions_exact _ _ _ _ _ _ openedInputs ?_).2⟩
  refine ⟨⟨?_, ?_, ?_⟩, ⟨?_, ?_, ?_⟩, trivial⟩
  · intro _ _ _ _ _ _ _ h
    cases h
  · exact fun l _ => clean_of_empty (by decide +kernel) l
  · intro _ _ _ _ _ h
    cases h
  · rintro _ _ _ _ _ _ _ h _ _ _ _
    cases h
    decide +kernel
  · exact fun l _ => clean_of_empty (by decide +kernel) l
  · rintro _ _ _ _ _ h _ hnone
    cases h
    revert hnone
    decide +kernel

/-- A session that is accepted without channel attachments, on a link that had them, leaves them in
force; and a packet of nobody leaves its context behind. -/
theorem session_keeps_attachments :
    ¬Machine.Meets (liveStep Host.reference bareEngine) (SessionInForce Host.reference bareEngine)
      newServer (openedInputs ++
        [.linkData firstLink omenchatLinkContext (some (openFrame 2 [durableMutationCapability])) 70 0]) ∧
    ¬(Machine.run (liveStep Host.reference bareEngine) newServer
      [.linkData firstLink omenchatLinkContext (some (Frame.new .ping 1 none .empty)) 5 0]).2.Tidy := by
  refine ⟨fun hmeets => ?_, fun htidy => ?_⟩
  · have hforce : SessionInForce Host.reference bareEngine openedServer
        (.linkData firstLink omenchatLinkContext (some (openFrame 2 [durableMutationCapability])) 70 0) :=
      hmeets.2.2.1
    have hdispatch : (dispatchOf Host.reference bareEngine openedServer
        (.linkData firstLink omenchatLinkContext (some (openFrame 2 [durableMutationCapability])) 70 0)).map
          (fun dispatch => (dispatch.sessionAccepted,
            responsesAcceptCapability dispatch.answers channelAttachmentCapability)) =
        some (true, false) := by decide +kernel
    obtain ⟨dispatch, hfound, hpair⟩ := map_eq_some_iff.mp hdispatch
    obtain ⟨haccepted, hrefused⟩ := Prod.mk.inj hpair
    obtain ⟨peer, hpeer, hall, _⟩ :=
      hforce _ _ _ _ _ dispatch rfl hfound haccepted (by decide +kernel)
    have hsame : (liveStep Host.reference bareEngine openedServer
        (.linkData firstLink omenchatLinkContext (some (openFrame 2 [durableMutationCapability])) 70
          0)).2.peers[firstLink]? = some firstPeer := by decide +kernel
    cases hsame.symm.trans hpeer
    have hstill := (hall .channelAttachment).trans hrefused
    revert hstill
    decide +kernel
  · have hempty := congrArg LinkEntry.responseContext (htidy firstLink (by decide +kernel)).1
    revert hempty
    decide +kernel

end Sessions

end Omen.Server
