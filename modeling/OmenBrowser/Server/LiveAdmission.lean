import OmenBrowser.Server.LiveSessions

/- Which links are peers, and who they are (`handle_event`, `admit_new_link`,
   `peer_for_link_open` and `replace_duplicate_peer_links` of `server/src/live.rs`).

   What an event can do to a link is one of four things (`LinkChange`): the link stays as it
   is, it is gone, it is admitted, or its identity is set. A link is admitted while there is
   room, and the other links of an identity that is set are retired; so the bounds and the
   uniqueness of identities hold along every run.

   A link that has been identified may be given a provisional identity again. A peer is taken
   for provisional by its display name, and a link that was identified before it opened a
   session still has the name it was opened with; a second `LinkOpened` then replaces its
   identity. -/
namespace Omen.Server
open Wire Omen.Protocol Option LiveServer Std.ExtTreeMap LinkEntry

variable {σ : Type}
  {s : LiveServer σ} {linkId l : LinkId} {peer : ServerPeer}

/-- No other link has this identity. -/
def LiveServer.Alone (s : LiveServer σ) (l : LinkId) (identityHash : Bytes) : Prop :=
  ∀ l' ≠ l, ∀ p, s.peers[l']? = some p → p.identityHash ≠ identityHash

/-- The event sets the identity of the link. -/
inductive SetsIdentity (s : LiveServer σ) (l : LinkId) : LiveInput → ServerPeer → Prop
  | identified (identityHash : Vector UInt8 16) {p : ServerPeer} (h : p.identityHash = identityHash.toList) :
      SetsIdentity s l (.peerIdentified l identityHash) p
  | opened (peer : ServerPeer) (now : Int) :
      SetsIdentity s l (.linkOpened l peer now) (s.peerForLinkOpen l peer)

/-- What an event does to a link. -/
inductive LinkChange (s s' : LiveServer σ) (i : LiveInput) (l : LinkId) : Prop
  | stays (h : Stays l s s')
  | gone (hpeer : s'.peers[l]? = none) (hidentified : s'.identifiedLinks[l]? = none)
  | admitted {p : ServerPeer} (hown : i.ownLink = some l) (hnone : s.peers[l]? = none)
      (hadmits : s.admits = true) (hpeer : s'.peers[l]? = some p)
      (hunique : s'.identifiedLinks[l]? = s.identifiedLinks[l]? ∨ s'.Alone l p.identityHash)
  | set {p p' : ServerPeer} (hbefore : s.peers[l]? = some p) (hpeer : s'.peers[l]? = some p')
      (halone : s'.Alone l p'.identityHash)
      (hidentified : (s.identifiedLinks[l]?).isSome → (s'.identifiedLinks[l]?).isSome)
      (hopen : (s.sessionOpenLinks[l]?).isSome → (s'.sessionOpenLinks[l]?).isSome)
      (hset : SetsIdentity s l i p')

/-! The two events that set an identity. -/

/-- The other links of the identity are retired. -/
theorem replaceDuplicatePeerLinks_alone (linkId : LinkId) (peer : ServerPeer) (s : LiveServer σ) :
    (s.replaceDuplicatePeerLinks linkId peer).Alone linkId peer.identityHash := by
  intro l hne p hp hid
  have hretires := s.replaceDuplicatePeerLinks_retires linkId peer
  by_cases hl : l ∈ s.duplicateLinks linkId peer
  · have hgone := congrArg LinkEntry.peer (hretires.forgotten l hl)
    cases hgone.symm.trans hp
  · have hkept : s.peers[l]? = some p := (congrArg LinkEntry.peer (hretires.kept l hl)).symm.trans hp
    exact hl (mem_duplicateLinks.mpr ⟨hne, p, hkept, hid⟩)

theorem LiveServer.Alone.setPeer {identityHash : Bytes} (h : s.Alone linkId identityHash)
    (peer : ServerPeer) : (s.setPeer linkId peer).Alone linkId identityHash := by
  intro l hne p hp
  refine h l hne p ?_
  rwa [show (s.setPeer linkId peer).peers[l]? = s.peers[l]? from
    LinkMap.getElem?_insert_ne _ _ (Ne.symm hne)] at hp

section
variable (linkId : LinkId) (peer : ServerPeer) (now : Int) (s : LiveServer σ)

theorem openLinkAs_set :
    (openLinkAs linkId peer now s).peers[linkId]? = some (s.peerForLinkOpen linkId peer) ∧
    (openLinkAs linkId peer now s).Alone linkId (s.peerForLinkOpen linkId peer).identityHash ∧
    ((s.identifiedLinks[linkId]?).isSome →
      ((openLinkAs linkId peer now s).identifiedLinks[linkId]?).isSome) ∧
    (openLinkAs linkId peer now s).sessionOpenLinks[linkId]? = s.sessionOpenLinks[linkId]? := by
  unfold openLinkAs
  dsimp only
  generalize hmarked : (if isProvisionalPeer (s.peerForLinkOpen linkId peer) then s
    else s.markIdentified linkId) = marked
  have hidentified : (s.identifiedLinks[linkId]?).isSome → (marked.identifiedLinks[linkId]?).isSome := by
    rw [← hmarked]
    split
    · exact id
    · intro _
      rw [show (s.markIdentified linkId).identifiedLinks[linkId]? = some () from
        LinkMap.getElem?_insert_self _ _ _]
      rfl
  have hopen : marked.sessionOpenLinks[linkId]? = s.sessionOpenLinks[linkId]? := by
    rw [← hmarked]
    split
    · rfl
    · rfl
  have hown := replaceDuplicatePeerLinks_own linkId (s.peerForLinkOpen linkId peer) marked
  refine ⟨LinkMap.getElem?_insert_self _ _ _, ?_, ?_, ?_⟩
  · exact (replaceDuplicatePeerLinks_alone linkId _ marked).setPeer _
  · intro h
    rw [show (((marked.replaceDuplicatePeerLinks linkId _).openLink linkId _ now).identifiedLinks)[linkId]? =
      marked.identifiedLinks[linkId]? from congrArg identified hown]
    exact hidentified h
  · exact (congrArg sessionOpen hown).trans hopen

theorem linkOpened_change :
    LinkChange s (handleLinkOpened linkId peer now s) (.linkOpened linkId peer now) linkId := by
  unfold handleLinkOpened
  obtain ⟨hpeer, halone, hidentified, hopen⟩ := openLinkAs_set linkId peer now s
  cases hbefore : s.peers[linkId]? with
  | some p =>
    have hcontains : (s.peers.contains linkId || s.admits) = true := by
      rw [contains_eq_isSome_getElem?, hbefore]
      rfl
    rw [if_pos hcontains]
    exact .set hbefore hpeer halone hidentified (fun h => by rwa [hopen]) (.opened peer now)
  | none =>
    split
    · next h =>
      have hadmits : s.admits = true := by
        rw [contains_eq_isSome_getElem?, hbefore] at h
        exact h
      exact .admitted rfl hbefore hadmits hpeer (.inr halone)
    · exact .stays (Stays.of_same rfl)

end

theorem peerIdentified_change (linkId : LinkId) (identityHash : Vector UInt8 16) (s : LiveServer σ) :
    LinkChange s (s.identify linkId identityHash.toList) (.peerIdentified linkId identityHash) linkId := by
  unfold identify
  split
  · exact .stays (Stays.of_same (SameTables.refl s))
  · next existing hbefore =>
    generalize hcurrent : (if existing.identityHash = identityHash.toList then s
      else s.changeIdentity linkId) = current
    have hopen : current.sessionOpenLinks = s.sessionOpenLinks := by
      rw [← hcurrent]
      split
      · rfl
      · rfl
    have hown := replaceDuplicatePeerLinks_own linkId
      { existing with identityHash := identityHash.toList } (current.markIdentified linkId)
    refine .set hbefore (LinkMap.getElem?_insert_self _ _ _) ?_ ?_ ?_ (.identified identityHash rfl)
    · exact (replaceDuplicatePeerLinks_alone linkId _ (current.markIdentified linkId)).setPeer _
    · intro _
      have hmarked := (congrArg identified hown).trans
        (LinkMap.getElem?_insert_self current.identifiedLinks linkId ())
      rw [show (setPeer linkId _ _).identifiedLinks[linkId]? = some () from hmarked]
      rfl
    · intro h
      have hkept := congrArg sessionOpen hown
      rw [show (setPeer linkId _ _).sessionOpenLinks[linkId]? =
        current.sessionOpenLinks[linkId]? from hkept, hopen]
      exact h

/-! Packets. -/

section Packets
variable (host : Host) (engine : SessionEngine σ)

theorem linkData_change (hspares : engine.SparesRequester) (linkId : LinkId) (context : UInt8)
    (frame : Option Frame) (size : Nat) (now : Int) (s : LiveServer σ) :
    LinkChange s (liveStep host engine s (.linkData linkId context frame size now)).2
      (.linkData linkId context frame size now) linkId := by
  rcases harrive : arrive linkId context frame now s with ⟨known, arrived⟩
  obtain ⟨noted, hnoted, hcases⟩ := arrive_cases linkId context frame now s
  have hnoted : Stays linkId s noted := by
    rcases hnoted with rfl | ⟨_, _, rfl⟩
    · exact Stays.of_same (SameTables.refl _)
    · exact ⟨rfl, rfl, id⟩
  cases known with
  | none =>
    rw [(linkData_unknown host engine harrive size).1]
    rcases hcases with ⟨_, _, h⟩ | ⟨_, h⟩ | ⟨_, hsame, h, _⟩
    · cases h.symm.trans harrive
    · cases h.symm.trans harrive
    · cases h.symm.trans harrive
      exact .stays (hnoted.trans (Stays.of_same hsame))
  | some peer =>
    rw [(linkData_known host engine harrive size).1]
    have hhandled := handlePacket_stays host engine hspares (arrive_peer harrive) frame size
    rcases hcases with ⟨_, _, h⟩ | ⟨⟨hnone, hadmits⟩, h⟩ | ⟨_, _, h, _⟩
    · cases h.symm.trans harrive
      exact .stays (hnoted.trans hhandled)
    · cases h.symm.trans harrive
      obtain ⟨p, hp, _⟩ := map_eq_some_iff.mp (hhandled.identity.trans
        (congrArg (Option.map ServerPeer.identityHash) (arrive_peer harrive)))
      exact .admitted rfl hnone hadmits hp (.inl (hhandled.identified.trans hnoted.identified))
    · cases h.symm.trans harrive

/-- What an event can do to a link. -/
theorem liveStep_change (hspares : engine.SparesRequester) (s : LiveServer σ) (i : LiveInput)
    (l : LinkId) : LinkChange s (liveStep host engine s i).2 i l := by
  by_cases hown : i.ownLink = some l
  · cases i with
    | linkOpened linkId peer now =>
      obtain rfl := some.inj hown
      exact linkOpened_change linkId peer now s
    | peerIdentified linkId identityHash =>
      obtain rfl := some.inj hown
      exact peerIdentified_change linkId identityHash s
    | linkData linkId context frame size now =>
      obtain rfl := some.inj hown
      exact linkData_change host engine hspares linkId context frame size now s
    | channelAttachmentData linkId data =>
      obtain ⟨change, hsame, _⟩ := handleChannelAttachmentData_same host engine linkId data s
      have hstaged : Stays l s (s.applyStage linkId change) := by
        cases change with
        | keep => exact Stays.of_same (SameTables.refl s)
        | start | drop => exact ⟨rfl, rfl, id⟩
      exact .stays (hstaged.trans (Stays.of_same hsame))
    | resourceReceived linkId resourceId data =>
      exact .stays (Stays.of_same (handleResourceReceived_same host engine linkId resourceId data s))
    | resourceTerminal linkId direction outcome expectedSize =>
      exact .stays (Stays.of_same (handleResourceTerminal_same engine linkId direction outcome
        expectedSize s))
    | linkClosed linkId =>
      obtain rfl := some.inj hown
      have hentry := ((handleLinkClosed_same host engine linkId s).entry linkId).trans
        (closeLink_entry engine linkId s)
      exact .gone (congrArg peer hentry) (congrArg identified hentry)
    | disconnectIdentity | expirePendingHandshakes => cases hown
  · rcases (liveStep_follows host engine hown).entry with hsame | ⟨_, hforgotten, _⟩
    · exact .stays (Stays.of_entry hsame)
    · exact .gone (congrArg peer hforgotten) (congrArg identified hforgotten)

end Packets

/-! The bounds. -/

/-- `l` is a peer whose handshake is not complete. -/
def LiveServer.Pending (s : LiveServer σ) (l : LinkId) : Prop :=
  (s.peers[l]?).isSome ∧ ¬((s.identifiedLinks[l]?).isSome ∧ (s.sessionOpenLinks[l]?).isSome)

/-- The pending links, in the order of the links. -/
def LiveServer.pendingLinks (s : LiveServer σ) : List LinkId :=
  s.peers.keys.filter (fun linkId => !s.handshakeComplete linkId)

theorem LiveServer.mem_keys {ν : Type} {links : LinkMap ν} :
    l ∈ links.keys ↔ (links[l]?).isSome := by
  rw [Std.ExtTreeMap.mem_keys, Std.ExtTreeMap.mem_iff_isSome_getElem?]

theorem LiveServer.mem_pendingLinks : l ∈ s.pendingLinks ↔ s.Pending l := by
  unfold pendingLinks Pending handshakeComplete
  rw [List.mem_filter, mem_keys, contains_eq_isSome_getElem?,
    contains_eq_isSome_getElem?]
  cases (s.identifiedLinks[l]?).isSome <;> cases (s.sessionOpenLinks[l]?).isSome <;> simp

theorem LiveServer.length_pendingLinks (s : LiveServer σ) :
    s.pendingLinks.length = s.pendingHandshakeCount := List.countP_eq_length_filter.symm

theorem length_le_of_subset {xs ys : List LinkId} (hnodup : xs.Nodup) (hsub : ∀ l ∈ xs, l ∈ ys) :
    xs.length ≤ ys.length := (List.subperm_of_subset hnodup hsub).length_le

/-- The limits, and that who is identified is a peer and nobody is identified on two links. -/
structure LiveServer.Admitted (s : LiveServer σ) : Prop where
  active : s.peers.size ≤ activeLinkMaxItems
  pending : s.pendingHandshakeCount ≤ pendingHandshakeMaxItems
  unique : ∀ (l l' : LinkId) (p p' : ServerPeer), s.peers[l]? = some p → s.peers[l']? = some p' →
    (s.identifiedLinks[l]?).isSome → (s.identifiedLinks[l']?).isSome →
      p.identityHash = p'.identityHash → l = l'
  known : ∀ l : LinkId, s.peers[l]? = none → s.identifiedLinks[l]? = none

section Runs
variable (host : Host) (engine : SessionEngine σ)

section
variable (hspares : engine.SparesRequester) (s : LiveServer σ) (i : LiveInput) (l : LinkId)
include hspares

/-- A link that stays, or whose identity is set, was a peer; one more may be admitted. -/
theorem peers_subset (hl : ((liveStep host engine s i).2.peers[l]?).isSome) :
    (s.peers[l]?).isSome ∨ (i.ownLink = some l ∧ s.admits = true) := by
  cases liveStep_change host engine hspares s i l with
  | stays h =>
    refine .inl ?_
    have hsome := congrArg isSome h.identity
    rwa [isSome_map, isSome_map, hl, eq_comm] at hsome
  | gone hpeer _ =>
    rw [hpeer] at hl
    cases hl
  | admitted hown _ hadmits _ _ => exact .inr ⟨hown, hadmits⟩
  | set hbefore _ _ _ _ _ =>
    rw [hbefore]
    exact .inl rfl

theorem pending_subset (hl : (liveStep host engine s i).2.Pending l) :
    s.Pending l ∨ (i.ownLink = some l ∧ s.admits = true) := by
  rcases peers_subset host engine hspares s i l hl.1 with hbefore | hadmitted
  · refine .inl ⟨hbefore, fun hcomplete => hl.2 ?_⟩
    cases liveStep_change host engine hspares s i l with
    | stays h => exact ⟨by rw [h.identified]; exact hcomplete.1, h.sessionOpen hcomplete.2⟩
    | gone hpeer _ =>
      have hsome := hl.1
      rw [hpeer] at hsome
      cases hsome
    | admitted _ hnone _ _ _ =>
      rw [hnone] at hbefore
      cases hbefore
    | set _ _ _ hidentified hopen _ => exact ⟨hidentified hcomplete.1, hopen hcomplete.2⟩
  · exact .inr hadmitted

end

/-- A list of links that gains at most the link of the event, and that only while there is room. -/
theorem admitted_bound (s : LiveServer σ) (i : LiveInput) (before : List LinkId) {after : List LinkId}
    {limit : Nat} (hnodup : after.Nodup)
    (hsub : ∀ l ∈ after, l ∈ before ∨ (i.ownLink = some l ∧ s.admits = true))
    (hroom : s.admits = true → before.length < limit) (hbefore : before.length ≤ limit) :
    after.length ≤ limit := by
  cases hadmits : s.admits with
  | false =>
    refine (length_le_of_subset hnodup fun l hl => ?_).trans hbefore
    rcases hsub l hl with hin | ⟨_, hadmitted⟩
    · exact hin
    · rw [hadmits] at hadmitted
      cases hadmitted
  | true =>
    cases hown : i.ownLink with
    | none =>
      refine (length_le_of_subset hnodup fun l hl => ?_).trans hbefore
      rcases hsub l hl with hin | ⟨hl, _⟩
      · exact hin
      · rw [hown] at hl
        cases hl
    | some own =>
      have hlength : after.length ≤ (own :: before).length := by
        refine length_le_of_subset hnodup fun l hl => ?_
        rcases hsub l hl with hin | ⟨hl, _⟩
        · exact List.mem_cons_of_mem _ hin
        · rw [hown] at hl
          cases hl
          exact List.mem_cons_self
      have := hroom hadmits
      rw [List.length_cons] at hlength
      omega

theorem liveStep_unique (hspares : engine.SparesRequester) (h : s.Admitted) (i : LiveInput)
    {l' : LinkId} {p p' : ServerPeer} (hp : (liveStep host engine s i).2.peers[l]? = some p)
    (hp' : (liveStep host engine s i).2.peers[l']? = some p')
    (hidentified : ((liveStep host engine s i).2.identifiedLinks[l]?).isSome)
    (hidentified' : ((liveStep host engine s i).2.identifiedLinks[l']?).isSome)
    (hid : p.identityHash = p'.identityHash) : l = l' := by
  by_contra hne
  -- a link that is identified was identified before under this identity, or is alone with it
  have hcases : ∀ {l : LinkId} {p : ServerPeer}, (liveStep host engine s i).2.peers[l]? = some p →
      ((liveStep host engine s i).2.identifiedLinks[l]?).isSome →
      (∃ q, s.peers[l]? = some q ∧ q.identityHash = p.identityHash ∧ (s.identifiedLinks[l]?).isSome) ∨
        (liveStep host engine s i).2.Alone l p.identityHash := by
    intro l p hp hidentified
    cases liveStep_change host engine hspares s i l with
    | stays hstays =>
      rw [hstays.identified] at hidentified
      have hsame := hstays.identity
      rw [hp] at hsame
      obtain ⟨q, hq, hqid⟩ := map_eq_some_iff.mp hsame.symm
      exact .inl ⟨q, hq, hqid, hidentified⟩
    | gone hpeer _ => cases hpeer.symm.trans hp
    | admitted _ hnone _ hpeer hunique =>
      cases hpeer.symm.trans hp
      rcases hunique with hsame | halone
      · rw [hsame, h.known l hnone] at hidentified
        cases hidentified
      · exact .inr halone
    | set _ hpeer halone _ _ _ =>
      cases hpeer.symm.trans hp
      exact .inr halone
  rcases hcases hp hidentified with ⟨q, hq, hqid, hqidentified⟩ | halone
  · rcases hcases hp' hidentified' with ⟨q', hq', hqid', hqidentified'⟩ | halone
    · exact hne (h.unique l l' q q' hq hq' hqidentified hqidentified'
        (hqid.trans (hid.trans hqid'.symm)))
    · exact halone l hne p hp hid
  · exact halone l' (Ne.symm hne) p' hp' hid.symm

theorem liveStep_admitted (hspares : engine.SparesRequester) (h : s.Admitted) (i : LiveInput) :
    (liveStep host engine s i).2.Admitted := by
  have hlimits : s.admits = true → s.peers.size < activeLinkMaxItems ∧
      s.pendingHandshakeCount < pendingHandshakeMaxItems := by
    intro hadmits
    obtain ⟨hactive, hpending⟩ := Bool.and_eq_true_iff.mp hadmits
    exact ⟨of_decide_eq_true hactive, of_decide_eq_true hpending⟩
  refine ⟨?_, ?_, ?_, ?_⟩
  · rw [← length_keys]
    refine admitted_bound s i s.peers.keys nodup_keys
      (fun l hl => ?_) (fun hadmits => ?_) ?_
    · rw [mem_keys] at hl ⊢
      exact peers_subset host engine hspares s i l hl
    · rw [length_keys]
      exact (hlimits hadmits).1
    · rw [length_keys]
      exact h.active
  · rw [← length_pendingLinks]
    refine admitted_bound s i s.pendingLinks
      (nodup_keys.filter _) (fun l hl => ?_) (fun hadmits => ?_) ?_
    · rw [mem_pendingLinks] at hl ⊢
      exact pending_subset host engine hspares s i l hl
    · rw [length_pendingLinks]
      exact (hlimits hadmits).2
    · rw [length_pendingLinks]
      exact h.pending
  · intro l l' p p' hp hp' hidentified hidentified' hid
    exact liveStep_unique host engine hspares h i hp hp' hidentified hidentified' hid
  · intro l hnone
    cases liveStep_change host engine hspares s i l with
    | stays hstays =>
      rw [hstays.identified]
      refine h.known l ?_
      have hsame := hstays.identity
      rw [hnone] at hsame
      exact map_eq_none_iff.mp hsame.symm
    | gone _ hidentified => exact hidentified
    | admitted _ _ _ hpeer _ => cases hpeer.symm.trans hnone
    | set _ hpeer _ _ _ _ => cases hpeer.symm.trans hnone

/-! Who an identified link is. -/

/-- An identified link has another identity after the event only if the event identifies it so, or
opens it again for a peer that is not provisional. -/
def IdentityKept (s : LiveServer σ) (i : LiveInput) : Prop :=
  ∀ (l : LinkId) (p p' : ServerPeer), (s.identifiedLinks[l]?).isSome → s.peers[l]? = some p →
    (liveStep host engine s i).2.peers[l]? = some p' → p'.identityHash ≠ p.identityHash →
      (∃ identityHash, i = .peerIdentified l identityHash ∧ identityHash.toList = p'.identityHash) ∨
      ∃ peer now, i = .linkOpened l peer now ∧ isProvisionalPeer peer = false ∧
        peer.identityHash = p'.identityHash

omit host engine in
/-- The event is not the opening of an identified link, for a provisional peer of another identity,
while the name of its own peer is still that of a provisional one. -/
def NotReopened (s : LiveServer σ) (i : LiveInput) : Prop :=
  ∀ (l : LinkId) (peer : ServerPeer) (now : Int) (existing : ServerPeer),
    i = .linkOpened l peer now → s.peers[l]? = some existing → (s.identifiedLinks[l]?).isSome →
      isProvisionalPeer existing = true → isProvisionalPeer peer = true →
        peer.identityHash = existing.identityHash

omit host engine in
/-- Which identity a link has that is opened again. -/
theorem peerForLinkOpen_identity {existing : ServerPeer} (hexisting : s.peers[l]? = some existing)
    (peer : ServerPeer) :
    (s.peerForLinkOpen l peer).identityHash =
      if !isProvisionalPeer existing && isProvisionalPeer peer then existing.identityHash
      else peer.identityHash := by
  unfold peerForLinkOpen
  rw [hexisting]
  dsimp only
  split
  · rfl
  · rfl

theorem identityKept_iff (hspares : engine.SparesRequester) (s : LiveServer σ) (i : LiveInput) :
    IdentityKept host engine s i ↔ NotReopened s i := by
  refine ⟨?_, ?_⟩
  · rintro hkept l peer now existing rfl hexisting hidentified hprovisional hpeer
    by_contra hdiffers
    have hopened : (liveStep host engine s (.linkOpened l peer now)).2.peers[l]? =
        some (s.peerForLinkOpen l peer) := by
      show (handleLinkOpened l peer now s).peers[l]? = _
      unfold handleLinkOpened
      rw [if_pos (by rw [contains_eq_isSome_getElem?, hexisting]; rfl)]
      exact (openLinkAs_set l peer now s).1
    have hidentity := peerForLinkOpen_identity hexisting peer
    rw [hprovisional, hpeer, if_neg (by decide)] at hidentity
    rcases hkept l existing _ hidentified hexisting hopened (by rwa [hidentity]) with
      ⟨_, h, _⟩ | ⟨peer', now', h, hnot, _⟩
    · cases h
    · cases h
      rw [hpeer] at hnot
      cases hnot
  · intro hnot l p p' hidentified hp hp' hdiffers
    cases liveStep_change host engine hspares s i l with
    | stays h =>
      have hsame := h.identity
      rw [hp, hp'] at hsame
      exact absurd (some.inj hsame) hdiffers
    | gone hpeer _ => cases hpeer.symm.trans hp'
    | admitted _ hnone _ _ _ => cases hnone.symm.trans hp
    | set _ hpeer _ _ _ hset =>
      cases hpeer.symm.trans hp'
      cases hset with
      | identified identityHash h => exact .inl ⟨identityHash, rfl, h.symm⟩
      | opened peer now =>
        have hidentity := peerForLinkOpen_identity hp peer
        split at hidentity
        · exact absurd hidentity hdiffers
        · next hbranch =>
          refine .inr ⟨peer, now, rfl, ?_, hidentity.symm⟩
          by_contra hprovisional
          have hpeer : isProvisionalPeer peer = true := by simpa using hprovisional
          have hexisting : isProvisionalPeer p = true := by simpa [hpeer] using hbranch
          exact hdiffers (hidentity.trans (hnot l peer now p rfl hp hidentified hexisting hpeer))

end Runs

section Sessions
variable {τ ρ : Type}

/-- Along every run the links are within their limits and no identity is identified on two of them;
and who an identified link is changes only as it should along a run exactly when no step of it
reopens such a link for a provisional peer. -/
theorem link_admission (host : Host) (serving : Serving τ ρ) (durable : DurableServing τ ρ)
    (publishing : Publishing τ ρ) (engine : SessionState τ ρ) (transport : Transport)
    (inputs : List LiveInput) :
    (Machine.run (liveStep host (sessionEngine serving durable publishing))
      (new engine transport) inputs).2.Admitted ∧
    (Machine.Meets (liveStep host (sessionEngine serving durable publishing))
        (IdentityKept host (sessionEngine serving durable publishing))
        (new engine transport) inputs ↔
      Machine.Meets (liveStep host (sessionEngine serving durable publishing)) NotReopened
        (new engine transport) inputs) := by
  have hspares := sessionEngine_spares serving durable publishing
  refine ⟨Machine.run_invariant (I := LiveServer.Admitted)
    (fun s i h _ => liveStep_admitted host _ hspares h i) _ _ (Machine.meets_true _ _) ?_, ?_⟩
  · refine ⟨Nat.zero_le _, Nat.zero_le _, ?_, fun l _ => getElem?_empty⟩
    intro l l' p p' hp
    rw [show (new engine transport).peers = ∅ from rfl, getElem?_empty] at hp
    cases hp
  · exact Machine.meets_congr fun s i => identityKept_iff host _ hspares s i

end Sessions

/-- A link is opened, identified, and opened again as at first. -/
def reopenedInputs : List LiveInput :=
  [.linkOpened firstLink (provisionalPeer firstLink) 0,
    .peerIdentified firstLink (Vector.replicate 16 17),
    .linkOpened firstLink (provisionalPeer firstLink) 0]

/-- It has its provisional identity back, and counts as identified. -/
theorem reopened_link_provisional :
    ¬ Machine.Meets (liveStep Host.reference bareEngine) (IdentityKept Host.reference bareEngine)
      newServer reopenedInputs := by
  rintro ⟨_, _, hkept, _⟩
  have hbefore : (((Machine.run (liveStep Host.reference bareEngine) newServer
      (reopenedInputs.take 2)).2.peers[firstLink]?).map ServerPeer.identityHash) =
        some (List.replicate 16 17) := by decide +kernel
  have hafter : (((Machine.run (liveStep Host.reference bareEngine) newServer
      reopenedInputs).2.peers[firstLink]?).map ServerPeer.identityHash) = some firstLink.toList := by
    decide +kernel
  obtain ⟨p, hp, hid⟩ := map_eq_some_iff.mp hbefore
  obtain ⟨p', hp', hid'⟩ := map_eq_some_iff.mp hafter
  have hidentified : ((Machine.run (liveStep Host.reference bareEngine) newServer
      (reopenedInputs.take 2)).2.identifiedLinks[firstLink]?).isSome = true := by decide +kernel
  rcases hkept firstLink p p' hidentified hp hp' (by rw [hid, hid']; decide) with
    ⟨_, h, _⟩ | ⟨peer, now, h, hprovisional, _⟩
  · cases h
  · cases h
    revert hprovisional
    decide +kernel

end Omen.Server
