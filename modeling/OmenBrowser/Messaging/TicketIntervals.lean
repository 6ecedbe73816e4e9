import OmenBrowser.Messaging.TicketIssuer

/- Reply tickets over whole runs of preparations.

   What a file says of a peer lasts for an interval, unless the peer is forgotten to make room for
   another: `IncludedSince` is kept by every step that does not evict the peer. A peer that is
   evicted may be sent a second ticket at once (`tickets_without_interval`). -/
namespace Omen.Messaging
open Wire Outcome List Std.ExtTreeMap

variable {json : Json} {saved : Saved} {p : Preparation}
  {peers kept : IssuedTicketPeers} {peer bytes : Bytes} {entry : IssuedTicketEntry}
  {state loaded : IssuedTicketState} {json : Json}

/-! Peers. -/

theorem getElem?_retainLive (now : ℚ) (peers : IssuedTicketPeers) (peer : Bytes) :
    (retainLive now peers)[peer]? =
      peers[peer]?.filter fun entry => entry.expires + lxmfTicketGraceSecs ≥ now := by
  unfold retainLive
  rw [getElem?_filter']

theorem oldest_eq_some (h : oldest peers = some peer) :
    ∃ entry, peers[peer]? = some entry ∧
      ∀ (other : Bytes) (entry' : IssuedTicketEntry), peers[other]? = some entry' →
        entry.lastIncludedAt ≤ entry'.lastIncludedAt := by
  obtain ⟨⟨key, entry⟩, hmin, rfl⟩ := Option.map_eq_some_iff.mp h
  refine ⟨entry, mem_toList_iff_getElem?_eq_some.mp (argmin_mem hmin), ?_⟩
  intro other entry' hother
  have hmem : (other, entry') ∈ peers.toList :=
    mem_toList_iff_getElem?_eq_some.mpr hother
  exact le_of_mem_argmin (f := fun peer : Bytes × IssuedTicketEntry => peer.2.lastIncludedAt)
    hmem hmin

theorem makeRoom_ok (h : makeRoom peers peer = .ok kept) :
    kept = peers ∧ (peers.contains peer = true ∨ peers.size < issuedTicketMaxPeers) ∨
      ∃ evicted, peers.contains peer = false ∧ issuedTicketMaxPeers ≤ peers.size ∧
        oldest peers = some evicted ∧ kept = peers.erase evicted := by
  unfold makeRoom at h
  split at h
  · next hfull =>
    refine .inr ?_
    split at h
    · cases h
    · next evicted holdest =>
      cases h
      exact ⟨evicted, hfull.1, hfull.2, holdest, rfl⟩
  · next hroom =>
    cases h
    refine .inl ⟨rfl, ?_⟩
    rw [not_and_or, Bool.not_eq_false, not_le] at hroom
    exact hroom

/-! Valid states. -/

/-- What an entry of a valid state is. -/
structure ValidEntry (peer : Bytes) (entry : IssuedTicketEntry) : Prop where
  peerHash : validatePeerHash peer = .ok ()
  length : entry.ticket.length = lxmfTicketBytes
  expires : 0 ≤ entry.expires
  lastIncludedAt : 0 ≤ entry.lastIncludedAt
  lifetime : entry.expires ≤ entry.lastIncludedAt + lxmfTicketExpirySecs

theorem validateEntry_ok : validateEntry (peer, entry) = .ok () ↔ ValidEntry peer entry := by
  unfold validateEntry
  rw [check_ok, refuse_ok]
  simp only [not_or, not_not, not_lt, ne_eq, gt_iff_lt]
  exact ⟨fun ⟨h₁, h₂, h₃, h₄, h₅⟩ => ⟨h₁, h₂, h₃, h₄, h₅⟩, fun h => ⟨h.1, h.2, h.3, h.4, h.5⟩⟩

theorem validateState_ok :
    validateState state = .ok () ↔ state.version = issuedTicketStateVersion ∧
      state.peers.size ≤ issuedTicketMaxPeers ∧
      ∀ (peer : Bytes) (entry : IssuedTicketEntry), state.peers[peer]? = some entry →
        ValidEntry peer entry := by
  unfold validateState
  rw [refuse_bind_ok, refuse_bind_ok, forM_ok, not_not, not_lt]
  refine and_congr_right fun _ => and_congr_right fun _ => ?_
  constructor
  · intro h peer entry hentry
    exact validateEntry_ok.mp (h _ (mem_toList_iff_getElem?_eq_some.mpr hentry))
  · rintro h ⟨peer, entry⟩ hmem
    exact validateEntry_ok.mpr (h peer entry (mem_toList_iff_getElem?_eq_some.mp hmem))

theorem validateState_default : validateState .default = .ok () := by
  rw [validateState_ok]
  refine ⟨rfl, Nat.zero_le _, fun peer entry h => ?_⟩
  rw [IssuedTicketState.default, getElem?_empty] at h
  cases h

theorem readSaved_valid (h : readSaved json saved = .ok state) : validateState state = .ok () := by
  unfold readSaved at h
  cases saved with
  | none =>
    cases h
    exact validateState_default
  | some bytes =>
    rw [refuse_bind_ok] at h
    obtain ⟨-, h⟩ := h
    split at h
    · cases h
    · obtain ⟨hvalid, hok⟩ := check_ok.mp h
      cases hok
      exact hvalid

section Written
variable {loaded : IssuedTicketState} {kept : IssuedTicketPeers} {bytes : Bytes}

/-- What was saved is loaded. -/
theorem Writes.reads (h : Writes json saved p loaded kept bytes) (hjson : json.Reads) :
    readSaved json (some bytes) = .ok (p.issued loaded kept) := by
  unfold readSaved
  rw [refuse_bind_ok]
  refine ⟨not_lt.mpr h.fits, ?_⟩
  rw [hjson _ _ h.encoded]
  exact check_ok.mpr ⟨h.valid, rfl⟩

/-- A peer that is not suppressed was included an interval ago. -/
theorem suppressed_false {now : ℚ} (h : suppressed peers peer now = false)
    (hentry : peers[peer]? = some entry) : entry.lastIncludedAt + lxmfTicketIntervalSecs ≤ now := by
  unfold suppressed at h
  rw [hentry] at h
  have helapsed := of_decide_eq_false h
  linarith

/-- A ticket is handed out with more than the renewal period and at most the expiry period
    ahead of it. -/
theorem Writes.expires (h : Writes json saved p loaded kept bytes) :
    p.now + lxmfTicketRenewSecs < (p.choice loaded).1.expires ∧
      (p.choice loaded).1.expires ≤ p.now + lxmfTicketExpirySecs := by
  have hfresh : p.now + lxmfTicketRenewSecs < (freshTicket p.now p.random).1.expires ∧
      (freshTicket p.now p.random).1.expires ≤ p.now + lxmfTicketExpirySecs := by
    simp only [freshTicket, lxmfTicketRenewSecs, lxmfTicketExpirySecs]
    constructor <;> linarith
  unfold Preparation.choice chooseTicket
  split
  · next entry hentry =>
    split
    · next hrenew =>
      -- a ticket that is reused expires by what was validated when it was loaded
      have hago := suppressed_false h.asked hentry
      rw [getElem?_retainLive, Option.filter_eq_some_iff] at hentry
      have hvalid := (validateState_ok.mp (readSaved_valid h.loads)).2.2 _ _ hentry.1
      have hlife := hvalid.lifetime
      simp only [lxmfTicketIntervalSecs] at hago
      constructor <;> linarith
    · exact hfresh
  · exact hfresh

theorem issued_own (p : Preparation) (loaded : IssuedTicketState) (kept : IssuedTicketPeers) :
    (p.issued loaded kept).peers[p.peer]? =
      some ⟨(p.choice loaded).1.ticket, (p.choice loaded).1.expires, p.now⟩ := by
  exact getElem?_insert_self

end Written

/-! Evictions and intervals. -/

/-- A preparation forgets a peer to make room for another. -/
def Evicts (json : Json) (saved : Saved) (p : Preparation) (peer : Bytes) : Prop :=
  ∃ loaded kept bytes, Writes json saved p loaded kept bytes ∧
    (retainLive p.now loaded.peers).contains p.peer = false ∧
    issuedTicketMaxPeers ≤ (retainLive p.now loaded.peers).size ∧
    oldest (retainLive p.now loaded.peers) = some peer

/-- What the file says of a peer that was included at `t` or later. -/
def IncludedSince (json : Json) (saved : Saved) (peer : Bytes) (t : ℚ) : Prop :=
  ∃ loaded entry, readSaved json saved = .ok loaded ∧ loaded.peers[peer]? = some entry ∧
    t ≤ entry.lastIncludedAt ∧ t + lxmfTicketRenewSecs < entry.expires

variable {peer : Bytes} {t : ℚ}

/-- An entry that is dropped has run out for longer than an interval. -/
theorem live_or_late {peers : IssuedTicketPeers} {entry : IssuedTicketEntry} {now : ℚ}
    (hentry : peers[peer]? = some entry) (hexpires : t + lxmfTicketRenewSecs < entry.expires) :
    (retainLive now peers)[peer]? = some entry ∨ t + lxmfTicketIntervalSecs ≤ now := by
  rw [getElem?_retainLive, hentry, Option.filter_some]
  by_cases hlive : entry.expires + lxmfTicketGraceSecs ≥ now
  · exact .inl (if_pos (decide_eq_true hlive))
  · right
    simp only [lxmfTicketRenewSecs, lxmfTicketIntervalSecs, lxmfTicketGraceSecs] at hexpires hlive ⊢
    linarith

/-- A preparation that writes says of its own peer when it was included. -/
theorem Writes.includedSince (h : Writes json saved p loaded kept bytes) (hjson : json.Reads)
    (ht : t ≤ p.now) : IncludedSince json (some bytes) p.peer t :=
  ⟨_, _, h.reads hjson, issued_own p loaded kept, ht, by linarith [h.expires.1]⟩

/-- The step lemma: a peer is forgotten only in time, or to make room. -/
theorem IncludedSince.step (h : IncludedSince json saved peer t) (hjson : json.Reads)
    (ht : t ≤ p.now) (hkept : ¬Evicts json saved p peer) :
    IncludedSince json (step json saved p).2 peer t ∨ t + lxmfTicketIntervalSecs ≤ p.now := by
  unfold Messaging.step
  rcases prepare_cases json p saved with hidle | ⟨loaded, kept, bytes, hwrites, hresult⟩
  · rw [hidle.1]
    exact .inl h
  have hbytes : (prepare json p saved).2 = some bytes := by
    rcases hresult with hresult | ⟨-, hresult⟩ <;> rw [hresult]
  rw [hbytes]
  by_cases hown : p.peer = peer
  · subst hown
    exact .inl (hwrites.includedSince hjson ht)
  obtain ⟨loaded', entry, hloads, hentry, hlast, hexpires⟩ := h
  cases hwrites.loads.symm.trans hloads
  rcases @live_or_late _ _ _ _ p.now hentry hexpires with hlive | hlate
  · refine .inl ⟨_, entry, hwrites.reads hjson, ?_, hlast, hexpires⟩
    have hother : (p.issued loaded kept).peers[peer]? = kept[peer]? := by
      unfold Preparation.issued
      rw [Std.ExtTreeMap.getElem?_insert, if_neg]
      rwa [Std.LawfulEqCmp.compare_eq_iff_eq]
    rw [hother]
    rcases makeRoom_ok hwrites.room with ⟨rfl, -⟩ | ⟨evicted, hnew, hfull, holdest, rfl⟩
    · exact hlive
    · have hne : evicted ≠ peer := by
        rintro rfl
        exact hkept ⟨loaded, _, bytes, hwrites, hnew, hfull, holdest⟩
      rw [getElem?_erase, if_neg]
      · exact hlive
      · rwa [Std.LawfulEqCmp.compare_eq_iff_eq]
  · exact .inr hlate

/-- The run lemma. -/
theorem IncludedSince.run (h : IncludedSince json saved peer t) (hjson : json.Reads)
    {ps : List Preparation}
    (hps : ∀ p ∈ ps, t ≤ p.now)
    (hkept : Machine.Meets (Messaging.step json) (fun saved p => ¬Evicts json saved p peer) saved ps) :
    IncludedSince json (Machine.run (Messaging.step json) saved ps).2 peer t ∨
      ∃ p ∈ ps, t + lxmfTicketIntervalSecs ≤ p.now := by
  induction ps generalizing saved with
  | nil => exact .inl h
  | cons p ps ih =>
    rcases h.step hjson (hps p mem_cons_self) hkept.1 with hnext | hlate
    · rcases ih hnext (fun q hq => hps q (mem_cons_of_mem p hq)) hkept.2 with
        hlast | ⟨q, hq, hlate⟩
      · exact .inl hlast
      · exact .inr ⟨q, mem_cons_of_mem p hq, hlate⟩
    · exact .inr ⟨p, mem_cons_self, hlate⟩

/-- A preparation hands out a ticket. -/
def HandsOut (json : Json) (saved : Saved) (p : Preparation) : Prop :=
  ∃ decision ticket, (step json saved p).1 = .ok decision ∧ decision.ticket = some ticket

theorem HandsOut.writes (h : HandsOut json saved p) :
    ∃ loaded kept bytes, Writes json saved p loaded kept bytes ∧
      prepare json p saved = (.ok ⟨(p.choice loaded).2, some (p.choice loaded).1⟩, some bytes) := by
  obtain ⟨decision, ticket, hdecision, hticket⟩ := h
  unfold Messaging.step at hdecision
  rcases prepare_cases json p saved with ⟨-, hnone⟩ | ⟨loaded, kept, bytes, hwrites, hresult⟩
  · rw [hnone decision hdecision] at hticket
    cases hticket
  · rcases hresult with hresult | ⟨-, hresult⟩
    · exact ⟨loaded, kept, bytes, hwrites, hresult⟩
    · rw [hresult] at hdecision
      cases hdecision

/-- A peer that is known to have been included gets its next ticket an interval later. -/
theorem IncludedSince.interval (h : IncludedSince json saved p.peer t) (hhands : HandsOut json saved p) :
    t + lxmfTicketIntervalSecs ≤ p.now := by
  obtain ⟨loaded, kept, bytes, hwrites, -⟩ := hhands.writes
  obtain ⟨loaded', entry, hloads, hentry, hlast, hexpires⟩ := h
  cases hwrites.loads.symm.trans hloads
  rcases @live_or_late _ _ _ _ p.now hentry hexpires with hlive | hlate
  · have hago := suppressed_false hwrites.asked hlive
    linarith
  · exact hlate

/-- Where a peer is forgotten to make room, the file is full, and all its peers were included no
    earlier. -/
theorem Evicts.oldest (h : Evicts json saved p peer) :
    ∃ loaded entry, readSaved json saved = .ok loaded ∧
      loaded.peers.size = issuedTicketMaxPeers ∧ loaded.peers[p.peer]? = none ∧
      loaded.peers[peer]? = some entry ∧
      ∀ (other : Bytes) (entry' : IssuedTicketEntry), loaded.peers[other]? = some entry' →
        entry.lastIncludedAt ≤ entry'.lastIncludedAt := by
  obtain ⟨loaded, kept, bytes, hwrites, hnew, hfull, holdest⟩ := h
  have hbound := (validateState_ok.mp (readSaved_valid hwrites.loads)).2.1
  have hless : (retainLive p.now loaded.peers).size ≤ loaded.peers.size :=
    size_filter_le_size
  -- no entry was dropped
  have hsame : retainLive p.now loaded.peers = loaded.peers := by
    apply filter_eq_self_iff.mpr
    exact size_filter_eq_size_iff.mp (hless.antisymm (hbound.trans hfull))
  rw [hsame] at hnew hfull holdest
  obtain ⟨entry, hentry, hleast⟩ := oldest_eq_some holdest
  exact ⟨loaded, entry, hwrites.loads, hbound.antisymm hfull,
    getElem?_eq_none_of_contains_eq_false hnew, hentry, hleast⟩

/-- Reply tickets in every run with a clock that does not go back. -/
theorem reply_tickets_kept (json : Json) (hjson : json.Reads) (saved : Saved)
    (ps : List Preparation) (hclock : (ps.map Preparation.now).Pairwise (· ≤ ·)) :
    (∀ pre p post, ps = pre ++ p :: post →
      let before := (Machine.run (step json) saved pre).2
      let outcome := (step json before p).1
      let after := (step json before p).2
      (∀ state, readSaved json after = .ok state → state.peers.size ≤ issuedTicketMaxPeers) ∧
      (∀ decision ticket, outcome = .ok decision → decision.ticket = some ticket →
        p.now + lxmfTicketRenewSecs < ticket.expires ∧
          ticket.expires ≤ p.now + lxmfTicketExpirySecs) ∧
      (∀ e, outcome = .error e → p.fault ≠ some .directorySync → after = before) ∧
      (after = before ∨ ∃ state bytes, after = some bytes ∧ json.toVec state = some bytes ∧
        validateState state = .ok () ∧ readSaved json (some bytes) = .ok state)) ∧
    (∀ pre p mid q post, ps = pre ++ p :: (mid ++ q :: post) → p.peer = q.peer →
      let before := (Machine.run (step json) saved pre).2
      let after := (step json before p).2
      HandsOut json before p → HandsOut json (Machine.run (step json) after mid).2 q →
      Machine.Meets (step json) (fun saved r => ¬Evicts json saved r p.peer) after mid →
      p.now + lxmfTicketIntervalSecs ≤ q.now) ∧
    (∀ saved p peer, Evicts json saved p peer → ∃ loaded entry,
      readSaved json saved = .ok loaded ∧ loaded.peers.size = issuedTicketMaxPeers ∧
      loaded.peers[p.peer]? = none ∧ loaded.peers[peer]? = some entry ∧
      ∀ (other : Bytes) (entry' : IssuedTicketEntry), loaded.peers[other]? = some entry' →
        entry.lastIncludedAt ≤ entry'.lastIncludedAt) := by
  refine ⟨fun pre p post hps => ?_, fun pre p mid q post hps hpeer => ?_,
    fun saved p peer hevicts => hevicts.oldest⟩
  · intro before outcome after
    refine ⟨?_, ?_, ?_, ?_⟩
    · intro state hstate
      exact (validateState_ok.mp (readSaved_valid hstate)).2.1
    · intro decision ticket hdecision hticket
      obtain ⟨loaded, kept, bytes, hwrites, hresult⟩ :=
        HandsOut.writes ⟨decision, ticket, hdecision, hticket⟩
      have hsame : decision = ⟨(p.choice loaded).2, some (p.choice loaded).1⟩ := by
        have hout : outcome = .ok ⟨(p.choice loaded).2, some (p.choice loaded).1⟩ :=
          congrArg Prod.fst hresult
        exact Except.ok.inj (hdecision.symm.trans hout)
      subst hsame
      cases hticket
      exact hwrites.expires
    · intro e he hsync
      rcases prepare_cases json p before with hidle | ⟨loaded, kept, bytes, -, hresult⟩
      · exact hidle.1
      · rcases hresult with hresult | ⟨hfault, -⟩
        · have hout : outcome = _ := congrArg Prod.fst hresult
          rw [hout] at he
          cases he
        · exact absurd hfault hsync
    · rcases prepare_cases json p before with hidle | ⟨loaded, kept, bytes, hwrites, hresult⟩
      · exact .inl hidle.1
      · refine .inr ⟨_, bytes, ?_, hwrites.encoded, hwrites.valid, hwrites.reads hjson⟩
        rcases hresult with hresult | ⟨-, hresult⟩ <;> exact congrArg Prod.snd hresult
  · intro before after hfirst hsecond hkept
    obtain ⟨loaded, kept, bytes, hwrites, hresult⟩ := hfirst.writes
    have hafter : after = some bytes := congrArg Prod.snd hresult
    have hincluded : IncludedSince json after p.peer p.now :=
      hafter ▸ hwrites.includedSince hjson le_rfl
    -- the times of the run from here on
    rw [hps, map_append, pairwise_append, map_cons, pairwise_cons] at hclock
    obtain ⟨-, ⟨hfrom, hrest⟩, -⟩ := hclock
    rw [map_append, pairwise_append] at hrest
    have hmid : ∀ r ∈ mid, p.now ≤ r.now := fun r hr =>
      hfrom _ (mem_map_of_mem (mem_append_left _ hr))
    rcases hincluded.run hjson hmid hkept with hlast | ⟨r, hr, hlate⟩
    · rw [hpeer] at hlast
      exact hlast.interval hsecond
    · have horder := hrest.2.2 _ (mem_map_of_mem hr) _
        (mem_map_of_mem mem_cons_self)
      linarith

/-- A preparation writes as soon as it is asked to, and nothing disturbs it. -/
theorem Writes.prepare (h : Writes json saved p loaded kept bytes) (hrequested : p.requested = true)
    (hpeer : validatePeerHash p.peerHash = .ok ()) (hfault : p.fault = none) :
    Messaging.prepare json p saved =
      (.ok ⟨(p.choice loaded).2, some (p.choice loaded).1⟩, some bytes) := by
  have hload : loadState json none saved = (.ok loaded, saved) := congrArg (·, saved) h.loads
  have hsave : saveState json none (p.issued loaded kept) saved = (.ok (), some bytes) := by
    unfold saveState
    rw [encodeState_ok.mpr ⟨h.encoded, h.fits⟩]
    rfl
  have hgate : ¬(none : Option Fault) = some .gate := fun heq => nomatch heq
  unfold Messaging.prepare
  rw [if_neg (by rw [hrequested]; decide), hpeer, Act.lift_bind,
    refuse, if_neg (not_lt.mpr h.time), Act.lift_bind, hfault, refuse, if_neg hgate, Act.lift_bind]
  unfold prepareBlocking
  rw [Act.bind_ok hload]
  simp only [h.asked, Bool.false_eq_true, if_false]
  rw [h.room, Act.lift_bind]
  show (do
    Act.lift (validateState (p.issued loaded kept))
    saveState json none (p.issued loaded kept)
    pure ⟨(p.choice loaded).2, some (p.choice loaded).1⟩ :
    Act Saved AppError NativeLxmfTicketIssueDecision) saved = _
  rw [h.valid, Act.lift_bind, Act.bind_ok hsave]
  rfl

/-! The file as it is written where times are whole. -/

def ascii (text : String) : Bytes := text.toList.map fun c => c.toNat.toUInt8

def decimal (n : Nat) : Bytes := (Nat.toDigits 10 n).map fun c => c.toNat.toUInt8

def joined : List Bytes → Bytes
  | [] => []
  | [part] => part
  | part :: parts => part ++ ascii "," ++ joined parts

/-- An entry as the file has it. -/
def entryText (peer : Bytes × IssuedTicketEntry) : Bytes :=
  ascii "\"" ++ peer.1 ++ ascii "\":\x7b\"ticket\":[" ++
    joined (peer.2.ticket.map fun byte => decimal byte.toNat) ++ ascii "],\"expires\":" ++
    decimal peer.2.expires.num.toNat ++ ascii ".0,\"last_included_at\":" ++
    decimal peer.2.lastIncludedAt.num.toNat ++ ascii ".0\x7d"

/-- The file of a state. -/
def stateText (state : IssuedTicketState) : Bytes :=
  ascii "\x7b\"version\":" ++ decimal state.version ++ ascii ",\"peers\":\x7b" ++
    joined (state.peers.toList.map entryText) ++ ascii "\x7d\x7d"

/-- Writes and reads the states that are listed, which begin differently. -/
def listed (n : Nat) (states : List IssuedTicketState) : Json where
  toVec state :=
    if states.any fun s => s.version = state.version ∧ s.peers.toList = state.peers.toList then
      some (stateText state)
    else none
  fromSlice bytes := states.find? fun state => (stateText state).take n = bytes.take n

section Listed
variable {n : Nat} {states : List IssuedTicketState} {state : IssuedTicketState}

theorem state_ext {s s' : IssuedTicketState} (hversion : s.version = s'.version)
    (hpeers : s.peers.toList = s'.peers.toList) : s = s' := by
  obtain ⟨version, peers⟩ := s
  obtain ⟨version', peers'⟩ := s'
  cases hversion
  cases toList_inj.mp hpeers
  rfl

theorem listed_toVec :
    (listed n states).toVec state = some bytes ↔ state ∈ states ∧ stateText state = bytes := by
  have hany : (states.any fun s => s.version = state.version ∧
      s.peers.toList = state.peers.toList) = true ↔ state ∈ states := by
    rw [any_eq_true]
    constructor
    · rintro ⟨s, hs, hsame⟩
      obtain ⟨hversion, hpeers⟩ := of_decide_eq_true hsame
      exact state_ext hversion hpeers ▸ hs
    · intro hs
      exact ⟨state, hs, decide_eq_true ⟨rfl, rfl⟩⟩
  by_cases hmem : state ∈ states
  · simp only [listed, if_pos (hany.mpr hmem), Option.some.injEq, and_iff_right hmem]
  · simp only [listed, if_neg (mt hany.mp hmem), hmem, false_and, reduceCtorEq]

theorem listed_reads
    (h : states.Pairwise fun s s' => (stateText s).take n ≠ (stateText s').take n) :
    (listed n states).Reads := by
  intro state bytes hvec
  obtain ⟨hmem, rfl⟩ := listed_toVec.mp hvec
  show states.find? (fun s => (stateText s).take n = (stateText state).take n) = some state
  clear hvec
  induction states with
  | nil => cases hmem
  | cons first states ih =>
    obtain ⟨hfirst, hrest⟩ := pairwise_cons.mp h
    rcases mem_cons.mp hmem with rfl | hmem
    · exact find?_cons_of_pos (decide_eq_true rfl)
    · rw [find?_cons_of_neg]
      · exact ih hrest hmem
      · rw [decide_eq_true_eq]
        exact hfirst state hmem

end Listed

/-! A crowd that was all included at one time. -/

def hexDigit (d : Nat) : UInt8 := if d < 10 then (48 + d).toUInt8 else (87 + d).toUInt8

/-- A peer for each number below 4096. -/
def hexPeer (n : Nat) : Bytes :=
  [hexDigit (n / 256), hexDigit (n / 16 % 16), hexDigit (n % 16)] ++ replicate 29 48

theorem hexDigit_inj : ∀ d < 16, ∀ e < 16, hexDigit d = hexDigit e → d = e := by decide

theorem hexDigit_valid : ∀ d < 16, isAsciiHexdigit (hexDigit d) = true := by decide

theorem hexPeer_inj {n m : Nat} (hn : n < 4096) (hm : m < 4096) (h : hexPeer n = hexPeer m) :
    n = m := by
  simp only [hexPeer, cons_append, nil_append, cons.injEq, and_true] at h
  obtain ⟨h₁, h₂, h₃⟩ := h
  have h₁ := hexDigit_inj _ (by omega) _ (by omega) h₁
  have h₂ := hexDigit_inj _ (by omega) _ (by omega) h₂
  have h₃ := hexDigit_inj _ (by omega) _ (by omega) h₃
  omega

theorem hexPeer_valid {n : Nat} (hn : n < 4096) : validatePeerHash (hexPeer n) = .ok () := by
  rw [validatePeerHash, refuse_ok, not_or, not_not, not_not]
  refine ⟨rfl, ?_⟩
  rw [hexPeer, all_append, all_cons, all_cons, all_cons,
    hexDigit_valid _ (by omega), hexDigit_valid _ (by omega), hexDigit_valid _ (by omega)]
  rfl

/-- A peer's name in small letters is its name. -/
theorem toAsciiLowercase_hexPeer {n : Nat} (hn : n < 4096) :
    toAsciiLowercase (hexPeer n) = hexPeer n := by
  have hdigit : ∀ d < 16, (if 65 ≤ hexDigit d ∧ hexDigit d ≤ 90 then hexDigit d + 32
      else hexDigit d) = hexDigit d := by decide
  simp only [toAsciiLowercase, hexPeer, map_append, map_cons, map_nil,
    hdigit _ (show n / 256 < 16 by omega), hdigit _ (show n / 16 % 16 < 16 by omega),
    hdigit _ (show n % 16 < 16 by omega)]
  rfl

def blank : IssuedTicketEntry := ⟨replicate 16 0, 1814400, 0⟩

/-- A blank entry for each of these peers. -/
def crowd (peers : List Nat) : IssuedTicketState :=
  ⟨1, peers.foldr (fun n peers => peers.insert (hexPeer n) blank) ∅⟩

/-- A peer asks for a ticket. -/
def asking (n : Nat) (now : ℚ) : Preparation where
  peerHash := hexPeer n
  requested := true
  now := now
  random := replicate 16 0
  fault := none
  random_length := rfl

theorem crowd_cons (n : Nat) (ns : List Nat) :
    (crowd (n :: ns)).peers = (crowd ns).peers.insert (hexPeer n) blank := rfl

theorem crowd_getElem? (ns : List Nat) (peer : Bytes) :
    (crowd ns).peers[peer]? = if peer ∈ ns.map hexPeer then some blank else none := by
  induction ns with
  | nil => exact getElem?_empty
  | cons n ns ih =>
    rw [crowd_cons, Std.ExtTreeMap.getElem?_insert, ih, map_cons]
    by_cases hpeer : hexPeer n = peer
    · simp [hpeer]
    · rw [if_neg (by rwa [Std.LawfulEqCmp.compare_eq_iff_eq])]
      simp [Ne.symm hpeer]

theorem crowd_size (ns : List Nat) (h : (ns.map hexPeer).Nodup) :
    (crowd ns).peers.size = ns.length := by
  induction ns with
  | nil => rfl
  | cons n ns ih =>
    obtain ⟨hnew, hrest⟩ := nodup_cons.mp h
    rw [crowd_cons, size_insert, ih hrest, contains_eq_isSome_getElem?,
      crowd_getElem?, if_neg hnew]
    rfl

theorem crowd_retainLive (ns : List Nat) : retainLive 0 (crowd ns).peers = (crowd ns).peers := by
  apply Std.ExtTreeMap.ext_getElem?
  intro peer
  rw [getElem?_retainLive, crowd_getElem?]
  split
  · exact Option.filter_some_pos (by norm_num [blank, lxmfTicketGraceSecs])
  · rfl

/-- Peers with small numbers, no two the same. -/
def Numbers (ns : List Nat) : Prop := ns.Nodup ∧ ∀ n ∈ ns, n < 4096

section Crowd
variable {n : Nat} {ns : List Nat}

theorem Numbers.tail (h : Numbers (n :: ns)) : Numbers ns :=
  ⟨h.1.of_cons, fun m hm => h.2 m (mem_cons_of_mem n hm)⟩

theorem Numbers.swap {m : Nat} (h : Numbers (m :: n :: ns)) : Numbers (n :: m :: ns) :=
  have hswap := List.Perm.swap m n ns
  ⟨hswap.nodup_iff.mpr h.1, fun k hk => h.2 k (hswap.mem_iff.mp hk)⟩

theorem Numbers.lt (h : Numbers (n :: ns)) : n < 4096 := h.2 n mem_cons_self

theorem Numbers.mem (h : Numbers ns) (hn : n < 4096) : hexPeer n ∈ ns.map hexPeer ↔ n ∈ ns := by
  refine ⟨fun hmem => ?_, mem_map_of_mem⟩
  obtain ⟨m, hm, heq⟩ := mem_map.mp hmem
  rwa [hexPeer_inj (h.2 m hm) hn heq] at hm

/-- A peer with another number is not in the crowd. -/
theorem Numbers.new (h : Numbers (n :: ns)) : hexPeer n ∉ ns.map hexPeer :=
  mt (h.tail.mem h.lt).mp (nodup_cons.mp h.1).1

theorem Numbers.size (h : Numbers ns) : (crowd ns).peers.size = ns.length :=
  crowd_size ns (h.1.map_on fun n hn m hm => hexPeer_inj (h.2 n hn) (h.2 m hm))

theorem Numbers.validState (h : Numbers ns) (hlength : ns.length ≤ issuedTicketMaxPeers) :
    validateState (crowd ns) = .ok () := by
  rw [validateState_ok]
  refine ⟨rfl, h.size ▸ hlength, fun peer entry hentry => ?_⟩
  rw [crowd_getElem?] at hentry
  split at hentry
  · next hmem =>
    cases hentry
    obtain ⟨n, hn, rfl⟩ := mem_map.mp hmem
    refine ⟨hexPeer_valid (h.2 n hn), rfl, ?_, ?_, ?_⟩ <;> norm_num [blank, lxmfTicketExpirySecs]
  · cases hentry

theorem crowd_erase (h : Numbers (n :: ns)) :
    (crowd (n :: ns)).peers.erase (hexPeer n) = (crowd ns).peers := by
  apply Std.ExtTreeMap.ext_getElem?
  intro peer
  rw [getElem?_erase, crowd_getElem?, crowd_getElem?, map_cons]
  by_cases hpeer : hexPeer n = peer
  · subst hpeer
    rw [if_pos (Std.ReflCmp.compare_self), if_neg h.new]
  · rw [if_neg (by rwa [Std.LawfulEqCmp.compare_eq_iff_eq])]
    simp [Ne.symm hpeer]

/-- How long the file is. -/
theorem length_joined {m : Nat} {parts : List Bytes} (h : ∀ part ∈ parts, part.length ≤ m) :
    (joined parts).length ≤ parts.length * (m + 1) := by
  fun_induction joined parts with
  | case1 => exact Nat.zero_le _
  | case2 part =>
    have hpart := h part mem_cons_self
    simp only [length_singleton]
    omega
  | case3 part parts _ ih =>
    have hpart := h part mem_cons_self
    have hrest := ih fun p hp => h p (mem_cons_of_mem part hp)
    have hcomma : (ascii ",").length = 1 := by decide
    rw [length_append, length_append, length_cons, hcomma, Nat.succ_mul]
    omega

theorem length_crowd (ns : List Nat) (hlength : (crowd ns).peers.size ≤ issuedTicketMaxPeers) :
    (stateText (crowd ns)).length ≤ issuedTicketFileMaxBytes := by
  have hjoined : (joined ((crowd ns).peers.toList.map entryText)).length ≤ 256 * 160 := by
    refine (length_joined (m := 159) ?_).trans ?_
    · intro part hpart
      obtain ⟨⟨peer, entry⟩, hmem, rfl⟩ := mem_map.mp hpart
      have hentry := mem_toList_iff_getElem?_eq_some.mp hmem
      rw [crowd_getElem?] at hentry
      split at hentry
      · next hnamed =>
        cases hentry
        obtain ⟨n, hn, rfl⟩ := mem_map.mp hnamed
        have hpeer : (hexPeer n).length = 32 := rfl
        have hfirst : (ascii "\"").length + (ascii "\":\x7b\"ticket\":[").length +
            (joined (blank.ticket.map fun byte => decimal byte.toNat)).length +
            (ascii "],\"expires\":").length + (decimal blank.expires.num.toNat).length +
            (ascii ".0,\"last_included_at\":").length +
            (decimal blank.lastIncludedAt.num.toNat).length + (ascii ".0\x7d").length ≤ 127 := by
          decide
        simp only [entryText, length_append, hpeer]
        omega
      · cases hentry
    · rw [length_map, length_toList]
      exact Nat.mul_le_mul_right 160 hlength
  have hfirst : (ascii "\x7b\"version\":").length + (decimal (crowd ns).version).length +
      (ascii ",\"peers\":\x7b").length + (ascii "\x7d\x7d").length ≤ 64 := by
    show (ascii "\x7b\"version\":").length + (decimal 1).length +
      (ascii ",\"peers\":\x7b").length + (ascii "\x7d\x7d").length ≤ 64
    decide
  simp only [stateText, length_append, issuedTicketFileMaxBytes]
  omega

theorem asking_peer (hn : n < 4096) (now : ℚ) : (asking n now).peer = hexPeer n :=
  toAsciiLowercase_hexPeer hn

/-- A new peer that asks when the crowd was included joins it. -/
theorem asking_issued (hns : Numbers (n :: ns)) (kept : List Nat) :
    (asking n 0).issued (crowd ns) (crowd kept).peers = crowd (n :: kept) := by
  have hexpires : (0 : ℚ) + lxmfTicketExpirySecs = 1814400 := by norm_num [lxmfTicketExpirySecs]
  have hchoice : (asking n 0).choice (crowd ns) =
      (⟨replicate 16 0, 0 + lxmfTicketExpirySecs⟩, .includedNew) := by
    rw [Preparation.choice, asking_peer hns.lt, show (asking n 0).now = 0 from rfl,
      crowd_retainLive, chooseTicket, crowd_getElem?, if_neg hns.new]
    rfl
  rw [Preparation.issued, hchoice, asking_peer hns.lt, hexpires]
  rfl

theorem asking_writes {saved : Saved} {kept : List Nat} (hns : Numbers (n :: ns))
    (hkept : Numbers (n :: kept)) (hlength : (n :: kept).length ≤ issuedTicketMaxPeers)
    (hloads : readSaved json saved = .ok (crowd ns))
    (hroom : makeRoom (crowd ns).peers (hexPeer n) = .ok (crowd kept).peers)
    (hvec : json.toVec (crowd (n :: kept)) = some (stateText (crowd (n :: kept)))) :
    Writes json saved (asking n 0) (crowd ns) (crowd kept).peers (stateText (crowd (n :: kept))) where
  time := le_rfl
  loads := hloads
  asked := by
    rw [asking_peer hns.lt, show (asking n 0).now = 0 from rfl, crowd_retainLive, suppressed,
      crowd_getElem?, if_neg hns.new]
  room := by
    rw [asking_peer hns.lt, show (asking n 0).now = 0 from rfl,
      crowd_retainLive]
    exact hroom
  valid := by
    rw [asking_issued hns]
    exact hkept.validState hlength
  encoded := by
    rw [asking_issued hns]
    exact hvec
  fits := length_crowd _ (hkept.size ▸ hlength)

/-- A preparation that writes and is not disturbed hands a ticket out. -/
theorem asking_handsOut {saved : Saved} (h : Writes json saved (asking n 0) loaded kept bytes)
    (hn : n < 4096) :
    HandsOut json saved (asking n 0) ∧ (step json saved (asking n 0)).2 = some bytes := by
  have hresult := h.prepare rfl (hexPeer_valid hn) rfl
  exact ⟨⟨_, _, congrArg Prod.fst hresult, rfl⟩, congrArg Prod.snd hresult⟩

theorem run_one (json : Json) (saved : Saved) (p : Preparation) :
    (Machine.run (step json) saved [p]).2 = (step json saved p).2 := rfl

theorem reads_crowd (hjson : json.Reads) (hns : Numbers ns)
    (hlength : ns.length ≤ issuedTicketMaxPeers)
    (hvec : json.toVec (crowd ns) = some (stateText (crowd ns))) :
    readSaved json (some (stateText (crowd ns))) = .ok (crowd ns) := by
  rw [readSaved, refuse_bind_ok]
  refine ⟨not_lt.mpr (length_crowd ns (hns.size ▸ hlength)), ?_⟩
  rw [hjson _ _ hvec]
  exact check_ok.mpr ⟨hns.validState hlength, rfl⟩

theorem makeRoom_few (hns : Numbers ns) (hlength : ns.length < issuedTicketMaxPeers) (peer : Bytes) :
    makeRoom (crowd ns).peers peer = .ok (crowd ns).peers := by
  rw [makeRoom, if_neg]
  rw [hns.size]
  omega

theorem makeRoom_full {m : Nat} (hns : Numbers (n :: m :: ns))
    (hlength : (m :: ns).length = issuedTicketMaxPeers)
    (holdest : oldest (crowd (m :: ns)).peers = some (hexPeer m)) :
    makeRoom (crowd (m :: ns)).peers (hexPeer n) = .ok (crowd ns).peers := by
  have hnew : (crowd (m :: ns)).peers.contains (hexPeer n) = false := by
    rw [contains_eq_isSome_getElem?, crowd_getElem?, if_neg hns.new]
    rfl
  rw [makeRoom, if_pos ⟨hnew, by rw [hns.tail.size, hlength]⟩, holdest]
  exact congrArg Except.ok (crowd_erase hns.tail)

end Crowd

/-- Of equal ones the first is the least. -/
theorem argmin_const {α : Type} {f : α → ℚ} {a : α} {l : List α} (h : ∀ b ∈ l, f b = f a) :
    argmin f (a :: l) = some a := by
  rw [argmin_cons]
  rcases hmin : argmin f l with _ | c
  · rfl
  · have hc := h c (argmin_mem hmin)
    dsimp only
    rw [if_neg (by rw [hc]; exact lt_irrefl _)]

/-! What a crowd begins with. -/

section
variable {m : Nat} {ns : List Nat}
  (hleast : ∀ n ∈ ns, compare (hexPeer n) (hexPeer m) ≠ .lt)
include hleast

theorem crowd_first : ∃ rest, (crowd (m :: ns)).peers.toList = (hexPeer m, blank) :: rest ∧
    ∀ p ∈ rest, p.2 = blank := by
  have hall : ∀ p ∈ (crowd (m :: ns)).peers.toList, p.1 ∈ (m :: ns).map hexPeer ∧ p.2 = blank := by
    intro p hp
    have hentry := mem_toList_iff_getElem?_eq_some.mp hp
    rw [crowd_getElem?] at hentry
    split at hentry
    · next hnamed => exact ⟨hnamed, (Option.some.inj hentry).symm⟩
    · cases hentry
  have hmem : (hexPeer m, blank) ∈ (crowd (m :: ns)).peers.toList := by
    rw [mem_toList_iff_getElem?_eq_some, crowd_getElem?, if_pos (mem_map_of_mem mem_cons_self)]
  have hordered := (crowd (m :: ns)).peers.ordered_keys_toList
  rcases hlist : (crowd (m :: ns)).peers.toList with _ | ⟨first, rest⟩
  · rw [hlist] at hmem
    cases hmem
  · rw [hlist] at hall hmem hordered
    refine ⟨rest, ?_, fun p hp => (hall p (mem_cons_of_mem first hp)).2⟩
    rcases mem_cons.mp hmem with hfirst | hrest
    · rw [hfirst]
    · -- nothing that comes before is smaller
      have hbefore := (pairwise_cons.mp hordered).1 _ hrest
      obtain ⟨n, hn, hname⟩ := mem_map.mp (hall first mem_cons_self).1
      rw [← hname] at hbefore
      rcases mem_cons.mp hn with rfl | hn
      · cases (Std.ReflCmp.compare_self : compare (hexPeer n) (hexPeer n) = .eq).symm.trans hbefore
      · exact absurd hbefore (hleast n hn)

theorem oldest_crowd : oldest (crowd (m :: ns)).peers = some (hexPeer m) := by
  obtain ⟨rest, hlist, hblank⟩ := crowd_first hleast
  rw [oldest, hlist, argmin_const fun p hp => by rw [hblank p hp]]
  rfl

/-- What the text of a crowd begins with. -/
theorem take_stateText_crowd : (stateText (crowd (m :: ns))).take 60 =
    (ascii "\x7b\"version\":1,\"peers\":\x7b\"" ++ hexPeer m ++ ascii "\":\x7b\"t") := by
  obtain ⟨rest, hlist, -⟩ := crowd_first hleast
  have hentry : ∃ tail, joined ((crowd (m :: ns)).peers.toList.map entryText) =
      ascii "\"" ++ hexPeer m ++ ascii "\":\x7b\"t" ++ tail := by
    have hblank : ∃ tail, entryText (hexPeer m, blank) =
        ascii "\"" ++ hexPeer m ++ ascii "\":\x7b\"t" ++ tail := by
      have hsplit : ascii "\":\x7b\"ticket\":[" = ascii "\":\x7b\"t" ++ ascii "icket\":[" := by
        decide
      unfold entryText
      rw [hsplit]
      simp only [append_assoc]
      exact ⟨_, rfl⟩
    obtain ⟨tail, hblank⟩ := hblank
    rw [hlist, map_cons, hblank]
    cases rest with
    | nil => exact ⟨tail, rfl⟩
    | cons p rest =>
      refine ⟨tail ++ ascii "," ++ joined (entryText p :: rest.map entryText), ?_⟩
      simp only [map_cons, joined, append_assoc]
  obtain ⟨tail, hentry⟩ := hentry
  have hversion : ascii "\x7b\"version\":" ++ decimal 1 ++ ascii ",\"peers\":\x7b" ++ ascii "\"" =
      ascii "\x7b\"version\":1,\"peers\":\x7b\"" := by
    decide
  have hlength : (ascii "\x7b\"version\":1,\"peers\":\x7b\"" ++ hexPeer m ++
      ascii "\":\x7b\"t").length = 60 := by
    have hpeer : (hexPeer m).length = 32 := rfl
    rw [length_append, length_append, hpeer]
    decide
  have htext : stateText (crowd (m :: ns)) =
      (ascii "\x7b\"version\":1,\"peers\":\x7b\"" ++ hexPeer m ++ ascii "\":\x7b\"t") ++
        (tail ++ ascii "\x7d\x7d") := by
    rw [stateText, hentry, ← hversion, show (crowd (m :: ns)).version = 1 from rfl]
    simp only [append_assoc]
  rw [htext, take_append_of_le_length hlength.ge, take_of_length_le hlength.le]

end

def others : List Nat := range' 2 255

theorem numbers_others : Numbers (0 :: 1 :: others) ∧ Numbers (1 :: 0 :: others) ∧
    others.length = 255 := by
  have hall : Numbers (range' 0 257) :=
    ⟨nodup_range', fun n hn => (mem_range'_1.mp hn).2.trans (by decide)⟩
  exact ⟨hall, hall.swap, length_range'⟩

def crowdJson : Json := listed 60 [crowd others, crowd (0 :: others), crowd (1 :: others)]

/-- No name of the others comes before these. -/
theorem others_behind : ∀ n ∈ others, ∀ m < 3, compare (hexPeer n) (hexPeer m) ≠ .lt := by
  decide +kernel

theorem crowdJson_reads : crowdJson.Reads := by
  have hothers : ∀ n ∈ range' 3 254, compare (hexPeer n) (hexPeer 2) ≠ .lt := fun n hn =>
    others_behind n (mem_cons_of_mem 2 hn) 2 (by omega)
  have htwo : (stateText (crowd others)).take 60 = _ := take_stateText_crowd hothers
  have hzero := take_stateText_crowd fun n hn => others_behind n hn 0 (by omega)
  have hone := take_stateText_crowd fun n hn => others_behind n hn 1 (by omega)
  apply listed_reads
  simp only [pairwise_cons, mem_cons, not_mem_nil, or_false, forall_eq_or_imp, forall_eq,
    htwo, hzero, hone, false_implies, implies_true, Pairwise.nil, and_true]
  decide

/-- The file when a peer has asked twice. -/
def twice : IssuedTicketState :=
  ⟨1, insert ∅ (hexPeer 1) ⟨replicate 16 0, 1814400, 86400⟩⟩

def twiceJson : Json := listed 160 [crowd [1], twice]

/-- A peer gets its ticket again after a day. -/
theorem reply_tickets_kept_twice :
    HandsOut twiceJson none (asking 1 0) ∧
      HandsOut twiceJson (step twiceJson none (asking 1 0)).2 (asking 1 86400) ∧
      (asking 1 0).now + lxmfTicketIntervalSecs ≤ (asking 1 86400).now := by
  have hfirst : HandsOut twiceJson none (asking 1 0) :=
    ⟨⟨.includedNew, some ⟨replicate 16 0, 1814400⟩⟩, _, by decide +kernel, rfl⟩
  have hagain : HandsOut twiceJson (step twiceJson none (asking 1 0)).2 (asking 1 86400) :=
    ⟨⟨.includedReused, some ⟨replicate 16 0, 1814400⟩⟩, _, by decide +kernel, rfl⟩
  refine ⟨hfirst, hagain, ?_⟩
  have hreads : twiceJson.Reads := listed_reads (by decide +kernel)
  exact (reply_tickets_kept twiceJson hreads none [asking 1 0, asking 1 86400]
    (by decide +kernel)).2.1 [] _ [] _ [] rfl rfl hfirst hagain trivial

/-- A peer that is forgotten to make room gets two tickets at one time. -/
theorem tickets_without_interval :
    ∃ (json : Json) (saved : Saved) (p q : Preparation) (mid : List Preparation), json.Reads ∧
      ((p :: (mid ++ [q])).map Preparation.now).Pairwise (· ≤ ·) ∧ p.peer = q.peer ∧
      HandsOut json saved p ∧
      HandsOut json (Machine.run (step json) (step json saved p).2 mid).2 q ∧
      q.now < p.now + lxmfTicketIntervalSecs := by
  obtain ⟨hzeroOne, honeZero, hlength⟩ := numbers_others
  have hone : Numbers (1 :: others) := hzeroOne.tail
  have hzero : Numbers (0 :: others) := honeZero.tail
  have hvec : crowdJson.toVec (crowd others) = some (stateText (crowd others)) :=
    listed_toVec.mpr ⟨by simp, rfl⟩
  have hvecZero : crowdJson.toVec (crowd (0 :: others)) = some (stateText (crowd (0 :: others))) :=
    listed_toVec.mpr ⟨by simp, rfl⟩
  have hvecOne : crowdJson.toVec (crowd (1 :: others)) = some (stateText (crowd (1 :: others))) :=
    listed_toVec.mpr ⟨by simp, rfl⟩
  have hfull : ∀ n, (n :: others).length = issuedTicketMaxPeers := fun n => by
    rw [length_cons, hlength]
    rfl
  -- the peer joins, is forgotten for another, and joins again
  have hfirst := asking_writes hzero hzero (hfull 0).le
    (reads_crowd crowdJson_reads hone.tail (by rw [hlength]; decide) hvec)
    (makeRoom_few hone.tail (by rw [hlength]; decide) _) hvecZero
  have hother := asking_writes honeZero hone (hfull 1).le
    (reads_crowd crowdJson_reads hzero (hfull 0).le hvecZero)
    (makeRoom_full honeZero (hfull 0) (oldest_crowd fun n hn => others_behind n hn 0 (by omega))) hvecOne
  have hagain := asking_writes hzeroOne hzero (hfull 0).le
    (reads_crowd crowdJson_reads hone (hfull 1).le hvecOne)
    (makeRoom_full hzeroOne (hfull 1) (oldest_crowd fun n hn => others_behind n hn 1 (by omega))) hvecZero
  refine ⟨crowdJson, some (stateText (crowd others)), asking 0 0, asking 0 0, [asking 1 0],
    crowdJson_reads, by simp [asking], rfl, (asking_handsOut hfirst hzero.lt).1, ?_, ?_⟩
  · rw [(asking_handsOut hfirst hzero.lt).2, run_one, (asking_handsOut hother hone.lt).2]
    exact (asking_handsOut hagain hzero.lt).1
  · norm_num [asking, lxmfTicketIntervalSecs]

end Omen.Messaging
