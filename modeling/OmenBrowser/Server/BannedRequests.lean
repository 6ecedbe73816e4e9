import OmenBrowser.Server.CodecRoundTrip
import OmenBrowser.Server.ReplayedMutations

/- What the session engine does for a banned user (`server/src/session.rs`).

   A handler looks its peer's user up, which refreshes the user's row, and turns a banned user
   away. A durable mutation does so in the callback of its commit, so the refusal is stored as
   its result; one that was stored before the ban is answered as it was. Only the handler for
   nickname colours does not ask: for a banned user it does what it does for others. -/
namespace Omen.Server
open Wire Sql Omen.Protocol Txn Outcome Except

variable {τ ρ κ : Type} {α ε : Type}
  {identityHash frame : Bytes} {peer : ServerPeer} {now : Int} {d d' : Database × τ × ρ}
  {user : ServerUser} {response : Frame} {roomId : Option UInt32} {rmpv : Rmpv}
  {key : DurableMutationKey} {s : ReplayStore κ} {out : DurableReplayCommit} {seq : UInt32}
  {dispatch : DurableMutationDispatch} {commit : DurableMutationEffectCommit ε}
  {e : SessionState τ ρ} {colour : Option Nat} {clientInstanceId : ClientInstanceId}
  {envelope : DurableMutationEnvelope}

/-! The user's row. -/

/-- A user with this identity is stored as banned. -/
def Database.Bans (db : Database) (identityHash : Bytes) : Prop :=
  ∃ r, db.users.byIdentity? identityHash = some r ∧ r.toUser.isBanned = true

/-- The row is the same but for what a look-up of the identity refreshes. -/
structure UserRow.Refreshed (identityHash : Bytes) (r r' : UserRow) : Prop where
  standing : r' = { r with
    displayName := r'.displayName
    lxmfDestination := r'.lxmfDestination
    lastSeenAt := r'.lastSeenAt }
  own : r.identityHash ≠ identityHash → r' = r

theorem UserRow.Refreshed.refl (identityHash : Bytes) (r : UserRow) :
    r.Refreshed identityHash r := ⟨rfl, fun _ => rfl⟩

theorem UserRow.Refreshed.trans {r₁ r₂ r₃ : UserRow} (h₁ : r₁.Refreshed identityHash r₂)
    (h₂ : r₂.Refreshed identityHash r₃) : r₁.Refreshed identityHash r₃ := by
  have hidentity : r₂.identityHash = r₁.identityHash := by rw [h₁.standing]
  refine ⟨?_, fun hother => ?_⟩
  · rw [h₂.standing, h₁.standing]
  · rw [h₂.own (hidentity ▸ hother), h₁.own hother]

/-- Nothing changes but what a look-up of the identity refreshes of its row. -/
structure Refreshes (identityHash : Bytes) (d d' : Database × τ × ρ) : Prop where
  database : d'.1 = { d.1 with users := d'.1.users }
  users : ∃ refresh, (∀ r : UserRow, r.Refreshed identityHash (refresh r)) ∧
    d'.1.users.rows = d.1.users.rows.map refresh
  others : d'.2.1 = d.2.1

section Refreshes
variable {identityHash : Bytes} {d d₁ d₂ d' : Database × τ × ρ}

/-- What is kept in memory may be another. -/
theorem Refreshes.of_tables (h : d'.1 = d.1) (hothers : d'.2.1 = d.2.1) :
    Refreshes identityHash d d' := by
  refine ⟨by rw [h], ⟨id, UserRow.Refreshed.refl identityHash, ?_⟩, hothers⟩
  rw [h, List.map_id]

theorem Refreshes.refl (d : Database × τ × ρ) : Refreshes identityHash d d := .of_tables rfl rfl

theorem Refreshes.trans (h₁ : Refreshes identityHash d d₁) (h₂ : Refreshes identityHash d₁ d₂) :
    Refreshes identityHash d d₂ := by
  obtain ⟨first, hfirst, hrows₁⟩ := h₁.users
  obtain ⟨second, hsecond, hrows₂⟩ := h₂.users
  refine ⟨?_, ⟨second ∘ first, fun r => (hfirst r).trans (hsecond (first r)), ?_⟩, ?_⟩
  · rw [h₂.database, h₁.database]
  · rw [hrows₂, hrows₁, List.map_map]
  · rw [h₂.others, h₁.others]

theorem Refreshes.bans (h : Refreshes identityHash d d') (hbans : d.1.Bans identityHash) :
    d'.1.Bans identityHash := by
  obtain ⟨refresh, hrefresh, hrows⟩ := h.users
  obtain ⟨r, hfound, hbanned⟩ := hbans
  obtain ⟨hmem, hidentity⟩ := Users.byIdentity?_eq_some.mp hfound
  have hstanding := (hrefresh r).standing
  refine ⟨refresh r, Users.byIdentity?_eq_some.mpr ⟨?_, ?_⟩, ?_⟩
  · rw [hrows]
    exact List.mem_map_of_mem hmem
  · rw [hstanding, hidentity]
  · rw [hstanding]
    exact hbanned

end Refreshes

/-- A banned user is found banned, and finding them refreshes their row. -/
theorem ensureUserOn_bans (hbans : d.1.Bans peer.identityHash)
    (h : inDatabase (ensureUserOn peer now) d = .ok (user, d')) :
    user.isBanned = true ∧ Refreshes peer.identityHash d d' ∧
      ∃ r, d.1.users.byIdentity? peer.identityHash = some r ∧ user.userId = r.readId := by
  obtain ⟨db', hensured, rfl⟩ := zoom_ok.mp h
  obtain ⟨r, hfound, hbanned⟩ := hbans
  obtain ⟨db₁, hupsert, hread⟩ := sql_bind_ok.mp hensured
  obtain ⟨hrest, ⟨_, hrows⟩ | ⟨hnone, _⟩⟩ := upsertUser_ok hupsert
  · rw [query_bind] at hread
    have hrefreshes : Refreshes peer.identityHash d (db₁, d.2) := by
      refine ⟨hrest, ⟨_, fun r => ?_, hrows⟩, rfl⟩
      split
      · next hown => exact ⟨rfl, fun hother => absurd (beq_iff_eq.mp hown) hother⟩
      · exact .refl _ r
    obtain ⟨q, hq, hqbanned⟩ := hrefreshes.bans ⟨r, hfound, hbanned⟩
    simp only [show db₁.users.byIdentity? peer.identityHash = some q from hq] at hread
    obtain ⟨rfl, rfl⟩ := pure_eq_ok hread
    obtain ⟨_, hid, _⟩ := ensureUserOn_ok hensured
    refine ⟨hqbanned, hrefreshes, r, hfound, ?_⟩
    rw [hid, Database.userIdOf, hfound]
  · rw [hfound] at hnone
    cases hnone

/-! The handlers behind a look-up. -/

/-- The engine's state, if the identity is banned in it. -/
def BannedIn (identityHash : Bytes) (s : SessionState τ ρ) : Prop := s.store.rest.1.Bans identityHash

/-- The engine does nothing for the identity but look it up. -/
def OnlyLooksUp (identityHash : Bytes) (s s' : SessionState τ ρ) : Prop :=
  Refreshes identityHash s.store.rest s'.store.rest

theorem onlyLooksUp_guards (identityHash : Bytes) :
    Act.Guards (@BannedIn τ ρ identityHash) (OnlyLooksUp identityHash) where
  refl s := Refreshes.refl s.store.rest
  trans _ _ _ := Refreshes.trans
  kept _ _ hbans h := h.bans hbans

instance : IsPreorder _ (@OnlyLooksUp τ ρ identityHash) := (onlyLooksUp_guards _).preorder

section Look
variable {peer : ServerPeer}

theorem currentUnixSeconds_looks (identityHash : Bytes) :
    Act.Upholds (@BannedIn τ ρ identityHash) (OnlyLooksUp identityHash) (fun _ => True)
      currentUnixSeconds := fun _ _ => ⟨.refl _, fun _ _ => trivial⟩

theorem memory_looks (identityHash : Bytes) (f : ρ → α × ρ) :
    Act.Upholds (@BannedIn τ ρ identityHash) (OnlyLooksUp identityHash) (fun _ => True) (memory f) :=
  fun _ _ => ⟨.of_tables rfl rfl, fun _ _ => trivial⟩

theorem ensurePeer_looks (peer : ServerPeer) :
    Act.Upholds (@BannedIn τ ρ peer.identityHash) (OnlyLooksUp peer.identityHash)
      (fun user => user.isBanned = true) (ensurePeer peer) := by
  unfold ensurePeer
  split
  · exact fun s _ => ⟨.refl _, fun _ h => nomatch h⟩
  · refine .bind (onlyLooksUp_guards _) (currentUnixSeconds_looks _) fun now _ s hbans => ?_
    unfold onStore
    cases hensured : inDatabase (ensureUserOn peer now) s.store.rest with
    | error e => exact ⟨.refl _, fun _ h => nomatch h⟩
    | ok found =>
      obtain ⟨user, d'⟩ := found
      obtain ⟨hbanned, hrefreshes, _⟩ := ensureUserOn_bans hbans hensured
      refine ⟨hrefreshes, fun a ha => ?_⟩
      rwa [← ok.inj ha]

/-- A banned user is not let in. -/
theorem ensureAllowedPeer_looks (peer : ServerPeer) :
    Act.Upholds (@BannedIn τ ρ peer.identityHash) (OnlyLooksUp peer.identityHash)
      (fun user => user = none) (ensureAllowedPeer peer) := by
  refine .bind (onlyLooksUp_guards _) (ensurePeer_looks peer) fun user hbanned => ?_
  refine .pure (onlyLooksUp_guards _) ?_
  rw [if_pos hbanned]

/-- A handler answers a banned user with its refusal, whatever it serves others. -/
theorem admitted_looks (peer : ServerPeer) (refusal : Frame)
    (serve : ServerUser → Session τ ρ (List Frame)) :
    Act.Upholds (BannedIn peer.identityHash) (OnlyLooksUp peer.identityHash)
      (fun responses => responses = [refusal]) (admitted peer refusal serve) := by
  refine .bind (onlyLooksUp_guards _) (ensureAllowedPeer_looks peer) fun user hnone => ?_
  rw [hnone]
  exact .pure (onlyLooksUp_guards _) rfl

end Look

/-- An answer that is for its requester only, and grants nothing. -/
def Turned (response : Frame) : Prop :=
  response.op = .error ∨ response.op = .uploadReject ∨ response.op = .pong

def TurnedAll (responses : List Frame) : Prop := ∀ response ∈ responses, Turned response

theorem TurnedAll.singleton (h : Turned response) : TurnedAll [response] := by
  intro other hother
  rwa [List.mem_singleton.mp hother]

/-- For a banned user the action only looks users up, and what it answers is turned away. -/
abbrev TurnsDown (identityHash : Bytes) (x : Session τ ρ (List Frame)) : Prop :=
  Act.Upholds (BannedIn identityHash) (OnlyLooksUp identityHash) TurnedAll x

section Handlers
variable {serving : Serving τ ρ} {peer : ServerPeer}

variable {refusal : Frame}

theorem TurnsDown.refused (h : Turned refusal) :
    TurnsDown identityHash (pure [refusal] : Session τ ρ (List Frame)) :=
  .pure (onlyLooksUp_guards _) (.singleton h)

theorem TurnsDown.admitted (h : Turned refusal) (serve : ServerUser → Session τ ρ (List Frame)) :
    TurnsDown peer.identityHash (admitted peer refusal serve) :=
  (admitted_looks peer refusal serve).mono fun _ hresponses => hresponses ▸ .singleton h

theorem TurnsDown.inRoom {missing : Frame} {unknown : UInt32 → Frame}
    {serve : UInt32 → Session τ ρ (List Frame)} (hmissing : Turned missing)
    (hunknown : ∀ roomId, Turned (unknown roomId))
    (hserve : ∀ roomId, TurnsDown identityHash (serve roomId)) :
    TurnsDown identityHash (inRoom serving roomId missing unknown serve) := by
  cases roomId with
  | none => exact TurnsDown.refused hmissing
  | some roomId =>
    refine .bind (onlyLooksUp_guards _) (.of_steps (.read _)) fun found _ => ?_
    split
    · exact hserve roomId
    · exact TurnsDown.refused (hunknown roomId)

section
variable (serving : Serving τ ρ)

theorem handleFrame_turns (peer : ServerPeer) (frame : Frame)
    (active : List ServerPeer) (negotiated : NegotiatedFeatures) :
    TurnsDown peer.identityHash (handleFrame serving peer frame active negotiated) := by
  have herror (seq : UInt32) (roomId : Option UInt32) (code : ChatErrorCode) (text : String) :
      Turned (errorFrame seq roomId code text) := .inl rfl
  have hreject (roomId : Option UInt32) (text : String) (bytes : UInt64) :
      Turned (uploadRejectFrame serving.limits frame.seq roomId text bytes) := .inr (.inl rfl)
  unfold handleFrame
  split
  · exact TurnsDown.admitted (herror _ _ _ _) _
  · exact TurnsDown.admitted (herror _ _ _ _) _
  · exact TurnsDown.inRoom (herror _ _ _ _) (fun _ => herror _ _ _ _) fun _ =>
      TurnsDown.admitted (herror _ _ _ _) _
  iterate 3
    · refine TurnsDown.inRoom (herror _ _ _ _) (fun _ => herror _ _ _ _) fun _ => ?_
      split
      · exact TurnsDown.refused (herror _ _ _ _)
      · exact TurnsDown.admitted (herror _ _ _ _) _
  · exact TurnsDown.inRoom (herror _ _ _ _) (fun _ => herror _ _ _ _) fun _ =>
      TurnsDown.admitted (herror _ _ _ _) _
  · exact TurnsDown.inRoom (herror _ _ _ _) (fun _ => herror _ _ _ _) fun _ =>
      TurnsDown.admitted (herror _ _ _ _) _
  · split
    · unfold handleModerationAuditBefore
      split
      · exact TurnsDown.refused (herror _ _ _ _)
      · split
        · exact TurnsDown.refused (herror _ _ _ _)
        · exact TurnsDown.admitted (herror _ _ _ _) _
    · exact TurnsDown.refused (herror _ _ _ _)
  · exact TurnsDown.inRoom (hreject _ _ _) (fun _ => hreject _ _ _) fun _ =>
      TurnsDown.admitted (hreject _ _ _) _
  · unfold handleUploadFetch
    split
    · exact TurnsDown.refused (herror _ _ _ _)
    · split
      · exact TurnsDown.refused (herror _ _ _ _)
      · exact TurnsDown.admitted (herror _ _ _ _) _
  · exact TurnsDown.admitted (herror _ _ _ _) _
  · exact TurnsDown.refused (.inr (.inr rfl))
  · exact TurnsDown.refused (herror _ _ _ _)

theorem pendingUploadOf_looks (identityHash : Bytes) (peer : ServerPeer)
    (resourceId : String) (bytes : UInt64) (notFound mismatch wrongSize : String) :
    Act.Upholds (@BannedIn τ ρ identityHash) (OnlyLooksUp identityHash)
      (fun pending => ∀ rejection, pending = .error rejection → Turned rejection)
      (pendingUploadOf serving peer resourceId bytes notFound mismatch wrongSize) := by
  have hguards := @onlyLooksUp_guards τ ρ identityHash
  refine .bind hguards (currentUnixSeconds_looks _) fun now _ => ?_
  refine .bind hguards (memory_looks _ _) fun taken _ => .pure hguards fun rejection h => ?_
  split at h
  · cases h
    exact .inr (.inl rfl)
  · cases h
    exact .inr (.inl rfl)
  · split at h
    · cases h
    · cases h
      exact .inr (.inl rfl)

theorem handleUploadResource_turns (peer : ServerPeer) (resourceId : String)
    (data : Bytes) (media : Bool) :
    TurnsDown peer.identityHash (handleUploadResource serving peer resourceId data media) := by
  refine .bind (onlyLooksUp_guards _) (pendingUploadOf_looks _ _ _ _ _ _ _ _) fun pending hpending => ?_
  cases pending with
  | error rejection => exact TurnsDown.refused (hpending rejection rfl)
  | ok upload => exact TurnsDown.admitted (.inr (.inl rfl)) _

theorem commitChannelUploadStage_turns (peer : ServerPeer)
    (resourceId : String) (bytes : UInt64) (media : Bool) :
    TurnsDown peer.identityHash (commitChannelUploadStage serving peer resourceId bytes media) := by
  refine .bind (onlyLooksUp_guards _) (pendingUploadOf_looks _ _ _ _ _ _ _ _) fun pending hpending => ?_
  cases pending with
  | error rejection => exact TurnsDown.refused (hpending rejection rfl)
  | ok upload => exact TurnsDown.admitted (.inr (.inl rfl)) _

theorem handleChannelUpload_turns (linkId : LinkId) (peer : ServerPeer)
    (data : Bytes) (media : Bool) (stages : List (LinkId × String)) {s : SessionState τ ρ}
    (hbans : BannedIn peer.identityHash s) :
    OnlyLooksUp peer.identityHash s (handleChannelUpload serving linkId peer data media stages s).2 ∧
      ∀ responses, (handleChannelUpload serving linkId peer data media stages s).1.1 = .ok responses →
        TurnedAll responses := by
  unfold handleChannelUpload
  generalize hrun : (currentUnixSeconds >>= fun now =>
    memory (serving.stageChannelFrame linkId peer data stages now) : Session τ ρ _) s = ended
  have hstaged : OnlyLooksUp peer.identityHash s ended.2 := by
    rw [← hrun]
    exact .of_tables rfl rfl
  obtain ⟨r, s₁⟩ := ended
  cases r with
  | error e => exact ⟨hstaged, fun _ h => nomatch h⟩
  | ok staged =>
    obtain ⟨request, change⟩ := staged
    cases request with
    | done result =>
      refine ⟨hstaged, ?_⟩
      rintro responses rfl response hresponse
      have hstage : (serving.stageChannelFrame linkId peer data stages (s.clock s.readings)
          s.store.rest.2.2).1 = (.done (.ok responses), change) := ok.inj (Prod.mk.inj hrun).1
      exact .inr (.inl (serving.stage_rejects _ _ _ _ _ _ _ (congrArg Prod.fst hstage) response
        hresponse))
    | finish resourceId bytes =>
      obtain ⟨hcommitted, hresponses⟩ := commitChannelUploadStage_turns serving peer resourceId bytes
        media s₁ (hstaged.bans hbans)
      exact ⟨hstaged.trans hcommitted, hresponses⟩

end

/-- A banned user disconnects nobody. -/
theorem moderationDisconnectTarget_looks (peer : ServerPeer) (frame : Frame)
    (active : List ServerPeer) :
    Act.Upholds (@BannedIn τ ρ peer.identityHash) (OnlyLooksUp peer.identityHash)
      (fun target => target = none) (moderationDisconnectTarget peer frame active) := by
  have hguards := @onlyLooksUp_guards τ ρ peer.identityHash
  unfold moderationDisconnectTarget
  split
  · exact .pure hguards rfl
  · split
    · exact .pure hguards rfl
    · split
      · refine .bind hguards (ensureAllowedPeer_looks peer) fun actor hnone => ?_
        rw [hnone]
        exact .pure hguards rfl
      · exact .pure hguards rfl

end Handlers

/-! Durable mutations. -/

section Durable
variable {serving : Serving τ ρ} {durable : DurableServing τ ρ}

/-- The client instance of the key is not retired. -/
def ClientInUse (key : DurableMutationKey) (s : ReplayStore κ) : Prop :=
  ∀ c, s.clients.find? key.client = some c → c.retiredAt.isSome = false

/-- How a commit ends, and what was stored under its key before. -/
theorem commit_before {hash : RequestHash} {build : Txn κ ServerError Bytes} {s' : ReplayStore κ}
    (h : commitDurableMutationResult rmpv key hash now build s = .ok (out, s')) :
    out = .expired ∨ ClientInUse key s ∧ (out = .conflict ∨
      (∃ r, s.results.find? key = some r ∧ r.requestHash = hash ∧ out = .replayed r.resultFrame) ∨
      (s.results.find? key = none ∧ ∃ frame pruned, out = .stored frame pruned)) := by
  obtain ⟨_, _, b, s₁, hensure, hends⟩ := commit_cases h
  obtain ⟨_, hresults⟩ := ensureClientInstance_frame hensure
  have hinUse (hb : b = false) : ClientInUse key s := by
    rcases ensureClientInstance_cases hensure with ⟨c, hc, hretired, _⟩ | ⟨hnone, _⟩
    · intro q hq
      rw [hc] at hq
      rw [← Option.some.inj hq, ← hretired, hb]
    · intro q hq
      rw [hnone] at hq
      cases hq
  rcases hends with ⟨_, rfl, _⟩ | ⟨hb, _, _, _, rfl, _⟩ | ⟨hb, r, hr, hhash, rfl, _⟩ | ⟨hb, hr, hadmitted⟩
  · exact .inl rfl
  · exact .inr ⟨hinUse hb, .inl rfl⟩
  · exact .inr ⟨hinUse hb, .inr (.inl ⟨r, hresults ▸ hr, hhash, rfl⟩)⟩
  · obtain ⟨_, _, _, _, _, _, _, hend⟩ := admitDurableMutation_cases hadmitted
    rcases hend with ⟨_, rfl, _⟩ | ⟨_, frame, _, _, _, _, _, _, rfl⟩
    · exact .inl rfl
    · exact .inr ⟨hinUse hb, .inr (.inr ⟨hresults ▸ hr, frame, _, rfl⟩)⟩

/-- The result of the key is stored for this request, and its client instance is in use. -/
def StoredBefore (key : DurableMutationKey) (hash : RequestHash) (frame : Bytes)
    (s : ReplayStore κ) : Prop :=
  ClientInUse key s ∧ ∃ r, s.results.find? key = some r ∧ r.requestHash = hash ∧ r.resultFrame = frame

/-- The commit would run its callback. -/
def Unanswered (key : DurableMutationKey) (s : ReplayStore κ) : Prop :=
  ClientInUse key s ∧ s.results.find? key = none

theorem commitCapturing_before {κ' : Type} {hash : RequestHash} {start v : κ'}
    {callback : Txn (κ × κ') ServerError Bytes}
    (h : (commitCapturing rmpv key hash now start callback s).1 = .ok (out, v)) :
    (∀ frame, out = .replayed frame → StoredBefore key hash frame s) ∧
      (∀ frame pruned, out = .stored frame pruned → Unanswered key s) := by
  obtain ⟨commit, hcommit, hout⟩ := map_ok.mp h
  cases hout
  rcases commit_before (atomically_ok.mp hcommit) with rfl | ⟨hinUse, rfl |
    ⟨r, hr, hhash, rfl⟩ | ⟨hnone, frame, pruned, rfl⟩⟩
  · exact ⟨nofun, nofun⟩
  · exact ⟨nofun, nofun⟩
  · refine ⟨fun frame hframe => ?_, nofun⟩
    exact ⟨hinUse, r, hr, hhash, DurableReplayCommit.replayed.inj hframe⟩
  · exact ⟨nofun, fun _ _ _ => ⟨hinUse, hnone⟩⟩

/-- The stored result is no success of a command. -/
def GrantsNothing (durable : DurableServing τ ρ) (frame : Bytes) : Prop :=
  ∃ response : Frame, FrameBody.Normal response.body ∧ response.op ≠ .commandResult ∧
    encodeDurableResult durable response = .ok frame

theorem GrantsNothing.error {code : ChatErrorCode} {text : String}
    (h : encodeDurableResult durable (errorFrame seq roomId code text) = .ok frame) :
    GrantsNothing durable frame :=
  ⟨errorFrame seq roomId code text, ⟨trivial, trivial, trivial⟩, nofun, h⟩

theorem GrantsNothing.decoded (h : GrantsNothing durable frame)
    (hresponse : decodeDurableResult durable frame = .ok response) :
    response.op ≠ .commandResult := by
  obtain ⟨stored, hnormal, hop, hencoded⟩ := h
  obtain ⟨v, hbytes, hvalue⟩ := decodeFrame_ok (mapError_ok.mp hresponse)
  obtain ⟨rfl, _⟩ := (frameBytes_encode (mapError_ok.mp hencoded)).mp hbytes
  rw [valuesToFrame_toValueRef _ hnormal] at hvalue
  rwa [← ok.inj hvalue]

/-- A commit with nothing to be heard of: what it publishes is `quiet`, and what it stores grants
nothing. -/
structure HushedCommit (durable : DurableServing τ ρ) (quiet : ε → Prop) (key : DurableMutationKey)
    (hash : RequestHash) (s : ReplayStore κ) (commit : DurableReplayCommit × Option ε) : Prop where
  publishes : ∀ effect, commit.2 = some effect → quiet effect
  stored : ∀ frame pruned, commit.1 = .stored frame pruned → GrantsNothing durable frame
  replayed : ∀ frame, commit.1 = .replayed frame → StoredBefore key hash frame s

/-- Nothing is published, and nobody is disconnected. A success is one that was stored before. -/
structure HushedDispatch (durable : DurableServing τ ρ) (key : DurableMutationKey)
    (hash : RequestHash) (seq : UInt32) (s : ReplayStore κ) (dispatch : DurableMutationDispatch) :
    Prop where
  broadcasts : dispatch.broadcasts = []
  disconnects : dispatch.disconnectIdentity = none
  parts : isSuccessfulPartResponse dispatch.origin = true → ∃ frame, StoredBefore key hash frame s ∧
    decodeDurableReplayResult durable frame seq = .ok dispatch.origin

variable {key : DurableMutationKey} {hash : RequestHash} {seq : UInt32} {s : ReplayStore κ}

theorem isSuccessfulPart_op (h : isSuccessfulPartResponse response = true) :
    response.op = .commandResult := by
  unfold isSuccessfulPartResponse commandResultName at h
  split at h
  · assumption
  · cases h

theorem HushedDispatch.error (seq' : UInt32) (roomId : Option UInt32) (code : ChatErrorCode)
    (text : String) : HushedDispatch durable key hash seq s (durableErrorDispatch seq' roomId code text) :=
  ⟨rfl, rfl, fun hpart => nomatch isSuccessfulPart_op hpart⟩

theorem HushedDispatch.ran {pruned : Nat} (hgrants : GrantsNothing durable frame)
    (h : resultDispatch (decodeDurableResult durable frame) (.ok []) none pruned = .ok dispatch) :
    HushedDispatch durable key hash seq s dispatch := by
  obtain ⟨horigin, hbroadcasts, htarget⟩ := resultDispatch_ok h
  exact ⟨(ok.inj hbroadcasts).symm, htarget,
    fun hpart => absurd (isSuccessfulPart_op hpart) (hgrants.decoded horigin)⟩

theorem HushedDispatch.answered (hstored : StoredBefore key hash frame s)
    (h : resultDispatch (decodeDurableReplayResult durable frame seq) (.ok []) none 0 = .ok dispatch) :
    HushedDispatch durable key hash seq s dispatch := by
  obtain ⟨horigin, hbroadcasts, htarget⟩ := resultDispatch_ok h
  exact ⟨(ok.inj hbroadcasts).symm, htarget, fun _ => ⟨frame, hstored, horigin⟩⟩

variable {quiet : ε → Prop} {db : Database} {userId : UserId}

theorem effectDispatch_hushed {publish : ε → DurableCommandEffect}
    (hquiet : ∀ effect, quiet effect → publish effect = ⟨[], none⟩)
    (hcommit : HushedCommit durable quiet key hash s commit.summary)
    (h : effectDispatch durable seq roomId publish commit = .ok dispatch) :
    HushedDispatch durable key hash seq s dispatch := by
  cases commit with
  | stored frame effect pruned =>
    unfold effectDispatch at h
    dsimp only at h
    rw [hquiet effect (hcommit.publishes effect rfl)] at h
    exact .ran (hcommit.stored frame pruned rfl) h
  | storedResponse frame pruned => exact .ran (hcommit.stored frame pruned rfl) h
  | replayed frame => exact .answered (hcommit.replayed frame rfl) h
  | conflict | expired =>
    rw [← ok.inj h]
    exact .error _ _ _ _

theorem roomEventDispatch_hushed {roomId : UInt32} {commit : DurableRoomEventCommit α}
    (hcommit : HushedCommit durable (fun _ => False) key hash s commit.summary)
    (h : roomEventDispatch durable seq roomId commit = .ok dispatch) :
    HushedDispatch durable key hash seq s dispatch := by
  cases commit with
  | stored frame event admission pruned => exact (hcommit.publishes _ rfl).elim
  | storedResponse frame pruned => exact .ran (hcommit.stored frame pruned rfl) h
  | replayed frame => exact .answered (hcommit.replayed frame rfl) h
  | conflict | expired =>
    rw [← ok.inj h]
    exact .error _ _ _ _

/-- Whatever it would plan for others, for a banned user it plans a refusal. -/
def Refuses (durable : DurableServing τ ρ) (identityHash : Bytes) (respond : Bytes → α)
    (prepare : Txn (Database × τ × ρ) ServerError α) : Prop :=
  ∀ d d' plan, d.1.Bans identityHash → prepare d = .ok (plan, d') →
    (∃ frame, plan = respond frame ∧ GrantsNothing durable frame) ∧ Refreshes identityHash d d'

theorem admittedUser_refuses (peer : ServerPeer) (now : Int) (roomId : Option UInt32)
    (respond : Bytes → α) (serve : ServerUser → Txn (Database × τ × ρ) ServerError α) :
    Refuses durable peer.identityHash respond (admittedUser peer now
      (lift ((encodeDurableResult durable (bannedFrame seq roomId)).map respond)) serve) := by
  intro d d' plan hbans h
  obtain ⟨user, seen, hseen, h⟩ := admittedUser_ok h
  obtain ⟨hbanned, hrefreshes, _⟩ := ensureUserOn_bans hbans hseen
  rw [if_pos hbanned] at h
  obtain ⟨hresult, rfl⟩ := lift_ok.mp h
  obtain ⟨frame, hframe, rfl⟩ := map_ok.mp hresult
  exact ⟨⟨frame, rfl, .error hframe⟩, hrefreshes⟩

theorem admittedInRoom_refuses (serving : Serving τ ρ) (peer : ServerPeer) (now : Int)
    (roomId : UInt32) (respond : Bytes → α)
    (serve : ServerUser → Txn (Database × τ × ρ) ServerError α) :
    Refuses durable peer.identityHash respond
      (admittedInRoom serving durable peer now seq roomId respond serve) := by
  intro d d' plan hbans h
  unfold admittedInRoom at h
  rw [query_bind] at h
  split at h
  · exact admittedUser_refuses peer now (some roomId) respond serve d d' plan hbans h
  · obtain ⟨hresult, rfl⟩ := lift_ok.mp h
    obtain ⟨frame, hframe, rfl⟩ := map_ok.mp hresult
    exact ⟨⟨frame, rfl, .error hframe⟩, .refl _⟩

/-- What the callback of a commit ran decides what the commit did. -/
theorem CommitsWhole.hushed {ran : Database × τ × ρ → Database × τ × ρ → Bytes → Option ε → Prop}
    {s s' : ReplayStore (Database × τ × ρ)}
    {out : Except ServerError (DurableReplayCommit × Option ε)}
    (hwhole : CommitsWhole key hash ran s s' out)
    (hbefore : ∀ commit frame, out = .ok commit → commit.1 = .replayed frame →
      StoredBefore key hash frame s)
    (hran : ∀ frame pruned effect, out = .ok (.stored frame pruned, effect) →
      ran s.rest s'.rest frame effect → (∀ v, effect = some v → quiet v) ∧
        GrantsNothing durable frame ∧ Refreshes identityHash s.rest s'.rest) :
    Refreshes identityHash s.rest s'.rest ∧
      ∀ commit, out = .ok commit → HushedCommit durable quiet key hash s commit := by
  cases hout : out with
  | error e =>
    rw [hwhole.failed e hout]
    exact ⟨.refl _, fun _ h => nomatch h⟩
  | ok commit =>
    obtain ⟨outcome, effect⟩ := commit
    by_cases hstored : ∃ frame pruned, outcome = .stored frame pruned
    · obtain ⟨frame, pruned, rfl⟩ := hstored
      obtain ⟨_, hrun⟩ := hwhole.stored frame pruned effect hout
      obtain ⟨hquiet, hgrants, hrefreshes⟩ := hran frame pruned effect hout hrun
      refine ⟨hrefreshes, ?_⟩
      rintro commit hcommit
      rw [← ok.inj hcommit]
      refine ⟨hquiet, fun _ _ h => ?_, fun _ h => nomatch h⟩
      rwa [← (DurableReplayCommit.stored.inj h).1]
    · have hother : ∀ frame pruned, outcome ≠ .stored frame pruned :=
        fun frame pruned h => hstored ⟨frame, pruned, h⟩
      obtain ⟨heffect, hrest⟩ := hwhole.silent outcome effect hout hother
      refine ⟨by rw [hrest]; exact .refl _, ?_⟩
      rintro commit hcommit
      rw [← ok.inj hcommit]
      refine ⟨fun effect h => ?_, fun frame pruned h => absurd h (hother frame pruned),
        fun frame h => hbefore _ frame hout h⟩
      rw [heffect] at h
      cases h

theorem effectResult_before {prepare : Txn κ ServerError (DurableMutationEffectPlan ε)}
    (h : (commitDurableMutationEffectResult rmpv key hash now prepare s).1 = .ok commit) :
    (∀ frame, commit.summary.1 = .replayed frame → StoredBefore key hash frame s) ∧
      (∀ frame pruned, commit.summary.1 = .stored frame pruned → Unanswered key s) := by
  obtain ⟨⟨out, v⟩, hout, rfl⟩ := map_ok.mp h
  have hsummary : (effectCommit (out, v)).summary.1 = out := by
    cases out <;> cases v <;> rfl
  rw [hsummary]
  exact commitCapturing_before hout

theorem roomEventResult_before {roomId : RoomId} {retention : RoomHistoryRetentionPolicy}
    {clock : Clock} {prepare : Txn (Database × κ) ServerError (DurableRoomEventPlan α)}
    {encodeResult : ServerRoomEvent → Except ServerError Bytes} {s : ReplayStore (Database × κ)}
    {commit : DurableRoomEventCommit α}
    (h : (commitDurableRoomEventResult roomId retention clock prepare encodeResult rmpv key hash now
      s).1 = .ok commit)
    (frame : Bytes) (hreplayed : commit.summary.1 = .replayed frame) :
    StoredBefore key hash frame s := by
  obtain ⟨⟨out, v⟩, hout, hread⟩ := bind_ok.mp h
  refine (commitCapturing_before hout).1 frame ?_
  cases out with
  | stored frame' pruned =>
    obtain ⟨event, admission⟩ := v
    cases event <;> cases admission <;> cases hread <;> cases hreplayed
  | replayed frame' =>
    cases hread
    exact hreplayed
  | conflict | expired =>
    cases hread
    cases hreplayed

section Commits
variable {request : DurableRequest} {clientInstanceId : ClientInstanceId} {identityHash : Bytes}
  {e : SessionState τ ρ}

theorem commitEffect_hushed (hbans : BannedIn identityHash e)
    {prepare : Int → Txn (Database × τ × ρ) ServerError (DurableMutationEffectPlan ε)}
    (hprepare : ∀ now, Refuses durable identityHash .response (prepare now)) :
    OnlyLooksUp identityHash e (commitEffect durable request clientInstanceId prepare e).2 ∧
      ∀ commit, (commitEffect durable request clientInstanceId prepare e).1 = .ok commit →
        HushedCommit durable (fun _ => False) (request.key clientInstanceId)
          request.envelope.requestHash e.store commit.summary := by
  have hwhole := effectResult_whole durable.rmpv (request.key clientInstanceId)
    request.envelope.requestHash (e.clock e.readings) (prepare (e.clock (e.readings + 1))) e.store
  have hran (d' : Database × τ × ρ) (frame : Bytes) (effect : Option ε)
      (h : EffectRun (prepare (e.clock (e.readings + 1))) e.store.rest d' frame effect) :
      (∀ v, effect = some v → False) ∧ GrantsNothing durable frame ∧
        Refreshes identityHash e.store.rest d' := by
    cases effect with
    | some effect =>
      obtain ⟨⟨_, hplan, _⟩, _⟩ := hprepare _ _ _ _ hbans h
      cases hplan
    | none =>
      obtain ⟨⟨_, hplan, hgrants⟩, hrefreshes⟩ := hprepare _ _ _ _ hbans h
      cases hplan
      exact ⟨(fun _ h => nomatch h), hgrants, hrefreshes⟩
  obtain ⟨hrefreshes, hcommits⟩ := hwhole.hushed (fun summary frame hsummary hreplayed => by
    obtain ⟨commit, hcommit, rfl⟩ := map_ok.mp hsummary
    exact (effectResult_before hcommit).1 frame hreplayed) fun frame _ effect _ => hran _ frame effect
  exact ⟨hrefreshes, fun commit hcommit => hcommits _ (map_ok.mpr ⟨commit, hcommit, rfl⟩)⟩

theorem commitRoomEvent_hushed (hbans : BannedIn identityHash e) (roomId : UInt32)
    {prepare : Int → Txn (Database × τ × ρ) ServerError (DurableRoomEventPlan α)}
    (hprepare : ∀ now, Refuses durable identityHash .response (prepare now))
    (encodeResult : ServerRoomEvent → Except ServerError Bytes) :
    OnlyLooksUp identityHash e
        (commitRoomEvent durable request roomId clientInstanceId prepare encodeResult e).2 ∧
      ∀ commit, (commitRoomEvent durable request roomId clientInstanceId prepare encodeResult e).1 =
          .ok commit →
        HushedCommit durable (fun _ => False) (request.key clientInstanceId)
          request.envelope.requestHash e.store commit.summary := by
  have hwhole := roomEventResult_whole roomId.toNat durable.historyRetention
    ⟨e.clock (e.readings + 2), e.clock (e.readings + 3), e.clock (e.readings + 4)⟩
    (prepare (e.clock (e.readings + 1))) encodeResult durable.rmpv (request.key clientInstanceId)
    request.envelope.requestHash (e.clock e.readings) e.store
  have hran (d' : Database × τ × ρ) (frame : Bytes) (effect : Option (ServerRoomEvent × α))
      (h : RoomEventRun roomId.toNat durable.historyRetention
        ⟨e.clock (e.readings + 2), e.clock (e.readings + 3), e.clock (e.readings + 4)⟩
        (prepare (e.clock (e.readings + 1))) encodeResult e.store.rest d' frame effect) :
      (∀ v, effect = some v → False) ∧ GrantsNothing durable frame ∧
        Refreshes identityHash e.store.rest d' := by
    cases h with
    | response prepared =>
      obtain ⟨⟨_, hplan, hgrants⟩, hrefreshes⟩ := hprepare _ _ _ _ hbans prepared
      cases hplan
      exact ⟨(fun _ h => nomatch h), hgrants, hrefreshes⟩
    | event prepared | eventWithResult prepared | richEvent prepared =>
      obtain ⟨⟨_, hplan, _⟩, _⟩ := hprepare _ _ _ _ hbans prepared
      cases hplan
  obtain ⟨hrefreshes, hcommits⟩ := hwhole.hushed (fun summary frame hsummary hreplayed => by
    obtain ⟨commit, hcommit, rfl⟩ := map_ok.mp hsummary
    exact roomEventResult_before hcommit frame hreplayed) fun frame _ effect _ => hran _ frame effect
  exact ⟨hrefreshes, fun commit hcommit => hcommits _ (map_ok.mpr ⟨commit, hcommit, rfl⟩)⟩

end Commits

/-! The handlers of durable mutations. -/

/-- For a banned user the request does nothing but look users up, and is hushed. -/
def Hushes (durable : DurableServing τ ρ) (request : DurableRequest)
    (clientInstanceId : ClientInstanceId) (e : SessionState τ ρ)
    (x : Session τ ρ DurableMutationDispatch) : Prop :=
  OnlyLooksUp request.peer.identityHash e (x e).2 ∧
    ∀ dispatch, (x e).1 = .ok dispatch → HushedDispatch durable (request.key clientInstanceId)
      request.envelope.requestHash request.seq e.store dispatch

section Requests
variable {request : DurableRequest} {clientInstanceId : ClientInstanceId} {e : SessionState τ ρ}

theorem Hushes.of_commit {x : Session τ ρ α}
    {dispatch : α → Except ServerError DurableMutationDispatch} {p : α → Prop}
    (hx : OnlyLooksUp request.peer.identityHash e (x e).2 ∧ ∀ commit, (x e).1 = .ok commit → p commit)
    (hdispatch : ∀ commit ended, p commit → dispatch commit = .ok ended →
      HushedDispatch durable (request.key clientInstanceId) request.envelope.requestHash request.seq
        e.store ended) :
    Hushes durable request clientInstanceId e (x >>= fun commit => Act.lift (dispatch commit)) := by
  obtain ⟨hstep, hcommits⟩ := hx
  unfold Hushes
  rcases hx : x e with ⟨r, e'⟩
  rw [hx] at hstep hcommits
  cases r with
  | error error =>
    rw [Act.bind_error hx]
    exact ⟨hstep, fun _ h => nomatch h⟩
  | ok commit =>
    rw [Act.bind_ok hx]
    exact ⟨hstep, fun ended hended => hdispatch commit ended (hcommits commit rfl) hended⟩

theorem Hushes.error (seq : UInt32) (roomId : Option UInt32) (code : ChatErrorCode) (text : String) :
    Hushes durable request clientInstanceId e
      (pure (durableErrorDispatch seq roomId code text) : Session τ ρ DurableMutationDispatch) := by
  refine ⟨.refl _, fun dispatch hdispatch => ?_⟩
  rw [← ok.inj hdispatch]
  exact .error _ _ _ _

theorem Hushes.inDurableRoom {missing tooLarge mismatch : String}
    {run : UInt32 → Session τ ρ DurableMutationDispatch}
    (hrun : ∀ roomId, Hushes durable request clientInstanceId e (run roomId)) :
    Hushes durable request clientInstanceId e
      (inDurableRoom durable request missing tooLarge mismatch run) := by
  unfold Omen.Server.inDurableRoom
  cases request.roomId with
  | none => exact .error _ _ _ _
  | some roomId =>
    cases hcheck : checkRequest durable request tooLarge mismatch with
    | error refused =>
      obtain ⟨code, text, rfl⟩ := checkRequest_error hcheck
      exact .error _ _ _ _
    | ok => exact hrun roomId

variable (hbans : BannedIn request.peer.identityHash e)
include hbans

theorem handleDurableRoomText_hushes :
    Hushes durable request clientInstanceId e
      (handleDurableRoomText serving durable request clientInstanceId) :=
  .inDurableRoom fun roomId => .of_commit
    (commitRoomEvent_hushed hbans roomId (fun _ => admittedInRoom_refuses serving _ _ _ _ _) _)
    fun _ _ => roomEventDispatch_hushed

theorem handleDurablePartRoom_hushes :
    Hushes durable request clientInstanceId e
      (handleDurablePartRoom serving durable request clientInstanceId) :=
  .inDurableRoom fun roomId => .of_commit
    (commitRoomEvent_hushed hbans roomId (fun _ => admittedInRoom_refuses serving _ _ _ _ _) _)
    fun _ _ => roomEventDispatch_hushed

theorem handleDurableProjection_hushes (missing noun : String) :
    Hushes durable request clientInstanceId e
      (handleDurableProjection serving durable missing noun request clientInstanceId) :=
  .inDurableRoom fun _ => .of_commit
    (commitEffect_hushed hbans fun _ => admittedInRoom_refuses serving _ _ _ _ _)
    fun _ _ => effectDispatch_hushed fun _ h => h.elim

theorem handleDurableCommand_hushes :
    Hushes durable request clientInstanceId e
      (handleDurableCommand durable request clientInstanceId) := by
  unfold handleDurableCommand
  split
  · next refused hcheck =>
    obtain ⟨code, text, rfl⟩ := checkRequest_error hcheck
    exact .error _ _ _ _
  · exact .of_commit (commitEffect_hushed hbans fun _ => admittedUser_refuses _ _ _ _ _)
      fun _ _ => effectDispatch_hushed fun _ h => h.elim

end Requests

theorem handleDurableMutation_hushes (serving : Serving τ ρ) (durable : DurableServing τ ρ)
    (peers : DurableMutationPeerContext) (seq : UInt32) (roomId : Option UInt32) (op : ChatOp)
    (clientInstanceId : ClientInstanceId) (envelope : DurableMutationEnvelope)
    (hbans : BannedIn peers.peer.identityHash e) :
    Hushes durable
      { peer := peers.peer, activeRoomPeers := peers.activeRoomPeers, seq, roomId
        op, noticeAck := peers.durableNoticeAck, replyMentions := peers.replyMentions
        envelope } clientInstanceId e
      (handleDurableMutationWithActivePeers serving durable peers seq roomId op clientInstanceId
        envelope) := by
  unfold handleDurableMutationWithActivePeers
  split
  iterate 3
    · exact handleDurableRoomText_hushes hbans
  · exact handleDurablePartRoom_hushes hbans
  · exact handleDurableCommand_hushes hbans
  iterate 3
    · split
      · exact handleDurableProjection_hushes hbans _ _
      · exact .error _ _ _ _
  · exact .error _ _ _ _

/-! Nickname colours. -/

/-- The request is checked, not answered yet and within its rate, and asks for another colour. -/
structure Recolours (durable : DurableServing τ ρ) (peer : ServerPeer)
    (clientInstanceId : ClientInstanceId) (envelope : DurableMutationEnvelope) (e : SessionState τ ρ) :
    Prop where
  canonical : canonicalMutationRequestHash durable.sha256 .nicknameColourSet none envelope.body =
    .ok envelope.requestHash
  unanswered : Unanswered ⟨peer.identityHash, clientInstanceId, envelope.mutationId⟩ e.store
  within : (durable.reserveColourRate peer e.store.rest.2.2).1 = true
  another : ∃ colour r, nicknameColourSet envelope.body = some colour ∧
    e.store.rest.1.users.byIdentity? peer.identityHash = some r ∧
    e.store.rest.1.users.rows.any (UserRow.recolours r.readId colour) = true

theorem Refreshes.recolours (h : Refreshes identityHash d d') (userId : UserId)
    (colour : Option Nat) :
    d'.1.users.rows.any (UserRow.recolours userId colour) =
      d.1.users.rows.any (UserRow.recolours userId colour) := by
  obtain ⟨refresh, hrefresh, hrows⟩ := h.users
  have hsame : UserRow.recolours userId colour ∘ refresh = UserRow.recolours userId colour := by
    funext r
    rw [Function.comp, (hrefresh r).standing]
    rfl
  rw [hrows, List.any_map, hsame]

theorem setNicknameColour_rows (h : db.users.rows.any (UserRow.recolours userId colour) = false) :
    (db.setNicknameColour userId colour).users.rows = db.users.rows := by
  have hnone := List.any_eq_false.mp h
  calc (db.setNicknameColour userId colour).users.rows
      = db.users.rows.map (fun r => if UserRow.recolours userId colour r then
          { r with nicknameColourRgb := colour, profileRevision := r.profileRevision + 1 } else r) := rfl
    _ = db.users.rows.map id := List.map_congr_left fun r hr => if_neg (hnone r hr)
    _ = db.users.rows := List.map_id _

theorem setDurableNicknameColour_same {db' : Database} {changed : Bool}
    (hsame : db.users.rows.any (UserRow.recolours userId colour) = false)
    (h : setDurableNicknameColour userId colour db = .ok ((user, changed), db')) :
    changed = false ∧ db' = db.setNicknameColour userId colour := by
  unfold setDurableNicknameColour at h
  rw [query_bind, execute_bind, query_bind, hsame] at h
  cases hrow : (db.setNicknameColour userId colour).users.rows.find?
      (fun r => r.userId == (userId.toNat : Int)) with
  | none =>
    simp only [hrow] at h
    exact (fail_ok.mp h).elim
  | some r =>
    simp only [hrow] at h
    obtain ⟨hpair, hdb⟩ := pure_eq_ok h
    exact ⟨(Prod.mk.inj hpair).2, hdb⟩

theorem GrantsNothing.nicknameColourAck {mutationId : MutationId}
    (h : encodeDurableResult durable (Frame.new .nicknameColourAck seq none
      (nicknameColourAck mutationId user)) = .ok frame)
    : GrantsNothing durable frame := by
  refine ⟨Frame.new .nicknameColourAck seq none (Omen.Server.nicknameColourAck mutationId user),
    ⟨trivial, trivial, ?_, trivial⟩, nofun, h⟩
  cases user.nicknameColourRgb with
  | none | some => trivial

/-- The callback of a colour that is refused for its rate, or is the user's own. -/
theorem colour_ran (request : DurableRequest) (d : Database × τ × ρ)
    {plan : DurableMutationEffectPlan (Option Frame)} {r : UserRow}
    (hbans : d.1.Bans request.peer.identityHash)
    (hfound : d.1.users.byIdentity? request.peer.identityHash = some r)
    (hsame : (durable.reserveColourRate request.peer d.2.2).1 = true →
      d.1.users.rows.any (UserRow.recolours r.readId colour) = false)
    (h : (inDatabase (ensureUserOn request.peer now) >>= fun user =>
      colourPlan durable request colour user) d = .ok (plan, d')) :
    ∃ frame, (plan = .response frame ∨ plan = .effect frame none) ∧ GrantsNothing durable frame ∧
      Refreshes request.peer.identityHash d d' := by
  obtain ⟨user, seen, hseen, hplan⟩ := bind_ok.mp h
  obtain ⟨_, hrefreshes, q, hq, hid⟩ := ensureUserOn_bans hbans hseen
  obtain rfl := Option.some.inj (hfound.symm.trans hq)
  obtain ⟨db', _, rfl⟩ := zoom_ok.mp hseen
  unfold colourPlan at hplan
  rw [query_bind] at hplan
  split at hplan
  · next hwithin =>
    rw [execute_bind] at hplan
    obtain ⟨⟨user', changed⟩, t, hset, hplan⟩ := bind_ok.mp hplan
    obtain ⟨db'', hset, rfl⟩ := zoom_ok.mp hset
    have hunchanged : db'.users.rows.any (UserRow.recolours user.userId colour) = false := by
      rw [hid]
      exact (hrefreshes.recolours _ _).trans (hsame hwithin)
    obtain ⟨rfl, rfl⟩ := setDurableNicknameColour_same hunchanged hset
    obtain ⟨broadcast, hbroadcast, hplan⟩ := lift_bind_ok.mp hplan
    obtain rfl : none = broadcast := ok.inj hbroadcast
    obtain ⟨result, hresult, hplan⟩ := lift_bind_ok.mp hplan
    obtain ⟨rfl, rfl⟩ := pure_eq_ok hplan
    obtain ⟨refresh, hrefresh, hrows⟩ := hrefreshes.users
    refine ⟨result, .inr rfl, .nicknameColourAck hresult, ?_,
      ⟨refresh, hrefresh, (setNicknameColour_rows hunchanged).trans hrows⟩, rfl⟩
    rw [show db' = { d.1 with users := db'.users } from hrefreshes.database]
    rfl
  · obtain ⟨hresult, rfl⟩ := lift_ok.mp hplan
    obtain ⟨frame, hframe, rfl⟩ := map_ok.mp hresult
    exact ⟨frame, .inl rfl, .error hframe, hrefreshes⟩

theorem commitColour_hushed (hbans : BannedIn peer.identityHash e)
    (hasked : nicknameColourSet envelope.body = some colour)
    (hcanonical : canonicalMutationRequestHash durable.sha256 .nicknameColourSet none envelope.body =
      .ok envelope.requestHash)
    (hcolour : ¬ Recolours durable peer clientInstanceId envelope e) :
    let request := colourRequest peer seq envelope
    let commit := commitEffect durable request clientInstanceId fun seenAt => do
      let user ← inDatabase (ensureUserOn peer seenAt)
      colourPlan durable request colour user
    OnlyLooksUp peer.identityHash e (commit e).2 ∧
      ∀ ended, (commit e).1 = .ok ended → HushedCommit durable (fun effect => effect = none)
        (request.key clientInstanceId) envelope.requestHash e.store ended.summary := by
  intro request commit
  have hwhole := effectResult_whole durable.rmpv (request.key clientInstanceId) envelope.requestHash
    (e.clock e.readings) (inDatabase (ensureUserOn peer (e.clock (e.readings + 1))) >>= fun user =>
      colourPlan durable request colour user) e.store
  obtain ⟨r, hfound, _⟩ := id hbans
  -- a commit that ran its callback found nothing stored, so the colour is the user's own
  have hsame (h : Unanswered (request.key clientInstanceId) e.store)
      (hwithin : (durable.reserveColourRate peer e.store.rest.2.2).1 = true) :
      e.store.rest.1.users.rows.any (UserRow.recolours r.readId colour) = false := by
    by_contra hother
    exact hcolour ⟨hcanonical, h, hwithin, colour, r, hasked, hfound, by simpa using hother⟩
  have hran (d' : Database × τ × ρ) (frame : Bytes) (effect : Option (Option Frame))
      (h : Unanswered (request.key clientInstanceId) e.store)
      (hrun : EffectRun (inDatabase (ensureUserOn peer (e.clock (e.readings + 1))) >>= fun user =>
        colourPlan durable request colour user) e.store.rest d' frame effect) :
      (∀ v, effect = some v → v = none) ∧ GrantsNothing durable frame ∧
        Refreshes peer.identityHash e.store.rest d' := by
    cases effect with
    | some effect =>
      obtain ⟨_, hplan | hplan, hgrants, hrefreshes⟩ := colour_ran request e.store.rest
        hbans hfound (hsame h) hrun
      · cases hplan
      · cases hplan
        exact ⟨fun _ hv => (Option.some.inj hv).symm, hgrants, hrefreshes⟩
    | none =>
      obtain ⟨_, hplan | hplan, hgrants, hrefreshes⟩ := colour_ran request e.store.rest
        hbans hfound (hsame h) hrun
      · cases hplan
        exact ⟨(fun _ h => nomatch h), hgrants, hrefreshes⟩
      · cases hplan
  obtain ⟨hrefreshes, hcommits⟩ := hwhole.hushed (fun summary frame hsummary hreplayed => by
      obtain ⟨ended, hended, rfl⟩ := map_ok.mp hsummary
      exact (effectResult_before hended).1 frame hreplayed)
    (fun frame pruned effect hsummary hrun => by
      obtain ⟨ended, hended, hstored⟩ := map_ok.mp hsummary
      exact hran _ frame effect ((effectResult_before hended).2 frame pruned
        (congrArg Prod.fst hstored)) hrun)
  exact ⟨hrefreshes, fun ended hended => hcommits _ (map_ok.mpr ⟨ended, hended, rfl⟩)⟩

/-- A colour request of a banned user is hushed unless it gives them another colour. -/
theorem handleDurableNicknameColour_hushes (seq : UInt32) (hbans : BannedIn peer.identityHash e)
    (hcolour : ¬ Recolours durable peer clientInstanceId envelope e) :
    Hushes durable (colourRequest peer seq envelope) clientInstanceId e
      (handleDurableNicknameColour durable peer seq clientInstanceId envelope) := by
  unfold handleDurableNicknameColour
  split
  · exact .error _ _ _ _
  · next hash hhash =>
    split
    · next hcanonical =>
      split
      · exact .error _ _ _ _
      · next colour hasked =>
        refine .of_commit (commitColour_hushed hbans hasked (hcanonical ▸ hhash) hcolour)
          fun commit ended => effectDispatch_hushed fun effect heffect => ?_
        rw [heffect]
        rfl
    · exact .error _ _ _ _

end Durable

end Omen.Server
