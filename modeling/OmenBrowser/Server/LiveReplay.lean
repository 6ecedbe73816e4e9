import OmenBrowser.Server.LiveDelivery
import OmenBrowser.Server.LiveWalk
import OmenBrowser.Server.ReplayCache

/- The replay cache in the live server.

   The server only looks its cache up, inserts into it and removes a link from it, so what
   holds along every run of the cache holds in every state of the server. A guarded request
   (a message, a part or a mutating command that is not a durable envelope) whose link and
   sequence number are cached goes no further than the cache: it is answered with the stored
   responses or with a collision, and the engine is not asked. -/
namespace Omen.Server
open Wire Omen.Protocol

variable {σ α : Type}
  {s : LiveServer σ}

/-! The server's cache is a run of the cache. -/

/-- The cache has been used, in the ways there are to use it. -/
def CacheUsed (s s' : LiveServer σ) : Prop :=
  ∃ ops : List ReplayOp, s'.replayCache = ops.foldl LinkReplayCache.apply s.replayCache

namespace CacheUsed

theorem refl (s : LiveServer σ) : CacheUsed s s := ⟨[], rfl⟩

theorem trans (s₁ s₂ s₃ : LiveServer σ) (h₁ : CacheUsed s₁ s₂) (h₂ : CacheUsed s₂ s₃) :
    CacheUsed s₁ s₃ := by
  obtain ⟨first, hfirst⟩ := h₁
  obtain ⟨second, hsecond⟩ := h₂
  refine ⟨first ++ second, ?_⟩
  rw [List.foldl_append, ← hfirst, hsecond]

theorem of_eq {s' : LiveServer σ} (h : s'.replayCache = s.replayCache) : CacheUsed s s' := ⟨[], h⟩

theorem of_same {s' : LiveServer σ} (h : SameTables s s') : CacheUsed s s' := of_eq h.replayCache

theorem steps {x : Live σ α} (h : Act.Steps SameTables x) : Act.Steps CacheUsed x :=
  fun s => of_same (h s)

instance : IsPreorder (LiveServer σ) CacheUsed where
  refl := refl
  trans := trans

section Steps
variable (host : Host) (engine : SessionEngine σ)

/-- The steps of the server around its requests use the cache, or leave it. -/
theorem walk : Walk host engine CacheUsed where
  refl := refl
  trans := trans
  aside _ _ h := of_eq h.replayCache
  forget linkId _ := ⟨[.removeLink linkId], rfl⟩
  discard _ _ := of_eq rfl
  userlist roomId := steps (broadcastUserlistForRoom_same host engine roomId)

theorem remember (linkId : LinkId) (seq : UInt32) (fingerprint : Option Bytes) (origin : List Frame) :
    Act.Steps CacheUsed (remember (σ := σ) host linkId seq fingerprint origin) := by
  cases fingerprint with
  | none => exact .pure _
  | some request =>
    exact .modify fun s =>
      ⟨[.insert linkId seq request origin (host.entryBytes request origin)], rfl⟩

variable (linkId : LinkId) (peer : ServerPeer) (frame : Frame)

theorem handleNewFrame (fingerprint : Option Bytes) (active : List ServerPeer) :
    Act.Steps CacheUsed (handleNewFrame host engine linkId peer frame fingerprint active) := by
  refine .bind (steps (executeFrame_same engine linkId peer frame active))
    fun responses => ?_
  refine .bind (remember host linkId frame.seq fingerprint _) fun _ => ?_
  refine .bind (.attempt (steps (deliver_same host engine linkId _ _)))
    fun sent => ?_
  refine .bind (.forEach
    (fun response => steps (releaseResponseResource_same engine response)) _) fun _ => ?_
  exact .bind (.lift _) fun _ => .pure _

theorem handleDurableMutationFrame (active : List ServerPeer) :
    Act.Steps CacheUsed (handleDurableMutationFrame host engine linkId peer frame active) := by
  unfold Omen.Server.handleDurableMutationFrame
  split
  · exact steps (answerError_same host engine linkId frame _ _)
  · next envelope _ =>
    refine .bind (.read _) fun binding => ?_
    cases binding with
    | none => exact steps (answerError_same host engine linkId frame _ _)
    | some binding =>
      exact .bind
        (steps (executeDurable_same engine linkId peer frame active binding envelope))
        fun dispatch => (walk host engine).deliverDurable linkId peer frame dispatch

theorem handleDecodedFrame (frame : Option Frame) (active : List ServerPeer) :
    Act.Steps CacheUsed (handleDecodedFrame host engine linkId peer frame active) := by
  cases frame with
  | none => exact .throw _
  | some frame =>
    refine .ite (handleDurableMutationFrame host engine linkId peer frame active) ?_
    refine .bind (.lift _) fun fingerprint => ?_
    refine .bind (.read _) fun found => ?_
    cases found with
    | miss => exact handleNewFrame host engine linkId peer frame fingerprint active
    | hit responses =>
      exact .bind (.forEach
        (fun response => steps (sendResponseFrame_same host engine linkId response)) _)
        fun _ => .pure _
    | collision =>
      exact .bind (steps (sendResponseFrame_same host engine linkId _))
        fun _ => .pure _

theorem dispatchPacket (frame : Option Frame) (size : Nat) :
    Act.Steps CacheUsed (dispatchPacket host engine linkId peer frame size) := by
  refine .bind (.modify fun s => of_eq rfl) fun _ => ?_
  refine .bind (.read _) fun active => ?_
  refine .bind ?_ fun target => ?_
  · cases frame with
    | none => exact .pure _
    | some frame =>
      exact .bind (.attempt (steps (onEngine_same _)))
        fun _ => .pure _
  · exact .bind (handleDecodedFrame host engine linkId _ frame active)
      fun _ => .pure _

end Steps

end CacheUsed

section Runs
variable (host : Host) (engine : SessionEngine σ)

/-- Whatever happens to the server, its cache is only used. -/
theorem liveStep_cache (s : LiveServer σ) (i : LiveInput) :
    CacheUsed s (liveStep host engine s i).2 := by
  refine (CacheUsed.walk host engine).liveStep ?_ ?_ ?_ ?_
  · intro linkId context frame size now peer arrived _ _
    exact CacheUsed.dispatchPacket host engine linkId peer frame size arrived
  · intro linkId data s
    obtain ⟨change, hsame, _⟩ := handleChannelAttachmentData_same host engine linkId data s
    exact CacheUsed.trans _ _ _ (CacheUsed.of_eq (s.applyStage_cache linkId change))
      (CacheUsed.of_same hsame)
  · intro linkId resourceId data
    exact CacheUsed.steps (handleResourceReceived_same host engine linkId resourceId data)
  · intro linkId direction outcome expectedSize
    exact CacheUsed.of_same (handleResourceTerminal_same engine linkId direction outcome expectedSize s)

/-! A request that is cached. -/

/-- A request that the cache is asked about. -/
def Guarded (frame : Frame) : Prop :=
  isDurableMutationEnvelope frame.body = false ∧ isReplayGuardedRequest frame = true

variable (linkId : LinkId)

/-- Nothing but stored responses, in their order. -/
def resend (responses : List Frame) : Live σ FrameDispatchOutcome := do
  Act.forEach (sendResponseFrame host engine linkId) responses
  pure (FrameDispatchOutcome.default responses)

/-- The server answers the frame with what the cache has under its key: the responses, if the frame
is the same, and a collision, if it is not. Only its transport sees anything of it. -/
structure AnsweredFrom (e : ReplayEntry) (linkId : LinkId) (peer : ServerPeer) (frame : Frame)
    (active : List ServerPeer) (s : LiveServer σ) : Prop where
  unexecuted : (handleDecodedFrame host engine linkId peer (some frame) active s).2 =
    s.on (handleDecodedFrame host engine linkId peer (some frame) active s).2.transport
  answered : ∀ request, encodeFrame host.rmpv frame = .ok request →
    handleDecodedFrame host engine linkId peer (some frame) active s = resend host engine linkId
      (if e.request = request then e.originResponses
      else [replayCollisionFrame frame.seq frame.roomId]) s

theorem resend_on (responses : List Frame) (s : LiveServer σ) :
    (resend host engine linkId responses s).2 =
      s.on (resend host engine linkId responses s).2.transport := by
  have hperforms := answers_performs host engine s linkId responses s.transport
  have hstate : (resend host engine linkId responses s).2 =
      (Act.forEach (sendResponseFrame host engine linkId) responses s).2 :=
    Act.bind_state (fun _ _ => rfl) s
  rw [hstate, show s = s.on s.transport from rfl, hperforms]
  rfl

theorem answeredFrom_cached {linkId : LinkId} {frame : Frame} {e : ReplayEntry}
    (hguarded : Guarded frame)
    (he : s.replayCache.find? (fun e => e.linkId == linkId && e.seq == frame.seq) = some e)
    (peer : ServerPeer) (active : List ServerPeer) :
    AnsweredFrom host engine e linkId peer frame active s := by
  have hanswered : ∀ request, encodeFrame host.rmpv frame = .ok request →
      handleDecodedFrame host engine linkId peer (some frame) active s = resend host engine linkId
        (if e.request = request then e.originResponses
        else [replayCollisionFrame frame.seq frame.roomId]) s := by
    intro request hencoded
    have hfingerprint : requestFingerprint host frame = .ok (some request) := by
      unfold requestFingerprint
      rw [if_pos hguarded.2, hencoded]
      rfl
    have hlookup : lookupReplay s linkId frame.seq (some request) =
        if e.request = request then .hit e.originResponses else .collision := by
      unfold lookupReplay LinkReplayCache.lookup
      rw [he]
    unfold handleDecodedFrame
    simp only [hguarded.1, Bool.false_eq_true, if_false]
    rw [hfingerprint, Act.lift_bind, Act.read_bind, hlookup]
    by_cases hsame : e.request = request
    · rw [if_pos hsame, if_pos hsame]
      rfl
    · rw [if_neg hsame, if_neg hsame]
      unfold resend
      rw [Act.forEach_singleton]
  refine ⟨?_, hanswered⟩
  cases hencoded : encodeFrame host.rmpv frame with
  | ok request =>
    rw [hanswered request hencoded]
    exact resend_on host engine linkId _ s
  | error error =>
    -- a frame that cannot be written has no fingerprint, and is refused before the cache is asked
    have hfingerprint : requestFingerprint host frame =
        .error (.message "OMENchat replay fingerprint encode failed") := by
      unfold requestFingerprint
      rw [if_pos hguarded.2, hencoded]
      rfl
    unfold handleDecodedFrame
    simp only [hguarded.1, Bool.false_eq_true, if_false]
    rw [hfingerprint]
    rfl

/-- In this state of the server, a guarded request whose key is in the tables is not executed. -/
def NeverAgain (t : ReplayTables) (s : LiveServer σ) : Prop :=
  ∀ (linkId : LinkId) (peer : ServerPeer) (frame : Frame) (active : List ServerPeer)
    (e : ReplayEntry), Guarded frame → t.entries[(linkId, frame.seq)]? = some e →
    AnsweredFrom host engine e linkId peer frame active s

end Runs

/-- After any use of the cache its tables agree, are within their bounds, and make room by evicting
what is oldest of what is in excess; and in any state a server gets into its cache is such tables,
and no guarded request with a key of theirs is executed. -/
theorem replay_cache_sound :
    (∀ ops : List ReplayOp, (ReplayTables.after ops).Exact ∧ (ReplayTables.after ops).Bounded ∧
      (∀ linkId seq request originResponses bytes,
        (ReplayTables.after ops).InsertsAs ⟨linkId, seq, request, originResponses, bytes⟩
          ((ReplayTables.after ops).insert linkId seq request originResponses bytes).1
          ((ReplayTables.after ops).insert linkId seq request originResponses bytes).2) ∧
      ∀ linkId : LinkId, ((ReplayTables.after ops).removeLink linkId).log =
        (ReplayTables.after ops).log.filter (fun e => !(e.linkId == linkId))) ∧
    ∀ (host : Host) (engine : SessionEngine σ) (state : σ) (transport : Transport)
      (inputs : List LiveInput), ∃ ops : List ReplayOp,
        (Machine.run (liveStep host engine) (LiveServer.new state transport) inputs).2.replayCache =
          (ReplayTables.after ops).log ∧
        NeverAgain host engine (ReplayTables.after ops)
          (Machine.run (liveStep host engine) (LiveServer.new state transport) inputs).2 := by
  refine ⟨fun ops => ?_, fun host engine state transport inputs => ?_⟩
  · obtain ⟨hholds, hbounded⟩ := after_holds ops
    refine ⟨hholds.exact, hholds.bounded hbounded, hholds.insertsAs, fun linkId => ?_⟩
    rw [(hholds.removeLink linkId).log_eq, hholds.log_eq]
    rfl
  · have hused : CacheUsed (LiveServer.new state transport)
        (Machine.run (liveStep host engine) (LiveServer.new state transport) inputs).2 :=
      Machine.run_invariant (I := CacheUsed (LiveServer.new state transport))
        (fun s i h _ => CacheUsed.trans _ _ _ h (liveStep_cache host engine s i)) _ _
        (Machine.meets_true _ _) (CacheUsed.refl _)
    obtain ⟨ops, hops⟩ := hused
    obtain ⟨hholds, _⟩ := after_holds ops
    refine ⟨ops, hops.trans hholds.log_eq.symm, fun linkId peer frame active e hguarded he => ?_⟩
    refine answeredFrom_cached host engine hguarded ?_ peer active
    rw [hops]
    exact (hholds.views.find? ReplayTables.isKey_iff).symm.trans he

end Omen.Server
