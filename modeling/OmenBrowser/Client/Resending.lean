import OmenBrowser.Client.IntentJournal
import OmenBrowser.Server.DurableSafety
import OmenBrowser.Server.DurableWire

/- Mutations between the journal of a client and the tables of a server (`chat/live.rs`,
   `server/src/live.rs`, `server/src/session.rs`).

   A request is written down before it is sent, and sent again, under a new sequence number, as long
   as nobody knows what came of it. Journal operations are cut short, frames come once, often, late or
   never, and other clients call in between. What runs on the server is what was written down, and
   once it has run it does not run again and is never in conflict with itself (`resends_run_once`).

   Correspondence (Rust ↔ Lean):
     `send_uncertain_durable_*`, the frame        ↔ `OutboundMutationIntent.resend`
     `handle_durable_mutation_frame`, the commit  ↔ `arrive`
   The other checks of the senders only keep frames back. What a request does, the hash and `rmpv` are
   parameters. -/
namespace Omen.Client
open Wire Sql Machine Omen.Protocol List Outcome
open Omen.Server

/-- The journal, what was read from it, and the frames that were sent, each over a link of one client
instance. -/
structure Exchange where
  journal : IntentStore
  held : List OutboundMutationIntent
  sent : List (ClientInstanceId × Bytes)

inductive ExchangeInput (σ : Type) where
  | journal (input : JournalInput)
  | read (mutationId : MutationId)
  | resend (place : Nat) (seq : UInt32)
  | arrive (place : Nat) (now : Int) (limits : RetentionLimits)
  | other (input : ReplayInput σ)

section Steps
variable {σ : Type} (rmpv : Rmpv) (sha256 : Bytes → RequestHash) (identityHash : Bytes)
  (execute : ReceivedMutation → Txn σ ServerError Bytes)

def OutboundMutationIntent.resend (intent : OutboundMutationIntent) (seq : UInt32) : Option Bytes := do
  let (envelope, bytes) ← (sendMutation rmpv sha256 intent.op seq intent.roomId intent.mutationId
    intent.body).toOption
  guard (envelope.requestHash = intent.requestHash)
  pure bytes

def arrive (clientInstanceId : ClientInstanceId) (bytes : Bytes) (now : Int)
    (limits : RetentionLimits) : Option (DurableCall σ) := do
  let received ← (receiveMutation rmpv sha256 bytes).toOption
  guard (received.computedHash = received.envelope.requestHash)
  pure
    { key := ⟨identityHash, clientInstanceId, received.envelope.mutationId⟩
      requestHash := received.envelope.requestHash
      now
      limits
      buildResult := execute received }

/-- A step, and what it has the server do. -/
def exchangeStep (x : Exchange) : ExchangeInput σ → Option (ReplayInput σ) × Exchange
  | .journal input => (none, { x with journal := (journalStep rmpv sha256 x.journal input).2 })
  | .read mutationId =>
    let loaded := (loadIntent rmpv sha256 x.journal mutationId).toOption.join
    (none, { x with held := x.held ++ loaded.toList })
  | .resend place seq =>
    let frame := x.held[place]?.bind fun intent =>
      (intent.resend rmpv sha256 seq).map fun bytes => (intent.clientInstanceId, bytes)
    (none, { x with sent := x.sent ++ frame.toList })
  | .arrive place now limits =>
    let call := x.sent[place]?.bind fun frame =>
      arrive rmpv sha256 identityHash execute frame.1 frame.2 now limits
    (call.map .call, x)
  | .other input => (some input, x)

def served (is : List (ExchangeInput σ)) : List (ReplayInput σ) :=
  (run (exchangeStep rmpv sha256 identityHash execute) ⟨.default, [], []⟩ is).1.filterMap Prod.snd

variable (requestOf : MutationId → PrepareOutboundMutation)

/-- No mutation id is drawn for two requests, nobody else has the identity, and what is written down
is readable: its body has no non-negative `i64`, its frame is within the limits of the codec. -/
def ExchangeInput.Drawn : ExchangeInput σ → Prop
  | .journal input => input.1.Readable rmpv ∧
      ∀ request mutationId, input.1 = .persist request mutationId → request = requestOf mutationId
  | .other input => ∀ call, input = .call call → call.key.identityHash ≠ identityHash
  | _ => True

/-- An intent of the request that its id was drawn for. -/
def IsIntent (intent : OutboundMutationIntent) : Prop :=
  (requestOf intent.mutationId).Readable rmpv ∧ ∃ requestHash state,
    intent = { (requestOf intent.mutationId).prepared intent.mutationId requestHash with state }

/-- A call that runs the request its id was drawn for. -/
def IsCall (call : DurableCall σ) : Prop :=
  let request := requestOf call.key.mutationId
  canonicalMutationRequestHash sha256 request.op request.roomId request.body = .ok call.requestHash ∧
    call.key.clientInstanceId = request.clientInstanceId ∧
    call.buildResult = execute ⟨request.op, request.roomId,
      ⟨call.key.mutationId, call.requestHash, request.body⟩, call.requestHash⟩

structure Exchange.Faithful (x : Exchange) : Prop where
  sound : x.journal.Sound rmpv sha256
  journal : ∀ id intent, loadIntent rmpv sha256 x.journal id = .ok (some intent) →
    intent.mutationId = id ∧ IsIntent rmpv requestOf intent
  held : ∀ intent ∈ x.held, IsIntent rmpv requestOf intent
  sent : ∀ frame ∈ x.sent, ∃ intent seq, IsIntent rmpv requestOf intent ∧
    frame.1 = intent.clientInstanceId ∧ intent.resend rmpv sha256 seq = some frame.2

end Steps

variable {σ : Type} {rmpv : Rmpv} {sha256 : Bytes → RequestHash} {identityHash : Bytes}
  {execute : ReceivedMutation → Txn σ ServerError Bytes} {x : Exchange}
  {requestOf : MutationId → PrepareOutboundMutation} {is : List (ExchangeInput σ)}

/-- The call of a frame is that of its request. -/
theorem arrive_isCall {intent : OutboundMutationIntent} (hintent : IsIntent rmpv requestOf intent)
    {seq : UInt32} {bytes : Bytes} (hsent : intent.resend rmpv sha256 seq = some bytes) {now : Int}
    {limits : RetentionLimits} {call : DurableCall σ}
    (hcall : arrive rmpv sha256 identityHash execute intent.clientInstanceId bytes now limits = some call) :
    IsCall sha256 execute requestOf call := by
  simp only [OutboundMutationIntent.resend, arrive, Option.bind_eq_bind, Option.bind_eq_some_iff,
    toOption_eq_some, Option.guard_eq_some'] at hsent hcall
  obtain ⟨⟨e, encoded⟩, hmutation, -, hsame, hbytes⟩ := hsent
  obtain ⟨received, hreceived, -, -, hcall⟩ := hcall
  cases hbytes
  cases hcall
  obtain ⟨requestHash, hhash, hmutation⟩ := bind_ok.mp hmutation
  obtain ⟨wire, hwire, hmutation⟩ := bind_ok.mp hmutation
  obtain ⟨encoded, hencoded, hmutation⟩ := bind_ok.mp hmutation
  cases hmutation
  obtain ⟨hvalid, rfl⟩ := DurableMutationEnvelope.intoFrameBody_ok.mp (mapError_ok.mp hwire)
  replace hencoded := mapError_ok.mp hencoded
  -- what is decoded is within the limits, and the body of the request is one that is read back
  obtain ⟨frame, hframe, -⟩ := bind_ok.mp hreceived
  obtain ⟨value, hvalue, -⟩ := decodeFrame_ok (mapError_ok.mp hframe)
  obtain ⟨hreadable, hash, state, hrequest⟩ := hintent
  have hnormal : FrameBody.Normal intent.body := hrequest ▸ hreadable.normal
  replace hhash := mapError_ok.mp hhash
  have hcarried := receiveMutation_carried hvalid hencoded
    ((frameBytes_encode hencoded).mp hvalue).2 hnormal hhash
  obtain rfl := Except.ok.inj (hreceived.symm.trans hcarried)
  rw [hrequest] at hhash ⊢
  exact ⟨hhash, rfl, rfl⟩

/-- The step lemma. -/
theorem Exchange.Faithful.step (h : x.Faithful rmpv sha256 requestOf) {i : ExchangeInput σ}
    (hi : i.Drawn rmpv identityHash requestOf) :
    (exchangeStep rmpv sha256 identityHash execute x i).2.Faithful rmpv sha256 requestOf ∧
    ∀ call, (exchangeStep rmpv sha256 identityHash execute x i).1 = some (.call call) →
      call.key.identityHash = identityHash → IsCall sha256 execute requestOf call := by
  cases i with
  | journal input =>
    obtain ⟨hread, hdrawn⟩ := hi
    have hstep := journalStep_journalled h.sound hread
    refine ⟨⟨hstep.sound, fun id intent hload => ?_, h.held, h.sent⟩, fun call hcall => by cases hcall⟩
    obtain ⟨before, after, hbefore, hafter, hmove⟩ := hstep.moves id
    cases hafter.symm.trans hload
    cases hmove with
    | same => exact h.journal id intent hbefore
    | persisted request requestHash hpersist =>
      -- the id was drawn for this request
      obtain rfl := hdrawn request id hpersist
      rw [hpersist] at hread
      exact ⟨rfl, hread, requestHash, .prepared, rfl⟩
    | moved intent next =>
      obtain ⟨hid, hreadable, requestHash, state, hintent⟩ := h.journal id intent hbefore
      exact ⟨hid, hreadable, requestHash, next, congrArg ({ · with state := next }) hintent⟩
  | read mutationId =>
    refine ⟨⟨h.sound, h.journal, fun intent hmem => ?_, h.sent⟩, fun call hcall => by cases hcall⟩
    rcases mem_append.mp hmem with hheld | hloaded
    · exact h.held intent hheld
    · rw [Option.mem_toList, Option.join_eq_some_iff, toOption_eq_some] at hloaded
      exact (h.journal mutationId intent hloaded).2
  | resend place seq =>
    refine ⟨⟨h.sound, h.journal, h.held, fun frame hmem => ?_⟩, fun call hcall => by cases hcall⟩
    rcases mem_append.mp hmem with hsent | hframe
    · exact h.sent frame hsent
    · rw [Option.mem_toList] at hframe
      obtain ⟨intent, hplace, hframe⟩ := Option.bind_eq_some_iff.mp hframe
      obtain ⟨bytes, hbytes, rfl⟩ := Option.map_eq_some_iff.mp hframe
      exact ⟨intent, seq, h.held intent (mem_of_getElem? hplace), rfl, hbytes⟩
  | arrive place now limits =>
    refine ⟨h, fun call hcall _ => ?_⟩
    -- a frame is delivered from what was sent, as often as the network likes
    obtain ⟨_, hcall, heq⟩ := Option.map_eq_some_iff.mp hcall
    cases heq
    obtain ⟨frame, hplace, hcall⟩ := Option.bind_eq_some_iff.mp hcall
    obtain ⟨intent, seq, hintent, hinstance, hsent⟩ := h.sent frame (mem_of_getElem? hplace)
    rw [hinstance] at hcall
    exact arrive_isCall hintent hsent hcall
  | other input =>
    exact ⟨h, fun call hcall hidentity => absurd hidentity (hi call (Option.some.inj hcall))⟩

/-- The run lemma. -/
theorem served_isCall (hdrawn : ∀ i ∈ is, i.Drawn rmpv identityHash requestOf)
    {call : DurableCall σ} (hmem : .call call ∈ served rmpv sha256 identityHash execute is)
    (hidentity : call.key.identityHash = identityHash) : IsCall sha256 execute requestOf call := by
  have hstart : Exchange.Faithful rmpv sha256 requestOf ⟨.default, [], []⟩ :=
    ⟨IntentStore.sound_default, fun _ _ hload => (by cases hload), forall_mem_nil _, forall_mem_nil _⟩
  obtain ⟨⟨i, out⟩, hout, rfl⟩ := mem_filterMap.mp hmem
  obtain ⟨pre, post, hsplit⟩ := append_of_mem hout
  obtain ⟨is₁, is₂, rfl, -, hstep, -⟩ := run_split hsplit
  have hkeep : ∀ (x : Exchange) (i : ExchangeInput σ), x.Faithful rmpv sha256 requestOf →
      i.Drawn rmpv identityHash requestOf →
      (exchangeStep rmpv sha256 identityHash execute x i).2.Faithful rmpv sha256 requestOf :=
    fun _ _ h hi => (h.step hi).1
  have hbefore := run_invariant hkeep _ is₁
    (meets_of_forall fun i hi => hdrawn i (mem_append_left _ hi)) hstart
  exact (hbefore.step (hdrawn i mem_append_cons_self)).2 call hstep hidentity

/-- However often a request is sent again: what runs is the request that was written down, and once
its result is stored, that is the answer. -/
theorem resends_run_once (hdrawn : ∀ i ∈ is, i.Drawn rmpv identityHash requestOf)
    (s : ReplayStore σ) :
    let history := (run (replayStep rmpv) s (served rmpv sha256 identityHash execute is)).1
    (∀ call out, (.call call, out) ∈ history → call.key.identityHash = identityHash →
      IsCall sha256 execute requestOf call) ∧
    ∀ pre post call frame pruned, history = pre ++ (.call call, some (.ok (.stored frame pruned))) :: post →
      call.key.identityHash = identityHash → ∀ later out, (.call later, out) ∈ post →
      later.key = call.key → validateLimits later.limits = .ok () →
      out = some (.ok .expired) ∨ out = some (.ok (.replayed frame)) := by
  intro history
  have hcalls : ∀ call out, (.call call, out) ∈ history → call.key.identityHash = identityHash →
      IsCall sha256 execute requestOf call := by
    intro call out hmem hidentity
    obtain ⟨pre, post, hsplit⟩ := append_of_mem hmem
    obtain ⟨is₁, is₂, his, -⟩ := run_split hsplit
    exact served_isCall hdrawn (his ▸ mem_append_cons_self) hidentity
  refine ⟨hcalls, ?_⟩
  intro pre post call frame pruned hsplit hidentity later out hmem hkey hlimits
  have hfirst := hcalls call _ (hsplit ▸ mem_append_cons_self) hidentity
  have hlater := hcalls later out (hsplit ▸ mem_append_right pre (mem_cons_of_mem _ hmem))
    (hkey ▸ hidentity)
  have hhash : later.requestHash = call.requestHash := by
    have hcanonical := hlater.1
    rw [hkey] at hcanonical
    exact Except.ok.inj (hcanonical.symm.trans hfirst.1)
  have hanswer := (run_answered hsplit later out hmem hkey).1 hlimits
  rwa [if_pos hhash] at hanswer

/-- A command is written down, sent twice, and its frames come three times. -/
def twiceSent : List (ExchangeInput Unit) :=
  [.journal (.persist (commandIntent .empty) firstMutation, some .after), .read firstMutation,
    .resend 0 1, .resend 0 2, .arrive 1 100 productionLimits, .arrive 0 101 productionLimits,
    .arrive 1 102 productionLimits]

theorem resends_run_once_twice :
    let calls := served Rmpv.reference (fun _ => zeroHash) [1] (fun _ s => .ok ([7], s)) twiceSent
    calls.length = 3 ∧ ∀ call out,
      (.call call, out) ∈ (run (replayStep Rmpv.reference) ⟨Table.empty, Table.empty, ()⟩ calls).1 →
      call.key.identityHash = [1] → call.key.clientInstanceId = firstInstance := by
  refine ⟨by decide +kernel, fun call out hmem hidentity => ?_⟩
  have hdrawn : ∀ i ∈ twiceSent, i.Drawn Rmpv.reference [1] fun _ => commandIntent .empty := by
    intro i hi
    simp only [twiceSent, mem_cons, not_mem_nil, or_false] at hi
    rcases hi with rfl | rfl | rfl | rfl | rfl | rfl | rfl
    · refine ⟨emptyCommand_readable, ?_⟩
      intro request mutationId hpersist
      cases hpersist
      rfl
    all_goals trivial
  exact ((resends_run_once hdrawn ⟨Table.empty, Table.empty, ()⟩).1 call out hmem hidentity).2.1

end Omen.Client
