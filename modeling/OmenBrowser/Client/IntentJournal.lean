import Mathlib.Logic.Relation
import OmenBrowser.Client.MutationIntents
import OmenBrowser.Server.CodecRoundTrip

/- Runs of the journal of outbound mutations.

   A row loads as an intent when its columns agree with its frame (`LoadsAs`). The row of a request
   whose frame the codec reads back (`Readable`) loads as the intent that was returned for it, a
   change of the state column changes the state of the intent only, and no operation writes another
   column. So in every run that persists readable requests all rows load, and each operation moves
   an intent along `allowedTransition`, drops a rejected uncertain one, or prunes old terminal ones.

   A request is persisted without asking whether its frame can be read back: the canonical form
   counts nesting from the body's values, the codec from the frame. A body between the two is
   written and never loads again, and the recovery of all other intents fails with it. -/
namespace Omen.Client
open Wire Sql Ints Machine Omen.Protocol List Outcome Table
open Omen.Server (Rmpv Stop compareBytes frameToValueRef)

variable {a b expected next : OutboundMutationState} {bytes identityHash : Bytes}
  {request : PrepareOutboundMutation} {destination : String} {correlationId : Option String}
  {mutationId : MutationId} {limits : IntentLimits} {s' : IntentStore} {input : IntentInput}
  {replacement : ClientInstanceId} {js : List JournalInput}

/-! States. -/

def OutboundMutationState.isTerminal : OutboundMutationState → Bool
  | .prepared | .sentUncertain => false
  | _ => true

variable (state : OutboundMutationState)

theorem OutboundMutationState.ofCode_code :
    OutboundMutationState.ofCode state.code = some state := by
  cases state <;> rfl

theorem OutboundMutationState.ofCode_some {code : Int} {state : OutboundMutationState}
    (h : OutboundMutationState.ofCode code = some state) : code = state.code := by
  unfold OutboundMutationState.ofCode at h
  split at h <;> cases h <;> rfl

theorem OutboundMutationState.code_inj (h : a.code = b.code) : a = b := by
  have hb := OutboundMutationState.ofCode_code b
  rw [← h, OutboundMutationState.ofCode_code] at hb
  exact Option.some.inj hb

theorem terminalCode_code : terminalCode state.code = state.isTerminal := by
  cases state <;> rfl

theorem nonterminalCode_code : nonterminalCode state.code = !state.isTerminal := by
  cases state <;> rfl

/-- Nothing is allowed out of a terminal state. -/
theorem not_allowed_of_terminal (h : a.isTerminal = true) : allowedTransition a b = false := by
  cases a <;> cases b <;> first | rfl | cases h

/-- The states an intent may come to. -/
def Advances (a b : OutboundMutationState) : Prop :=
  Relation.ReflTransGen (fun a b => allowedTransition a b = true) a b

theorem Advances.of_terminal (h : Advances a b) (ha : a.isTerminal = true) : b = a := by
  induction h with
  | refl => rfl
  | tail _ hstep ih =>
    subst ih
    rw [not_allowed_of_terminal ha] at hstep
    cases hstep

section Journal
variable {rmpv : Rmpv} {sha256 : Bytes → RequestHash} {row : IntentRow}
  {intent : OutboundMutationIntent} {next : OutboundMutationState}

/-! Rows that load. -/

/-- The columns of a row, its frame and the intent agree. -/
structure LoadsAs (rmpv : Rmpv) (sha256 : Bytes → RequestHash) (row : IntentRow)
    (intent : OutboundMutationIntent) : Prop where
  lengths : validateStoredLengths row = .ok ()
  clientInstanceId : row.clientInstanceId = intent.clientInstanceId.bytes
  requestHash : row.requestHash = intent.requestHash.bytes
  op : storedOp row.op = .ok intent.op
  roomId : storedRoomId row.roomId = .ok intent.roomId
  state : row.state = intent.state.code
  frame : ∃ frame, decodeFrame rmpv row.requestFrame = .ok frame ∧ frame.seq = 0 ∧
    frame.op = intent.op ∧ frame.roomId = intent.roomId ∧ frame.body = intent.body
  canonical : canonicalMutationRequestHash sha256 intent.op intent.roomId intent.body =
    .ok intent.requestHash
  fields : validateIntentFields row.serverDestination row.authenticatedIdentityHash
    row.correlationId row.createdAt row.expiresAt = .ok ()
  retained : intentBytes row.serverDestination row.authenticatedIdentityHash row.correlationId
    row.requestFrame.length = some row.retainedBytes
  mutationId : row.mutationId = intent.mutationId
  serverDestination : row.serverDestination = intent.serverDestination
  identityHash : row.authenticatedIdentityHash = intent.authenticatedIdentityHash
  createdAt : row.createdAt = intent.createdAt
  expiresAt : row.expiresAt = intent.expiresAt
  correlationId : row.correlationId = intent.correlationId

theorem orFailed_ok {α : Type} {value : Option α} {text : String} {a : α} :
    orFailed value text = .ok a ↔ value = some a := by
  cases value with
  | none | some => simp [orFailed]

theorem identifier_ok {field : String} {n : Nat} {id : Identifier n} :
    Identifier.tryFrom field n bytes = .ok id ↔ bytes = id.bytes := by
  unfold Identifier.tryFrom
  split
  · next h =>
    rw [Except.ok.injEq]
    constructor
    · rintro rfl
      rfl
    · rintro rfl
      rfl
  · next h =>
    constructor
    · intro hno
      cases hno
    · rintro rfl
      exact absurd id.length_bytes h

theorem loadRow_ok : loadRow rmpv sha256 row = .ok intent ↔ LoadsAs rmpv sha256 row intent := by
  unfold loadRow decodeStoredIntent
  simp only [↓check_ok, refuse_ok, bind_ok, mapError_ok, orFailed_ok,
    identifier_ok, not_or, not_not]
  constructor
  · rintro ⟨hlengths, clientInstanceId, hinstance, requestHash, hhash, op, hop, roomId, hroom,
      state, hstate, frame, hframe, ⟨hseq, hfop, hfroom⟩, actualHash, hcanonical, hsame, hfields,
      retained, hretained, hbytes, hpure⟩
    cases hpure
    subst hsame hbytes
    exact
      { lengths := hlengths
        clientInstanceId := hinstance
        requestHash := hhash
        op := hop
        roomId := hroom
        state := OutboundMutationState.ofCode_some hstate
        frame := ⟨frame, hframe, hseq, hfop, hfroom, rfl⟩
        canonical := hcanonical
        fields := hfields
        retained := hretained
        mutationId := rfl
        serverDestination := rfl
        identityHash := rfl
        createdAt := rfl
        expiresAt := rfl
        correlationId := rfl }
  · intro h
    obtain ⟨frame, hframe, hseq, hfop, hfroom, hbody⟩ := h.frame
    refine ⟨h.lengths, _, h.clientInstanceId, _, h.requestHash, _, h.op, _, h.roomId, _,
      by rw [h.state, OutboundMutationState.ofCode_code], frame, hframe, ⟨hseq, hfop, hfroom⟩, _,
      hbody ▸ h.canonical, rfl, h.fields, _, h.retained, rfl, ?_⟩
    rw [h.mutationId, h.serverDestination, h.identityHash, h.createdAt, h.expiresAt,
      h.correlationId, hbody]
    rfl

/-- The state column says the state of the intent and nothing else. -/
theorem LoadsAs.setState (h : LoadsAs rmpv sha256 row intent) (next : OutboundMutationState) :
    LoadsAs rmpv sha256 { row with state := next.code } { intent with state := next } :=
  { h with
    lengths := h.lengths
    state := rfl }

theorem LoadsAs.retainedBytes (h : LoadsAs rmpv sha256 row intent) : 1 ≤ row.retainedBytes := by
  have hlengths := refuse_ok.mp h.lengths
  simp only [not_or, not_not] at hlengths
  exact hlengths.2.2.2.2.2.2.1

/-! Requests. -/

/-- The frame of a request is read back as it is: its body has no non-negative `i64`, and it is
within the limits of the codec. -/
structure PrepareOutboundMutation.Readable (rmpv : Rmpv) (request : PrepareOutboundMutation) :
    Prop where
  normal : Server.FrameBody.Normal request.body
  within : ∀ bytes, encodeFrame rmpv request.frame = .ok bytes →
    Server.WithinLimits bytes request.frame

theorem encodeFrame_ok {frame : Frame} :
    encodeFrame rmpv frame = .ok bytes ↔ Server.encodeFrame rmpv frame = .ok bytes :=
  mapError_ok.trans mapError_ok.symm

/-- Of the frames a request may have, the codec reads back the readable ones. -/
theorem PrepareOutboundMutation.readable_iff (h : encodeFrame rmpv request.frame = .ok bytes) :
    (∃ frame, decodeFrame rmpv bytes = .ok frame ∧ frame.seq = 0 ∧ frame.op = request.op ∧
      frame.roomId = request.roomId ∧ frame.body = request.body) ↔ request.Readable rmpv := by
  have henc := encodeFrame_ok.mp h
  constructor
  · intro ⟨frame, hdecode, _, _, _, hbody⟩
    obtain ⟨v, hbytes, hv⟩ := Server.decodeFrame_ok ((decodeFrame_iff rmpv bytes frame).mp hdecode)
    refine ⟨hbody ▸ (Server.valuesToFrame_reduces hv).2, ?_⟩
    intro bytes' h'
    cases h.symm.trans h'
    exact ((Server.frameBytes_encode henc).mp hbytes).2
  · intro hreadable
    refine ⟨request.frame, (decodeFrame_iff rmpv bytes _).mpr ?_, rfl, rfl, rfl, rfl⟩
    rw [Server.decodeFrame_of_bytes rmpv
      ((Server.frameBytes_encode henc).mpr ⟨rfl, hreadable.within bytes h⟩)]
    exact Server.valuesToFrame_toValueRef request.frame hreadable.normal

theorem intentBytes_some {frameBytes : Nat} {n : Int}
    (h : intentBytes destination identityHash correlationId frameBytes = some n) :
    n = (((utf8 destination).length + identityHash.length + 64 + frameBytes +
      optionalLength correlationId : Nat) : Int) := by
  unfold intentBytes at h
  simp only [bind, Option.bind_eq_some_iff, checkedAdd_some, toI64_some] at h
  obtain ⟨a, ⟨rfl, _⟩, b, ⟨rfl, _⟩, c, ⟨rfl, _⟩, d, ⟨rfl, _⟩, rfl, _⟩ := h
  omega

theorem validateIntentFields_ok {createdAt expiresAt : Int}
    (h : validateIntentFields destination identityHash correlationId createdAt expiresAt = .ok ()) :
    (1 ≤ (utf8 destination).length ∧ (utf8 destination).length ≤ chatServerDestinationMaxBytes) ∧
      (1 ≤ identityHash.length ∧ identityHash.length ≤ maxIntentIdentityHashBytes) ∧
      optionalLength correlationId ≤ maxCorrelationIdBytes := by
  unfold validateIntentFields at h
  simp only [↓check_ok, refuse_ok, not_or, Nat.not_lt,
    ← length_pos_iff_ne_nil] at h
  exact ⟨h.1, h.2.1, h.2.2.1⟩

/-- What a request has to pass, and the row and the intent that come of it. -/
theorem prepareIntentRow_ok
    (h : prepareIntentRow rmpv sha256 request mutationId limits = .ok (row, intent)) :
    validateIntentFields request.serverDestination request.authenticatedIdentityHash
        request.correlationId request.createdAt request.expiresAt = .ok () ∧
      canonicalMutationRequestHash sha256 request.op request.roomId request.body =
        .ok intent.requestHash ∧
      encodeFrame rmpv request.frame = .ok row.requestFrame ∧
      intentBytes request.serverDestination request.authenticatedIdentityHash
        request.correlationId row.requestFrame.length = some row.retainedBytes ∧
      row.requestFrame.length ≤ limits.eachBytes ∧ row.retainedBytes ≤ limits.eachBytes ∧
      intent = request.prepared mutationId intent.requestHash ∧
      row = { mutationId
              clientInstanceId := request.clientInstanceId.bytes
              serverDestination := request.serverDestination
              authenticatedIdentityHash := request.authenticatedIdentityHash
              requestHash := intent.requestHash.bytes
              op := request.op.code.toNat
              roomId := request.roomId.map fun roomId => (roomId.toNat : Int)
              requestFrame := row.requestFrame
              state := 0
              createdAt := request.createdAt
              expiresAt := request.expiresAt
              correlationId := request.correlationId
              retainedBytes := row.retainedBytes } := by
  unfold prepareIntentRow validatePrepareRequest at h
  simp only [↓check_ok, refuse_ok, bind_ok, mapError_ok, orFailed_ok,
    not_or] at h
  obtain ⟨⟨_, _, hfields⟩, requestHash, hhash, requestFrame, hframe, retained, hretained,
    ⟨hsize, hcharge⟩, hpure⟩ := h
  cases hpure
  exact ⟨hfields, hhash, hframe, hretained, Nat.not_lt.mp hsize, Int.not_lt.mp hcharge, rfl, rfl⟩

theorem storedOp_code (op : ChatOp) : storedOp (op.code.toNat : Int) = .ok op := by
  unfold storedOp
  rw [if_neg (by omega), Int.toNat_natCast, ChatOp.tryFrom_code]
  rfl

theorem storedRoomId_toNat (roomId : Option UInt32) :
    storedRoomId (roomId.map (fun roomId => (roomId.toNat : Int))) = .ok roomId := by
  cases roomId with
  | none => rfl
  | some roomId =>
    have hlt := roomId.toNat_lt
    have hu32 : toU32 (roomId.toNat : Int) = some roomId := by
      unfold toU32 u32Max
      rw [if_pos (by omega), Int.toNat_natCast, UInt32.ofNat_toNat]
    simp only [Option.map_some, storedRoomId, hu32]

/-- No frame is decoded from nothing. -/
theorem ne_nil_of_decodeFrame {frame : Frame} (h : decodeFrame rmpv bytes = .ok frame) :
    bytes ≠ [] := by
  rintro rfl
  have hscan : ∃ e, validateMsgpack [] = .error e := ⟨_, rfl⟩
  obtain ⟨e, he⟩ := hscan
  unfold decodeFrame at h
  rw [he] at h
  cases h

/-- The row of a request loads as the intent returned for it iff the request is readable. -/
theorem loadsAs_prepared_iff
    (h : prepareIntentRow rmpv sha256 request mutationId productionIntentLimits =
      .ok (row, intent))
    : LoadsAs rmpv sha256 row intent ↔ request.Readable rmpv := by
  obtain ⟨hfields, hhash, hframe, hretained, hsize, hcharge, hintent, hrow⟩ := prepareIntentRow_ok h
  rw [← PrepareOutboundMutation.readable_iff hframe]
  generalize intent.requestHash = requestHash at *
  generalize row.requestFrame = requestFrame at *
  generalize row.retainedBytes = retained at *
  subst hintent hrow
  refine ⟨fun hload => hload.frame, fun hread => ?_⟩
  obtain ⟨frame, hdecode, hsame⟩ := hread
  have hpos : 0 < requestFrame.length := length_pos_iff_ne_nil.mpr (ne_nil_of_decodeFrame hdecode)
  obtain ⟨hdestination, hidentity, hcorrelation⟩ := validateIntentFields_ok hfields
  have hcount := intentBytes_some hretained
  exact
    { lengths := by
        apply refuse_ok.mpr
        simp only [not_or, not_not]
        refine ⟨request.clientInstanceId.length_bytes, hdestination, hidentity,
          requestHash.length_bytes, ⟨hpos, hsize⟩, hcorrelation, ?_, hcharge⟩
        omega
      clientInstanceId := rfl
      requestHash := rfl
      op := storedOp_code request.op
      roomId := storedRoomId_toNat request.roomId
      state := rfl
      frame := ⟨frame, hdecode, hsame⟩
      canonical := hhash
      fields := hfields
      retained := hretained
      mutationId := rfl
      serverDestination := rfl
      identityHash := rfl
      createdAt := rfl
      expiresAt := rfl
      correlationId := rfl }

/-! Runs. -/

inductive IntentInput where
  | persist (request : PrepareOutboundMutation) (mutationId : MutationId)
  | load (mutationId : MutationId)
  | transition (mutationId : MutationId) (expected next : OutboundMutationState)
  | removeRejected (mutationId : MutationId)
  | recover
  | prune (now : Int)
  | rotate (expected replacement : ClientInstanceId)
  | loadInstance (generated : ClientInstanceId)
  | restart

inductive IntentOutcome where
  | persisted (intent : OutboundMutationIntent)
  | loaded (intent : Option OutboundMutationIntent)
  | transitioned (answer : IntentTransition)
  | removed (answer : IntentRemoval)
  | recovered (intents : List OutboundMutationIntent)
  | pruned (count : Nat)
  | clientInstance (id : ClientInstanceId)
  | restarted
  | failed (error : IntentError)

/-- Where an operation is cut short: before its transaction is committed or the file is renamed, or
after that and before its answer. -/
inductive Interruption where
  | before
  | after

def IntentOutcome.of {α : Type} (f : α → IntentOutcome) : Except IntentError α → IntentOutcome
  | .ok a => f a
  | .error e => .failed e

end Journal

section Runs
variable (rmpv : Rmpv) (sha256 : Bytes → RequestHash)

def applyIntent (s : IntentStore) : IntentInput → IntentOutcome × IntentStore
  | .persist request mutationId =>
    let r := persistPreparedWithId rmpv sha256 request mutationId productionIntentLimits s
    (.of .persisted r.1, r.2)
  | .load mutationId => (.of .loaded (loadIntent rmpv sha256 s mutationId), s)
  | .transition mutationId expected next =>
    let r := transition rmpv sha256 mutationId expected next s
    (.of .transitioned r.1, r.2)
  | .removeRejected mutationId =>
    let r := removeRejectedUncertain rmpv sha256 mutationId s
    (.of .removed r.1, r.2)
  | .recover => (.of .recovered (recoverNonterminal rmpv sha256 s), s)
  | .prune now =>
    let r := pruneTerminal now s
    (.pruned r.1, r.2)
  | .rotate expected replacement =>
    let r := rotateClientInstanceIfQuiescentWith expected replacement s
    (.of .clientInstance r.1, r.2)
  | .loadInstance generated =>
    let r := loadOrCreateInstance generated s
    (.clientInstance r.1, r.2)
  | .restart => (.restarted, s)

def journalStep (s : IntentStore) : IntentInput × Option Interruption → IntentOutcome × IntentStore
  | (input, none) => applyIntent rmpv sha256 s input
  | (_, some .before) => (.failed .interrupted, s)
  | (input, some .after) => (.failed .interrupted, (applyIntent rmpv sha256 s input).2)

/-- A persisted request is readable. -/
def IntentInput.Readable : IntentInput → Prop
  | .persist request _ => request.Readable rmpv
  | _ => True

/-- What one operation may do to what loads under an identifier. -/
inductive IntentMove (input : IntentInput) (id : MutationId) :
    Option OutboundMutationIntent → Option OutboundMutationIntent → Prop where
  | same (intent : Option OutboundMutationIntent) : IntentMove input id intent intent
  | persisted (request : PrepareOutboundMutation) (requestHash : RequestHash)
      (h : input = .persist request id)
      (hash : canonicalMutationRequestHash sha256 request.op request.roomId request.body =
        .ok requestHash) : IntentMove input id none (some (request.prepared id requestHash))
  | moved (intent : OutboundMutationIntent) (next : OutboundMutationState)
      (h : input = .transition id intent.state next)
      (allowed : allowedTransition intent.state next = true) :
      IntentMove input id (some intent) (some { intent with state := next })
  | rejected (intent : OutboundMutationIntent) (h : input = .removeRejected id)
      (uncertain : intent.state = .sentUncertain) : IntentMove input id (some intent) none
  | aged (intent : OutboundMutationIntent) (now : Int) (h : input = .prune now)
      (terminal : intent.state.isTerminal = true)
      (old : intent.createdAt < saturatingSub now maxIntentLifetimeSeconds) :
      IntentMove input id (some intent) none

/-! Sound journals. -/

/-- All rows load, and the journal is within its bounds. -/
structure IntentStore.Sound (s : IntentStore) : Prop where
  loads : ∀ row ∈ s.intents.rows, ∃ intent, LoadsAs rmpv sha256 row intent
  items : (s.intents.rows.length : Int) ≤ maxOutboundMutationIntents
  bytes : (s.intents.rows.map IntentRow.retainedBytes).sum ≤ maxOutboundMutationIntentBytes

variable {rmpv : Rmpv} {sha256 : Bytes → RequestHash} {row : IntentRow}
  {intent : OutboundMutationIntent} {s : IntentStore} {id : MutationId}

theorem loadIntent_none (h : s.intents.find? id = none) :
    loadIntent rmpv sha256 s id = .ok none := by
  unfold loadIntent
  rw [h]

theorem loadIntent_some (h : s.intents.find? id = some row) (hrow : LoadsAs rmpv sha256 row intent) :
    loadIntent rmpv sha256 s id = .ok (some intent) := by
  unfold loadIntent
  rw [h]
  exact map_ok.mpr ⟨intent, loadRow_ok.mpr hrow, rfl⟩

/-- What is loaded is what a row loads as. -/
theorem loadIntent_ok {loaded : Option OutboundMutationIntent}
    (h : loadIntent rmpv sha256 s id = .ok loaded) :
    loaded = none ∧ s.intents.find? id = none ∨
      ∃ row intent, loaded = some intent ∧ s.intents.find? id = some row ∧
        LoadsAs rmpv sha256 row intent := by
  unfold loadIntent at h
  split at h
  · next hnone => exact .inl ⟨(Except.ok.inj h).symm, hnone⟩
  · next row hsome =>
    obtain ⟨intent, hrow, rfl⟩ := map_ok.mp h
    exact .inr ⟨row, intent, rfl, hsome, loadRow_ok.mp hrow⟩

theorem IntentStore.Sound.load (hs : s.Sound rmpv sha256) (id : MutationId) :
    ∃ loaded, loadIntent rmpv sha256 s id = .ok loaded := by
  cases h : s.intents.find? id with
  | none => exact ⟨none, loadIntent_none h⟩
  | some row =>
    obtain ⟨intent, hrow⟩ := hs.loads row (find?_eq_some.mp h).1
    exact ⟨some intent, loadIntent_some h hrow⟩

/-- What an operation does to a sound journal. -/
structure Journalled (rmpv : Rmpv) (sha256 : Bytes → RequestHash) (s s' : IntentStore)
    (input : IntentInput) : Prop where
  sound : s'.Sound rmpv sha256
  moves : ∀ id, ∃ before after, loadIntent rmpv sha256 s id = .ok before ∧
    loadIntent rmpv sha256 s' id = .ok after ∧ IntentMove sha256 input id before after

/-- An operation that leaves the journal alone. -/
theorem Journalled.same (hs : s.Sound rmpv sha256) (h : s'.intents = s.intents) :
    Journalled rmpv sha256 s s' input := by
  refine ⟨⟨h ▸ hs.loads, h ▸ hs.items, h ▸ hs.bytes⟩, fun id => ?_⟩
  obtain ⟨loaded, hload⟩ := hs.load id
  refine ⟨loaded, loaded, hload, ?_, .same loaded⟩
  unfold loadIntent at hload ⊢
  rw [h]
  exact hload

/-! Persisting. -/

theorem retainedSum_ok {rows : List IntentRow} {n : Int} :
    retainedSum rows = .ok n ↔
      n = (rows.map IntentRow.retainedBytes).sum ∧ n ≤ i64Max := by
  unfold retainedSum
  dsimp only
  split
  · next h =>
    simp only [reduceCtorEq, false_iff, not_and]
    rintro rfl
    omega
  · next h =>
    rw [Except.ok.injEq]
    constructor
    · rintro rfl
      exact ⟨rfl, Int.not_lt.mp h⟩
    · intro hn
      exact hn.1.symm

theorem admitIntentRow_ok {r : Unit × IntentStore} (h : admitIntentRow row limits s = .ok r) :
    ∃ t, s.intents.insert row = .ok t ∧ r.2 = { s with intents := t } ∧
      saturatingAdd s.intents.rows.length 1 ≤ limits.items ∧
      saturatingAdd (s.intents.rows.map IntentRow.retainedBytes).sum row.retainedBytes ≤
        limits.bytes := by
  unfold admitIntentRow at h
  rw [Txn.query_bind, Txn.bind_ok] at h
  obtain ⟨bytes, s', hsum, h⟩ := h
  obtain ⟨n, hn, hpair⟩ := map_ok.mp hsum
  cases hpair
  obtain ⟨rfl, _⟩ := retainedSum_ok.mp hn
  split at h
  · exact absurd h (by simp)
  · next hroom =>
    rw [not_or, Int.not_lt, Int.not_lt] at hroom
    obtain ⟨s', hs', rfl⟩ := map_ok.mp h
    have hinsert := mapError_ok.mp hs'
    unfold insertIntent at hinsert
    split at hinsert
    · obtain ⟨t, ht, rfl⟩ := map_ok.mp hinsert
      exact ⟨t, ht, rfl, hroom⟩
    · cases hinsert

/-- A request is refused, or its row is inserted within the limits. -/
theorem persistPreparedWithId_cases (rmpv : Rmpv) (sha256 : Bytes → RequestHash)
    (request : PrepareOutboundMutation) (id : MutationId) (limits : IntentLimits)
    (s : IntentStore) :
    (∃ e, persistPreparedWithId rmpv sha256 request id limits s = (.error e, s)) ∨
      ∃ row intent t, prepareIntentRow rmpv sha256 request id limits = .ok (row, intent) ∧
        s.intents.insert row = .ok t ∧
        persistPreparedWithId rmpv sha256 request id limits s =
          (.ok intent, { s with intents := t }) ∧
        saturatingAdd s.intents.rows.length 1 ≤ limits.items ∧
        saturatingAdd (s.intents.rows.map IntentRow.retainedBytes).sum row.retainedBytes ≤
          limits.bytes := by
  unfold persistPreparedWithId
  cases hprepare : prepareIntentRow rmpv sha256 request id limits with
  | error e => exact .inl ⟨e, rfl⟩
  | ok p =>
    obtain ⟨row, intent⟩ := p
    cases hadmitted : admitIntentRow row limits s with
    | error e =>
      refine .inl ⟨e, ?_⟩
      simp only [Txn.atomically, hadmitted]
      rfl
    | ok r =>
      obtain ⟨t, hinsert, hr, hroom⟩ := admitIntentRow_ok hadmitted
      refine .inr ⟨row, intent, t, rfl, hinsert, ?_, hroom⟩
      simp only [Txn.atomically, hadmitted, hr]
      rfl

/-- A persisted request is in the journal, as the intent that is returned for it. -/
theorem persist_journalled (hs : s.Sound rmpv sha256) (hreadable : request.Readable rmpv) :
    Journalled rmpv sha256 s
      (persistPreparedWithId rmpv sha256 request id productionIntentLimits s).2
      (.persist request id) := by
  rcases persistPreparedWithId_cases rmpv sha256 request id productionIntentLimits s with
    ⟨e, he⟩ | ⟨row, intent, t, hprepare, hinsert, hpersist, hitems, hbytes⟩
  · rw [he]
    exact .same hs rfl
  rw [hpersist]
  have hrow := (loadsAs_prepared_iff hprepare).mpr hreadable
  obtain ⟨_, hhash, _, _, _, hcharge, hintent, hmade⟩ := prepareIntentRow_ok hprepare
  have hid : row.mutationId = id := by rw [hmade]
  obtain ⟨hrows, hfresh⟩ := insert_ok.mp hinsert
  have hbound := hs.bytes
  have hcount := hs.items
  simp only [productionIntentLimits, maxOutboundMutationIntents, maxOutboundMutationIntentBytes,
    maxOutboundMutationIntentBytesEach] at hitems hbytes hcharge hbound hcount
  refine ⟨⟨?_, ?_, ?_⟩, fun id' => ?_⟩
  · intro r hr
    rw [hrows] at hr
    rcases mem_cons.mp hr with rfl | hr
    · exact ⟨intent, hrow⟩
    · exact hs.loads r hr
  · have hle := saturatingAdd_le (by unfold i64Max; omega) hitems
    simp only [hrows, length_cons, maxOutboundMutationIntents]
    omega
  · have hle := saturatingAdd_le (by unfold i64Max; omega) hbytes
    simp only [hrows, map_cons, sum_cons, maxOutboundMutationIntentBytes]
    omega
  · by_cases hsame : row.mutationId = id'
    · obtain rfl : id' = id := hsame.symm.trans hid
      have hnone : s.intents.find? id' = none := find?_eq_none.mpr (hsame ▸ hfresh)
      refine ⟨none, some intent, loadIntent_none hnone, loadIntent_some ?_ hrow, ?_⟩
      · show t.find? id' = some row
        rw [find?_insert hinsert, if_pos hsame]
      · rw [hintent]
        exact .persisted request _ rfl (hintent ▸ hhash)
    · obtain ⟨loaded, hload⟩ := hs.load id'
      refine ⟨loaded, loaded, hload, ?_, .same loaded⟩
      rw [← hload]
      simp only [loadIntent, find?_insert hinsert, if_neg hsame]

/-! Transitions. -/

theorem IntentRow.isIn_iff :
    row.isIn id expected = true ↔ row.mutationId = id ∧ row.state = expected.code := by
  simp [IntentRow.isIn]

theorem setIntentState_journalled (hs : s.Sound rmpv sha256)
    (hallowed : allowedTransition expected next = true) :
    Journalled rmpv sha256 s (setIntentState id expected next s)
      (.transition id expected next) := by
  refine ⟨⟨?_, ?_, ?_⟩, fun id' => ?_⟩
  · intro r hr
    obtain ⟨row, hrow, rfl⟩ := mem_map.mp hr
    obtain ⟨intent, hload⟩ := hs.loads row hrow
    split
    · exact ⟨_, hload.setState next⟩
    · exact ⟨intent, hload⟩
  · simpa only [setIntentState, updateWhere, length_map] using hs.items
  · have hsame : (setIntentState id expected next s).intents.rows.map IntentRow.retainedBytes =
        s.intents.rows.map IntentRow.retainedBytes := by
      simp only [setIntentState, updateWhere, map_map]
      apply map_congr_left
      intro r _
      simp only [Function.comp]
      split <;> rfl
    rw [hsame]
    exact hs.bytes
  · have hfind : (setIntentState id expected next s).intents.find? id' =
        (s.intents.find? id').map (fun row =>
          if row.isIn id expected then { row with state := next.code } else row) := by
      rw [setIntentState, find?_updateWhere]
    cases hrow : s.intents.find? id' with
    | none =>
      rw [hrow] at hfind
      exact ⟨none, none, loadIntent_none hrow, loadIntent_none hfind, .same none⟩
    | some row =>
      obtain ⟨hmem, hid⟩ := find?_eq_some.mp hrow
      obtain ⟨intent, hload⟩ := hs.loads row hmem
      rw [hrow, Option.map_some] at hfind
      cases hin : row.isIn id expected with
      | true =>
        -- the one row that moves
        obtain ⟨hkey, hstate⟩ := IntentRow.isIn_iff.mp hin
        obtain rfl : id' = id := hid.symm.trans hkey
        have hintent : expected = intent.state :=
          OutboundMutationState.code_inj (hstate.symm.trans hload.state)
        subst hintent
        rw [hin, if_pos rfl] at hfind
        exact ⟨_, _, loadIntent_some hrow hload, loadIntent_some hfind (hload.setState next),
          .moved intent next rfl hallowed⟩
      | false =>
        rw [hin, if_neg Bool.false_ne_true] at hfind
        exact ⟨_, _, loadIntent_some hrow hload, loadIntent_some hfind hload, .same _⟩

theorem transition_journalled (hs : s.Sound rmpv sha256) :
    Journalled rmpv sha256 s (transition rmpv sha256 id expected next s).2
      (.transition id expected next) := by
  unfold transition
  split
  · exact .same hs rfl
  · next hallowed =>
    dsimp only
    split
    · exact setIntentState_journalled hs (Bool.not_eq_false _ ▸ hallowed)
    · exact setIntentState_journalled hs (Bool.not_eq_false _ ▸ hallowed)

/-! Removal. -/

/-- A journal with fewer rows is sound. -/
theorem IntentStore.Sound.of_sublist (hs : s.Sound rmpv sha256)
    (h : s'.intents.rows.Sublist s.intents.rows) : s'.Sound rmpv sha256 := by
  refine ⟨fun row hrow => hs.loads row (h.subset hrow), ?_, ?_⟩
  · exact length_le_of_sublist h hs.items
  · refine le_trans ((h.map IntentRow.retainedBytes).sum_le_sum ?_) hs.bytes
    intro n hn
    obtain ⟨row, hrow, rfl⟩ := mem_map.mp hn
    obtain ⟨intent, hload⟩ := hs.loads row hrow
    exact le_trans (by decide) hload.retainedBytes

/-- Rows are deleted, and each deletion is a move of the operation. -/
theorem Journalled.deleted (gone : IntentRow → Prop) (hs : s.Sound rmpv sha256)
    (hsub : s'.intents.rows.Sublist s.intents.rows)
    (hmem : ∀ row, row ∈ s'.intents.rows ↔ row ∈ s.intents.rows ∧ ¬gone row)
    (hgone : ∀ row intent, row ∈ s.intents.rows → gone row → LoadsAs rmpv sha256 row intent →
      IntentMove sha256 input row.mutationId (some intent) none) :
    Journalled rmpv sha256 s s' input := by
  refine ⟨hs.of_sublist hsub, fun id => ?_⟩
  cases hfind : s.intents.find? id with
  | none =>
    have hnone : s'.intents.find? id = none := by
      rw [Table.find?_eq_none] at hfind ⊢
      exact fun row hrow => hfind row (hsub.subset hrow)
    exact ⟨none, none, loadIntent_none hfind, loadIntent_none hnone, .same none⟩
  | some row =>
    obtain ⟨hrow, rfl⟩ := find?_eq_some.mp hfind
    obtain ⟨intent, hload⟩ := hs.loads row hrow
    refine ⟨some intent, ?_⟩
    by_cases hg : gone row
    · have hnone : s'.intents.find? row.mutationId = none := by
        rw [Table.find?_eq_none]
        intro q hq hkey
        obtain ⟨hq, hkeep⟩ := (hmem q).mp hq
        exact hkeep (eq_of_key hrow hq hkey.symm ▸ hg)
      exact ⟨none, loadIntent_some hfind hload, loadIntent_none hnone, hgone row intent hrow hg hload⟩
    · have hsome : s'.intents.find? row.mutationId = some row :=
        find?_eq_some.mpr ⟨(hmem row).mpr ⟨hrow, hg⟩, rfl⟩
      exact ⟨some intent, loadIntent_some hfind hload, loadIntent_some hsome hload, .same _⟩

/-- A rejected intent goes only while it is uncertain. -/
theorem removeRejectedBody_ok {r : IntentRemoval × IntentStore}
    (h : removeRejectedBody rmpv sha256 id s = .ok r) :
    r.2 = s ∨ r.2 = { s with
      intents := s.intents.deleteWhere (fun row => row.isIn id .sentUncertain) } := by
  unfold removeRejectedBody at h
  rw [Txn.bind_ok] at h
  obtain ⟨stored, s', hload, h⟩ := h
  obtain ⟨_, _, hpair⟩ := map_ok.mp hload
  cases hpair
  split at h
  · rw [Txn.pure_ok.mp h]
    exact .inl rfl
  · split at h
    · rw [Txn.pure_ok.mp h]
      exact .inl rfl
    · rw [Txn.query_bind, Txn.execute_bind] at h
      split at h
      · exact absurd h (by simp)
      · rw [Txn.pure_ok.mp h]
        exact .inr rfl

theorem removeRejected_journalled (hs : s.Sound rmpv sha256) :
    Journalled rmpv sha256 s (removeRejectedUncertain rmpv sha256 id s).2 (.removeRejected id) := by
  refine Txn.atomically_preserves (I := fun s' => Journalled rmpv sha256 s s' _) ?_ (.same hs rfl)
  intro answer s' hbody
  rcases removeRejectedBody_ok hbody with hsame | hdeleted
  · exact .same hs (congrArg IntentStore.intents hsame)
  · change s' = _ at hdeleted
    subst hdeleted
    refine .deleted (fun row => row.isIn id .sentUncertain = true) hs ?_ ?_ ?_
    · exact filter_sublist
    · intro row
      rw [mem_deleteWhere, Bool.not_eq_true]
    · intro row intent _ hin hload
      obtain ⟨hkey, hstate⟩ := IntentRow.isIn_iff.mp hin
      exact .rejected intent (hkey ▸ rfl)
        (OutboundMutationState.code_inj (hload.state.symm.trans hstate))

theorem pruneTerminal_journalled {now : Int} (hs : s.Sound rmpv sha256) :
    Journalled rmpv sha256 s (pruneTerminal now s).2 (.prune now) := by
  refine .deleted (fun row => row ∈ prunedIntents now s) hs ?_ ?_ ?_
  · exact deleteRows_sublist _ _
  · intro row
    exact mem_deleteRows fun v hv => (mem_of_mem_batch hv).1
  · intro row intent _ hgone hload
    obtain ⟨_, hold⟩ := mem_of_mem_batch hgone
    rw [Bool.and_eq_true, decide_eq_true_eq, hload.state, terminalCode_code, hload.createdAt] at hold
    exact .aged intent now rfl hold.1 hold.2

/-! The client instance. -/

/-- The client instance is made where there is none, and replaced where nothing is under way. -/
inductive InstanceMove (s s' : IntentStore) : IntentInput → Prop where
  | same (input : IntentInput) (h : s'.clientInstanceId = s.clientInstanceId) :
      InstanceMove s s' input
  | created (generated : ClientInstanceId) (h : s.clientInstanceId = none)
      (h' : s'.clientInstanceId = some generated) : InstanceMove s s' (.loadInstance generated)
  | rotated (expected replacement : ClientInstanceId) (h : s.clientInstanceId = some expected)
      (h' : s'.clientInstanceId = some replacement)
      (quiescent : ∀ row ∈ s.intents.rows, row.nonterminal = false) :
      InstanceMove s s' (.rotate expected replacement)

/-! Recovery. -/

theorem compareBytes_eq : compareBytes = List.compareLex (compareOn UInt8.toNat) := by
  funext a b
  induction a generalizing b with
  | nil => cases b <;> rfl
  | cons x a ih =>
    cases b with
    | nil => rfl
    | cons y b =>
      rw [List.compareLex_cons_cons, ← ih]
      rfl

instance : Std.TransCmp compareBytes := by
  rw [compareBytes_eq]
  infer_instance

instance : Std.TransCmp byCreation :=
  let _ : Std.TransCmp (fun a b : IntentRow => compareBytes a.mutationId.bytes b.mutationId.bytes) :=
    { eq_swap := fun {a b} =>
        Std.OrientedCmp.eq_swap (a := a.mutationId.bytes) (b := b.mutationId.bytes)
      isLE_trans := fun hab hbc => Std.TransCmp.isLE_trans hab hbc }
  inferInstanceAs (Std.TransCmp (compareLex (compareOn IntentRow.createdAt)
    (fun a b => compareBytes a.mutationId.bytes b.mutationId.bytes)))

/-- The intents that are under way, in the order of their creation. -/
def Recovers (rmpv : Rmpv) (sha256 : Bytes → RequestHash) (s : IntentStore)
    (intents : List OutboundMutationIntent) : Prop :=
  intents.Pairwise (fun a b => a.createdAt ≤ b.createdAt ∧ a.mutationId ≠ b.mutationId) ∧
  ∀ intent, intent ∈ intents ↔ intent.state.isTerminal = false ∧
    loadIntent rmpv sha256 s intent.mutationId = .ok (some intent)

theorem loadIntent_row (h : loadIntent rmpv sha256 s id = .ok (some intent)) :
    ∃ row ∈ s.intents.rows, row.mutationId = id ∧ LoadsAs rmpv sha256 row intent := by
  rcases loadIntent_ok h with ⟨hnone, _⟩ | ⟨row, intent', hsome, hfind, hload⟩
  · cases hnone
  · cases hsome
    obtain ⟨hrow, hid⟩ := find?_eq_some.mp hfind
    exact ⟨row, hrow, hid, hload⟩

/-- A row that is under way is one whose intent is. -/
theorem LoadsAs.nonterminal (h : LoadsAs rmpv sha256 row intent) :
    row.nonterminal = !intent.state.isTerminal := by
  unfold IntentRow.nonterminal
  rw [h.state, nonterminalCode_code]

theorem recoverIntent_ok :
    recoverIntent rmpv sha256 s id = .ok intent ↔ loadIntent rmpv sha256 s id = .ok (some intent) := by
  unfold recoverIntent
  rw [bind_ok]
  constructor
  · intro ⟨loaded, hload, hsome⟩
    rw [hload, orFailed_ok.mp hsome]
  · intro hload
    exact ⟨some intent, hload, rfl⟩

/-- The rows that are under way, in the order of their creation. -/
def IntentStore.underWay (s : IntentStore) : List IntentRow :=
  orderBy byCreation (s.intents.rows.filter IntentRow.nonterminal)

theorem mem_underWay : row ∈ s.underWay ↔ row ∈ s.intents.rows ∧ row.nonterminal = true :=
  mem_orderBy.trans mem_filter

/-- The rows under way are within the bounds of a recovery, and each of them loads. -/
structure IntentStore.Recoverable (rmpv : Rmpv) (sha256 : Bytes → RequestHash) (s : IntentStore) :
    Prop where
  loads : ∀ row ∈ s.intents.rows, row.nonterminal = true → ∃ intent, LoadsAs rmpv sha256 row intent
  items : ((s.intents.rows.filter IntentRow.nonterminal).length : Int) ≤ maxOutboundMutationIntents
  bytes : ((s.intents.rows.filter IntentRow.nonterminal).map IntentRow.retainedBytes).sum ≤
    maxOutboundMutationIntentBytes

theorem IntentStore.Sound.recoverable (hs : s.Sound rmpv sha256) : s.Recoverable rmpv sha256 := by
  have hpart : IntentStore.Sound rmpv sha256 { s with
      intents := s.intents.deleteWhere (fun row => !row.nonterminal) } :=
    hs.of_sublist filter_sublist
  have hrows : (s.intents.deleteWhere (fun row => !row.nonterminal)).rows =
      s.intents.rows.filter IntentRow.nonterminal := by
    simp only [deleteWhere, Bool.not_not]
  have hitems := hpart.items
  have hbytes := hpart.bytes
  rw [hrows] at hitems hbytes
  exact ⟨fun row hrow _ => hs.loads row hrow, hitems, hbytes⟩

theorem recoverNonterminal_eq (hs : s.Recoverable rmpv sha256) :
    recoverNonterminal rmpv sha256 s =
      .ok ((s.underWay.map IntentRow.mutationId).filterMap
        (fun id => (recoverIntent rmpv sha256 s id).toOption)) := by
  obtain ⟨hloads, hitems, hbytes⟩ := hs
  have hbatch : s.intents.batch byCreation IntentRow.nonterminal
      (maxOutboundMutationIntents + 1).toNat = s.underWay := by
    apply take_of_length_le
    rw [(perm_orderBy byCreation _).length_eq]
    omega
  unfold recoverNonterminal
  simp only [↓check_ok, refuse_ok, bind_ok, hbatch]
  refine ⟨_, retainedSum_ok.mpr ⟨rfl, ?_⟩, ?_, ?_, mapM_of_forall ?_⟩
  · unfold maxOutboundMutationIntentBytes at hbytes
    unfold i64Max
    omega
  · rw [not_or, Int.not_lt, Int.not_lt]
    exact ⟨hitems, hbytes⟩
  · rw [length_map, IntentStore.underWay, (perm_orderBy byCreation _).length_eq, Int.not_lt]
    exact hitems
  · intro id hid
    obtain ⟨row, hrow, rfl⟩ := mem_map.mp hid
    obtain ⟨hrow, hnonterminal⟩ := mem_underWay.mp hrow
    obtain ⟨intent, hload⟩ := hloads row hrow hnonterminal
    exact ⟨intent, recoverIntent_ok.mpr
      (loadIntent_some (find?_eq_some.mpr ⟨hrow, rfl⟩) hload)⟩

/-- A recovery reads exactly the intents under way. -/
theorem recoverNonterminal_recovers (hs : s.Recoverable rmpv sha256) :
    ∃ intents, recoverNonterminal rmpv sha256 s = .ok intents ∧
      Recovers rmpv sha256 s intents := by
  refine ⟨_, recoverNonterminal_eq hs, ?_, fun intent => ?_⟩
  · have hkeys : s.underWay.Pairwise (fun a b => a.mutationId ≠ b.mutationId) := by
      have hnodup := (s.intents.unique.sublist
        ((filter_sublist (p := IntentRow.nonterminal)).map IntentRow.mutationId))
      exact pairwise_map.mp
        (((perm_orderBy byCreation _).map IntentRow.mutationId).nodup_iff.mpr hnodup)
    have hsorted : s.underWay.Pairwise (fun a b => (byCreation a b).isLE = true) :=
      pairwise_orderBy byCreation _
    rw [pairwise_filterMap, pairwise_map]
    refine (hsorted.and hkeys).imp_of_mem ?_
    intro a b ha hb ⟨hle, hne⟩ x hx y hy
    have hloads : ∀ row z, row ∈ s.underWay →
        (recoverIntent rmpv sha256 s row.mutationId).toOption = some z →
        LoadsAs rmpv sha256 row z := by
      intro row z hrow hz
      obtain ⟨q, hq, hkey, hload⟩ :=
        loadIntent_row (recoverIntent_ok.mp (toOption_eq_some.mp hz))
      exact eq_of_key hq (mem_underWay.mp hrow).1 hkey ▸ hload
    have hxa := hloads a x ha hx
    have hyb := hloads b y hb hy
    rw [← hxa.createdAt, ← hyb.createdAt, ← hxa.mutationId, ← hyb.mutationId]
    refine ⟨?_, hne⟩
    rw [byCreation, Ordering.isLE_then_iff_and] at hle
    exact Int.isLE_compare.mp hle.1
  · -- an intent under way has its row, and a row under way loads
    rw [mem_filterMap]
    simp only [toOption_eq_some, recoverIntent_ok]
    constructor
    · intro ⟨id, hid, hload⟩
      obtain ⟨q, hq, hkey, hrow⟩ := loadIntent_row hload
      obtain ⟨row, hmem, hid⟩ := mem_map.mp hid
      obtain ⟨hmem, hnonterminal⟩ := mem_underWay.mp hmem
      obtain rfl := eq_of_key hq hmem (hkey.trans hid.symm)
      rw [hrow.nonterminal, Bool.not_eq_true'] at hnonterminal
      refine ⟨hnonterminal, ?_⟩
      rw [← hrow.mutationId, hkey]
      exact hload
    · intro ⟨hnonterminal, hload⟩
      obtain ⟨row, hmem, hkey, hrow⟩ := loadIntent_row hload
      refine ⟨intent.mutationId, ?_, hload⟩
      apply mem_map.mpr
      refine ⟨row, mem_underWay.mpr ⟨hmem, ?_⟩, hkey⟩
      rw [hrow.nonterminal, hnonterminal]
      rfl

/-! One step. -/

theorem rotate_instanceMove {expected : ClientInstanceId} :
    InstanceMove s (rotateClientInstanceIfQuiescentWith expected replacement s).2
      (.rotate expected replacement) := by
  unfold rotateClientInstanceIfQuiescentWith replaceExpected
  split
  · exact .same _ rfl
  · next hquiescent =>
    rw [ne_eq, not_not, countP_eq_zero] at hquiescent
    split
    · exact .same _ rfl
    · next replaced hreplaced =>
      split at hreplaced
      · cases hreplaced
      · split at hreplaced
        · cases hreplaced
        · next current hcurrent =>
          split at hreplaced
          · cases hreplaced
          · next hexpected =>
            cases hreplaced
            rw [ne_eq, not_not] at hexpected
            refine .rotated expected replacement (hexpected ▸ hcurrent) rfl fun row hrow => ?_
            exact Bool.not_eq_true _ ▸ hquiescent row hrow

theorem rotate_intents {expected : ClientInstanceId} :
    (rotateClientInstanceIfQuiescentWith expected replacement s).2.intents = s.intents := by
  unfold rotateClientInstanceIfQuiescentWith
  split
  · rfl
  · split <;> rfl

theorem loadOrCreateInstance_intents {generated : ClientInstanceId} :
    (loadOrCreateInstance generated s).2.intents = s.intents := by
  unfold loadOrCreateInstance
  split <;> rfl

/-- An operation keeps a sound journal sound, and moves what loads as it may. -/
theorem applyIntent_journalled (hs : s.Sound rmpv sha256) (hreadable : input.Readable rmpv) :
    Journalled rmpv sha256 s (applyIntent rmpv sha256 s input).2 input := by
  cases input with
  | persist request id => exact persist_journalled hs hreadable
  | load | recover | restart => exact .same hs rfl
  | transition id expected next => exact transition_journalled hs
  | removeRejected id => exact removeRejected_journalled hs
  | prune now => exact pruneTerminal_journalled hs
  | rotate expected replacement => exact .same hs rotate_intents
  | loadInstance generated => exact .same hs loadOrCreateInstance_intents

theorem persist_clientInstanceId :
    (persistPreparedWithId rmpv sha256 request id limits s).2.clientInstanceId =
      s.clientInstanceId := by
  rcases persistPreparedWithId_cases rmpv sha256 request id limits s with
    ⟨e, he⟩ | ⟨_, _, t, _, _, hpersist, _⟩
  · rw [he]
  · rw [hpersist]

theorem transition_clientInstanceId :
    (transition rmpv sha256 id expected next s).2.clientInstanceId = s.clientInstanceId := by
  unfold transition
  split
  · rfl
  · dsimp only
    split <;> rfl

theorem removeRejected_clientInstanceId :
    (removeRejectedUncertain rmpv sha256 id s).2.clientInstanceId = s.clientInstanceId := by
  refine Txn.atomically_preserves
    (I := fun s' : IntentStore => s'.clientInstanceId = s.clientInstanceId) ?_ rfl
  intro answer s' hbody
  rcases removeRejectedBody_ok hbody with hsame | hdeleted
  · exact congrArg IntentStore.clientInstanceId hsame
  · change s' = _ at hdeleted
    rw [hdeleted]

theorem applyIntent_instanceMove (rmpv : Rmpv) (sha256 : Bytes → RequestHash) (s : IntentStore)
    (input : IntentInput) : InstanceMove s (applyIntent rmpv sha256 s input).2 input := by
  cases input with
  | persist request id => exact .same _ persist_clientInstanceId
  | load | recover | prune | restart => exact .same _ rfl
  | transition id expected next => exact .same _ transition_clientInstanceId
  | removeRejected id => exact .same _ removeRejected_clientInstanceId
  | rotate expected replacement => exact rotate_instanceMove
  | loadInstance generated =>
    show InstanceMove s (loadOrCreateInstance generated s).2 _
    unfold loadOrCreateInstance
    split
    · exact .same _ rfl
    · next hnone => exact .created generated hnone rfl

abbrev JournalInput := IntentInput × Option Interruption

/-- An operation that is cut short has been made or has not. -/
theorem journalStep_cases (rmpv : Rmpv) (sha256 : Bytes → RequestHash) (s : IntentStore)
    (i : JournalInput) :
    (journalStep rmpv sha256 s i).2 = s ∨
      (journalStep rmpv sha256 s i).2 = (applyIntent rmpv sha256 s i.1).2 := by
  obtain ⟨input, fault⟩ := i
  cases fault with
  | none => exact .inr rfl
  | some point =>
    cases point with
    | before => exact .inl rfl
    | after => exact .inr rfl

theorem journalStep_journalled {i : JournalInput} (hs : s.Sound rmpv sha256)
    (hreadable : i.1.Readable rmpv) :
    Journalled rmpv sha256 s (journalStep rmpv sha256 s i).2 i.1 := by
  rcases journalStep_cases rmpv sha256 s i with hsame | hmade
  · exact .same hs (congrArg IntentStore.intents hsame)
  · rw [hmade]
    exact applyIntent_journalled hs hreadable

theorem journalStep_instanceMove (rmpv : Rmpv) (sha256 : Bytes → RequestHash) (s : IntentStore)
    (i : JournalInput) : InstanceMove s (journalStep rmpv sha256 s i).2 i.1 := by
  rcases journalStep_cases rmpv sha256 s i with hsame | hmade
  · exact .same _ (congrArg IntentStore.clientInstanceId hsame)
  · rw [hmade]
    exact applyIntent_instanceMove rmpv sha256 s i.1

/-- A request whose intent was returned loads as that intent iff it is readable. -/
theorem persisted_loads_iff
    (h : (persistPreparedWithId rmpv sha256 request id productionIntentLimits s).1 = .ok intent) :
    loadIntent rmpv sha256
        (persistPreparedWithId rmpv sha256 request id productionIntentLimits s).2 id =
      .ok (some intent) ↔ request.Readable rmpv := by
  rcases persistPreparedWithId_cases rmpv sha256 request id productionIntentLimits s with
    ⟨e, he⟩ | ⟨row, intent', t, hprepare, hinsert, hpersist, _⟩
  · rw [he] at h
    cases h
  rw [hpersist] at h ⊢
  cases h
  have hid : row.mutationId = id := by rw [(prepareIntentRow_ok hprepare).2.2.2.2.2.2.2]
  have hfind : t.find? id = some row := by rw [find?_insert hinsert, if_pos hid]
  rw [← loadsAs_prepared_iff hprepare]
  constructor
  · intro hload
    obtain ⟨q, hq, hkey, hrow⟩ := loadIntent_row hload
    obtain rfl := eq_of_key hq (find?_eq_some.mp hfind).1 (hkey.trans hid.symm)
    exact hrow
  · exact loadIntent_some hfind

/-! Whole runs. -/

theorem IntentStore.sound_default : IntentStore.Sound rmpv sha256 .default :=
  ⟨fun _ h => absurd h not_mem_nil, by decide, by decide⟩

theorem journalRun_sound (hs : s.Sound rmpv sha256) (hreadable : ∀ j ∈ js, j.1.Readable rmpv) :
    (run (journalStep rmpv sha256) s js).2.Sound rmpv sha256 :=
  run_invariant (I := IntentStore.Sound rmpv sha256)
    (fun _ _ hs hread => (journalStep_journalled hs hread).sound) s js
    (meets_of_forall (p := fun j : JournalInput => j.1.Readable rmpv) hreadable) hs

/-- The two ways an intent goes. -/
def Removes (input : IntentInput) (id : MutationId) (state : OutboundMutationState)
    (createdAt : Int) : Prop :=
  input = .removeRejected id ∧ state = .sentUncertain ∨
    ∃ now, input = .prune now ∧ state.isTerminal = true ∧
      createdAt < saturatingSub now maxIntentLifetimeSeconds

/-- Along a run an intent is what it was but for its state, until it is removed. -/
def Lasts (rmpv : Rmpv) (sha256 : Bytes → RequestHash) (s : IntentStore) (js : List JournalInput)
    (id : MutationId) (intent : OutboundMutationIntent) : Prop :=
  (∃ state, Advances intent.state state ∧
    loadIntent rmpv sha256 (run (journalStep rmpv sha256) s js).2 id =
      .ok (some { intent with state })) ∨
  ∃ js₁ j js₂ state, js = js₁ ++ j :: js₂ ∧ Advances intent.state state ∧
    loadIntent rmpv sha256 (run (journalStep rmpv sha256) s js₁).2 id =
      .ok (some { intent with state }) ∧
    Removes j.1 id state intent.createdAt

theorem Lasts.step {j : JournalInput}
    (h : Lasts rmpv sha256 (journalStep rmpv sha256 s j).2 js id { intent with state := next })
    (hnext : Advances intent.state next) : Lasts rmpv sha256 s (j :: js) id intent := by
  rcases h with ⟨state, hstate, hload⟩ | ⟨js₁, k, js₂, state, rfl, hstate, hload, hremoved⟩
  · exact .inl ⟨state, hnext.trans hstate, hload⟩
  · exact .inr ⟨j :: js₁, k, js₂, state, rfl, hnext.trans hstate, hload, hremoved⟩

theorem journalRun_lasts (hs : s.Sound rmpv sha256) (hreadable : ∀ j ∈ js, j.1.Readable rmpv)
    (hload : loadIntent rmpv sha256 s id = .ok (some intent)) :
    Lasts rmpv sha256 s js id intent := by
  induction js generalizing s intent with
  | nil => exact .inl ⟨intent.state, .refl, hload⟩
  | cons j js ih =>
    have hstep := journalStep_journalled hs (hreadable j mem_cons_self)
    obtain ⟨before, after, hbefore, hafter, hmove⟩ := hstep.moves id
    rw [hload] at hbefore
    cases hbefore
    have hrest : ∀ k ∈ js, k.1.Readable rmpv := fun k hk => hreadable k (mem_cons_of_mem j hk)
    have hgone : Removes j.1 id intent.state intent.createdAt → Lasts rmpv sha256 s (j :: js) id intent :=
      fun hremoved => .inr ⟨[], j, js, intent.state, rfl, .refl, hload, hremoved⟩
    cases hmove with
    | same => exact (ih hstep.sound hrest hafter).step .refl
    | moved _ next _ hallowed => exact (ih hstep.sound hrest hafter).step (.single hallowed)
    | rejected _ hinput huncertain => exact hgone (.inl ⟨hinput, huncertain⟩)
    | aged _ now hinput hterminal hold => exact hgone (.inr ⟨now, hinput, hterminal, hold⟩)

/-- What holds of the journal in a state. -/
structure JournalHolds (rmpv : Rmpv) (sha256 : Bytes → RequestHash) (s : IntentStore) : Prop where
  loads : ∀ row ∈ s.intents.rows, ∃ intent,
    loadIntent rmpv sha256 s row.mutationId = .ok (some intent) ∧ intent.mutationId = row.mutationId
  items : (s.intents.rows.length : Int) ≤ maxOutboundMutationIntents
  bytes : (s.intents.rows.map IntentRow.retainedBytes).sum ≤ maxOutboundMutationIntentBytes
  bytesEach : ∀ row ∈ s.intents.rows, row.requestFrame.length ≤ maxOutboundMutationIntentBytesEach ∧
    row.retainedBytes ≤ maxOutboundMutationIntentBytesEach
  recovers : ∃ intents, recoverNonterminal rmpv sha256 s = .ok intents ∧
    Recovers rmpv sha256 s intents

/-- What holds of a step of the journal. -/
structure JournalMoves (rmpv : Rmpv) (sha256 : Bytes → RequestHash) (s : IntentStore)
    (i : JournalInput) : Prop where
  moves : ∀ id, ∃ before after, loadIntent rmpv sha256 s id = .ok before ∧
    loadIntent rmpv sha256 (journalStep rmpv sha256 s i).2 id = .ok after ∧
    IntentMove sha256 i.1 id before after
  clientInstance : InstanceMove s (journalStep rmpv sha256 s i).2 i.1

theorem IntentStore.Sound.holds (hs : s.Sound rmpv sha256) : JournalHolds rmpv sha256 s := by
  refine ⟨?_, hs.items, hs.bytes, ?_, recoverNonterminal_recovers hs.recoverable⟩
  · intro row hrow
    obtain ⟨intent, hload⟩ := hs.loads row hrow
    exact ⟨intent, loadIntent_some (find?_eq_some.mpr ⟨hrow, rfl⟩) hload, hload.mutationId.symm⟩
  · intro row hrow
    obtain ⟨intent, hload⟩ := hs.loads row hrow
    have hlengths := refuse_ok.mp hload.lengths
    simp only [not_or, not_not] at hlengths
    exact ⟨hlengths.2.2.2.2.1.2, hlengths.2.2.2.2.2.2.2⟩

/-- In every run that persists readable requests, the journal holds: all intents load, recovery
reads exactly those under way in the order of their creation, the bounds are kept; each operation
moves an intent along an allowed transition, drops a rejected uncertain one or prunes an old
terminal one, and the client instance is replaced only while nothing is under way. In any state,
the intent that a persist returns loads again iff its request is readable. -/
theorem intent_journal_kept (rmpv : Rmpv) (sha256 : Bytes → RequestHash) (is : List JournalInput)
    (hreadable : ∀ i ∈ is, i.1.Readable rmpv) :
    let s := (run (journalStep rmpv sha256) .default is).2
    JournalHolds rmpv sha256 s ∧
    (∀ i : JournalInput, i.1.Readable rmpv → JournalMoves rmpv sha256 s i) ∧
    (∀ js : List JournalInput, (∀ j ∈ js, j.1.Readable rmpv) → ∀ id intent,
      loadIntent rmpv sha256 s id = .ok (some intent) → Lasts rmpv sha256 s js id intent) ∧
    (∀ a b, Advances a b → a.isTerminal = true → b = a) ∧
    ∀ request id intent,
      (persistPreparedWithId rmpv sha256 request id productionIntentLimits s).1 = .ok intent →
      (loadIntent rmpv sha256
          (persistPreparedWithId rmpv sha256 request id productionIntentLimits s).2 id =
        .ok (some intent) ↔ request.Readable rmpv) := by
  have hs : IntentStore.Sound rmpv sha256 _ := journalRun_sound IntentStore.sound_default hreadable
  refine ⟨hs.holds, ?_, ?_, fun _ _ hab ha => hab.of_terminal ha, ?_⟩
  · intro i hi
    exact ⟨(journalStep_journalled hs hi).moves, journalStep_instanceMove rmpv sha256 _ i⟩
  · intro js hjs id intent hload
    exact journalRun_lasts hs hjs hload
  · intro request id intent hpersist
    exact persisted_loads_iff hpersist

end Runs

/-! A request that is persisted and never read back. -/

def firstMutation : MutationId := ⟨replicate 16 3, by decide⟩
def firstInstance : ClientInstanceId := ⟨replicate 16 7, by decide⟩
def zeroHash : RequestHash := ⟨replicate 32 0, by decide⟩

/-- Arrays in arrays. -/
def nested : Nat → FrameValue
  | 0 => .nil
  | depth + 1 => .array [nested depth]

def commandIntent (body : FrameBody) : PrepareOutboundMutation :=
  { serverDestination := "0123456789abcdef"
    authenticatedIdentityHash := [1]
    clientInstanceId := firstInstance
    op := .command
    roomId := some 9
    body
    createdAt := 100
    expiresAt := 200
    correlationId := none }

/-- The journal after a command with a body is persisted. -/
def journalWith (body : FrameBody) : IntentStore :=
  (run (journalStep Rmpv.reference (fun _ => zeroHash)) .default
    [(.persist (commandIntent body) firstMutation, none)]).2

def IntentOutcome.isPersisted : IntentOutcome → Bool
  | .persisted _ => true
  | _ => false

theorem nested_normal : ∀ depth, Server.FrameValue.Normal (nested depth)
  | 0 => trivial
  | depth + 1 => ⟨nested_normal depth, trivial⟩

theorem emptyCommand_readable : (commandIntent .empty).Readable Rmpv.reference := by
  have hencode : encodeFrame Rmpv.reference (commandIntent .empty).frame =
      .ok [0x96, 0x01, 0x32, 0x00, 0x00, 0x09, 0xc0] := by decide +kernel
  refine ⟨trivial, fun bytes hbytes => ?_⟩
  cases hencode.symm.trans hbytes
  exact ⟨by decide, ⟨by decide, by trivial⟩, by decide, by decide⟩

/-- A command is sent, acknowledged and pruned when it is old. -/
theorem intent_journal_kept_command :
    JournalHolds Rmpv.reference (fun _ => zeroHash)
      (run (journalStep Rmpv.reference (fun _ => zeroHash)) .default
        [(.persist (commandIntent .empty) firstMutation, none),
          (.transition firstMutation .prepared .sentUncertain, some .after), (.restart, none),
          (.transition firstMutation .sentUncertain .acknowledged, none),
          (.prune 10000000, none)]).2 := by
  refine (intent_journal_kept Rmpv.reference (fun _ => zeroHash) _ ?_).1
  intro i hi
  simp only [mem_cons, not_mem_nil, or_false] at hi
  rcases hi with rfl | rfl | rfl | rfl | rfl
  · exact emptyCommand_readable
  all_goals trivial

/-- A body of nested arrays without any integer is persisted, and neither it nor anything else is
recovered from then on. -/
theorem intent_not_read_back :
    Server.FrameBody.Normal (.fields [nested 15]) ∧
    (journalStep Rmpv.reference (fun _ => zeroHash) .default
      (.persist (commandIntent (.fields [nested 15])) firstMutation, none)).1.isPersisted = true ∧
    (loadIntent Rmpv.reference (fun _ => zeroHash) (journalWith (.fields [nested 15]))
      firstMutation).isOk = false ∧
    (recoverNonterminal Rmpv.reference (fun _ => zeroHash)
      (journalWith (.fields [nested 15]))).isOk = false :=
  ⟨⟨nested_normal 15, trivial⟩, by decide +kernel, by decide +kernel, by decide +kernel⟩

end Omen.Client
