import OmenBrowser.Lib.Ints
import OmenBrowser.Lib.Parsing
import OmenBrowser.Messaging.TicketIssuer

/- The operation an outbound message belongs to, kept in the fields of the message
   (`messaging/message.rs`), and the run that marks messages whose time is over
   (`reconcile_expired_lxmf` of `messaging/store.rs`).

   An operation that is written into the fields is read from them at every time. A message that has
   a deadline keeps it, and every run from the deadline on marks the message
   (`outbound_operation_kept`). A message of an older version has the two ids only; each reading
   gives it a window that begins then, and no run marks it (`legacy_message_never_expires`).

   Correspondence (Rust ↔ Lean):
     `BTreeMap<String, String>`    ↔ `MessageFields`
     `value.parse().ok()?`         ↔ `parseU64`, `parseU8`
     `list_threads()?`             ↔ the threads of a run
     `self.save_thread(&thread)?`  ↔ `save`: it may refuse a thread, which then stays as it was -/
namespace Omen.Messaging
open Wire Ints Text

abbrev MessageFields := Std.ExtTreeMap String String

def outboundOperationIdMaxBytes : Nat := 192
def outboundIdempotencyField : String := "native_lxmf_sdk_idempotency_key"
def outboundCorrelationField : String := "native_lxmf_sdk_correlation_id"
def outboundTtlField : String := "native_lxmf_sdk_ttl_ms"
def outboundCreatedAtField : String := "native_lxmf_sdk_created_at_ms"
def outboundExpiresAtField : String := "native_lxmf_sdk_expires_at_ms"
def outboundPropagationFallbackField : String := "native_lxmf_allow_propagation_fallback"
def outboundAutomaticPropagationFallbackField : String :=
  "native_lxmf_automatic_propagation_fallback"
def outboundMaxAutomaticDirectStampCostField : String :=
  "native_lxmf_max_automatic_direct_stamp_cost"
def outboundAskAboveDirectStampCostField : String := "native_lxmf_ask_above_direct_stamp_cost"
def outboundApprovedDirectStampCostField : String := "native_lxmf_approved_direct_stamp_cost"
def outboundDefaultMaxAutomaticDirectStampCost : UInt8 := 8
def outboundDefaultTtlMs : Nat := 86400000
def outboundMinTtlMs : Nat := 1000
def outboundMaxTtlMs : Nat := 86400000

structure OutboundOperationIdentity where
  idempotencyKey : String
  correlationId : String
  createdAtMs : Nat
  ttlMs : Nat
  expiresAtMs : Nat
  allowPropagationFallback : Bool
  automaticPropagationFallback : Bool
  maxAutomaticDirectStampCost : UInt8
  askAboveDirectStampCost : Option UInt8
  approvedDirectStampCost : Option UInt8
  deriving DecidableEq

/-- `u8::is_ascii_graphic` of every byte, within the bound. -/
def operationIdValid (value : String) : Bool :=
  utf8 value ≠ [] && (utf8 value).length ≤ outboundOperationIdMaxBytes &&
    (utf8 value).all fun byte => 0x21 ≤ byte && byte ≤ 0x7e

/-- What `validated_with_deadline` asks of ids and times. -/
structure OutboundOperationIdentity.Valid (op : OutboundOperationIdentity) : Prop where
  idempotencyKey : operationIdValid op.idempotencyKey = true
  correlationId : operationIdValid op.correlationId = true
  ttl : outboundMinTtlMs ≤ op.ttlMs ∧ op.ttlMs ≤ outboundMaxTtlMs
  deadline : checkedAdd op.createdAtMs op.ttlMs = some op.expiresAtMs

def validatedWithDeadline (idempotencyKey correlationId : String)
    (createdAtMs ttlMs expiresAtMs : Nat) : Option OutboundOperationIdentity :=
  if operationIdValid idempotencyKey ∧ operationIdValid correlationId ∧
      (outboundMinTtlMs ≤ ttlMs ∧ ttlMs ≤ outboundMaxTtlMs) ∧
      checkedAdd createdAtMs ttlMs = some expiresAtMs then
    some ⟨idempotencyKey, correlationId, createdAtMs, ttlMs, expiresAtMs, true, false,
      outboundDefaultMaxAutomaticDirectStampCost, none, none⟩
  else none

/-! Fields. -/

/-- `parse::<u8>().ok()`. -/
def parseU8 (value : String) : Option UInt8 :=
  ((parseU64 value.toList).filter (· < 256)).map UInt8.ofNat

/-- A field that is `true` or `false`; messages of older versions do not have it. -/
def flagField (fields : MessageFields) (name : String) (absent : Bool) : Option Bool :=
  match fields[name]? with
  | some value =>
    if value = "true" then some true else if value = "false" then some false else none
  | none => some absent

def parseOptionalU8Field (fields : MessageFields) (name : String) : Option (Option UInt8) :=
  match fields[name]? with
  | some value => (parseU8 value).map some
  | none => some none

/-- Creation, duration and expiry: all three fields, or none of them and a window from now on. -/
def deadlineAt (fields : MessageFields) (now : Nat) : Option (Nat × Nat × Nat) :=
  match fields[outboundCreatedAtField]?, fields[outboundTtlField]?,
    fields[outboundExpiresAtField]? with
  | none, none, none => (checkedAdd now outboundDefaultTtlMs).map fun expiresAt =>
      (now, outboundDefaultTtlMs, expiresAt)
  | some createdAt, some ttl, some expiresAt => do
    let createdAt ← parseU64 createdAt.toList
    let ttl ← parseU64 ttl.toList
    let expiresAt ← parseU64 expiresAt.toList
    pure (createdAt, ttl, expiresAt)
  | _, _, _ => none

/-- `from_message_at`, of the fields of a message. -/
def fromMessageAt (fields : MessageFields) (now : Nat) : Option OutboundOperationIdentity := do
  let idempotencyKey ← fields[outboundIdempotencyField]?
  let correlationId ← fields[outboundCorrelationField]?
  let (createdAt, ttl, expiresAt) ← deadlineAt fields now
  let operation ← validatedWithDeadline idempotencyKey correlationId createdAt ttl expiresAt
  let allow ← flagField fields outboundPropagationFallbackField true
  let automatic ← flagField fields outboundAutomaticPropagationFallbackField false
  let cost ← parseOptionalU8Field fields outboundMaxAutomaticDirectStampCostField
  let askAbove ← parseOptionalU8Field fields outboundAskAboveDirectStampCostField
  let approved ← parseOptionalU8Field fields outboundApprovedDirectStampCostField
  pure { operation with
    allowPropagationFallback := allow
    automaticPropagationFallback := automatic
    maxAutomaticDirectStampCost := cost.getD outboundDefaultMaxAutomaticDirectStampCost
    askAboveDirectStampCost := askAbove
    approvedDirectStampCost := approved }

def insertAll (fields : MessageFields) (texts : List (String × String)) : MessageFields :=
  texts.foldl (fun fields text => fields.insert text.1 text.2) fields

/-- A field that is written only if there is a cost, and never removed. -/
def insertCost (fields : MessageFields) (name : String) (cost : Option UInt8) : MessageFields :=
  cost.elim fields fun cost => fields.insert name (toString cost)

namespace OutboundOperationIdentity
variable (op : OutboundOperationIdentity)

/-- The fields every operation has. -/
def texts : List (String × String) :=
  [(outboundIdempotencyField, op.idempotencyKey), (outboundCorrelationField, op.correlationId),
    (outboundCreatedAtField, toString op.createdAtMs), (outboundTtlField, toString op.ttlMs),
    (outboundExpiresAtField, toString op.expiresAtMs),
    (outboundPropagationFallbackField, toString op.allowPropagationFallback),
    (outboundAutomaticPropagationFallbackField, toString op.automaticPropagationFallback),
    (outboundMaxAutomaticDirectStampCostField, toString op.maxAutomaticDirectStampCost)]

def insertFields (fields : MessageFields) : MessageFields :=
  insertCost (insertCost (insertAll fields op.texts) outboundAskAboveDirectStampCostField
    op.askAboveDirectStampCost) outboundApprovedDirectStampCostField op.approvedDirectStampCost

def remainingTtlMsAt (now : Nat) : Option Nat :=
  if now ≤ op.expiresAtMs then some (op.expiresAtMs - now) |>.filter (0 < ·) else none

/-- No cost is left in the fields that the operation does not have. -/
structure NoCostLeft (fields : MessageFields) : Prop where
  askAbove : op.askAboveDirectStampCost = none →
    fields[outboundAskAboveDirectStampCostField]? = none
  approved : op.approvedDirectStampCost = none →
    fields[outboundApprovedDirectStampCostField]? = none

end OutboundOperationIdentity

/-- The fields of an older version have no deadline. -/
structure NoDeadline (fields : MessageFields) : Prop where
  createdAt : fields[outboundCreatedAtField]? = none
  ttl : fields[outboundTtlField]? = none
  expiresAt : fields[outboundExpiresAtField]? = none

/-! Messages. -/

structure MessageSummary where
  delivered : Bool
  failed : Bool
  incoming : Bool
  fields : MessageFields

structure ConversationThread where
  peerHash : String
  messages : List MessageSummary

namespace MessageSummary
variable (m : MessageSummary) (now : Nat)

/-- A message the run passes over. -/
def settled : Bool :=
  m.incoming || m.delivered || m.failed || m.fields["native_lxmf_sdk_terminal"]? == some "true"

/-- A message the run marks. -/
def due : Bool :=
  !m.settled && (fromMessageAt m.fields now).any fun op => (op.remainingTtlMsAt now).isNone

def expired : MessageSummary :=
  { m with
    delivered := false
    failed := true
    fields := insertAll m.fields
      [("native_lxmf_sdk_state", "expired"), ("native_lxmf_sdk_terminal", "true"),
        ("native_lxmf_state", "expired"),
        ("native_lxmf_delivery_state", "peer_delivery_unconfirmed"),
        ("native_lxmf_failure_reason",
          "local outbound TTL elapsed without authoritative peer-delivery evidence"),
        ("native_lxmf_retry_guidance",
          "receipt observation window expired; peer delivery remains unconfirmed; an explicit " ++
            "resend creates a new bounded operation and may duplicate delivery"),
        ("native_lxmf_next_action", "prepare_new_send_after_expiry"),
        ("native_lxmf_expired_at_ms", toString now)] }

def expire : MessageSummary := if m.due now then m.expired now else m

end MessageSummary

def ConversationThread.expire (now : Nat) (thread : ConversationThread) : ConversationThread :=
  { thread with messages := thread.messages.map (·.expire now) }

/-- The messages that were marked, and the threads as they are stored afterwards. -/
def reconcileExpiredLxmf (save : ConversationThread → Except AppError Unit) (now : Nat) :
    List ConversationThread → Except AppError (List MessageSummary) × List ConversationThread
  | [] => (.ok [], [])
  | thread :: rest =>
    let marked := (thread.messages.filter (·.due now)).map (·.expired now)
    match if marked.isEmpty then .ok () else save (thread.expire now) with
    | .error e => (.error e, thread :: rest)
    | .ok () =>
      let (result, rest) := reconcileExpiredLxmf save now rest
      (result.map (marked ++ ·), thread.expire now :: rest)

/-! Reading. -/

section
variable {fields : MessageFields} {op : OutboundOperationIdentity} {now now' : Nat}
variable {name other : String}

theorem parseU8_toString (n : UInt8) : parseU8 (toString n) = some n := by
  have hlt := n.toNat_lt
  have hparse : parseU64 (toString n).toList = some n.toNat := by
    rw [show toString n = n.toNat.repr from rfl, parseU64_repr, if_pos (by omega)]
  rw [parseU8, hparse, Option.filter_some, if_pos (decide_eq_true hlt), Option.map_some,
    UInt8.ofNat_toNat]

theorem validatedWithDeadline_some {idempotencyKey correlationId : String}
    {createdAt ttl expiresAt : Nat} :
    validatedWithDeadline idempotencyKey correlationId createdAt ttl expiresAt = some op ↔
      op.Valid ∧ op = ⟨idempotencyKey, correlationId, createdAt, ttl, expiresAt, true, false,
        outboundDefaultMaxAutomaticDirectStampCost, none, none⟩ := by
  unfold validatedWithDeadline
  split
  · next hvalid =>
    constructor
    · rintro ⟨⟩
      exact ⟨⟨hvalid.1, hvalid.2.1, hvalid.2.2.1, hvalid.2.2.2⟩, rfl⟩
    · rintro ⟨-, rfl⟩
      rfl
  · next hinvalid =>
    refine iff_of_false nofun ?_
    rintro ⟨hvalid, rfl⟩
    exact hinvalid ⟨hvalid.idempotencyKey, hvalid.correlationId, hvalid.ttl, hvalid.deadline⟩

/-- Whatever is read passed the checks, and without a deadline its window begins at the reading. -/
theorem fromMessageAt_some (h : fromMessageAt fields now = some op) :
    op.Valid ∧ (NoDeadline fields → op.createdAtMs = now ∧ op.ttlMs = outboundDefaultTtlMs) := by
  simp only [fromMessageAt, Option.bind_eq_bind, Option.bind_eq_some_iff] at h
  obtain ⟨_, _, _, _, ⟨_, _, _⟩, hdeadline, read, hread, _, _, _, _, _, _, _, _, _, _, hop⟩ := h
  obtain ⟨hvalid, rfl⟩ := validatedWithDeadline_some.mp hread
  cases hop
  refine ⟨⟨hvalid.idempotencyKey, hvalid.correlationId, hvalid.ttl, hvalid.deadline⟩, fun hnone => ?_⟩
  unfold deadlineAt at hdeadline
  rw [hnone.createdAt, hnone.ttl, hnone.expiresAt] at hdeadline
  obtain ⟨_, _, heq⟩ := Option.map_eq_some_iff.mp hdeadline
  cases heq
  exact ⟨rfl, rfl⟩

/-- A deadline that is there does not depend on the clock. -/
theorem fromMessageAt_at (h : ¬NoDeadline fields) :
    fromMessageAt fields now = fromMessageAt fields now' := by
  have hdeadline : deadlineAt fields now = deadlineAt fields now' := by
    unfold deadlineAt
    split
    · next hcreated httl hexpires => exact absurd ⟨hcreated, httl, hexpires⟩ h
    · rfl
    · rfl
  rw [fromMessageAt, hdeadline, ← fromMessageAt]

/-! Writing. -/

theorem getElem?_insert_field (value : String) :
    (fields.insert name value)[other]? = if name = other then some value else fields[other]? := by
  rw [Std.ExtTreeMap.getElem?_insert]
  simp only [Std.compare_eq_iff_eq]

theorem getElem?_insertAll {texts : List (String × String)} :
    (insertAll fields texts)[name]? = texts.foldl (fun found text =>
      if text.1 = name then some text.2 else found) fields[name]? := by
  induction texts generalizing fields with
  | nil => rfl
  | cons text texts ih => exact ih.trans (by rw [getElem?_insert_field]; rfl)

theorem getElem?_insertCost {cost : Option UInt8} (hne : name ≠ other) :
    (insertCost fields name cost)[other]? = fields[other]? := by
  cases cost with
  | none => rfl
  | some cost => exact (getElem?_insert_field _).trans (if_neg hne)

theorem parseOptionalU8Field_some {cost : UInt8} (h : fields[name]? = some (toString cost)) :
    parseOptionalU8Field fields name = some (some cost) := by
  unfold parseOptionalU8Field
  rw [h]
  exact congrArg (Option.map some) (parseU8_toString cost)

/-- A cost that may be absent, in what was written before another one. -/
theorem parseOptionalU8Field_insertCost {cost : Option UInt8} {written : MessageFields}
    (hwritten : written[name]? = (insertCost fields name cost)[name]?)
    (h : cost = none → fields[name]? = none) : parseOptionalU8Field written name = some cost := by
  cases cost with
  | none =>
    unfold parseOptionalU8Field
    rw [hwritten, insertCost, Option.elim_none, h rfl]
  | some cost =>
    exact parseOptionalU8Field_some (hwritten.trans ((getElem?_insert_field _).trans (if_pos rfl)))

theorem flagField_toString {flag : Bool} (absent : Bool)
    (h : fields[name]? = some (toString flag)) :
    flagField fields name absent = some flag := by
  unfold flagField
  rw [h]
  cases flag <;> rfl

/-- What is written is read. -/
theorem fromMessageAt_insertFields (hvalid : op.Valid) (hleft : op.NoCostLeft fields) :
    fromMessageAt (op.insertFields fields) now = some op := by
  have hask : outboundAskAboveDirectStampCostField ≠ outboundApprovedDirectStampCostField := by decide
  -- the names are told apart by their texts
  have hfield (name value : String) (hnotAsk : outboundAskAboveDirectStampCostField ≠ name)
      (hnotApproved : outboundApprovedDirectStampCostField ≠ name)
      (h : op.texts.foldl (fun found text => if text.1 = name then some text.2 else found)
        fields[name]? = some value) : (op.insertFields fields)[name]? = some value :=
    (getElem?_insertCost hnotApproved).trans ((getElem?_insertCost hnotAsk).trans
      (getElem?_insertAll.trans h))
  have hnumber (n : Nat) (hn : n ≤ u64Max) : parseU64 (toString n).toList = some n := by
    unfold u64Max at hn
    rw [show toString n = n.repr from rfl, parseU64_repr, if_pos (by omega)]
  obtain ⟨hexpires, hbound⟩ := checkedAdd_some.mp hvalid.deadline
  have hid := hfield outboundIdempotencyField op.idempotencyKey (by decide) (by decide) rfl
  have hcorrelation := hfield outboundCorrelationField op.correlationId (by decide) (by decide) rfl
  have hdeadline : deadlineAt (op.insertFields fields) now =
      some (op.createdAtMs, op.ttlMs, op.expiresAtMs) := by
    unfold deadlineAt
    rw [hfield outboundCreatedAtField (toString op.createdAtMs) (by decide) (by decide) rfl,
      hfield outboundTtlField (toString op.ttlMs) (by decide) (by decide) rfl,
      hfield outboundExpiresAtField (toString op.expiresAtMs) (by decide) (by decide) rfl]
    simp only [hnumber op.createdAtMs (by omega), hnumber op.ttlMs (by omega),
      hnumber op.expiresAtMs (by omega), Option.bind_eq_bind, Option.bind_some, Option.pure_def]
  have hvalidated : validatedWithDeadline op.idempotencyKey op.correlationId op.createdAtMs op.ttlMs
      op.expiresAtMs = _ :=
    if_pos ⟨hvalid.idempotencyKey, hvalid.correlationId, hvalid.ttl, hvalid.deadline⟩
  have hallow := flagField_toString true (hfield outboundPropagationFallbackField
    (toString op.allowPropagationFallback) (by decide) (by decide) rfl)
  have hautomatic := flagField_toString false (hfield outboundAutomaticPropagationFallbackField
    (toString op.automaticPropagationFallback) (by decide) (by decide) rfl)
  have hcost := parseOptionalU8Field_some (hfield outboundMaxAutomaticDirectStampCostField
    (toString op.maxAutomaticDirectStampCost) (by decide) (by decide) rfl)
  have hasked : parseOptionalU8Field (op.insertFields fields) outboundAskAboveDirectStampCostField =
      some op.askAboveDirectStampCost :=
    parseOptionalU8Field_insertCost (getElem?_insertCost hask.symm)
      (fun hnone => getElem?_insertAll.trans (hleft.askAbove hnone))
  have happroved : parseOptionalU8Field (op.insertFields fields)
      outboundApprovedDirectStampCostField = some op.approvedDirectStampCost :=
    parseOptionalU8Field_insertCost rfl fun hnone =>
      (getElem?_insertCost hask).trans (getElem?_insertAll.trans (hleft.approved hnone))
  unfold fromMessageAt
  rw [hid, hcorrelation, hdeadline, hallow, hautomatic, hcost, hasked, happroved]
  simp only [Option.bind_eq_bind, Option.bind_some, hvalidated]
  rfl

/-! Runs. -/

theorem remainingTtlMsAt_isNone : (op.remainingTtlMsAt now).isNone = true ↔ op.expiresAtMs ≤ now := by
  unfold OutboundOperationIdentity.remainingTtlMsAt
  split
  · next hle =>
    rw [Option.filter_some]
    split <;> grind
  · next hlt => exact iff_of_true rfl (by omega)

variable {m : MessageSummary}

theorem MessageSummary.due_iff : m.due now = true ↔ m.settled = false ∧
    ∃ op, fromMessageAt m.fields now = some op ∧ op.expiresAtMs ≤ now := by
  unfold due
  simp only [Bool.and_eq_true, Bool.not_eq_true', Option.any_eq_true, remainingTtlMsAt_isNone]

/-- A window that begins at the reading is not over. -/
theorem MessageSummary.not_due_of_noDeadline (h : NoDeadline m.fields) : m.due now = false := by
  refine Bool.eq_false_iff.mpr fun hdue => ?_
  obtain ⟨-, op, hread, hover⟩ := due_iff.mp hdue
  obtain ⟨hvalid, hwindow⟩ := fromMessageAt_some hread
  have hexpires := (checkedAdd_some.mp hvalid.deadline).1
  rw [(hwindow h).1, (hwindow h).2, outboundDefaultTtlMs] at hexpires
  omega

/-- A run that ends well marks what is due. -/
theorem reconcileExpiredLxmf_ok {save : ConversationThread → Except AppError Unit}
    {threads threads' : List ConversationThread} {marked : List MessageSummary}
    (h : reconcileExpiredLxmf save now threads = (.ok marked, threads')) :
    threads' = threads.map (·.expire now) ∧ marked = threads.flatMap fun thread =>
      (thread.messages.filter (·.due now)).map (·.expired now) := by
  induction threads generalizing marked threads' with
  | nil =>
    cases h
    exact ⟨rfl, rfl⟩
  | cons thread rest ih =>
    unfold reconcileExpiredLxmf at h
    simp only at h
    split at h
    · cases h
    · obtain ⟨hresult, rfl⟩ := Prod.mk.inj h
      obtain ⟨result, hrest⟩ : ∃ result, reconcileExpiredLxmf save now rest = (result, _) := ⟨_, rfl⟩
      rw [hrest] at hresult
      cases result with
      | error e => cases hresult
      | ok later =>
        obtain ⟨hthreads, rfl⟩ := ih hrest
        cases hresult
        exact ⟨congrArg _ hthreads, rfl⟩

end

/-- An operation is what was written. What is read has its deadline a permitted time after its
    creation. A deadline in the fields does not move with the clock; every run from it on marks the
    message, and no earlier one does. Without a deadline no run marks the message. -/
theorem outbound_operation_kept :
    (∀ (op : OutboundOperationIdentity) (fields : MessageFields) (now : Nat), op.Valid →
      op.NoCostLeft fields → fromMessageAt (op.insertFields fields) now = some op) ∧
    (∀ (fields : MessageFields) (now : Nat) (op : OutboundOperationIdentity),
      fromMessageAt fields now = some op → op.expiresAtMs = op.createdAtMs + op.ttlMs ∧
        outboundMinTtlMs ≤ op.ttlMs ∧ op.ttlMs ≤ outboundMaxTtlMs) ∧
    (∀ (fields : MessageFields) (now now' : Nat), ¬NoDeadline fields →
      fromMessageAt fields now = fromMessageAt fields now') ∧
    ∀ (save : ConversationThread → Except AppError Unit) (now : Nat)
      (threads threads' : List ConversationThread) (marked : List MessageSummary),
      reconcileExpiredLxmf save now threads = (.ok marked, threads') →
      ∀ (i j : Nat) (thread : ConversationThread) (m : MessageSummary),
        threads[i]? = some thread → thread.messages[j]? = some m →
        ∃ thread' m', threads'[i]? = some thread' ∧ thread'.messages[j]? = some m' ∧
          (∀ op, m.settled = false → ¬NoDeadline m.fields → fromMessageAt m.fields now = some op →
            if op.expiresAtMs ≤ now then m' = m.expired now ∧ m' ∈ marked else m' = m) ∧
          (m.settled = true ∨ NoDeadline m.fields ∨ fromMessageAt m.fields now = none →
            m' = m) := by
  refine ⟨fun op fields now => fromMessageAt_insertFields, fun fields now op h => ?_,
    fun fields now now' => fromMessageAt_at, ?_⟩
  · obtain ⟨hvalid, -⟩ := fromMessageAt_some h
    exact ⟨(checkedAdd_some.mp hvalid.deadline).1, hvalid.ttl⟩
  · intro save now threads threads' marked hrun i j thread m hthread hm
    obtain ⟨rfl, rfl⟩ := reconcileExpiredLxmf_ok hrun
    refine ⟨thread.expire now, m.expire now, by rw [List.getElem?_map, hthread]; rfl,
      by rw [ConversationThread.expire, List.getElem?_map, hm]; rfl, ?_, ?_⟩
    · intro op hopen _ hread
      unfold MessageSummary.expire
      split
      · next hover =>
        have hdue : m.due now = true := MessageSummary.due_iff.mpr ⟨hopen, op, hread, hover⟩
        rw [if_pos hdue]
        exact ⟨rfl, List.mem_flatMap.mpr ⟨thread, List.mem_of_getElem? hthread, List.mem_map.mpr
          ⟨m, List.mem_filter.mpr ⟨List.mem_of_getElem? hm, hdue⟩, rfl⟩⟩⟩
      · next hlater =>
        refine if_neg fun hdue => ?_
        obtain ⟨-, _, hread', hover⟩ := MessageSummary.due_iff.mp hdue
        cases hread.symm.trans hread'
        exact hlater hover
    · intro hkept
      refine if_neg fun hdue => ?_
      obtain ⟨hopen, op, hread, -⟩ := MessageSummary.due_iff.mp hdue
      obtain hsettled | hnone | hunread := hkept
      · rw [hsettled] at hopen
        cases hopen
      · rw [MessageSummary.not_due_of_noDeadline hnone] at hdue
        cases hdue
      · rw [hunread] at hread
        cases hread

def sentOperation : OutboundOperationIdentity :=
  ⟨"omen-send-1", "omen-corr-1", 10000, 5000, 15000, true, false, 8, none, none⟩

def sentMessage : MessageSummary := ⟨false, false, false, sentOperation.insertFields ∅⟩

/-- A message that is sent at 10000 and has five seconds is marked by the run at 15000. -/
theorem outbound_operation_kept_sent : ∃ thread' m',
    (reconcileExpiredLxmf (fun _ => .ok ()) 15000 [⟨"aa", [sentMessage]⟩]).2[0]? = some thread' ∧
      thread'.messages[0]? = some m' ∧ m' = sentMessage.expired 15000 := by
  have hread : fromMessageAt sentMessage.fields 15000 = some sentOperation :=
    outbound_operation_kept.1 sentOperation ∅ 15000
      ⟨by decide, by decide, by decide, by decide⟩ ⟨fun _ => rfl, fun _ => rfl⟩
  have hopen : sentMessage.settled = false := by decide
  have hdeadline : ¬NoDeadline sentMessage.fields := fun h => nomatch h.createdAt
  obtain ⟨thread', m', hthread, hm, hdue, -⟩ := outbound_operation_kept.2.2.2 (fun _ => .ok ()) 15000
    [⟨"aa", [sentMessage]⟩] _ _ rfl 0 0 _ sentMessage rfl rfl
  exact ⟨thread', m', hthread, hm, (hdue sentOperation hopen hdeadline hread).1⟩

/-- A message of an older version. -/
def legacyMessage : MessageSummary :=
  ⟨false, false, false, insertAll ∅ [(outboundIdempotencyField, "omen-send-1"),
    (outboundCorrelationField, "omen-corr-1")]⟩

/-- The expiry of an older message moves with the clock, and no run marks it. -/
theorem legacy_message_never_expires :
    (fromMessageAt legacyMessage.fields 0).map (·.expiresAtMs) = some 86400000 ∧
    (fromMessageAt legacyMessage.fields 1).map (·.expiresAtMs) = some 86400001 ∧
    ∀ now, reconcileExpiredLxmf (fun _ => .ok ()) now [⟨"aa", [legacyMessage]⟩] =
      (.ok [], [⟨"aa", [legacyMessage]⟩]) := by
  have hpass (m : MessageSummary) (now : Nat) (h : m.due now = false) :
      reconcileExpiredLxmf (fun _ => .ok ()) now [⟨"aa", [m]⟩] = (.ok [], [⟨"aa", [m]⟩]) := by
    have hexpire : m.expire now = m := if_neg (by rw [h]; decide)
    simp [reconcileExpiredLxmf, ConversationThread.expire, hexpire, h, Except.map]
  exact ⟨by decide, by decide, fun now =>
    hpass _ now (MessageSummary.not_due_of_noDeadline ⟨rfl, rfl, rfl⟩)⟩

end Omen.Messaging
