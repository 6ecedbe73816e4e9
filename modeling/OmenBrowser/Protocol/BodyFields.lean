import OmenBrowser.Lib.Ints
import OmenBrowser.Lib.RoundTrip
import OmenBrowser.Protocol.Frame

/- The fields of typed frame bodies (`omenchat-protocol/src/reactions.rs`, `pins.rs`,
   `message_revisions.rs`, `moderation_audit.rs`).

   Each of the four modules has its own copy of these checks and parsers, with errors of its
   own; here the errors are parameters. A field that is written is read back as it was, and a
   field that is read passes its check. -/
namespace Omen.Protocol
open Wire Ints RoundTrip
variable {ε : Type}
  {invalid shape : ε} {eventId : Option UInt64} {timestamp : Int64}

/-! Ids. -/

/-- Zero is the id of no event. -/
def validateEventId (invalid : ε) (eventId : UInt64) : Except ε Unit :=
  if eventId = 0 then .error invalid else .ok ()

/-- Zero is the id of no user. -/
def validateUserId (invalid : ε) (userId : UInt32) : Except ε Unit :=
  if userId = 0 then .error invalid else .ok ()

/-- User ids have 32 bits, and come as 64. -/
def parseUserId (invalid : ε) (value : UInt64) : Except ε UInt32 :=
  if value.toNat ≤ u32Max then do
    validateUserId invalid value.toUInt32
    pure value.toUInt32
  else .error invalid

def optionalEventIdValue : Option UInt64 → FrameValue
  | some eventId => .u64 eventId
  | none => .nil

/-- A missing id is nil; what is neither nil nor a number has the wrong shape. -/
def parseOptionalEventId (invalid shape : ε) : FrameValue → Except ε (Option UInt64)
  | .nil => .ok none
  | .u64 eventId => do
    validateEventId invalid eventId
    pure (some eventId)
  | _ => .error shape

/-- A target of a snapshot. -/
def parseTarget (invalid shape : ε) : FrameValue → Except ε UInt64
  | .u64 eventId => do
    validateEventId invalid eventId
    pure eventId
  | _ => .error shape

theorem validateEventId_ok {eventId : UInt64} :
    validateEventId invalid eventId = .ok () ↔ eventId ≠ 0 := by
  unfold validateEventId
  split <;> simp_all

variable {userId : UInt32} {value : FrameValue}

theorem validateUserId_ok : validateUserId invalid userId = .ok () ↔ userId ≠ 0 := by
  unfold validateUserId
  split <;> simp_all

theorem parseUserId_toUInt64 (h : userId ≠ 0) :
    parseUserId invalid userId.toUInt64 = .ok userId := by
  have hle : userId.toUInt64.toNat ≤ u32Max := by
    have := userId.toNat_lt
    rw [UInt32.toNat_toUInt64]
    unfold u32Max
    omega
  rw [parseUserId, if_pos hle, UInt32.toUInt32_toUInt64]
  exact Outcome.bind_ok.mpr ⟨(), validateUserId_ok.mpr h, rfl⟩

theorem parseOptionalEventId_value :
    parseOptionalEventId invalid shape (optionalEventIdValue eventId) = .ok eventId ↔
      eventId ≠ some 0 := by
  cases eventId with
  | none => simp [optionalEventIdValue, parseOptionalEventId]
  | some id =>
    by_cases hzero : id = 0
    · subst hzero
      simp [optionalEventIdValue, parseOptionalEventId, validateEventId, bind, Except.bind]
    · simp [optionalEventIdValue, parseOptionalEventId, validateEventId, hzero, bind, Except.bind,
        pure, Except.pure]

theorem parseOptionalEventId_ok (h : parseOptionalEventId invalid shape value = .ok eventId) :
    eventId ≠ some 0 := by
  cases value with
  | nil => cases h; simp
  | u64 id =>
    obtain ⟨_, hvalid, h⟩ := Outcome.bind_ok.mp h
    cases h
    simpa using validateEventId_ok.mp hvalid
  | bool | i64 | string | bytes | array => cases h

theorem parseTarget_u64 {eventId : UInt64} (h : eventId ≠ 0) :
    parseTarget invalid shape (.u64 eventId) = .ok eventId :=
  Outcome.bind_ok.mpr ⟨(), validateEventId_ok.mpr h, rfl⟩

/-! Times. -/

def validateTimestamp (invalid : ε) (timestamp : Int64) : Except ε Unit :=
  if timestamp < 0 then .error invalid else .ok ()

/-- Timestamps are written unsigned, so none before the epoch is. -/
def timestampValue (invalid : ε) (timestamp : Int64) : Except ε FrameValue := do
  validateTimestamp invalid timestamp
  pure (.u64 timestamp.toUInt64)

/-- Both integer forms are read, within the timestamps that can be written. -/
def parseTimestamp (invalid : ε) : FrameValue → Except ε Int64
  | .u64 value => if (value.toNat : Int) ≤ i64Max then .ok value.toInt64 else .error invalid
  | .i64 value => do
    validateTimestamp invalid value
    pure value
  | _ => .error invalid

theorem validateTimestamp_ok : validateTimestamp invalid timestamp = .ok () ↔ 0 ≤ timestamp := by
  unfold validateTimestamp
  rw [← Int64.not_lt]
  split <;> simp_all

/-- The bits of a time are read as a time again where they are not above `i64::MAX`. -/
theorem nonneg_iff_toUInt64_le (t : Int64) : 0 ≤ t ↔ (t.toUInt64.toNat : Int) ≤ i64Max := by
  have hint : t.toInt = _ := BitVec.toInt_eq_toNat_cond t.toBitVec
  have hzero : (0 : Int64).toInt = 0 := rfl
  rw [Int64.le_iff_toInt_le, hzero, hint, ← Int64.toNat_toBitVec, i64Max]
  split <;> omega

theorem parseTimestamp_value (h : timestampValue invalid timestamp = .ok value) :
    parseTimestamp invalid value = .ok timestamp := by
  obtain ⟨_, hvalid, h⟩ := Outcome.bind_ok.mp h
  cases h
  have hle := (nonneg_iff_toUInt64_le timestamp).mp (validateTimestamp_ok.mp hvalid)
  rw [parseTimestamp, if_pos hle, Int64.toInt64_toUInt64]

theorem exists_timestampValue (h : 0 ≤ timestamp) :
    ∃ value, timestampValue invalid timestamp = .ok value :=
  ⟨_, Outcome.bind_ok.mpr ⟨(), validateTimestamp_ok.mpr h, rfl⟩⟩

end Omen.Protocol
