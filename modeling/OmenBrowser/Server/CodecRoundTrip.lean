import Mathlib.Data.List.Forall2
import OmenBrowser.Server.CodecScan

/- Round trips of the frame codec.

   A frame goes to the wire as `frameToValueRef frame`, and `decodeFrame` converts the
   value it reads back with `valuesToFrame`. The two conversions are inverse on frames
   whose body has no non-negative `i64` (`FrameBody.Normal`), and every decoded body is
   such a one.

   `encodeFrame` itself checks no limit: whether its bytes can be decoded is decided by
   the scanner alone (`Decodable`). In the other direction a decoded frame can always be
   sent on: its own bytes are no longer, no deeper and no larger in any measure than
   those it came from (`Reduces`). -/
namespace Omen.Server
open Wire Msgpack Omen.Protocol Outcome List Except

variable {v : Value} {frame : Frame} {bytes : Bytes}

/-! The conversions. -/

mutual
/-- No non-negative `i64`: the wire has such an integer as a `u64`. -/
def FrameValue.Normal : FrameValue → Prop
  | .i64 n => n.toInt < 0
  | .array vs => NormalAll vs
  | _ => True
def NormalAll : List FrameValue → Prop
  | [] => True
  | v :: vs => FrameValue.Normal v ∧ NormalAll vs
end

def FrameBody.Normal : FrameBody → Prop
  | .fields vs => NormalAll vs
  | _ => True

theorem asU64_toNat (n : UInt64) : asU64 n.toNat = some n := by
  have := n.toNat_lt
  rw [asU64, if_pos ⟨by omega, by omega⟩, Int.toNat_natCast, UInt64.ofNat_toNat]

theorem asU64_neg {n : Int} (h : n < 0) : asU64 n = none := by
  rw [asU64, if_neg (by omega)]

theorem asI64_toInt (n : Int64) : asI64 n.toInt = some n := by
  have hlo := n.le_toInt
  have hhi := n.toInt_lt
  rw [asI64, if_pos ⟨by omega, by omega⟩, Int64.ofInt_toInt]

theorem asU64_some {n : Int} {u : UInt64} (h : asU64 n = some u) : (u.toNat : Int) = n := by
  unfold asU64 at h
  split at h
  · next hn =>
    cases h
    rw [UInt64.toNat_ofNat_of_lt' (show n.toNat < 18446744073709551616 by omega)]
    omega
  · cases h

theorem asI64_some {n : Int} {i : Int64} (h : asI64 n = some i) : i.toInt = n := by
  unfold asI64 at h
  split at h
  · next hn =>
    cases h
    exact Int64.toInt_ofInt_of_le (by omega) (by omega)
  · cases h

mutual
theorem valueToFrameValue_toValueRef (x : FrameValue) (h : FrameValue.Normal x) :
    valueToFrameValue (frameValueToValueRef x) = .ok x := by
  cases x with
  | nil | bool | bytes => rfl
  | u64 n => simp only [frameValueToValueRef, valueToFrameValue, asU64_toNat]
  | i64 n =>
    simp only [frameValueToValueRef, valueToFrameValue, asU64_neg (show n.toInt < 0 from h),
      asI64_toInt]
  | string s => simp only [frameValueToValueRef, valueToFrameValue, asStr_utf8, Option.getD_some]
  | array xs =>
    rw [frameValueToValueRef, valueToFrameValue, valuesToFrameValues_toValueRefs xs h]
    rfl
theorem valuesToFrameValues_toValueRefs (xs : List FrameValue) (h : NormalAll xs) :
    valuesToFrameValues (frameValuesToValueRefs xs) = .ok xs := by
  cases xs with
  | nil => rfl
  | cons x xs =>
    rw [frameValuesToValueRefs, valuesToFrameValues, valueToFrameValue_toValueRef x h.1,
      valuesToFrameValues_toValueRefs xs h.2]
    rfl
end

theorem valueToBody_toValueRef (body : FrameBody) (h : FrameBody.Normal body) :
    valueToBody (bodyToValueRef body) = .ok body := by
  cases body with
  | empty => rfl
  | text s => simp only [bodyToValueRef, valueToBody, asStr_utf8, Option.getD_some]
  | fields vs =>
    rw [bodyToValueRef, valueToBody, valuesToFrameValues_toValueRefs vs h]
    rfl

theorem valueAsU64_ok {field : String} {n : Nat} :
    valueAsU64 v field = .ok n ↔ v = .integer n ∧ n < 0x10000000000000000 := by
  unfold valueAsU64
  split
  · next m =>
    by_cases hm : 0 ≤ m ∧ m < 0x10000000000000000
    · rw [if_pos hm]
      simp only [ok.injEq, Value.integer.injEq]
      omega
    · rw [if_neg hm]
      simp only [reduceCtorEq, Value.integer.injEq, false_iff]
      omega
  · next hv =>
    simp only [reduceCtorEq, false_iff]
    intro h
    exact hv _ h.1

/-- The room id's item: nil, or an integer that is cut to 32 bits. -/
theorem roomIdOf_ok {roomId : Option UInt32} (h : roomIdOf v = .ok roomId) :
    (v = .nil ∧ roomId = none) ∨
      ∃ n : Nat, n < 0x10000000000000000 ∧ v = .integer n ∧ roomId = some (UInt32.ofNat n) := by
  unfold roomIdOf at h
  split at h
  · exact .inl ⟨rfl, (ok.inj h).symm⟩
  · obtain ⟨n, hv, hr⟩ := map_ok.mp h
    obtain ⟨rfl, hn⟩ := valueAsU64_ok.mp hv
    exact .inr ⟨n, hn, rfl, hr.symm⟩

/-- What a decoded frame was read from. -/
theorem valuesToFrame_ok (h : valuesToFrame v = .ok frame) :
    ∃ (version flags seq : Nat) (room body : Value),
      v = .array [.integer version, .integer frame.op.code.toNat, .integer flags, .integer seq,
        room, body] ∧
      frame.version = UInt8.ofNat version ∧ frame.flags = UInt16.ofNat flags ∧
      frame.seq = UInt32.ofNat seq ∧ roomIdOf room = .ok frame.roomId ∧
      valueToBody body = .ok frame.body := by
  unfold valuesToFrame at h
  split at h
  · next version op flags seq room body =>
    obtain ⟨version', hv, h⟩ := bind_ok.mp h
    obtain ⟨op', ho, h⟩ := bind_ok.mp h
    obtain ⟨op'', ht, h⟩ := bind_ok.mp h
    obtain ⟨flags', hf, h⟩ := bind_ok.mp h
    obtain ⟨seq', hs, h⟩ := bind_ok.mp h
    obtain ⟨room', hr, h⟩ := bind_ok.mp h
    obtain ⟨body', hb, h⟩ := bind_ok.mp h
    cases h
    refine ⟨version', flags', seq', room, body, ?_, rfl, rfl, rfl, hr, hb⟩
    rw [(valueAsU64_ok.mp hv).1, (valueAsU64_ok.mp ho).1, (valueAsU64_ok.mp hf).1,
      (valueAsU64_ok.mp hs).1, ChatOp.tryFrom_ok (mapError_ok.mp ht)]
  · cases h

theorem valueAsU64_natCast {n : Nat} (h : n < 0x100000000) (field : String) :
    valueAsU64 (.integer n) field = .ok n :=
  valueAsU64_ok.mpr ⟨rfl, by omega⟩

theorem roomIdOf_integer (n : Int) :
    roomIdOf (.integer n) =
      (valueAsU64 (.integer n) "room_id").map (fun n => some (UInt32.ofNat n)) := by
  simp only [roomIdOf]

theorem roomIdOf_toValueRef (roomId : Option UInt32) :
    roomIdOf ((roomId.map (fun r => Value.integer r.toNat)).getD .nil) = .ok roomId := by
  cases roomId with
  | none => rfl
  | some r =>
    have hr := r.toNat_lt
    rw [Option.map_some, Option.getD_some, roomIdOf_integer, valueAsU64_natCast (by omega),
      Except.map, UInt32.ofNat_toNat]

/-- A frame is read back from its own array. -/
theorem valuesToFrame_toValueRef (frame : Frame) (h : FrameBody.Normal frame.body) :
    valuesToFrame (frameToValueRef frame) = .ok frame := by
  have hv := frame.version.toNat_lt
  have ho := frame.op.code.toNat_lt
  have hf := frame.flags.toNat_lt
  have hs := frame.seq.toNat_lt
  rw [frameToValueRef, valuesToFrame, valueAsU64_natCast (by omega), valueAsU64_natCast (by omega),
    valueAsU64_natCast (by omega), valueAsU64_natCast (by omega), roomIdOf_toValueRef,
    valueToBody_toValueRef frame.body h]
  simp only [bind, Except.bind, ChatOp.tryFrom_code, Except.mapError, pure, Except.pure,
    UInt8.ofNat_toNat, UInt16.ofNat_toNat, UInt32.ofNat_toNat]

/-! What decoding does to a value's measures. -/

/-- `w` is as large as `v` in its structure and no larger in its bytes. -/
structure Reduces (v w : Value) : Prop where
  nodes : w.nodes = v.nodes
  depth : w.depth = v.depth
  within : ∀ items scalar, v.Within items scalar → w.Within items scalar
  fits : v.Fits → w.Fits
  length : (write w).length ≤ (write v).length

theorem Reduces.refl (v : Value) : Reduces v v :=
  ⟨rfl, rfl, fun _ _ h => h, id, Nat.le_refl _⟩

/-- A smaller natural number takes no more bytes. -/
theorem Reduces.integer {m n : Nat} (h : m ≤ n) : Reduces (.integer n) (.integer m) := by
  refine ⟨rfl, rfl, fun _ _ _ => trivial, ?_, ?_⟩
  · intro hn
    have := hn.2
    exact ⟨by omega, by omega⟩
  · simp only [write, writeInt]
    rw [if_pos (show (0 : Int) ≤ n by omega), if_pos (show (0 : Int) ≤ m by omega)]
    split_ifs <;> simp only [length_cons, length_nil, length_be] <;> omega

/-- The empty string takes no more bytes than any other. -/
theorem Reduces.emptyString (b : Bytes) : Reduces (.string b) (.string []) := by
  refine ⟨rfl, rfl, fun _ _ _ => Nat.zero_le _, fun _ => show 0 < 0x100000000 by decide, ?_⟩
  have := payload_le_write (.string b)
  simp only [Value.payload] at this
  have hone : (write (.string [])).length = 1 := rfl
  omega

theorem Reduces.array {vs ws : List Value} (h : List.Forall₂ Reduces vs ws) :
    Reduces (.array vs) (.array ws) := by
  have hlen : ws.length = vs.length := h.length_eq.symm
  have hall : nodesAll ws = nodesAll vs ∧ depthAll ws = depthAll vs ∧
      (∀ items scalar, WithinAll items scalar vs → WithinAll items scalar ws) ∧
      (FitsAll vs → FitsAll ws) ∧ (writeAll ws).length ≤ (writeAll vs).length := by
    induction h with
    | nil => exact ⟨rfl, rfl, fun _ _ h => h, id, Nat.le_refl _⟩
    | cons h hs ih =>
      obtain ⟨hn, hd, hw, hf, hl⟩ := ih hs.length_eq.symm
      refine ⟨?_, ?_, ?_, ?_, ?_⟩
      · rw [nodesAll, nodesAll, h.nodes, hn]
      · rw [depthAll, depthAll, h.depth, hd]
      · exact fun i s hv => ⟨h.within i s hv.1, hw i s hv.2⟩
      · exact fun hv => ⟨h.fits hv.1, hf hv.2⟩
      · have := h.length
        rw [writeAll, writeAll, length_append, length_append]
        omega
  obtain ⟨hn, hd, hw, hf, hl⟩ := hall
  refine ⟨?_, hd, ?_, ?_, ?_⟩
  · rw [Value.nodes, Value.nodes, hn]
  · exact fun i s hv => ⟨hlen ▸ hv.1, hw i s hv.2⟩
  · exact fun hv => ⟨hlen ▸ hv.1, hf hv.2⟩
  · rw [write, write, length_append, length_append, hlen]
    omega

/-- A string is kept, or read as the empty one. -/
theorem Reduces.string (b : Bytes) : Reduces (.string b) (.string (utf8 ((asStr b).getD ""))) := by
  cases h : asStr b with
  | none => exact Reduces.emptyString b
  | some s =>
    rw [Option.getD_some, asStr_some.mp h]
    exact Reduces.refl _

mutual
theorem valueToFrameValue_reduces (v : Value) {x : FrameValue} (h : valueToFrameValue v = .ok x) :
    Reduces v (frameValueToValueRef x) ∧ FrameValue.Normal x := by
  cases v with
  | nil | boolean b | binary b =>
    cases h
    exact ⟨Reduces.refl _, trivial⟩
  | integer n =>
    simp only [valueToFrameValue] at h
    split at h
    · next u hu =>
      cases h
      rw [frameValueToValueRef, asU64_some hu]
      exact ⟨Reduces.refl _, trivial⟩
    · next hu =>
      split at h
      · next i hi =>
        cases h
        rw [frameValueToValueRef, asI64_some hi]
        refine ⟨Reduces.refl _, ?_⟩
        -- a non-negative integer would have been taken as a `u64`
        show i.toInt < 0
        have hlt := i.toInt_lt
        rw [asI64_some hi] at hlt ⊢
        by_contra hn
        rw [asU64, if_pos ⟨by omega, by omega⟩] at hu
        cases hu
      · cases h
  | string b =>
    cases h
    exact ⟨Reduces.string b, trivial⟩
  | array vs =>
    obtain ⟨xs, hxs, rfl⟩ := map_ok.mp h
    obtain ⟨hr, hn⟩ := valuesToFrameValues_reduces vs hxs
    exact ⟨Reduces.array hr, hn⟩
  | map vs | float bits | ext t b => cases h
theorem valuesToFrameValues_reduces (vs : List Value) {xs : List FrameValue}
    (h : valuesToFrameValues vs = .ok xs) :
    List.Forall₂ Reduces vs (frameValuesToValueRefs xs) ∧ NormalAll xs := by
  cases vs with
  | nil =>
    cases h
    exact ⟨.nil, trivial⟩
  | cons v vs =>
    rw [valuesToFrameValues] at h
    split at h
    · cases h
    · next x hx =>
      obtain ⟨xs', hxs, rfl⟩ := map_ok.mp h
      obtain ⟨hr, hn⟩ := valueToFrameValue_reduces v hx
      obtain ⟨hrs, hns⟩ := valuesToFrameValues_reduces vs hxs
      exact ⟨.cons hr hrs, hn, hns⟩
end

theorem valueToBody_reduces {body : FrameBody} (h : valueToBody v = .ok body) :
    Reduces v (bodyToValueRef body) ∧ FrameBody.Normal body := by
  cases v with
  | nil =>
    cases h
    exact ⟨Reduces.refl _, trivial⟩
  | string b =>
    cases h
    exact ⟨Reduces.string b, trivial⟩
  | array vs =>
    obtain ⟨xs, hxs, rfl⟩ := map_ok.mp h
    obtain ⟨hr, hn⟩ := valuesToFrameValues_reduces vs hxs
    exact ⟨Reduces.array hr, hn⟩
  | boolean b | integer n | binary b | map vs | float bits | ext t b => cases h

/-- A decoded frame's own array is no larger than the one it was decoded from. -/
theorem valuesToFrame_reduces (h : valuesToFrame v = .ok frame) :
    Reduces v (frameToValueRef frame) ∧ FrameBody.Normal frame.body := by
  obtain ⟨version, flags, seq, room, body, rfl, hv, hf, hs, hr, hb⟩ := valuesToFrame_ok h
  obtain ⟨hbody, hnormal⟩ := valueToBody_reduces hb
  have hroom : Reduces room ((frame.roomId.map (fun r => Value.integer r.toNat)).getD .nil) := by
    rcases roomIdOf_ok hr with ⟨rfl, hid⟩ | ⟨n, _, rfl, hid⟩
    · rw [hid]
      exact Reduces.refl _
    · rw [hid]
      exact Reduces.integer (by rw [UInt32.toNat_ofNat']; exact Nat.mod_le _ _)
  refine ⟨Reduces.array ?_, hnormal⟩
  refine .cons ?_ (.cons (Reduces.refl _) (.cons ?_ (.cons ?_ (.cons hroom (.cons hbody .nil)))))
  · exact Reduces.integer (by rw [hv, UInt8.toNat_ofNat']; exact Nat.mod_le _ _)
  · exact Reduces.integer (by rw [hf, UInt16.toNat_ofNat']; exact Nat.mod_le _ _)
  · exact Reduces.integer (by rw [hs, UInt32.toNat_ofNat']; exact Nat.mod_le _ _)

/-! The codec on whole byte strings. -/

variable (rmpv : Rmpv)

theorem decodeFrame_of_bytes (h : FrameBytes bytes v) :
    decodeFrame rmpv bytes = valuesToFrame v := by
  have hread := rmpv.read_format _ _ _ _ (by decide) h.parses
  simp only [decodeFrame, validateMsgpack_ok.mpr ⟨v, h⟩, hread]

/-- What is decoded is one value within the limits, converted. -/
theorem decodeFrame_ok {rmpv : Rmpv} (h : decodeFrame rmpv bytes = .ok frame) :
    ∃ v, FrameBytes bytes v ∧ valuesToFrame v = .ok frame := by
  cases hv : validateMsgpack bytes with
  | error e =>
    simp only [decodeFrame, hv] at h
    cases h
  | ok u =>
    obtain ⟨v, hb⟩ := validateMsgpack_ok.mp hv
    exact ⟨v, hb, by rw [← decodeFrame_of_bytes rmpv hb, h]⟩

theorem length_le_payloadAll (vs : List Value) : vs.length ≤ payloadAll vs := by
  induction vs with
  | nil => exact Nat.le_refl 0
  | cons v vs ih =>
    have : 1 ≤ v.payload := by cases v <;> simp only [Value.payload] <;> omega
    rw [length_cons, payloadAll]
    omega

mutual
/-- The only thing the format cannot hold is a length of 2^32 or more. -/
theorem fits_or_large (x : FrameValue) :
    (frameValueToValueRef x).Fits ∨ 0x100000000 ≤ (frameValueToValueRef x).payload := by
  cases x with
  | nil | bool b => exact .inl trivial
  | u64 n =>
    have := n.toNat_lt
    exact .inl ⟨by omega, by omega⟩
  | i64 n =>
    have hlo := n.le_toInt
    have hhi := n.toInt_lt
    exact .inl ⟨by omega, by omega⟩
  | string s =>
    simp only [frameValueToValueRef, Value.Fits, Value.payload]
    omega
  | bytes b =>
    simp only [frameValueToValueRef, Value.Fits, Value.payload]
    omega
  | array xs =>
    have := length_le_payloadAll (frameValuesToValueRefs xs)
    simp only [frameValueToValueRef, Value.Fits, Value.payload]
    rcases fitsAll_or_large xs with h | h
    · simp only [h, and_true]
      omega
    · omega
theorem fitsAll_or_large (xs : List FrameValue) :
    FitsAll (frameValuesToValueRefs xs) ∨ 0x100000000 ≤ payloadAll (frameValuesToValueRefs xs) := by
  cases xs with
  | nil => exact .inl trivial
  | cons x xs =>
    rw [frameValuesToValueRefs, FitsAll, payloadAll]
    rcases fits_or_large x with h | h
    · rcases fitsAll_or_large xs with hs | hs
      · exact .inl ⟨h, hs⟩
      · exact .inr (by omega)
    · exact .inr (by omega)
end

theorem body_fits_or_large (body : FrameBody) :
    (bodyToValueRef body).Fits ∨ 0x100000000 ≤ (bodyToValueRef body).payload := by
  cases body with
  | empty => exact .inl trivial
  | text s => exact fits_or_large (.string s)
  | fields xs => exact fits_or_large (.array xs)

theorem frame_fits_or_large (frame : Frame) :
    (frameToValueRef frame).Fits ∨ 0x100000000 ≤ (frameToValueRef frame).payload := by
  have hv := frame.version.toNat_lt
  have ho := frame.op.code.toNat_lt
  have hf := frame.flags.toNat_lt
  have hs := frame.seq.toNat_lt
  have hroom : ((frame.roomId.map (fun r => Value.integer r.toNat)).getD .nil).Fits := by
    cases frame.roomId with
    | none => trivial
    | some r =>
      have := r.toNat_lt
      exact ⟨by omega, by omega⟩
  rcases body_fits_or_large frame.body with h | h
  · exact .inl ⟨show 6 < _ by decide, ⟨by omega, by omega⟩, ⟨by omega, by omega⟩, ⟨by omega, by omega⟩,
      ⟨by omega, by omega⟩, hroom, h, trivial⟩
  · refine .inr ?_
    simp only [frameToValueRef, Value.payload, payloadAll]
    omega

/-- A frame's bytes respect every limit of the scanner. -/
structure WithinLimits (bytes : Bytes) (frame : Frame) : Prop where
  size : bytes.length ≤ maxFrameBytes
  within : (frameToValueRef frame).Within maxContainerItems maxScalarBytes
  values : (frameToValueRef frame).nodes ≤ maxTotalValues
  depth : (frameToValueRef frame).depth ≤ maxNestingDepth

/-- The scanner accepts a frame's own bytes exactly when they respect the limits, and they
are then read as the frame's own array. -/
theorem frameBytes_encode {rmpv : Rmpv} (h : encodeFrame rmpv frame = .ok bytes) :
    FrameBytes bytes v ↔ v = frameToValueRef frame ∧ WithinLimits bytes frame := by
  have hw := mapError_ok.mp h
  rcases frame_fits_or_large frame with hfits | hlarge
  · have hb : write (frameToValueRef frame) = bytes := by
      rw [rmpv.write_shortest _ hfits] at hw
      exact ok.inj hw
    rw [← hb, frameBytes_iff, readsWithin_write hfits]
    exact and_congr_right fun _ => ⟨fun h => ⟨h.size, h.within, h.values, h.depth⟩,
      fun h => ⟨h.size, h.within, h.values, h.depth⟩⟩
  · -- a length of 2^32 is beyond the byte limit already
    have hlen := rmpv.write_payload _ _ hw
    have hno : ¬ bytes.length ≤ maxFrameBytes := by
      have : maxFrameBytes < 0x100000000 := by decide
      omega
    exact ⟨fun hv => absurd hv.size hno, fun hv => absurd hv.2.size hno⟩

/-- A decoded frame can be sent on: its own bytes are within the limits again. -/
theorem reencode (hb : FrameBytes bytes v) (hv : valuesToFrame v = .ok frame) :
    encodeFrame rmpv frame = .ok (write (frameToValueRef frame)) ∧
      FrameBytes (write (frameToValueRef frame)) (frameToValueRef frame) := by
  obtain ⟨hr, _⟩ := valuesToFrame_reduces hv
  have hread := parse_reads hb.parses
  have hfits := hr.fits hread.fits
  have hdepth : (frameToValueRef frame).depth < maxNestingDepth + 1 := by
    rw [hr.depth]
    exact hread.depth
  refine ⟨?_, ?_, ?_, hr.within _ _ hb.within, ?_⟩
  · rw [encodeFrame, rmpv.write_shortest _ hfits]
    rfl
  · calc (write (frameToValueRef frame)).length
        ≤ (write v).length := hr.length
      _ ≤ bytes.length := Nat.le_trans (Nat.le_add_right _ _) hread.length
      _ ≤ maxFrameBytes := hb.size
  · rw [← append_nil (write _)]
    exact parse_write _ _ [] hfits hdepth
  · rw [hr.nodes]
    exact hb.values

/-- Round trips of the codec. Encoding always succeeds. A frame without non-negative `i64`
is decoded from its own bytes if these respect every limit, and otherwise they are refused.
Every decoded frame survives another round trip. -/
theorem codec_roundTrip (rmpv : Rmpv) :
    (∀ frame, FrameBody.Normal frame.body → ∃ bytes, encodeFrame rmpv frame = .ok bytes ∧
      (WithinLimits bytes frame → decodeFrame rmpv bytes = .ok frame) ∧
      (¬ WithinLimits bytes frame → ∃ e, decodeFrame rmpv bytes = .error e)) ∧
    (∀ bytes frame, decodeFrame rmpv bytes = .ok frame →
      ∃ bytes', encodeFrame rmpv frame = .ok bytes' ∧ decodeFrame rmpv bytes' = .ok frame) := by
  refine ⟨?_, ?_⟩
  · intro frame hn
    obtain ⟨bytes, hw⟩ := rmpv.write_total (frameToValueRef frame)
    have henc : encodeFrame rmpv frame = .ok bytes := mapError_ok.mpr hw
    refine ⟨bytes, henc, ?_, ?_⟩
    · intro hl
      rw [decodeFrame_of_bytes rmpv ((frameBytes_encode henc).mpr ⟨rfl, hl⟩)]
      exact valuesToFrame_toValueRef frame hn
    · intro hl
      cases hd : decodeFrame rmpv bytes with
      | error e => exact ⟨e, rfl⟩
      | ok frame' =>
        obtain ⟨v, hb, _⟩ := decodeFrame_ok hd
        exact absurd ((frameBytes_encode henc).mp hb).2 hl
  · intro bytes frame hd
    obtain ⟨v, hb, hv⟩ := decodeFrame_ok hd
    obtain ⟨henc, hb'⟩ := reencode rmpv hb hv
    refine ⟨_, henc, ?_⟩
    rw [decodeFrame_of_bytes rmpv hb']
    exact valuesToFrame_toValueRef frame (valuesToFrame_reduces hv).2

theorem length_frameValuesToValueRefs (xs : List FrameValue) :
    (frameValuesToValueRefs xs).length = xs.length := by
  induction xs with
  | nil => rfl
  | cons x xs ih => rw [frameValuesToValueRefs, length_cons, ih, length_cons]

theorem normalAll_replicate (n : Nat) : NormalAll (replicate n .nil) := by
  induction n with
  | zero => trivial
  | succ n ih => exact ⟨trivial, ih⟩

/-- `encode_frame` does not refuse a body of 4097 items. -/
theorem encodeFrame_over_limit :
    ∃ frame bytes, FrameBody.Normal frame.body ∧
      encodeFrame Rmpv.reference frame = .ok bytes ∧ ¬ WithinLimits bytes frame := by
  refine ⟨Frame.new .ping 0 none (.fields (replicate 4097 .nil)), _, normalAll_replicate 4097,
    rfl, ?_⟩
  intro h
  have hbody := h.within.2.2.2.2.2.2.1.1
  rw [length_frameValuesToValueRefs, length_replicate] at hbody
  exact absurd hbody (by decide)

end Omen.Server
