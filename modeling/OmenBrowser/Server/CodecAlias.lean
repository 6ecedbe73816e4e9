import OmenBrowser.Server.CodecRoundTrip

/- Which byte strings the decoder confuses.

   `decode_frame` cuts the version to 8 bits, the flags to 16, the sequence number and
   the room id to 32, and reads a string that is not UTF-8 as the empty one. `InRange`
   are the arrays on which none of this happens. `inRange_iff` says that these are
   exactly the arrays a frame is itself sent as, so two of them never decode to one
   frame, while any other accepted array decodes to the frame of an array in range. -/
namespace Omen.Server
open Wire Msgpack Omen.Protocol List

variable {v : Value}

/-- The value the bytes of a frame are read as. -/
def wireValue (bytes : Bytes) : Option Value := (parse (maxNestingDepth + 1) bytes).map Prod.fst

mutual
/-- The strings of a value, in the order of the wire. -/
def strings : Value → List Bytes
  | .string b => [b]
  | .array vs => stringsAll vs
  | .map vs => stringsAll vs
  | _ => []
def stringsAll : List Value → List Bytes
  | [] => []
  | v :: vs => strings v ++ stringsAll vs
end

/-- The fixed header fields: version, operation, flags, sequence number and room id. -/
def header : Value → List Value
  | .array vs => vs.take 5
  | _ => []

/-- Two arrays differ in a header field or in the bytes of a string. -/
def Differ (v w : Value) : Prop := header v ≠ header w ∨ strings v ≠ strings w

/-- The header integers fit the fields of `Frame`. -/
def HeaderFits : List Value → Prop
  | [.integer version, .integer op, .integer flags, .integer seq, room] =>
    version < 2 ^ 8 ∧ op < 2 ^ 16 ∧ flags < 2 ^ 16 ∧ seq < 2 ^ 32 ∧
      match room with
      | .integer n => n < 2 ^ 32
      | _ => True
  | _ => True

/-- Every header integer fits its field and every string is UTF-8. -/
def InRange (v : Value) : Prop :=
  HeaderFits (header v) ∧ ∀ b ∈ strings v, (asStr b).isSome = true

/-! Strings. -/

mutual
theorem strings_frameValue (x : FrameValue) :
    ∀ b ∈ strings (frameValueToValueRef x), (asStr b).isSome = true := by
  intro b hb
  cases x with
  | nil | bool _ | u64 _ | i64 _ | bytes _ => cases hb
  | string s =>
    rw [mem_singleton.mp hb, asStr_utf8]
    rfl
  | array xs => exact stringsAll_frameValues xs b hb
theorem stringsAll_frameValues (xs : List FrameValue) :
    ∀ b ∈ stringsAll (frameValuesToValueRefs xs), (asStr b).isSome = true := by
  intro b hb
  cases xs with
  | nil => cases hb
  | cons x xs =>
    rcases mem_append.mp hb with h | h
    · exact strings_frameValue x b h
    · exact stringsAll_frameValues xs b h
end

mutual
/-- A value whose strings are UTF-8 is converted without loss. -/
theorem valueToFrameValue_exact (v : Value) {x : FrameValue} (h : valueToFrameValue v = .ok x)
    (hs : ∀ b ∈ strings v, (asStr b).isSome = true) : frameValueToValueRef x = v := by
  cases v with
  | nil | boolean b | binary b =>
    cases h
    rfl
  | integer n =>
    simp only [valueToFrameValue] at h
    split at h
    · next u hu =>
      cases h
      rw [frameValueToValueRef, asU64_some hu]
    · split at h
      · next i hi =>
        cases h
        rw [frameValueToValueRef, asI64_some hi]
      · cases h
  | string b =>
    cases h
    obtain ⟨s, hb⟩ := Option.isSome_iff_exists.mp (hs b (mem_singleton_self b))
    rw [hb, Option.getD_some, frameValueToValueRef, asStr_some.mp hb]
  | array vs =>
    obtain ⟨xs, hxs, rfl⟩ := Outcome.map_ok.mp h
    rw [frameValueToValueRef, valuesToFrameValues_exact vs hxs hs]
  | map vs | float bits | ext t b => cases h
theorem valuesToFrameValues_exact (vs : List Value) {xs : List FrameValue}
    (h : valuesToFrameValues vs = .ok xs)
    (hs : ∀ b ∈ stringsAll vs, (asStr b).isSome = true) : frameValuesToValueRefs xs = vs := by
  cases vs with
  | nil =>
    cases h
    rfl
  | cons v vs =>
    rw [valuesToFrameValues] at h
    split at h
    · cases h
    · next x hx =>
      obtain ⟨xs', hxs, rfl⟩ := Outcome.map_ok.mp h
      rw [frameValuesToValueRefs,
        valueToFrameValue_exact v hx (fun b hb => hs b (mem_append_left _ hb)),
        valuesToFrameValues_exact vs hxs (fun b hb => hs b (mem_append_right _ hb))]
end

theorem strings_body (body : FrameBody) :
    ∀ b ∈ strings (bodyToValueRef body), (asStr b).isSome = true := by
  cases body with
  | empty => exact fun b hb => by cases hb
  | text s => exact strings_frameValue (.string s)
  | fields xs => exact strings_frameValue (.array xs)

theorem valueToBody_exact {body : FrameBody} (h : valueToBody v = .ok body)
    (hs : ∀ b ∈ strings v, (asStr b).isSome = true) : bodyToValueRef body = v := by
  cases v with
  | nil =>
    cases h
    rfl
  | string b =>
    cases h
    obtain ⟨s, hb⟩ := Option.isSome_iff_exists.mp (hs b (mem_singleton_self b))
    rw [hb, Option.getD_some, bodyToValueRef, asStr_some.mp hb]
  | array vs =>
    obtain ⟨xs, hxs, rfl⟩ := Outcome.map_ok.mp h
    rw [bodyToValueRef, valuesToFrameValues_exact vs hxs hs]
  | boolean b | integer n | binary b | map vs | float bits | ext t b => cases h

/-! Arrays in range. -/

variable {version : Int} {frame : Frame} {bytes : Bytes}

/-- The strings of a frame's array are those of its body. -/
theorem strings_array {op flags seq : Int} {room body : Value} (hroom : strings room = []) :
    strings (.array [.integer version, .integer op, .integer flags, .integer seq, room, body]) =
      strings body := by
  simp only [strings, stringsAll, hroom, nil_append, append_nil]

/-- A frame's own array is in range. -/
theorem inRange_toValueRef (frame : Frame) : InRange (frameToValueRef frame) := by
  have hv := frame.version.toNat_lt
  have ho := frame.op.code.toNat_lt
  have hf := frame.flags.toNat_lt
  have hs := frame.seq.toNat_lt
  refine ⟨⟨by omega, by omega, by omega, by omega, ?_⟩, ?_⟩
  · cases frame.roomId with
    | none => trivial
    | some r =>
      have := r.toNat_lt
      show (r.toNat : Int) < 2 ^ 32
      omega
  · rw [frameToValueRef, strings_array (by cases frame.roomId <;> rfl)]
    exact strings_body frame.body

/-- An accepted array is in range exactly when it is the array of its own frame. -/
theorem inRange_iff (h : valuesToFrame v = .ok frame) : InRange v ↔ v = frameToValueRef frame := by
  refine ⟨?_, fun hv => hv ▸ inRange_toValueRef frame⟩
  intro ⟨hfits, hs⟩
  obtain ⟨version, flags, seq, room, body, rfl, hv, hf, hsq, hr, hb⟩ := valuesToFrame_ok h
  obtain ⟨hv8, _, hf16, hs32, hr32⟩ := hfits
  have hroom : strings room = [] ∧
      room = (frame.roomId.map (fun r => Value.integer r.toNat)).getD .nil := by
    rcases roomIdOf_ok hr with ⟨rfl, hid⟩ | ⟨n, _, rfl, hid⟩
    · rw [hid]
      exact ⟨rfl, rfl⟩
    · have hn : n < 2 ^ 32 := by
        have : (n : Int) < 2 ^ 32 := hr32
        omega
      rw [hid, Option.map_some, Option.getD_some, UInt32.toNat_ofNat_of_lt' hn]
      exact ⟨rfl, rfl⟩
  rw [strings_array hroom.1] at hs
  rw [frameToValueRef, valueToBody_exact hb hs, ← hroom.2, hv, hf, hsq,
    UInt8.toNat_ofNat_of_lt' (show version < 2 ^ 8 by omega),
    UInt16.toNat_ofNat_of_lt' (show flags < 2 ^ 16 by omega),
    UInt32.toNat_ofNat_of_lt' (show seq < 2 ^ 32 by omega)]

theorem wireValue_of_bytes (h : FrameBytes bytes v) : wireValue bytes = some v := by
  rw [wireValue, h.parses, Option.map_some]

theorem decodeFrame_wireValue {rmpv : Rmpv} (hd : decodeFrame rmpv bytes = .ok frame)
    (hv : wireValue bytes = some v) : FrameBytes bytes v ∧ valuesToFrame v = .ok frame := by
  obtain ⟨v', hb, hf⟩ := decodeFrame_ok hd
  rw [wireValue_of_bytes hb] at hv
  cases hv
  exact ⟨hb, hf⟩

/-- An accepted byte string keeps apart from every differing one in range exactly when it is
in range itself: otherwise the decoder takes it for another, legitimate frame. -/
theorem decodeFrame_distinct_iff (rmpv : Rmpv) {a : Bytes} {va : Value} {frame : Frame}
    (ha : decodeFrame rmpv a = .ok frame) (hva : wireValue a = some va) :
    (∀ b vb frame', decodeFrame rmpv b = .ok frame' → wireValue b = some vb → InRange vb →
      Differ va vb → frame ≠ frame') ↔ InRange va := by
  obtain ⟨hab, haf⟩ := decodeFrame_wireValue ha hva
  refine ⟨?_, ?_⟩
  · intro hall
    -- the frame's own bytes are an accepted string in range with the same frame
    obtain ⟨_, hb⟩ := reencode rmpv hab haf
    have hown := inRange_toValueRef frame
    have hd : decodeFrame rmpv (write (frameToValueRef frame)) = .ok frame := by
      rw [decodeFrame_of_bytes rmpv hb]
      exact valuesToFrame_toValueRef frame (valuesToFrame_reduces haf).2
    by_cases hdiff : Differ va (frameToValueRef frame)
    · exact absurd rfl (hall _ _ frame hd (wireValue_of_bytes hb) hown hdiff)
    · simp only [Differ, not_or, not_not] at hdiff
      rw [InRange, hdiff.1, hdiff.2]
      exact hown
  · intro hin b vb frame' hd hvb hinb hdiff he
    obtain ⟨_, hbf⟩ := decodeFrame_wireValue hd hvb
    have hsame : va = vb := by
      rw [(inRange_iff haf).mp hin, (inRange_iff hbf).mp hinb, he]
    subst hsame
    rcases hdiff with h | h <;> exact h rfl

/-- A ping with the given version. -/
def pingArray (version : Int) : Value :=
  .array [.integer version, .integer 100, .integer 0, .integer 0, .nil, .nil]

theorem frameBytes_ping (hlo : 0 ≤ version) (hhi : version < 2 ^ 64) :
    FrameBytes (write (pingArray version)) (pingArray version) := by
  have hfits : (pingArray version).Fits :=
    ⟨show 6 < _ by decide, ⟨by omega, by omega⟩, ⟨by decide, by decide⟩, ⟨by decide, by decide⟩,
      ⟨by decide, by decide⟩, trivial, trivial, trivial⟩
  refine ⟨?_, ?_, ?_, show 7 ≤ maxTotalValues by decide⟩
  · have hlen : (writeInt version).length ≤ 9 := by
      unfold writeInt
      split_ifs <;> simp only [length_cons, length_nil, length_be] <;> omega
    calc (write (pingArray version)).length
        = 1 + ((writeInt version).length + 5) := by
          rw [pingArray, write, length_append, writeAll, length_append]
          rfl
      _ ≤ maxFrameBytes := Nat.le_trans (by omega : _ ≤ 15) (by decide)
  · rw [← append_nil (write _)]
    exact parse_write _ _ [] hfits (show 1 < maxNestingDepth + 1 by decide)
  · exact ⟨show 6 ≤ maxContainerItems by decide, trivial, trivial, trivial, trivial, trivial, trivial,
      trivial⟩

theorem decodeFrame_ping :
    decodeFrame Rmpv.reference (write (pingArray 1)) = .ok (Frame.new .ping 0 none .empty) := by
  rw [decodeFrame_of_bytes _ (frameBytes_ping (by decide) (by decide))]
  rfl

/-- A ping of version 1 is in range. -/
theorem decodeFrame_distinct_ping :
    (∀ b vb frame', decodeFrame Rmpv.reference b = .ok frame' → wireValue b = some vb → InRange vb →
      Differ (pingArray 1) vb → Frame.new .ping 0 none .empty ≠ frame') ↔ InRange (pingArray 1) :=
  decodeFrame_distinct_iff Rmpv.reference decodeFrame_ping
    (wireValue_of_bytes (frameBytes_ping (by decide) (by decide)))

/-- A ping of version 257 is read as one of version 1. -/
theorem decodeFrame_alias_version :
    ∃ a b va vb frame, decodeFrame Rmpv.reference a = .ok frame ∧
      decodeFrame Rmpv.reference b = .ok frame ∧ wireValue a = some va ∧ wireValue b = some vb ∧
      Differ va vb := by
  have hb : FrameBytes (write (pingArray 257)) (pingArray 257) :=
    frameBytes_ping (by decide) (by decide)
  refine ⟨_, _, _, _, _, decodeFrame_ping, ?_,
    wireValue_of_bytes (frameBytes_ping (by decide) (by decide)), wireValue_of_bytes hb, .inl ?_⟩
  · rw [decodeFrame_of_bytes _ hb]
    rfl
  · intro h
    have hv : (1 : Int) = 257 := Value.integer.inj (cons.inj h).1
    exact absurd hv (by decide)

end Omen.Server
