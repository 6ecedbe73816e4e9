import OmenBrowser.Lib.MsgpackReader
import OmenBrowser.Lib.Outcome
import OmenBrowser.Protocol.Frame

/- The server's frame codec (`server/src/protocol/codec.rs`).

   `encodeFrame` builds a MessagePack array of six items and hands it to the
   serializer; it checks no limit. `decodeFrame` first runs `MsgpackScanner` over
   the bytes, which bounds the total size, scalars, containers, the number of
   values and the nesting depth, and only then parses and converts.

   The crate `rmpv` is a parameter, `Rmpv`, with what the codec relies on as
   fields: it writes shortest-form MessagePack, writing into a vector does not
   fail, everything it is given is written, and it reads any complete value nested
   less than 1024 deep. `Rmpv.reference` is such a crate, by the format itself.

   Correspondence (Rust ↔ Lean):
     `MsgpackScanner { bytes, offset, .. }`  ↔ `Scanner` (the bytes not yet read)
     `MsgpackScanner::value`, its `match`    ↔ `Scanner.value`, `arm`
     `values[i]` of a six-item array         ↔ a list pattern of six items
   The scanner's depth counts up to the nesting limit; here the levels left count
   down from it, so that the recursion is on them. -/
namespace Omen.Server
open Wire Msgpack Omen.Protocol

def maxFrameBytes : Nat := 1024 * 1024
def maxScalarBytes : Nat := 512 * 1024
def maxContainerItems : Nat := 4096
def maxTotalValues : Nat := 8192
def maxNestingDepth : Nat := 16

inductive CodecError where
  | protocol (error : ProtocolError)
  | encode (text : String)
  | decode (text : String)
  deriving DecidableEq, Repr

/-- The crate `rmpv`, as far as the codec uses it. -/
structure Rmpv where
  /-- `rmpv::encode::write_value_ref` into a vector. -/
  writeValueRef : Value → Except String Bytes
  /-- `rmpv::decode::read_value`. -/
  readValue : Bytes → Except String Value
  write_total : ∀ v, ∃ b, writeValueRef v = .ok b
  write_shortest : ∀ v, v.Fits → writeValueRef v = .ok (write v)
  write_payload : ∀ v b, writeValueRef v = .ok b → v.payload ≤ b.length
  read_format : ∀ fuel bs v r, fuel ≤ 1024 → parse fuel bs = some (v, r) → readValue bs = .ok v

/-- The format's own writer and reader. -/
def Rmpv.reference : Rmpv where
  writeValueRef v := .ok (write v)
  readValue bs :=
    match parse 1024 bs with
    | some (v, _) => .ok v
    | none => .error "unexpected end of file"
  write_total v := ⟨write v, rfl⟩
  write_shortest _ _ := rfl
  write_payload v b h := by
    obtain rfl := Except.ok.inj h
    exact payload_le_write v
  read_format fuel bs v r hle h := by
    simp only [parse_mono hle h]

/-! The limit scanner. -/

structure ScanLimits where
  maxScalarBytes : Nat
  maxContainerItems : Nat
  maxTotalValues : Nat
  maxNestingDepth : Nat

/-- The scanner's position, as the bytes left, and the values it has counted. -/
structure Scanner where
  rest : Bytes
  values : Nat

/-- What an arm of the scanner's `match marker` does. -/
inductive Arm where
  | accept
  | reserved
  | skip (len : Nat)
  | scalar (len : Nat)
  | container (items : Nat)
  /-- Read a `width`-byte length, then a scalar of that length and `extra` more. -/
  | readScalar (width extra : Nat)
  /-- Read a `width`-byte length, then `factor` items for each. -/
  | readContainer (width factor : Nat)
  deriving DecidableEq

def arm (marker : UInt8) : Arm :=
  match marker.toNat with
  | 0xc0 | 0xc2 | 0xc3 => .accept
  | 0xc1 => .reserved
  | 0xc4 | 0xd9 => .readScalar 1 0
  | 0xc5 | 0xda => .readScalar 2 0
  | 0xc6 | 0xdb => .readScalar 4 0
  | 0xc7 => .readScalar 1 1
  | 0xc8 => .readScalar 2 1
  | 0xc9 => .readScalar 4 1
  | 0xca => .skip 4
  | 0xcb => .skip 8
  | 0xcc | 0xd0 => .skip 1
  | 0xcd | 0xd1 => .skip 2
  | 0xce | 0xd2 => .skip 4
  | 0xcf | 0xd3 => .skip 8
  | 0xd4 => .skip 2
  | 0xd5 => .skip 3
  | 0xd6 => .skip 5
  | 0xd7 => .skip 9
  | 0xd8 => .skip 17
  | 0xdc => .readContainer 2 1
  | 0xdd => .readContainer 4 1
  | 0xde => .readContainer 2 2
  | 0xdf => .readContainer 4 2
  | n =>
    if n ≤ 0x7f then .accept
    else if n ≤ 0x8f then .container ((n &&& 0x0f) * 2)
    else if n ≤ 0x9f then .container (n &&& 0x0f)
    else if n ≤ 0xbf then .scalar (n &&& 0x1f)
    else .accept

namespace Scanner

def take (s : Scanner) (len : Nat) : Except CodecError (Bytes × Scanner) :=
  match take? len s.rest with
  | some (a, r) => .ok (a, { s with rest := r })
  | none => .error (.decode "truncated MessagePack value")

def skip (s : Scanner) (len : Nat) : Except CodecError Scanner :=
  match s.take len with
  | .ok (_, s') => .ok s'
  | .error e => .error e

def readUint (s : Scanner) (width : Nat) : Except CodecError (Nat × Scanner) :=
  match s.take width with
  | .ok (a, s') => .ok (ofBe a, s')
  | .error e => .error e

def scalar (limits : ScanLimits) (s : Scanner) (len : Nat) : Except CodecError Scanner :=
  if len > limits.maxScalarBytes then .error (.decode "MessagePack scalar limit exceeded")
  else s.skip len

/-- The items of a container, one after the other. -/
def items (value : Scanner → Except CodecError Scanner) : Nat → Scanner → Except CodecError Scanner
  | 0, s => .ok s
  | n + 1, s =>
    match value s with
    | .ok s' => items value n s'
    | .error e => .error e

section
variable (limits : ScanLimits) (value : Scanner → Except CodecError Scanner) (s : Scanner)

def container (n : Nat) : Except CodecError Scanner :=
  if n > limits.maxContainerItems then .error (.decode "MessagePack container limit exceeded")
  else items value n s

def runArm : Arm → Except CodecError Scanner
  | .accept => .ok s
  | .reserved => .error (.decode "reserved MessagePack marker")
  | .skip len => s.skip len
  | .scalar len => s.scalar limits len
  | .container n => s.container limits value n
  | .readScalar width extra =>
    match s.readUint width with
    | .ok (len, s') => s'.scalar limits (len + extra)
    | .error e => .error e
  | .readContainer width factor =>
    match s.readUint width with
    | .ok (len, s') => s'.container limits value (len * factor)
    | .error e => .error e

end

/-- `value(depth)` with `levels = max_nesting_depth + 1 - depth`. -/
def value (limits : ScanLimits) : Nat → Scanner → Except CodecError Scanner
  | 0, _ => .error (.decode "MessagePack nesting limit exceeded")
  | levels + 1, s =>
    let counted := { s with values := s.values + 1 }
    if counted.values > limits.maxTotalValues then
      .error (.decode "MessagePack value limit exceeded")
    else
      match counted.rest with
      | [] => .error (.decode "truncated MessagePack value")
      | marker :: bs => runArm limits (value limits levels) { counted with rest := bs } (arm marker)

end Scanner

def validateMsgpackWithLimits (bytes : Bytes) (maxBytes : Nat) (limits : ScanLimits) :
    Except CodecError Unit :=
  if bytes.length > maxBytes then .error (.decode "MessagePack byte limit exceeded")
  else
    match Scanner.value limits (limits.maxNestingDepth + 1) ⟨bytes, 0⟩ with
    | .error e => .error e
    | .ok s =>
      if s.rest = [] then .ok ()
      else .error (.decode "trailing MessagePack data")

def frameLimits : ScanLimits :=
  { maxScalarBytes, maxContainerItems, maxTotalValues, maxNestingDepth }

def validateMsgpack (bytes : Bytes) : Except CodecError Unit :=
  validateMsgpackWithLimits bytes maxFrameBytes frameLimits

/-! Conversion between frames and MessagePack values. -/

mutual
def frameValueToValueRef : FrameValue → Value
  | .nil => .nil
  | .bool b => .boolean b
  | .u64 n => .integer n.toNat
  | .i64 n => .integer n.toInt
  | .string s => .string (utf8 s)
  | .bytes b => .binary b
  | .array vs => .array (frameValuesToValueRefs vs)
def frameValuesToValueRefs : List FrameValue → List Value
  | [] => []
  | v :: vs => frameValueToValueRef v :: frameValuesToValueRefs vs
end

def bodyToValueRef : FrameBody → Value
  | .empty => .nil
  | .text s => .string (utf8 s)
  | .fields vs => .array (frameValuesToValueRefs vs)

/-- `Integer::as_u64`. -/
def asU64 (n : Int) : Option UInt64 :=
  if 0 ≤ n ∧ n < 0x10000000000000000 then some (UInt64.ofNat n.toNat) else none

/-- `Integer::as_i64`. -/
def asI64 (n : Int) : Option Int64 :=
  if -0x8000000000000000 ≤ n ∧ n < 0x8000000000000000 then some (Int64.ofInt n) else none

def malformed (text : String) : CodecError := .protocol (.malformedFrame text)

mutual
def valueToFrameValue : Value → Except CodecError FrameValue
  | .nil => .ok .nil
  | .boolean b => .ok (.bool b)
  | .integer n =>
    match asU64 n with
    | some u => .ok (.u64 u)
    | none =>
      match asI64 n with
      | some i => .ok (.i64 i)
      | none => .error (malformed "integer does not fit supported range")
  -- `as_str().unwrap_or_default()`: bytes that are not UTF-8 become the empty string
  | .string b => .ok (.string ((asStr b).getD ""))
  | .binary b => .ok (.bytes b)
  | .array vs => (valuesToFrameValues vs).map .array
  | _ => .error (malformed "unsupported nested value")
def valuesToFrameValues : List Value → Except CodecError (List FrameValue)
  | [] => .ok []
  | v :: vs =>
    match valueToFrameValue v with
    | .error e => .error e
    | .ok x => (valuesToFrameValues vs).map (x :: ·)
end

def valueToBody : Value → Except CodecError FrameBody
  | .nil => .ok .empty
  | .string b => .ok (.text ((asStr b).getD ""))
  | .array vs => (valuesToFrameValues vs).map .fields
  | _ => .error (malformed "unsupported frame body shape")

/-- `value_as_u64`. -/
def valueAsU64 (v : Value) (field : String) : Except CodecError Nat :=
  match v with
  | .integer n => if 0 ≤ n ∧ n < 0x10000000000000000 then .ok n.toNat else .error (malformed field)
  | _ => .error (malformed field)

/-- The six-item array of a frame. -/
def frameToValueRef (frame : Frame) : Value :=
  .array [.integer frame.version.toNat, .integer frame.op.code.toNat, .integer frame.flags.toNat,
    .integer frame.seq.toNat,
    (frame.roomId.map (fun roomId => Value.integer roomId.toNat)).getD .nil,
    bodyToValueRef frame.body]

def encodeFrame (rmpv : Rmpv) (frame : Frame) : Except CodecError Bytes :=
  (rmpv.writeValueRef (frameToValueRef frame)).mapError .encode

def roomIdOf : Value → Except CodecError (Option UInt32)
  | .nil => .ok none
  | v => (valueAsU64 v "room_id").map (fun n => some (UInt32.ofNat n))

/-- The conversion of the parsed array. The header integers are cut to their fields' widths
(`as u8`, `as u16`, `as u32`); only the operation is looked up by its whole value. -/
def valuesToFrame : Value → Except CodecError Frame
  | .array [version, op, flags, seq, roomId, body] => do
    let version ← valueAsU64 version "version"
    let op ← (ChatOp.tryFrom (← valueAsU64 op "op")).mapError .protocol
    let flags ← valueAsU64 flags "flags"
    let seq ← valueAsU64 seq "seq"
    let roomId ← roomIdOf roomId
    let body ← valueToBody body
    pure { version := UInt8.ofNat version, op, flags := UInt16.ofNat flags,
           seq := UInt32.ofNat seq, roomId, body }
  | _ => .error (malformed "expected six-item frame array")

def decodeFrame (rmpv : Rmpv) (bytes : Bytes) : Except CodecError Frame :=
  match validateMsgpack bytes with
  | .error e => .error e
  | .ok () =>
    match rmpv.readValue bytes with
    | .error text => .error (.decode text)
    | .ok value => valuesToFrame value

end Omen.Server
