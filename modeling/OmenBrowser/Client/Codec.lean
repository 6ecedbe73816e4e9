import OmenBrowser.Server.MsgpackScanner

/- The client's frame decoder (`chat/codec.rs`) with the client's MessagePack limit
   scanner (`msgpack.rs`), and its agreement with the server's.

   The client has its own scanner, its own `match` over the markers, its own limits
   (`protocol_limits.rs`), errors and value conversion; operations and frames are
   those of the shared protocol crate, and both sides read with `rmpv`. The
   definitions below follow the client's files. `decoders_agree` shows that the two
   sides accept the same byte strings and read the same frame from them.

   Correspondence (Rust ↔ Lean):
     `MsgpackLimitError(&'static str)`        ↔ `MsgpackLimitError`
     `msgpack::validate_msgpack_with_limits`  ↔ `scanWithLimits`
     `codec::validate_msgpack_with_limits`    ↔ `validateMsgpackWithLimits` -/
namespace Omen.Client
open Wire Msgpack Omen.Protocol
open Omen.Server (Arm ScanLimits Stop MsgpackScanner Rmpv asU64 asI64)

/-! `protocol_limits.rs`. -/

def omenchatFrameMaxBytes : Nat := 1024 * 1024
def omenchatFrameMaxScalarBytes : Nat := 512 * 1024
def omenchatFrameMaxContainerItems : Nat := 4096
def omenchatFrameMaxTotalValues : Nat := 8192
def omenchatFrameMaxNestingDepth : Nat := 16

/-! `msgpack.rs`. -/

structure MsgpackLimitError where
  text : String
  deriving DecidableEq

/-- The `match marker` of the client's scanner. -/
def arm (marker : UInt8) : Arm :=
  let n := marker.toNat
  if n ≤ 0x7f ∨ n = 0xc0 ∨ n = 0xc2 ∨ n = 0xc3 ∨ 0xe0 ≤ n then .accept
  else if n ≤ 0x8f then .container ((n &&& 0x0f) * 2)
  else if n ≤ 0x9f then .container (n &&& 0x0f)
  else if n ≤ 0xbf then .scalar (n &&& 0x1f)
  else if n = 0xc1 then .reserved
  else if n = 0xc4 ∨ n = 0xd9 then .readScalar 1 0
  else if n = 0xc5 ∨ n = 0xda then .readScalar 2 0
  else if n = 0xc6 ∨ n = 0xdb then .readScalar 4 0
  else if n = 0xc7 then .readScalar 1 1
  else if n = 0xc8 then .readScalar 2 1
  else if n = 0xc9 then .readScalar 4 1
  else if n = 0xca then .skip 4
  else if n = 0xcb then .skip 8
  else if n = 0xcc ∨ n = 0xd0 then .skip 1
  else if n = 0xcd ∨ n = 0xd1 then .skip 2
  else if n = 0xce ∨ n = 0xd2 then .skip 4
  else if n = 0xcf ∨ n = 0xd3 then .skip 8
  else if n = 0xd4 then .skip 2
  else if n = 0xd5 then .skip 3
  else if n = 0xd6 then .skip 5
  else if n = 0xd7 then .skip 9
  else if n = 0xd8 then .skip 17
  else if n = 0xdc then .readContainer 2 1
  else if n = 0xdd then .readContainer 4 1
  else if n = 0xde then .readContainer 2 2
  else .readContainer 4 2

variable (bytes : Bytes)

/-- `msgpack::validate_msgpack_with_limits`, with fuel for every byte. -/
def scanWithLimits (maxBytes : Nat) (limits : ScanLimits) : Except (Stop MsgpackLimitError) Unit :=
  MsgpackScanner.validate MsgpackLimitError.mk limits arm (bytes.length + 1) bytes maxBytes

/-! `chat/codec.rs`. -/

inductive CodecError where
  | protocol (error : ProtocolError)
  | encode (text : String)
  | decode (text : String)
  deriving DecidableEq

def limitError : Stop MsgpackLimitError → Stop CodecError
  | .failed error => .failed (.decode error.text)
  | .overflow => .overflow
  | .outOfFuel => .outOfFuel

def validateMsgpackWithLimits (maxBytes : Nat) (limits : ScanLimits) :
    Except (Stop CodecError) Unit :=
  (scanWithLimits bytes maxBytes limits).mapError limitError

def frameLimits : ScanLimits :=
  { maxScalarBytes := omenchatFrameMaxScalarBytes
    maxContainerItems := omenchatFrameMaxContainerItems
    maxTotalValues := omenchatFrameMaxTotalValues
    maxNestingDepth := omenchatFrameMaxNestingDepth }

def validateMsgpack : Except (Stop CodecError) Unit :=
  validateMsgpackWithLimits bytes omenchatFrameMaxBytes frameLimits

def malformed (text : String) : CodecError := .protocol (.malformedFrame text)

mutual
def valueToFrameValue : Value → Except CodecError FrameValue
  | .nil => .ok .nil
  | .boolean b => .ok (.bool b)
  | .integer n =>
    match asU64 n with
    | some u => .ok (.u64 u)
    | none =>
      match asI64 n with
      | some i => .ok (.i64 i)
      | none => .error (malformed "integer does not fit supported range")
  | .string b => .ok (.string ((asStr b).getD ""))
  | .binary b => .ok (.bytes b)
  | .array vs => (valuesToFrameValues vs).map .array
  | _ => .error (malformed "unsupported nested value")
def valuesToFrameValues : List Value → Except CodecError (List FrameValue)
  | [] => .ok []
  | v :: vs =>
    match valueToFrameValue v with
    | .error e => .error e
    | .ok x => (valuesToFrameValues vs).map (x :: ·)
end

def valueToBody : Value → Except CodecError FrameBody
  | .nil => .ok .empty
  | .string b => .ok (.text ((asStr b).getD ""))
  | .array vs => (valuesToFrameValues vs).map .fields
  | _ => .error (malformed "unsupported frame body shape")

variable (v : Value)

/-- `value.as_u64()`. -/
def valueAsU64 (field : String) : Except CodecError Nat :=
  match v with
  | .integer n => if 0 ≤ n ∧ n < 0x10000000000000000 then .ok n.toNat else .error (malformed field)
  | _ => .error (malformed field)

def roomIdOf : Value → Except CodecError (Option UInt32)
  | .nil => .ok none
  | v => (valueAsU64 v "room_id").map (fun n => some (UInt32.ofNat n))

def valuesToFrame : Value → Except CodecError Frame
  | .array [version, op, flags, seq, roomId, body] => do
    let version ← valueAsU64 version "version"
    let op ← (ChatOp.tryFrom (← valueAsU64 op "op")).mapError .protocol
    let flags ← valueAsU64 flags "flags"
    let seq ← valueAsU64 seq "seq"
    let roomId ← roomIdOf roomId
    let body ← valueToBody body
    pure { version := UInt8.ofNat version, op, flags := UInt16.ofNat flags,
           seq := UInt32.ofNat seq, roomId, body }
  | _ => .error (malformed "expected six-item frame array")

variable (rmpv : Rmpv)

def decodeFrame (bytes : Bytes) : Except (Stop CodecError) Frame :=
  match validateMsgpack bytes with
  | .error e => .error e
  | .ok () =>
    match rmpv.readValue bytes with
    | .error text => .error (.failed (.decode text))
    | .ok value => (valuesToFrame value).mapError .failed

/-! Agreement with the server's decoder. -/

/-- The two `match`es name the same arm for each of the 256 markers. -/
theorem arm_eq (marker : UInt8) : arm marker = Server.arm marker := by
  have h : ∀ n < 256, arm (UInt8.ofNat n) = Server.arm (UInt8.ofNat n) := by decide +kernel
  have := h marker.toNat marker.toNat_lt
  rwa [UInt8.ofNat_toNat] at this

/-- The server's error, as the client names it. -/
def ofServer : Server.CodecError → CodecError
  | .protocol error => .protocol error
  | .encode text => .encode text
  | .decode text => .decode text

theorem map_mapError {ε ε' α β : Type} (g : ε → ε') (f : α → β) (x : Except ε α) :
    (x.mapError g).map f = (x.map f).mapError g := by
  cases x <;> rfl

theorem bind_mapError {ε ε' α β : Type} (g : ε → ε') (x : Except ε α) (f : α → Except ε β) :
    (x.mapError g >>= fun a => (f a).mapError g) = (x >>= f).mapError g := by
  cases x <;> rfl

mutual
theorem valueToFrameValue_eq :
    ∀ v, valueToFrameValue v = (Server.valueToFrameValue v).mapError ofServer
  | .nil => rfl
  | .boolean _ => rfl
  | .integer n => by
    unfold valueToFrameValue Server.valueToFrameValue
    cases asU64 n with
    | some u => rfl
    | none => cases asI64 n <;> rfl
  | .float _ => rfl
  | .string _ => rfl
  | .binary _ => rfl
  | .array vs => by
    unfold valueToFrameValue Server.valueToFrameValue
    rw [valuesToFrameValues_eq vs, map_mapError]
  | .map _ => rfl
  | .ext _ _ => rfl
theorem valuesToFrameValues_eq :
    ∀ vs, valuesToFrameValues vs = (Server.valuesToFrameValues vs).mapError ofServer
  | [] => rfl
  | v :: vs => by
    unfold valuesToFrameValues Server.valuesToFrameValues
    rw [valueToFrameValue_eq v, valuesToFrameValues_eq vs]
    cases Server.valueToFrameValue v with
    | error e => rfl
    | ok x => exact map_mapError ..
end

theorem valueToBody_eq : valueToBody v = (Server.valueToBody v).mapError ofServer := by
  cases v with
  | array vs =>
    show (valuesToFrameValues vs).map .fields =
      ((Server.valuesToFrameValues vs).map FrameBody.fields).mapError ofServer
    rw [valuesToFrameValues_eq, map_mapError]
  | _ => rfl

theorem valueAsU64_eq (field : String) :
    valueAsU64 v field = (Server.valueAsU64 v field).mapError ofServer := by
  cases v with
  | integer n =>
    unfold valueAsU64 Server.valueAsU64
    dsimp only
    split <;> rfl
  | _ => rfl

theorem roomIdOf_eq : roomIdOf v = (Server.roomIdOf v).mapError ofServer := by
  cases v with
  | nil => rfl
  | _ => simp only [roomIdOf, Server.roomIdOf, valueAsU64_eq, map_mapError]

theorem valuesToFrame_eq : valuesToFrame v = (Server.valuesToFrame v).mapError ofServer := by
  have hop : ∀ n, (ChatOp.tryFrom n).mapError CodecError.protocol =
      ((ChatOp.tryFrom n).mapError Server.CodecError.protocol).mapError ofServer := by
    intro n
    cases ChatOp.tryFrom n <;> rfl
  by_cases hsix : ∃ version op flags seq roomId body, v = .array [version, op, flags, seq, roomId, body]
  · obtain ⟨version, op, flags, seq, roomId, body, rfl⟩ := hsix
    simp only [valuesToFrame, Server.valuesToFrame, valueAsU64_eq, hop, roomIdOf_eq, valueToBody_eq,
      ← bind_mapError]
    rfl
  · have hclient : valuesToFrame v = .error (malformed "expected six-item frame array") := by
      unfold valuesToFrame
      split
      · exact absurd ⟨_, _, _, _, _, _, rfl⟩ hsix
      · rfl
    have hserver : Server.valuesToFrame v =
        .error (Server.malformed "expected six-item frame array") := by
      unfold Server.valuesToFrame
      split
      · exact absurd ⟨_, _, _, _, _, _, rfl⟩ hsix
      · rfl
    rw [hclient, hserver]
    rfl

/-- Under the frame limits the client's scanner ends as the server's does: by the size check, a
frame is short enough for every operation on lengths. -/
theorem validateMsgpack_eq :
    validateMsgpack bytes = (Server.validateMsgpack bytes).mapError (.failed ∘ ofServer) := by
  show (MsgpackScanner.validate MsgpackLimitError.mk Server.frameLimits arm (bytes.length + 1) bytes
      Server.maxFrameBytes).mapError limitError =
    (Server.validateMsgpackWithLimits bytes Server.maxFrameBytes Server.frameLimits).mapError _
  by_cases hsize : bytes.length > Server.maxFrameBytes
  · unfold MsgpackScanner.validate Server.validateMsgpackWithLimits
    rw [if_pos hsize, if_pos hsize]
    rfl
  · have hslice : bytes.length ≤ Ints.i64Max.toNat :=
      (Nat.not_lt.mp hsize).trans (by decide +kernel)
    have hrun := MsgpackScanner.validate_refines MsgpackLimitError.mk Server.frameLimits hslice
      arm_eq (Nat.lt_succ_self _) Server.maxFrameBytes
    exact hrun.mapError_eq fun _ => rfl

/-- The client decodes what the server decodes, to the same frame. -/
theorem decodeFrame_iff (bytes : Bytes) (frame : Frame) :
    decodeFrame rmpv bytes = .ok frame ↔ Server.decodeFrame rmpv bytes = .ok frame := by
  unfold decodeFrame Server.decodeFrame
  rw [validateMsgpack_eq bytes]
  cases Server.validateMsgpack bytes with
  | error e => simp [Except.mapError]
  | ok _ =>
    show (match rmpv.readValue bytes with
      | .error text => Except.error (Stop.failed (CodecError.decode text))
      | .ok value => (valuesToFrame value).mapError Stop.failed) = .ok frame ↔ _
    cases rmpv.readValue bytes with
    | error text => simp
    | ok value =>
      show (valuesToFrame value).mapError Stop.failed = .ok frame ↔
        Server.valuesToFrame value = .ok frame
      rw [valuesToFrame_eq]
      exact Outcome.mapError_ok.trans Outcome.mapError_ok

/-- Client and server accept the same byte strings under the frame limits, and decode the same
frame, or none, from each. -/
theorem decoders_agree (rmpv : Rmpv) (bytes : Bytes) :
    (validateMsgpack bytes = .ok () ↔ Server.validateMsgpack bytes = .ok ()) ∧
    ∀ frame, decodeFrame rmpv bytes = .ok frame ↔ Server.decodeFrame rmpv bytes = .ok frame := by
  refine ⟨?_, fun frame => decodeFrame_iff rmpv bytes frame⟩
  rw [validateMsgpack_eq bytes, Outcome.mapError_ok]

end Omen.Client
