import OmenBrowser.Server.CodecRoundTrip
import OmenBrowser.Server.Live

/- Batches of values (`server/src/protocol/batch.rs`).

   A batch is a list of values as one MessagePack array, compressed with bzip2. It travels in
   a frame's body, or as a resource of its own that a frame offers.

   The crate `bzip2` is a parameter, `Bzip2`: it compresses into a vector, which does not fail,
   and it reads back what it compressed, up to as many bytes as it is asked for.

   The encoder checks no limit and the decoder does (`ReadableBatch`). What is decoded is what
   the wire has of the values: a non-negative `i64` comes back as a `u64` (`onWire`). -/
namespace Omen.Server
open Wire Msgpack Omen.Protocol Outcome

variable {batch : CompressedBatch} {roomId : Option UInt32}

def maxBatchCompressedBytes : Nat := 4 * 1024 * 1024
def maxBatchUncompressedBytes : Nat := 4 * 1024 * 1024
def maxBatchContainerItems : Nat := 16 * 1024
def maxBatchTotalValues : Nat := 64 * 1024
def maxBatchNestingDepth : Nat := 16

/-- The crate `bzip2`, as far as batches use it. -/
structure Bzip2 where
  /-- `BzEncoder` at its best level, into a vector. -/
  compress : Bytes → Bytes
  /-- `BzDecoder`, read to its end or for so many bytes. -/
  readUpTo : Bytes → Nat → Option Bytes
  lossless : ∀ bytes limit, readUpTo (compress bytes) limit = some (bytes.take limit)

inductive Compression where
  | none
  | bzip2
  deriving DecidableEq

def Compression.code : Compression → UInt64
  | .none => 0
  | .bzip2 => 1

/-- `Compression::try_from`. -/
def Compression.tryFrom (value : UInt64) : Except ProtocolError Compression :=
  match value.toNat with
  | 0 => .ok .none
  | 1 => .ok .bzip2
  | n => .error (.unknownCompression n)

inductive BatchError where
  | protocol (error : ProtocolError)
  | encode (text : String)
  | decode (text : String)
  | compression

structure ResourceOffer where
  resourceId : String
  compression : Compression
  uncompressedLen : UInt64
  compressedLen : UInt64
  purpose : String

structure CompressedBatch where
  compression : Compression
  uncompressedLen : UInt64
  bytes : Bytes

def batchLimits : ScanLimits :=
  { maxScalarBytes := maxBatchCompressedBytes
    maxContainerItems := maxBatchContainerItems
    maxTotalValues := maxBatchTotalValues
    maxNestingDepth := maxBatchNestingDepth }

section Codec
variable (rmpv : Rmpv) (bzip2 : Bzip2)

def encodeValues (values : List FrameValue) : Except BatchError Bytes :=
  (rmpv.writeValueRef (.array (frameValuesToValueRefs values))).mapError .encode

def codecFailed : CodecError → BatchError
  | .protocol error => .protocol error
  | .encode text => .encode text
  | .decode text => .decode text

variable (bytes : Bytes)

def decodeValues : Except BatchError (List FrameValue) := do
  (validateMsgpackWithLimits bytes maxBatchUncompressedBytes batchLimits).mapError codecFailed
  let value ← (rmpv.readValue bytes).mapError .decode
  match value with
  | .array values => (valuesToFrameValues values).mapError codecFailed
  | _ => .error (.protocol (.malformedFrame "expected batch array"))

def decompressBzip2 (expectedLen : Nat) : Except BatchError Bytes :=
  match bzip2.readUpTo bytes (expectedLen + 1) with
  | none => .error .compression
  | some out =>
    if out.length ≠ expectedLen then .error (.protocol (.malformedFrame "batch length mismatch"))
    else .ok out

def compressedValuesBatch (values : List FrameValue) : Except BatchError CompressedBatch := do
  let raw ← encodeValues rmpv values
  pure { compression := .bzip2, uncompressedLen := UInt64.ofNat raw.length, bytes := bzip2.compress raw }

def CompressedBatch.fields (batch : CompressedBatch) : List FrameValue :=
  [.u64 batch.compression.code, .u64 batch.uncompressedLen, .bytes batch.bytes]

def compressedValuesBody (values : List FrameValue) : Except BatchError FrameBody := do
  let batch ← compressedValuesBatch rmpv bzip2 values
  pure (.fields batch.fields)

def compressedValuesPayload (values : List FrameValue) : Except BatchError Bytes := do
  let body ← compressedValuesBody rmpv bzip2 values
  match body with
  | .fields fields => encodeValues rmpv fields
  | _ => .error (.protocol (.malformedFrame "expected compressed batch fields"))

/-- The two lengths of a batch. -/
def encodedCompressedLen (values : List FrameValue) : Except BatchError (Nat × Nat) := do
  let batch ← compressedValuesBatch rmpv bzip2 values
  pure (batch.uncompressedLen.toNat, batch.bytes.length)

def requiredU64 (value : FrameValue) (field : String) : Except BatchError UInt64 :=
  match fieldAsU64 value with
  | some n => .ok n
  | none => .error (.protocol (.malformedFrame field))

def requiredBytes (value : FrameValue) (field : String) : Except BatchError Bytes :=
  match value with
  | .bytes bytes => .ok bytes
  | _ => .error (.protocol (.malformedFrame field))

def decodeCompressedValuesBody (body : FrameBody) : Except BatchError (List FrameValue) :=
  match body with
  | .fields [compression, uncompressedLen, payload] => do
    let compression ← requiredU64 compression "compression"
    let uncompressedLen ← requiredU64 uncompressedLen "uncompressed_len"
    let payload ← requiredBytes payload "payload"
    -- both lengths are checked before anything is decompressed
    if uncompressedLen.toNat > maxBatchUncompressedBytes then
      .error (.decode "batch exceeds uncompressed byte limit")
    else if payload.length > maxBatchCompressedBytes then
      .error (.decode "batch exceeds compressed byte limit")
    else do
      let compression ← (Compression.tryFrom compression).mapError .protocol
      let decoded ← match compression with
        | .none => pure payload
        | .bzip2 => decompressBzip2 bzip2 payload uncompressedLen.toNat
      if decoded.length ≠ uncompressedLen.toNat then
        .error (.protocol (.malformedFrame "batch length mismatch"))
      else decodeValues rmpv decoded
  | .fields _ => .error (.protocol (.malformedFrame "expected three compressed batch fields"))
  | _ => .error (.protocol (.malformedFrame "expected compressed batch fields"))

def decodeCompressedValuesPayload : Except BatchError (List FrameValue) := do
  let fields ← decodeValues rmpv bytes
  decodeCompressedValuesBody rmpv bzip2 (.fields fields)

end Codec

def resourceOfferBody (offer : ResourceOffer) : FrameBody :=
  .fields [.string offer.resourceId, .u64 offer.compression.code, .u64 offer.uncompressedLen,
    .u64 offer.compressedLen, .string offer.purpose]

theorem resourceOfferId_body (offer : ResourceOffer) :
    resourceOfferId (resourceOfferBody offer) = some offer.resourceId := by
  cases h : offer.compression <;> simp [resourceOfferBody, resourceOfferId, fieldAsU64, h, Compression.code]

/-! What the wire has of a value. -/

mutual
def FrameValue.onWire : FrameValue → FrameValue
  | .i64 n => if 0 ≤ n.toInt then .u64 (UInt64.ofNat n.toInt.toNat) else .i64 n
  | .array vs => .array (onWireAll vs)
  | v => v
def onWireAll : List FrameValue → List FrameValue
  | [] => []
  | v :: vs => FrameValue.onWire v :: onWireAll vs
end

mutual
theorem valueToFrameValue_onWire (x : FrameValue) :
    valueToFrameValue (frameValueToValueRef x) = .ok (FrameValue.onWire x) := by
  cases x with
  | nil | bool | bytes => rfl
  | u64 n => simp only [frameValueToValueRef, valueToFrameValue, asU64_toNat, FrameValue.onWire]
  | i64 n =>
    have hhi := n.toInt_lt
    by_cases hn : 0 ≤ n.toInt
    · have hwide : asU64 n.toInt = some (UInt64.ofNat n.toInt.toNat) := if_pos ⟨hn, by omega⟩
      simp only [frameValueToValueRef, valueToFrameValue, hwide, FrameValue.onWire, if_pos hn]
    · simp only [frameValueToValueRef, valueToFrameValue, asU64_neg (Int.not_le.mp hn),
        asI64_toInt, FrameValue.onWire, if_neg hn]
  | string s =>
    simp only [frameValueToValueRef, valueToFrameValue, asStr_utf8, Option.getD_some,
      FrameValue.onWire]
  | array xs =>
    rw [frameValueToValueRef, valueToFrameValue, valuesToFrameValues_onWire xs, FrameValue.onWire]
    rfl
theorem valuesToFrameValues_onWire (xs : List FrameValue) :
    valuesToFrameValues (frameValuesToValueRefs xs) = .ok (onWireAll xs) := by
  cases xs with
  | nil => rfl
  | cons x xs =>
    rw [frameValuesToValueRefs, valuesToFrameValues, valueToFrameValue_onWire x,
      valuesToFrameValues_onWire xs, onWireAll]
    rfl
end

mutual
theorem onWire_self (x : FrameValue) : FrameValue.onWire x = x ↔ FrameValue.Normal x := by
  cases x with
  | nil | bool | u64 | string | bytes => simp [FrameValue.onWire, FrameValue.Normal]
  | i64 n =>
    by_cases hn : 0 ≤ n.toInt
    · simp [FrameValue.onWire, FrameValue.Normal, hn]
    · simpa [FrameValue.onWire, FrameValue.Normal, hn] using Int.not_le.mp hn
  | array xs => simpa [FrameValue.onWire, FrameValue.Normal] using onWireAll_self xs
theorem onWireAll_self (xs : List FrameValue) : onWireAll xs = xs ↔ NormalAll xs := by
  cases xs with
  | nil => simp [onWireAll, NormalAll]
  | cons x xs => simp [onWireAll, NormalAll, onWire_self x, onWireAll_self xs]
end

mutual
theorem toValueRef_onWire (x : FrameValue) :
    frameValueToValueRef (FrameValue.onWire x) = frameValueToValueRef x := by
  cases x with
  | nil | bool | u64 | string | bytes => simp [FrameValue.onWire]
  | i64 n =>
    have hhi := n.toInt_lt
    by_cases hn : 0 ≤ n.toInt
    · have hlt : n.toInt.toNat < 2 ^ 64 := by omega
      have hnat : (UInt64.ofNat n.toInt.toNat).toNat = n.toInt.toNat :=
        UInt64.toNat_ofNat_of_lt' hlt
      simp only [FrameValue.onWire, if_pos hn, frameValueToValueRef, hnat]
      congr 1
      omega
    · simp [FrameValue.onWire, hn]
  | array xs => simp [FrameValue.onWire, frameValueToValueRef, toValueRefs_onWire xs]
theorem toValueRefs_onWire (xs : List FrameValue) :
    frameValuesToValueRefs (onWireAll xs) = frameValuesToValueRefs xs := by
  cases xs with
  | nil => simp [onWireAll]
  | cons x xs => simp [onWireAll, frameValuesToValueRefs, toValueRef_onWire x, toValueRefs_onWire xs]
end

/-- Two lists are the same on the wire iff they are written as the same values. -/
theorem onWireAll_inj {xs ys : List FrameValue} :
    onWireAll xs = onWireAll ys ↔ frameValuesToValueRefs xs = frameValuesToValueRefs ys := by
  constructor
  · intro h
    rw [← toValueRefs_onWire xs, h, toValueRefs_onWire]
  · intro h
    have hx := valuesToFrameValues_onWire xs
    rw [h, valuesToFrameValues_onWire] at hx
    exact (Except.ok.inj hx).symm

theorem onWireAll_eq_map (xs : List FrameValue) : onWireAll xs = xs.map FrameValue.onWire := by
  induction xs with
  | nil => rfl
  | cons x xs ih => rw [onWireAll, ih, List.map_cons]

/-! Round trips. -/

section RoundTrips
variable {rmpv : Rmpv} {bzip2 : Bzip2} {values decoded : List FrameValue} {raw : Bytes}

/-- What is written of a batch is within the decoder's limits. -/
def ReadableBatch (rmpv : Rmpv) (values : List FrameValue) : Prop :=
  ∃ raw, encodeValues rmpv values = .ok raw ∧
    WritesWithin maxBatchUncompressedBytes batchLimits raw (.array (frameValuesToValueRefs values))

theorem encodeValues_total (rmpv : Rmpv) (values : List FrameValue) :
    ∃ raw, encodeValues rmpv values = .ok raw := by
  obtain ⟨raw, hraw⟩ := rmpv.write_total (.array (frameValuesToValueRefs values))
  exact ⟨raw, mapError_ok.mpr hraw⟩

/-- The bytes of a value are read within the limits exactly when they respect them; one that the
format cannot hold is beyond them. -/
theorem readsWithin_values {w : Value} (h : encodeValues rmpv values = .ok raw) :
    ReadsWithin maxBatchUncompressedBytes batchLimits raw w ↔
      w = .array (frameValuesToValueRefs values) ∧
        WritesWithin maxBatchUncompressedBytes batchLimits raw (.array (frameValuesToValueRefs values)) := by
  have hw := mapError_ok.mp h
  rcases fits_or_large (.array values) with hfits | hlarge
  · rw [frameValueToValueRef] at hfits
    rw [rmpv.write_shortest _ hfits] at hw
    cases hw
    exact readsWithin_write hfits
  · have hlen := rmpv.write_payload _ _ hw
    have hno : ¬ raw.length ≤ maxBatchUncompressedBytes := by
      rw [frameValueToValueRef] at hlarge
      have : maxBatchUncompressedBytes < 0x100000000 := by decide
      omega
    exact ⟨fun hw => absurd hw.size hno, fun hw => absurd hw.2.size hno⟩

theorem decodeValues_encode (h : encodeValues rmpv values = .ok raw) :
    decodeValues rmpv raw = .ok decoded ↔
      WritesWithin maxBatchUncompressedBytes batchLimits raw (.array (frameValuesToValueRefs values)) ∧
        onWireAll values = decoded := by
  have hfix : 17 ≤ batchLimits.maxScalarBytes := by decide
  constructor
  · intro hd
    obtain ⟨u, hvalid, hd⟩ := bind_ok.mp hd
    obtain ⟨v, hv⟩ := (validate_reads hfix).mp (mapError_ok.mp hvalid)
    obtain ⟨rfl, hwithin⟩ := (readsWithin_values h).mp hv
    refine ⟨hwithin, ?_⟩
    obtain ⟨value, hread, hd⟩ := bind_ok.mp hd
    rw [rmpv.read_format _ _ _ _ (by decide) hv.parses] at hread
    cases mapError_ok.mp hread
    dsimp only at hd
    rw [valuesToFrameValues_onWire] at hd
    exact Except.ok.inj hd
  · rintro ⟨hwithin, rfl⟩
    have hv := (readsWithin_values h).mpr ⟨rfl, hwithin⟩
    refine bind_ok.mpr ⟨(), mapError_ok.mpr ((validate_reads hfix).mpr ⟨_, hv⟩), ?_⟩
    refine bind_ok.mpr ⟨_, mapError_ok.mpr
      (rmpv.read_format _ _ _ _ (by decide) hv.parses), ?_⟩
    dsimp only
    rw [valuesToFrameValues_onWire]
    rfl

/-- Bytes that are not as many as announced are not decompressed. -/
theorem decompress_compress (bzip2 : Bzip2) {out : Bytes} {n : Nat} :
    decompressBzip2 bzip2 (bzip2.compress raw) n = .ok out ↔ raw.length = n ∧ raw = out := by
  unfold decompressBzip2
  rw [bzip2.lossless]
  dsimp only
  by_cases hn : raw.length = n
  · rw [if_neg (by rw [List.length_take]; omega), List.take_of_length_le (by omega)]
    simp [hn]
  · rw [if_pos (by rw [List.length_take]; omega)]
    simp [hn]

/-- A batch is decoded from its fields exactly when its values are readable. -/
theorem decodeBody_batch (h : compressedValuesBatch rmpv bzip2 values = .ok batch)
    (hlen : batch.bytes.length ≤ maxBatchCompressedBytes) :
    decodeCompressedValuesBody rmpv bzip2 (.fields batch.fields) = .ok decoded ↔
      ReadableBatch rmpv values ∧ onWireAll values = decoded := by
  obtain ⟨raw, hraw, hbatch⟩ := bind_ok.mp h
  cases hbatch
  have hreadable : ReadableBatch rmpv values ↔ WritesWithin maxBatchUncompressedBytes batchLimits raw
      (.array (frameValuesToValueRefs values)) := by
    refine ⟨fun ⟨raw', hraw', hw⟩ => ?_, fun hw => ⟨raw, hraw, hw⟩⟩
    rw [hraw] at hraw'
    rwa [Except.ok.inj hraw']
  rw [hreadable]
  -- `n` is the length as the body has it
  generalize hn : (UInt64.ofNat raw.length).toNat = n
  have hsame : raw.length ≤ maxBatchUncompressedBytes → n = raw.length := by
    intro hle
    have hlt : raw.length < 2 ^ 64 := by
      unfold maxBatchUncompressedBytes at hle
      omega
    rw [← hn, UInt64.toNat_ofNat_of_lt' hlt]
  show (if (UInt64.ofNat raw.length).toNat > maxBatchUncompressedBytes then _ else _) = _ ↔ _
  rw [hn]
  by_cases hbig : n > maxBatchUncompressedBytes
  · rw [if_pos hbig]
    refine ⟨nofun, fun ⟨hw, _⟩ => ?_⟩
    have := hsame hw.size
    have := hw.size
    omega
  · rw [if_neg hbig, if_neg (Nat.not_lt.mpr hlen)]
    show (decompressBzip2 bzip2 (bzip2.compress raw) n >>= fun out =>
      if out.length ≠ n then _ else decodeValues rmpv out) = _ ↔ _
    rw [bind_ok, ← decodeValues_encode hraw]
    constructor
    · rintro ⟨out, hout, hd⟩
      obtain ⟨hlen, rfl⟩ := (decompress_compress bzip2).mp hout
      rwa [if_neg (not_not.mpr hlen)] at hd
    · intro hd
      have hlen : raw.length = n := (hsame ((decodeValues_encode hraw).mp hd).1.size).symm
      refine ⟨raw, (decompress_compress bzip2).mpr ⟨hlen, rfl⟩, ?_⟩
      rwa [if_neg (not_not.mpr hlen)]

/-- The fields of a batch come back from a payload within the byte limit. -/
theorem decodeValues_fields (h : encodeValues rmpv batch.fields = .ok raw)
    (hlen : raw.length ≤ maxBatchUncompressedBytes) :
    decodeValues rmpv raw = .ok batch.fields ∧ batch.bytes.length ≤ maxBatchCompressedBytes := by
  have hpayload := rmpv.write_payload _ _ (mapError_ok.mp h)
  have hbytes : batch.bytes.length ≤ maxBatchCompressedBytes := by
    simp only [CompressedBatch.fields, frameValuesToValueRefs, frameValueToValueRef, Value.payload,
      payloadAll] at hpayload
    unfold maxBatchUncompressedBytes maxBatchCompressedBytes at *
    omega
  refine ⟨(decodeValues_encode h).mpr ⟨⟨hlen, ?_, ?_, ?_⟩, ?_⟩, hbytes⟩
  · exact ⟨show 3 ≤ _ by decide, trivial, trivial, hbytes, trivial⟩
  · show 4 ≤ _
    decide
  · show 1 ≤ _
    decide
  · simp [CompressedBatch.fields, onWireAll, FrameValue.onWire]

/-- A resource's payload is decoded exactly when its values are readable. -/
theorem decodePayload_batch {payload : Bytes}
    (h : compressedValuesPayload rmpv bzip2 values = .ok payload)
    (hlen : payload.length ≤ maxBatchUncompressedBytes) :
    decodeCompressedValuesPayload rmpv bzip2 payload = .ok decoded ↔
      ReadableBatch rmpv values ∧ onWireAll values = decoded := by
  obtain ⟨body, hbody, h⟩ := bind_ok.mp h
  obtain ⟨batch, hbatch, hb⟩ := bind_ok.mp hbody
  cases hb
  obtain ⟨hfields, hbytes⟩ := decodeValues_fields h hlen
  rw [← decodeBody_batch hbatch hbytes]
  show (decodeValues rmpv payload >>= _) = _ ↔ _
  rw [hfields]
  rfl

section
variable {op : ChatOp} {seq : UInt32} {bytes : Bytes} (hlen : batch.bytes.length ≤ 384)
  (h : encodeFrame rmpv (Frame.new op seq roomId (.fields batch.fields)) = .ok bytes)
include hlen h

/-- The bytes of a frame with a small batch in it are few. -/
theorem withinLimits_batch :
    WithinLimits bytes (Frame.new op seq roomId (.fields batch.fields)) := by
  let room := (roomId.map (fun roomId => Value.integer roomId.toNat)).getD .nil
  have hroom : (write room).length ≤ 9 ∧ room.Fits ∧ room.nodes = 1 ∧ room.depth = 0 ∧
      room.Within maxContainerItems maxScalarBytes := by
    cases roomId with
    | none => exact ⟨show 1 ≤ 9 by decide, trivial, rfl, rfl, trivial⟩
    | some r =>
      have := r.toNat_lt
      exact ⟨length_writeInt_le _, ⟨by omega, by omega⟩, rfl, rfl, trivial⟩
  obtain ⟨hlength, hfits, hnodes, hdepth, hwithin⟩ := hroom
  have hop := op.code.toNat_lt
  have hseq := seq.toNat_lt
  have hcode := batch.compression.code.toNat_lt
  have hunc := batch.uncompressedLen.toNat_lt
  have hv : frameToValueRef (Frame.new op seq roomId (.fields batch.fields)) =
      .array [.integer 1, .integer op.code.toNat, .integer 0, .integer seq.toNat, room,
        .array [.integer batch.compression.code.toNat, .integer batch.uncompressedLen.toNat,
          .binary batch.bytes]] := rfl
  -- six small fields and the batch, all in their shortest form
  have hw := mapError_ok.mp h
  rw [hv, rmpv.write_shortest _ (by
    refine ⟨show 6 < _ by decide, ⟨by omega, by omega⟩, ⟨by omega, by omega⟩, ⟨by omega, by omega⟩,
      ⟨by omega, by omega⟩, hfits, ⟨show 3 < _ by decide, ⟨by omega, by omega⟩,
        ⟨by omega, by omega⟩, ?_, trivial⟩, trivial⟩
    show batch.bytes.length < _
    omega)] at hw
  cases hw
  refine ⟨?_, ?_, ?_, ?_⟩
  · have h1 := length_writeInt_le 1
    have h2 := length_writeInt_le op.code.toNat
    have h3 := length_writeInt_le 0
    have h4 := length_writeInt_le seq.toNat
    have h5 := length_writeInt_le batch.compression.code.toNat
    have h6 := length_writeInt_le batch.uncompressedLen.toNat
    have h7 := length_binHeader_le batch.bytes.length
    simp only [write, writeAll, arrayHeader, List.length_append, List.length_cons, List.length_nil]
    rw [if_pos (by decide), if_pos (by decide)]
    simp only [List.length_cons, List.length_nil]
    unfold maxFrameBytes
    omega
  · refine ⟨show 6 ≤ _ by decide, trivial, trivial, trivial, trivial, hwithin,
      ⟨show 3 ≤ _ by decide, trivial, trivial, ?_, trivial⟩, trivial⟩
    show batch.bytes.length ≤ _
    unfold maxScalarBytes
    omega
  · rw [hv]
    simp only [Value.nodes, nodesAll, hnodes]
    decide
  · rw [hv]
    simp only [Value.depth, depthAll, hdepth]
    decide

/-- A frame with a small batch in it comes back from its bytes. -/
theorem decodeFrame_batch :
    decodeFrame rmpv bytes = .ok (Frame.new op seq roomId (.fields batch.fields)) := by
  rw [decodeFrame_of_bytes rmpv ((frameBytes_encode h).mpr ⟨rfl, withinLimits_batch hlen h⟩)]
  exact valuesToFrame_toValueRef _ ⟨trivial, trivial, trivial, trivial⟩

end

end RoundTrips

end Omen.Server
