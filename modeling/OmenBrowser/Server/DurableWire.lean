import OmenBrowser.Protocol.DurableEnvelope
import OmenBrowser.Server.CodecRoundTrip

/- A durable mutation on its way from the sender's body to the receiver's.

   The sender hashes the body it holds, puts it in an envelope and encodes the frame;
   the receiver decodes, opens the envelope and hashes the body it holds then.
   Between the two hashes stand the writer's limits, which bound the body alone, and
   the frame scanner's, which bound the body with the envelope and the frame around
   it; and MessagePack, which has one form for a non-negative number whether it was
   signed or not, while the hash has a tag for each. `receive_send_iff` says exactly
   which bodies arrive. -/
namespace Omen.Server
open Wire Msgpack Omen.Protocol Outcome DurableMutationEnvelope

variable {w w' : CanonicalWriter} {body : FrameBody} {rmpv : Rmpv} {bytes : Bytes}
  {sha256 : Bytes → RequestHash} {op : ChatOp} {roomId : Option UInt32}
  {e : DurableMutationEnvelope}

inductive MutationError where
  | durable (error : DurableMutationError)
  | codec (error : CodecError)

/-- The sender: the hash, the envelope, the frame. -/
def sendMutation (rmpv : Rmpv) (sha256 : Bytes → RequestHash) (op : ChatOp) (seq : UInt32)
    (roomId : Option UInt32) (mutationId : MutationId) (body : FrameBody) :
    Except MutationError (DurableMutationEnvelope × Bytes) := do
  let requestHash ← (canonicalMutationRequestHash sha256 op roomId body).mapError .durable
  let envelope := { mutationId, requestHash, body }
  let wire ← (intoFrameBody envelope).mapError .durable
  let bytes ← (encodeFrame rmpv (Frame.new op seq roomId wire)).mapError .codec
  pure (envelope, bytes)

/-- What the receiver holds: the frame's operation and room, the envelope, and the hash it
computes from these. -/
structure ReceivedMutation where
  op : ChatOp
  roomId : Option UInt32
  envelope : DurableMutationEnvelope
  computedHash : RequestHash

def receiveMutation (rmpv : Rmpv) (sha256 : Bytes → RequestHash) (bytes : Bytes) :
    Except MutationError ReceivedMutation := do
  let frame ← (decodeFrame rmpv bytes).mapError .codec
  let envelope ← (fromFrameBody frame.body).mapError .durable
  let hash ← (canonicalMutationRequestHash sha256 frame.op frame.roomId envelope.body).mapError .durable
  pure { op := frame.op, roomId := frame.roomId, envelope, computedHash := hash }

/-! What the canonical writer has checked. -/

theorem scalar_le {tag : UInt8} {b : Bytes} (h : w.scalar tag b = .ok w') :
    b.length ≤ maxScalarBytes := by
  unfold CanonicalWriter.scalar at h
  split at h
  · cases h
  · next hlen => exact Nat.not_lt.mp hlen

theorem container_le {n : Nat} (h : w.container n = .ok w') : n ≤ maxContainerItems := by
  unfold CanonicalWriter.container at h
  split at h
  · cases h
  · next hlen => exact Nat.not_lt.mp hlen

mutual
/-- A value the writer accepts is within the frame's limits on scalars and containers. -/
theorem value_within (x : FrameValue) {w w' : CanonicalWriter} {depth : Nat}
    (h : w.value depth x = .ok w') :
    (frameValueToValueRef x).Within maxContainerItems maxScalarBytes := by
  rw [CanonicalWriter.value] at h
  obtain ⟨w₀, _, h⟩ := bind_ok.mp h
  cases x with
  | nil | bool b | u64 n | i64 n => trivial
  | string s | bytes b => exact scalar_le h
  | array xs =>
    obtain ⟨w₁, _, h⟩ := bind_ok.mp h
    obtain ⟨w₂, h₂, h⟩ := bind_ok.mp h
    refine ⟨?_, each_within xs h⟩
    rw [length_frameValuesToValueRefs]
    exact container_le h₂
theorem each_within (xs : List FrameValue) {w w' : CanonicalWriter} {depth : Nat}
    (h : w.each depth xs = .ok w') :
    WithinAll maxContainerItems maxScalarBytes (frameValuesToValueRefs xs) := by
  cases xs with
  | nil => trivial
  | cons x xs =>
    rw [CanonicalWriter.each] at h
    obtain ⟨w₁, h₁, h⟩ := bind_ok.mp h
    exact ⟨value_within x h₁, each_within xs h⟩
end

theorem body_within (h : validateCanonicalBody body = .ok ()) :
    (bodyToValueRef body).Within maxContainerItems maxScalarBytes := by
  obtain ⟨w, h, _⟩ := map_ok.mp h
  cases body with
  | empty => trivial
  | text s => exact scalar_le h
  | fields xs =>
    obtain ⟨w₁, _, h⟩ := bind_ok.mp h
    obtain ⟨w₂, h₂, h⟩ := bind_ok.mp h
    refine ⟨?_, each_within xs h⟩
    rw [length_frameValuesToValueRefs]
    exact container_le h₂

/-! The frame around the body. -/

def roomIdToValueRef (roomId : Option UInt32) : Value :=
  (roomId.map (fun r => Value.integer r.toNat)).getD .nil

/-- The limits of a frame, as far as a body in an envelope can exceed them: 78 bytes and the
sequence number and room are around it, ten values, and two arrays. -/
structure Carried (seq : UInt32) (roomId : Option UInt32) (body : FrameBody) : Prop where
  normal : FrameBody.Normal body
  size : 78 + (writeInt seq.toNat).length + (write (roomIdToValueRef roomId)).length +
    (write (bodyToValueRef body)).length ≤ maxFrameBytes
  values : 11 + (bodyToValueRef body).nodes ≤ maxTotalValues
  depth : (bodyToValueRef body).depth + 2 ≤ maxNestingDepth

section
variable (op : ChatOp) (seq : UInt32) (roomId : Option UInt32) (e : DurableMutationEnvelope)

def envelopeFrame : Frame := Frame.new op seq roomId e.wire

theorem parts_toValueRef (body : FrameBody) :
    frameValueToValueRef (legacyBodyParts body).2 = bodyToValueRef body := by
  cases body <;> rfl

theorem kind_lt (body : FrameBody) : (legacyBodyParts body).1.toNat < 0x80 := by
  cases body with
  | empty => exact show (0 : UInt64).toNat < 0x80 by decide
  | text _ => exact show (1 : UInt64).toNat < 0x80 by decide
  | fields _ => exact show (2 : UInt64).toNat < 0x80 by decide

theorem code_lt (op : ChatOp) : op.code.toNat < 0x80 := by
  cases op <;> decide

theorem envelopeFrame_toValueRef : frameToValueRef (envelopeFrame op seq roomId e) =
    .array [.integer 1, .integer op.code.toNat, .integer 0, .integer seq.toNat,
      roomIdToValueRef roomId, .array [.string (utf8 durableMutationEnvelopeTag),
        .binary e.mutationId.bytes, .binary e.requestHash.bytes,
        .integer (legacyBodyParts e.body).1.toNat, bodyToValueRef e.body]] := by
  rw [← parts_toValueRef]
  rfl

theorem room_nodes : (roomIdToValueRef roomId).nodes = 1 ∧ (roomIdToValueRef roomId).depth = 0 ∧
    (roomIdToValueRef roomId).Within maxContainerItems maxScalarBytes := by
  cases roomId with
  | none | some => exact ⟨rfl, rfl, trivial⟩

theorem envelopeFrame_nodes : (frameToValueRef (envelopeFrame op seq roomId e)).nodes =
    11 + (bodyToValueRef e.body).nodes := by
  rw [envelopeFrame_toValueRef]
  simp only [Value.nodes, nodesAll, (room_nodes roomId).1]
  omega

theorem envelopeFrame_depth : (frameToValueRef (envelopeFrame op seq roomId e)).depth =
    (bodyToValueRef e.body).depth + 2 := by
  rw [envelopeFrame_toValueRef]
  simp only [Value.depth, depthAll, (room_nodes roomId).2.1]
  omega

/-- A number below 128 is its own byte. -/
theorem length_writeInt {n : Nat} (h : n < 0x80) : (writeInt n).length = 1 := by
  unfold writeInt
  rw [if_pos (by omega), if_pos (by omega)]
  rfl

theorem envelopeFrame_length : (write (frameToValueRef (envelopeFrame op seq roomId e))).length =
    78 + (writeInt seq.toNat).length + (write (roomIdToValueRef roomId)).length +
      (write (bodyToValueRef e.body)).length := by
  have hkind := kind_lt e.body
  have hcode := code_lt op
  have hid := e.mutationId.length_bytes
  have hhash := e.requestHash.length_bytes
  have htag : (utf8 durableMutationEnvelopeTag).length = 19 := by decide +kernel
  rw [envelopeFrame_toValueRef]
  simp only [write, writeAll, List.length_append, List.length_nil, htag, hid, hhash,
    length_writeInt hkind, length_writeInt hcode]
  show 1 + (1 + (1 + (1 + ((writeInt seq.toNat).length + ((write (roomIdToValueRef roomId)).length +
    (1 + (1 + 19 + (2 + 16 + (2 + 32 + (1 + ((write (bodyToValueRef e.body)).length + 0)))))
      + 0)))))) = _
  omega

/-- Whatever the crate does with a value the format cannot hold, its bytes are too many, as
those of the format would be. -/
theorem encode_size {frame : Frame} (h : encodeFrame rmpv frame = .ok bytes) :
    bytes.length ≤ maxFrameBytes ↔ (write (frameToValueRef frame)).length ≤ maxFrameBytes := by
  have hw := mapError_ok.mp h
  rcases frame_fits_or_large frame with hfits | hlarge
  · rw [rmpv.write_shortest _ hfits] at hw
    rw [Except.ok.inj hw]
  · have hbytes := rmpv.write_payload _ _ hw
    have hformat := payload_le_write (frameToValueRef frame)
    have hmax : maxFrameBytes < 0x100000000 := by decide
    omega

variable {op seq roomId e}

/-- Under the writer's limits, a frame with an envelope is within the scanner's limits exactly
when the rest of the scanner's limits hold. -/
theorem withinLimits_iff (hvalid : validateCanonicalBody e.body = .ok ())
    (henc : encodeFrame rmpv (envelopeFrame op seq roomId e) = .ok bytes) :
    WithinLimits bytes (envelopeFrame op seq roomId e) ∧ FrameBody.Normal e.body ↔
      Carried seq roomId e.body := by
  have hsize := encode_size henc
  rw [envelopeFrame_length] at hsize
  refine ⟨?_, ?_⟩
  · intro ⟨h, hnormal⟩
    refine ⟨hnormal, hsize.mp h.size, ?_, ?_⟩
    · rw [← envelopeFrame_nodes op seq roomId e]
      exact h.values
    · rw [← envelopeFrame_depth op seq roomId e]
      exact h.depth
  · intro h
    refine ⟨⟨hsize.mpr h.size, ?_, ?_, ?_⟩, h.normal⟩
    · rw [envelopeFrame_toValueRef]
      have htag : (utf8 durableMutationEnvelopeTag).length ≤ maxScalarBytes := by decide +kernel
      have hid : e.mutationId.bytes.length ≤ maxScalarBytes := by
        rw [e.mutationId.length_bytes]
        decide
      have hhash : e.requestHash.bytes.length ≤ maxScalarBytes := by
        rw [e.requestHash.length_bytes]
        decide
      exact ⟨show 6 ≤ maxContainerItems by decide, trivial, trivial, trivial, trivial,
        (room_nodes roomId).2.2, ⟨show 5 ≤ maxContainerItems by decide, htag, hid, hhash, trivial,
          body_within hvalid, trivial⟩, trivial⟩
    · rw [envelopeFrame_nodes]
      exact h.values
    · rw [envelopeFrame_depth]
      exact h.depth

theorem wire_normal : FrameBody.Normal e.wire ↔ FrameBody.Normal e.body := by
  obtain ⟨id, hash, body⟩ := e
  cases body with
  | empty | text => exact iff_of_true ⟨trivial, trivial, trivial, trivial, trivial, trivial⟩ trivial
  | fields vs =>
    refine ⟨?_, ?_⟩
    · intro h
      exact h.2.2.2.2.1
    · intro h
      exact ⟨trivial, trivial, trivial, trivial, h, trivial⟩

end

/-- The sender's steps, all of which succeeded. -/
theorem sendMutation_ok {seq : UInt32} {mutationId : MutationId}
    (h : sendMutation rmpv sha256 op seq roomId mutationId body = .ok (e, bytes)) :
    e.body = body ∧ canonicalMutationRequestHash sha256 op roomId e.body = .ok e.requestHash ∧
      validateCanonicalBody e.body = .ok () ∧
      encodeFrame rmpv (envelopeFrame op seq roomId e) = .ok bytes := by
  obtain ⟨hash, hhash, h⟩ := bind_ok.mp h
  obtain ⟨wire, hwire, h⟩ := bind_ok.mp h
  obtain ⟨encoded, henc, h⟩ := bind_ok.mp h
  cases h
  obtain ⟨hvalid, rfl⟩ := intoFrameBody_ok.mp (mapError_ok.mp hwire)
  exact ⟨rfl, mapError_ok.mp hhash, hvalid, mapError_ok.mp henc⟩

/-- The frame of an envelope is received as that envelope, if the scanner accepts it and its
body is one the decoder gives back; the hash is computed anew. -/
theorem receiveMutation_carried {seq : UInt32} {hash : RequestHash}
    (hvalid : validateCanonicalBody e.body = .ok ())
    (henc : encodeFrame rmpv (envelopeFrame op seq roomId e) = .ok bytes)
    (hl : WithinLimits bytes (envelopeFrame op seq roomId e)) (hnormal : FrameBody.Normal e.body)
    (hhash : canonicalMutationRequestHash sha256 op roomId e.body = .ok hash) :
    receiveMutation rmpv sha256 bytes = .ok ⟨op, roomId, e, hash⟩ := by
  have hd : decodeFrame rmpv bytes = .ok (envelopeFrame op seq roomId e) := by
    rw [decodeFrame_of_bytes rmpv ((frameBytes_encode henc).mpr ⟨rfl, hl⟩)]
    exact valuesToFrame_toValueRef _ (wire_normal.mpr hnormal)
  have he : fromFrameBody (envelopeFrame op seq roomId e).body = .ok e :=
    fromFrameBody_wire hvalid
  exact bind_ok.mpr ⟨_, mapError_ok.mpr hd, bind_ok.mpr
    ⟨_, mapError_ok.mpr he, bind_ok.mpr ⟨_, mapError_ok.mpr hhash, rfl⟩⟩⟩

/-- A mutation arrives as it was sent, with the hash the receiver computes, exactly when its
body has no non-negative `i64` and fits into a frame with the envelope around it. -/
theorem receive_send_iff {rmpv : Rmpv} {sha256 : Bytes → RequestHash} {op : ChatOp} {seq : UInt32}
    {roomId : Option UInt32} {mutationId : MutationId} {body : FrameBody}
    {e : DurableMutationEnvelope} {bytes : Bytes}
    (h : sendMutation rmpv sha256 op seq roomId mutationId body = .ok (e, bytes)) :
    receiveMutation rmpv sha256 bytes = .ok ⟨op, roomId, e, e.requestHash⟩ ↔
      Carried seq roomId body := by
  obtain ⟨rfl, hhash, hvalid, henc⟩ := sendMutation_ok h
  rw [← withinLimits_iff hvalid henc]
  refine ⟨?_, ?_⟩
  · intro hr
    obtain ⟨frame, hd, hr⟩ := bind_ok.mp hr
    obtain ⟨e', he, hr⟩ := bind_ok.mp hr
    obtain ⟨computed, _, hr⟩ := bind_ok.mp hr
    obtain ⟨_, _, rfl, _⟩ := ReceivedMutation.mk.inj (Except.ok.inj hr)
    obtain ⟨v, hb, hv⟩ := decodeFrame_ok (mapError_ok.mp hd)
    refine ⟨((frameBytes_encode henc).mp hb).2, ?_⟩
    -- a decoded body has no non-negative `i64`, and it is the envelope's own
    have hnormal := (valuesToFrame_reduces hv).2
    rw [fromFrameBody_ok (mapError_ok.mp he)] at hnormal
    exact wire_normal.mp hnormal
  · intro ⟨hl, hnormal⟩
    exact receiveMutation_carried hvalid henc hl hnormal hhash

/-- A request that can be hashed and passes the writer's limits is sent, whatever the hash is. -/
theorem exists_send (rmpv : Rmpv) (sha256 : Bytes → RequestHash) (seq : UInt32)
    (mutationId : MutationId) (hw : canonicalMutationRequest op roomId body = .ok w)
    (hvalid : validateCanonicalBody body = .ok ()) :
    ∃ bytes, sendMutation rmpv sha256 op seq roomId mutationId body =
      .ok (⟨mutationId, sha256 w.fed, body⟩, bytes) := by
  have hhash : canonicalMutationRequestHash sha256 op roomId body = .ok (sha256 w.fed) := by
    rw [canonicalMutationRequestHash, hw]
    rfl
  have hwire := intoFrameBody_ok.mpr
    (show validateCanonicalBody (⟨mutationId, sha256 w.fed, body⟩ : DurableMutationEnvelope).body =
      .ok () ∧ _ from ⟨hvalid, rfl⟩)
  obtain ⟨bytes, hbytes⟩ := rmpv.write_total
    (frameToValueRef (envelopeFrame op seq roomId ⟨mutationId, sha256 w.fed, body⟩))
  have henc : encodeFrame rmpv (envelopeFrame op seq roomId ⟨mutationId, sha256 w.fed, body⟩) =
    .ok bytes := mapError_ok.mpr hbytes
  exact ⟨bytes, bind_ok.mpr ⟨_, mapError_ok.mpr hhash, bind_ok.mpr
    ⟨_, mapError_ok.mpr hwire, bind_ok.mpr ⟨_, mapError_ok.mpr henc, rfl⟩⟩⟩⟩

def zeroMutationId : MutationId := ⟨List.replicate 16 0, .refl 16⟩

/-- A short message arrives under any hash function. -/
theorem receive_send_message :
    Carried 1 (some 7) (.fields [.u64 100, .string "hello room"]) ∧
    ∀ sha256 : Bytes → RequestHash, ∃ e bytes,
      sendMutation Rmpv.reference sha256 .roomMessage 1 (some 7) zeroMutationId
        (.fields [.u64 100, .string "hello room"]) = .ok (e, bytes) ∧
      receiveMutation Rmpv.reference sha256 bytes = .ok ⟨.roomMessage, some 7, e, e.requestHash⟩ := by
  have hw := show canonicalMutationRequest .roomMessage (some 7)
    (.fields [.u64 100, .string "hello room"]) = .ok _ from rfl
  have hcarried : Carried 1 (some 7) (.fields [.u64 100, .string "hello room"]) :=
    ⟨⟨trivial, trivial, trivial⟩, by decide +kernel, by decide, by decide⟩
  refine ⟨hcarried, ?_⟩
  intro sha256
  obtain ⟨bytes, h⟩ := exists_send Rmpv.reference sha256 1 zeroMutationId hw rfl
  exact ⟨_, bytes, h, (receive_send_iff h).mpr hcarried⟩

/-- The number 1 as a signed field is hashed under one tag when it is sent, arrives as an
unsigned field, and is hashed under another: the envelope received is another one, and only a
collision of SHA-256 would let the hashes agree. -/
theorem receive_signed_mutation :
    ∃ w w', canonicalMutationRequest .roomMessage (some 7) (.fields [.i64 1]) = .ok w ∧
      canonicalMutationRequest .roomMessage (some 7) (.fields [.u64 1]) = .ok w' ∧ w.fed ≠ w'.fed ∧
      ∀ sha256 : Bytes → RequestHash, ∃ e bytes received,
        sendMutation Rmpv.reference sha256 .roomMessage 1 (some 7) zeroMutationId
          (.fields [.i64 1]) = .ok (e, bytes) ∧
        receiveMutation Rmpv.reference sha256 bytes = .ok received ∧
        received.envelope.body = .fields [.u64 1] ∧ e.body = .fields [.i64 1] ∧
        received.computedHash = sha256 w'.fed ∧ e.requestHash = sha256 w.fed := by
  obtain ⟨w, hw⟩ : ∃ w, canonicalMutationRequest .roomMessage (some 7) (.fields [.i64 1]) = .ok w :=
    ⟨_, rfl⟩
  obtain ⟨w', hw'⟩ : ∃ w, canonicalMutationRequest .roomMessage (some 7) (.fields [.u64 1]) = .ok w :=
    ⟨_, rfl⟩
  have hne : w.fed ≠ w'.fed := by
    intro he
    have hbody := (canonicalMutationRequest_stream hw hw' he).2.2
    simp at hbody
  refine ⟨w, w', hw, hw', hne, ?_⟩
  intro sha256
  obtain ⟨bytes, h⟩ := exists_send Rmpv.reference sha256 1 zeroMutationId hw rfl
  obtain ⟨_, _, _, henc⟩ := sendMutation_ok h
  -- the unsigned field is the same MessagePack value, so these are its bytes too
  let e : DurableMutationEnvelope := ⟨zeroMutationId, sha256 w.fed, .fields [.u64 1]⟩
  have henc' : encodeFrame Rmpv.reference (envelopeFrame .roomMessage 1 (some 7) e) = .ok bytes := henc
  have hvalid : validateCanonicalBody e.body = .ok () := rfl
  have hcarried : Carried 1 (some 7) (.fields [.u64 1]) :=
    ⟨⟨trivial, trivial⟩, by decide +kernel, by decide, by decide⟩
  obtain ⟨hl, hnormal⟩ := (withinLimits_iff hvalid henc').mpr hcarried
  have hhash : canonicalMutationRequestHash sha256 .roomMessage (some 7) e.body =
      .ok (sha256 w'.fed) := by
    rw [canonicalMutationRequestHash, hw']
    rfl
  exact ⟨_, bytes, ⟨.roomMessage, some 7, e, sha256 w'.fed⟩, h,
    receiveMutation_carried hvalid henc' hl hnormal hhash, rfl, rfl, rfl, rfl⟩

end Omen.Server
