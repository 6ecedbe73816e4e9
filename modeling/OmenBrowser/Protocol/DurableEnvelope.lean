import OmenBrowser.Protocol.Durable

/- The envelope a durable mutation travels in (`omenchat-protocol/src/durable.rs`).

   A frame with an envelope has five fields: a tag, the mutation id, the request
   hash, and the original body as a kind and a value. Both directions hold the
   body against the limits of the canonical writer. -/
namespace Omen.Protocol
open Wire

variable {e : DurableMutationEnvelope} {body : FrameBody}

/-- The first field of an enveloped body, by which it is known. -/
def durableMutationEnvelopeTag : String := "durable-mutation-v1"

/-- A mutation with the id and the hash under which its answer is stored. -/
structure DurableMutationEnvelope where
  mutationId : MutationId
  requestHash : RequestHash
  body : FrameBody

/-- The body that is carried, as its kind and its value. -/
def legacyBodyParts : FrameBody → UInt64 × FrameValue
  | .empty => (0, .nil)
  | .text text => (1, .string text)
  | .fields values => (2, .array values)

def validateCanonicalText (text : String) : Except DurableMutationError Unit :=
  (CanonicalWriter.default.textBody text).map (fun _ => ())

def validateCanonicalFields (values : List FrameValue) : Except DurableMutationError Unit :=
  (CanonicalWriter.default.fieldsBody values).map (fun _ => ())

namespace DurableMutationEnvelope

/-- The five fields. -/
def wire (e : DurableMutationEnvelope) : FrameBody :=
  .fields [.string durableMutationEnvelopeTag, .bytes e.mutationId.bytes,
    .bytes e.requestHash.bytes, .u64 (legacyBodyParts e.body).1, (legacyBodyParts e.body).2]

/-- The envelope as a frame body, if the body in it is canonical. -/
def intoFrameBody (e : DurableMutationEnvelope) : Except DurableMutationError FrameBody := do
  validateCanonicalBody e.body
  pure e.wire

def tagOf : FrameValue → Except DurableMutationError Unit
  | .string tag =>
    if tag = durableMutationEnvelopeTag then .ok ()
    else .error (.envelope "durable mutation envelope tag is invalid")
  | _ => .error (.envelope "durable mutation envelope tag is invalid")

def mutationIdOf : FrameValue → Except DurableMutationError MutationId
  | .bytes bytes => Identifier.tryFrom "mutation_id" 16 bytes
  | _ => .error (.envelope "durable mutation id must be binary")

def requestHashOf : FrameValue → Except DurableMutationError RequestHash
  | .bytes bytes => Identifier.tryFrom "request_hash" 32 bytes
  | _ => .error (.envelope "durable request hash must be binary")

/-- The carried body; a kind goes with one shape of value. -/
def bodyOf : FrameValue → FrameValue → Except DurableMutationError FrameBody
  | .u64 0, .nil => .ok .empty
  | .u64 1, .string text => do
    validateCanonicalText text
    pure (.text text)
  | .u64 2, .array values => do
    validateCanonicalFields values
    pure (.fields values)
  | _, _ => .error (.envelope "durable mutation legacy body kind and value do not agree")

/-- The five fields, each read by its own check, in this order. -/
def fromFrameBody : FrameBody → Except DurableMutationError DurableMutationEnvelope
  | .fields [tag, id, hash, kind, value] => do
    tagOf tag
    let mutationId ← mutationIdOf id
    let requestHash ← requestHashOf hash
    let body ← bodyOf kind value
    pure { mutationId, requestHash, body }
  | .fields _ => .error (.envelope "durable mutation envelope must contain exactly five fields")
  | _ => .error (.envelope "durable mutation envelope must be a fields body")

theorem intoFrameBody_ok :
    e.intoFrameBody = .ok body ↔ validateCanonicalBody e.body = .ok () ∧ body = e.wire := by
  unfold intoFrameBody
  rw [Outcome.bind_ok]
  refine ⟨?_, ?_⟩
  · intro ⟨_, hv, hw⟩
    exact ⟨hv, (Except.ok.inj hw).symm⟩
  · intro ⟨hv, hw⟩
    exact ⟨(), hv, congrArg Except.ok hw.symm⟩

theorem identifier_tryFrom {field : String} {n : Nat} (id : Identifier n) :
    Identifier.tryFrom field n id.bytes = .ok id := dif_pos id.length_bytes

theorem tryFrom_bytes {field : String} {n : Nat} {bytes : Bytes} {id : Identifier n}
    (h : Identifier.tryFrom field n bytes = .ok id) : bytes = id.bytes := by
  unfold Identifier.tryFrom at h
  split at h
  · rw [← Except.ok.inj h]
  · cases h

/-- The parts of a body give it back, if the body passes the writer's limits. -/
theorem bodyOf_parts (h : validateCanonicalBody body = .ok ()) :
    bodyOf (.u64 (legacyBodyParts body).1) (legacyBodyParts body).2 = .ok body := by
  cases body with
  | empty => rfl
  | text text =>
    have ht : validateCanonicalText text = .ok () := h
    show (do validateCanonicalText text; pure (FrameBody.text text)) = _
    rw [ht]
    rfl
  | fields values =>
    have hf : validateCanonicalFields values = .ok () := h
    show (do validateCanonicalFields values; pure (FrameBody.fields values)) = _
    rw [hf]
    rfl

theorem fromFrameBody_wire (h : validateCanonicalBody e.body = .ok ()) :
    fromFrameBody e.wire = .ok e := by
  have htag : tagOf (.string durableMutationEnvelopeTag) = .ok () := rfl
  have hid : mutationIdOf (.bytes e.mutationId.bytes) = .ok e.mutationId := identifier_tryFrom _
  have hhash : requestHashOf (.bytes e.requestHash.bytes) = .ok e.requestHash := identifier_tryFrom _
  simp only [wire, fromFrameBody, htag, hid, hhash, bodyOf_parts h]
  rfl

theorem bodyOf_ok {kind value : FrameValue} (h : bodyOf kind value = .ok body) :
    kind = .u64 (legacyBodyParts body).1 ∧ value = (legacyBodyParts body).2 := by
  unfold bodyOf at h
  split at h
  · cases h
    exact ⟨rfl, rfl⟩
  · obtain ⟨_, _, h⟩ := Outcome.bind_ok.mp h
    cases h
    exact ⟨rfl, rfl⟩
  · obtain ⟨_, _, h⟩ := Outcome.bind_ok.mp h
    cases h
    exact ⟨rfl, rfl⟩
  · cases h

/-- Only an envelope's own five fields are read as it. -/
theorem fromFrameBody_ok (h : fromFrameBody body = .ok e) : body = e.wire := by
  unfold fromFrameBody at h
  split at h
  · next tag id hash kind value =>
    obtain ⟨_, htag, h⟩ := Outcome.bind_ok.mp h
    obtain ⟨mutationId, hid, h⟩ := Outcome.bind_ok.mp h
    obtain ⟨requestHash, hhash, h⟩ := Outcome.bind_ok.mp h
    obtain ⟨original, hbody, h⟩ := Outcome.bind_ok.mp h
    cases h
    have ht : tag = .string durableMutationEnvelopeTag := by
      unfold tagOf at htag
      split at htag
      · split at htag
        · next heq => rw [heq]
        · cases htag
      · cases htag
    have hi : id = .bytes mutationId.bytes := by
      unfold mutationIdOf at hid
      split at hid
      · rw [tryFrom_bytes hid]
      · cases hid
    have hh : hash = .bytes requestHash.bytes := by
      unfold requestHashOf at hhash
      split at hhash
      · rw [tryFrom_bytes hhash]
      · cases hhash
    obtain ⟨hk, hv⟩ := bodyOf_ok hbody
    rw [ht, hi, hh, hk, hv]
    rfl
  · cases h
  · cases h

end DurableMutationEnvelope
end Omen.Protocol
