import OmenBrowser.Lib.Outcome
import OmenBrowser.Protocol.Frame

/- The canonical form of a durable mutation request
   (`omenchat-protocol/src/durable.rs`).

   `CanonicalWriter` feeds a request to SHA-256 piece by piece and refuses what is too
   large, too deep or has too many values. The hash is a parameter, `sha256`; the model
   keeps the bytes fed to it in `fed`.

   What is fed is `canonicalBody body` behind a fixed head. Every piece carries a tag,
   and every piece of variable size its length, so the stream determines the request:
   `canonicalValue_inj` proves that one value ends where the next begins, by recursion
   on the value.

   Correspondence (Rust ↔ Lean):
     `ClientInstanceId`, `MutationId`, `RequestHash`  ↔ `Identifier 16`, `16`, `32`
     `self.hasher.update(bytes)`                      ↔ appending to `fed`
     `for value in values { self.value(value, d)? }`  ↔ `CanonicalWriter.each` -/
namespace Omen.Protocol
open Wire Outcome List

/-! Identifiers. -/

/-- A byte string of exactly `n` bytes. -/
structure Identifier (n : Nat) where
  bytes : Bytes
  length_bytes : bytes.length = n
  deriving DecidableEq

abbrev ClientInstanceId := Identifier 16
abbrev MutationId := Identifier 16
/-- The hash of the canonical request, by which a repeated mutation is told from another one. -/
abbrev RequestHash := Identifier 32

/-- Why a value is no canonical request, identifier or envelope. -/
inductive DurableMutationError where
  | identifierLength (field : String) (expected actual : Nat)
  | envelope (text : String)
  | scalarLimit
  | containerLimit
  | valueLimit
  | depthLimit
  | byteLimit
  deriving DecidableEq, Repr

/-- `TryFrom<&[u8]>` of an identifier. -/
def Identifier.tryFrom (field : String) (n : Nat) (bytes : Bytes) :
    Except DurableMutationError (Identifier n) :=
  if h : bytes.length = n then .ok ⟨bytes, h⟩
  else .error (.identifierLength field n bytes.length)

/-! The writer. -/

/-- The prefix of everything that is hashed. -/
def canonicalDomain : Bytes := utf8 "omenchat durable mutation v1" ++ [0]
def canonicalMaxBytes : Nat := 1024 * 1024
def canonicalMaxScalarBytes : Nat := 512 * 1024
def canonicalMaxContainerItems : Nat := 4096
def canonicalMaxTotalValues : Nat := 8192
def canonicalMaxDepth : Nat := 16

/-- The bytes fed to the hasher so far, their number, and the number of values. -/
structure CanonicalWriter where
  fed : Bytes
  bytes : Nat
  values : Nat

namespace CanonicalWriter

/-- Nothing fed yet. -/
def default : CanonicalWriter := ⟨[], 0, 0⟩

section
variable (w : CanonicalWriter)

/-- `bytes`. A sum that overflows is refused with the same error as one over the limit. -/
def feed (data : Bytes) : Except DurableMutationError CanonicalWriter :=
  if w.bytes + data.length > canonicalMaxBytes then .error .byteLimit
  else .ok { w with fed := w.fed ++ data, bytes := w.bytes + data.length }

/-- A length: eight bytes, big-endian. -/
def length (value : Nat) : Except DurableMutationError CanonicalWriter :=
  w.feed (be 8 value)

/-- A tagged scalar, behind its length. -/
def scalar (tag : UInt8) (value : Bytes) : Except DurableMutationError CanonicalWriter :=
  if value.length > canonicalMaxScalarBytes then .error .scalarLimit
  else do
    let w ← w.feed [tag]
    let w ← w.length value.length
    w.feed value

/-- The number of the items that follow. -/
def container (items : Nat) : Except DurableMutationError CanonicalWriter :=
  if items > canonicalMaxContainerItems then .error .containerLimit
  else w.length items

/-- The two checks at the head of `value`. -/
def enter (depth : Nat) : Except DurableMutationError CanonicalWriter :=
  if depth > canonicalMaxDepth then .error .depthLimit
  else if w.values + 1 > canonicalMaxTotalValues then .error .valueLimit
  else .ok { w with values := w.values + 1 }

end

mutual
/-- A value behind its tag, nested no deeper than allowed. -/
def value (w : CanonicalWriter) (depth : Nat) (v : FrameValue) :
    Except DurableMutationError CanonicalWriter := do
  let w ← w.enter depth
  match v with
  | .nil => w.feed [0]
  | .bool b => w.feed [1, if b then 1 else 0]
  | .u64 n =>
    let w ← w.feed [2]
    w.feed (be 8 n.toNat)
  | .i64 n =>
    let w ← w.feed [3]
    w.feed (be 8 n.toUInt64.toNat)
  | .string s => w.scalar 4 (utf8 s)
  | .bytes b => w.scalar 5 b
  | .array vs =>
    let w ← w.feed [6]
    let w ← w.container vs.length
    w.each (depth + 1) vs
/-- The items of a container, in order. -/
def each (w : CanonicalWriter) (depth : Nat) (vs : List FrameValue) :
    Except DurableMutationError CanonicalWriter :=
  match vs with
  | [] => .ok w
  | v :: vs => do
    let w ← w.value depth v
    w.each depth vs
end

section
variable (w : CanonicalWriter)

def textBody (text : String) : Except DurableMutationError CanonicalWriter :=
  w.scalar 1 (utf8 text)

def fieldsBody (values : List FrameValue) : Except DurableMutationError CanonicalWriter := do
  let w ← w.feed [2]
  let w ← w.container values.length
  w.each 1 values

/-- The `match room_id` of `canonical_mutation_request_hash`. -/
def room : Option UInt32 → Except DurableMutationError CanonicalWriter
  | some roomId => do
    let w ← w.feed [1]
    w.feed (be 4 roomId.toNat)
  | none => w.feed [0]

/-- A body: its kind, and what it holds. -/
def body : FrameBody → Except DurableMutationError CanonicalWriter
  | .empty => w.feed [0]
  | .text text => w.textBody text
  | .fields values => w.fieldsBody values

end

end CanonicalWriter

/-- The writer of `canonical_mutation_request_hash` before it finishes. -/
def canonicalMutationRequest (op : ChatOp) (roomId : Option UInt32) (body : FrameBody) :
    Except DurableMutationError CanonicalWriter := do
  let w ← CanonicalWriter.default.feed canonicalDomain
  let w ← w.feed [protocolVersion]
  let w ← w.feed (be 2 op.code.toNat)
  let w ← w.room roomId
  w.body body

/-- The hash that a mutation is stored under. -/
def canonicalMutationRequestHash (sha256 : Bytes → RequestHash) (op : ChatOp)
    (roomId : Option UInt32) (body : FrameBody) : Except DurableMutationError RequestHash :=
  (canonicalMutationRequest op roomId body).map (fun w => sha256 w.fed)

/-- A body is canonical if the writer takes it. -/
def validateCanonicalBody (body : FrameBody) : Except DurableMutationError Unit :=
  (CanonicalWriter.default.body body).map (fun _ => ())

/-! What is fed. -/

/-- What the writer feeds for a scalar. -/
def canonicalScalar (tag : UInt8) (b : Bytes) : Bytes := tag :: (be 8 b.length ++ b)

mutual
/-- The bytes a value is fed as. -/
def canonicalValue : FrameValue → Bytes
  | .nil => [0]
  | .bool b => [1, if b then 1 else 0]
  | .u64 n => 2 :: be 8 n.toNat
  | .i64 n => 3 :: be 8 n.toUInt64.toNat
  | .string s => canonicalScalar 4 (utf8 s)
  | .bytes b => canonicalScalar 5 b
  | .array vs => 6 :: (be 8 vs.length ++ canonicalValues vs)
def canonicalValues : List FrameValue → Bytes
  | [] => []
  | v :: vs => canonicalValue v ++ canonicalValues vs
end

/-- What it feeds for a body. -/
def canonicalBody : FrameBody → Bytes
  | .empty => [0]
  | .text s => canonicalScalar 1 (utf8 s)
  | .fields vs => 2 :: (be 8 vs.length ++ canonicalValues vs)

/-- A room is told from no room by a byte of its own. -/
def canonicalRoom : Option UInt32 → Bytes
  | some roomId => 1 :: be 4 roomId.toNat
  | none => [0]

mutual
/-- Every length of the value fits its eight bytes. -/
def Sized : FrameValue → Prop
  | .string s => (utf8 s).length < 256 ^ 8
  | .bytes b => b.length < 256 ^ 8
  | .array vs => vs.length < 256 ^ 8 ∧ SizedAll vs
  | _ => True
def SizedAll : List FrameValue → Prop
  | [] => True
  | v :: vs => Sized v ∧ SizedAll vs
end

variable {depth : Nat} {w w' : CanonicalWriter} {roomId : Option UInt32} {r s : Bytes}

/-- No scalar and no container of the body exceeds the limits. -/
def SizedBody : FrameBody → Prop
  | .empty => True
  | .text s => Sized (.string s)
  | .fields vs => Sized (.array vs)

variable {b : Bytes} {body : FrameBody} {tag : UInt8} {op : ChatOp}

namespace CanonicalWriter
variable {w w' : CanonicalWriter}

theorem feed_fed {data : Bytes} (h : w.feed data = .ok w') : w'.fed = w.fed ++ data := by
  unfold feed at h
  split at h
  · cases h
  · cases h
    rfl

theorem enter_fed (h : w.enter depth = .ok w') : w'.fed = w.fed := by
  unfold enter at h
  split at h
  · cases h
  · split at h
    · cases h
    · cases h
      rfl

theorem scalar_fed (h : w.scalar tag b = .ok w') :
    w'.fed = w.fed ++ canonicalScalar tag b ∧ b.length < 256 ^ 8 := by
  unfold scalar at h
  split at h
  · cases h
  · next hlen =>
    obtain ⟨w₁, h₁, h⟩ := bind_ok.mp h
    obtain ⟨w₂, h₂, h⟩ := bind_ok.mp h
    refine ⟨?_, ?_⟩
    · rw [feed_fed h, feed_fed h₂, feed_fed h₁, canonicalScalar]
      simp only [append_assoc, cons_append, nil_append]
    · have : canonicalMaxScalarBytes < 256 ^ 8 := by decide
      omega

theorem container_fed {items : Nat} (h : w.container items = .ok w') :
    w'.fed = w.fed ++ be 8 items ∧ items < 256 ^ 8 := by
  unfold container at h
  split at h
  · cases h
  · next hlen =>
    refine ⟨feed_fed h, ?_⟩
    have : canonicalMaxContainerItems < 256 ^ 8 := by decide
    omega

mutual
/-- A value that is accepted is fed as `canonicalValue`, and its lengths are in range. -/
theorem value_fed (v : FrameValue) {w w' : CanonicalWriter} {depth : Nat}
    (h : w.value depth v = .ok w') : w'.fed = w.fed ++ canonicalValue v ∧ Sized v := by
  rw [value] at h
  obtain ⟨w₀, h₀, h⟩ := bind_ok.mp h
  rw [← enter_fed h₀]
  cases v with
  | nil | bool b => exact ⟨feed_fed h, trivial⟩
  | u64 n | i64 n =>
    obtain ⟨w₁, h₁, h⟩ := bind_ok.mp h
    refine ⟨?_, trivial⟩
    rw [feed_fed h, feed_fed h₁, canonicalValue]
    simp only [append_assoc, cons_append, nil_append]
  | string s | bytes b => exact scalar_fed h
  | array vs =>
    obtain ⟨w₁, h₁, h⟩ := bind_ok.mp h
    obtain ⟨w₂, h₂, h⟩ := bind_ok.mp h
    obtain ⟨hc, hlen⟩ := container_fed h₂
    obtain ⟨hv, hs⟩ := each_fed vs h
    refine ⟨?_, hlen, hs⟩
    rw [hv, hc, feed_fed h₁, canonicalValue]
    simp only [append_assoc, cons_append, nil_append]
theorem each_fed (vs : List FrameValue) {w w' : CanonicalWriter} {depth : Nat}
    (h : w.each depth vs = .ok w') : w'.fed = w.fed ++ canonicalValues vs ∧ SizedAll vs := by
  cases vs with
  | nil =>
    rw [each] at h
    cases h
    exact ⟨(append_nil _).symm, trivial⟩
  | cons v vs =>
    rw [each] at h
    obtain ⟨w₁, h₁, h⟩ := bind_ok.mp h
    obtain ⟨hv, hs⟩ := value_fed v h₁
    obtain ⟨hvs, hss⟩ := each_fed vs h
    refine ⟨?_, hs, hss⟩
    rw [hvs, hv, canonicalValues, append_assoc]
end

theorem room_fed (h : w.room roomId = .ok w') : w'.fed = w.fed ++ canonicalRoom roomId := by
  cases roomId with
  | none => exact feed_fed h
  | some r =>
    obtain ⟨w₁, h₁, h⟩ := bind_ok.mp h
    rw [feed_fed h, feed_fed h₁, canonicalRoom]
    simp only [append_assoc, cons_append, nil_append]

theorem body_fed (h : w.body body = .ok w') :
    w'.fed = w.fed ++ canonicalBody body ∧ SizedBody body := by
  cases body with
  | empty => exact ⟨feed_fed h, trivial⟩
  | text s => exact scalar_fed h
  | fields vs =>
    obtain ⟨w₁, h₁, h⟩ := bind_ok.mp h
    obtain ⟨w₂, h₂, h⟩ := bind_ok.mp h
    obtain ⟨hc, hlen⟩ := container_fed h₂
    obtain ⟨hv, hs⟩ := each_fed vs h
    refine ⟨?_, hlen, hs⟩
    rw [hv, hc, feed_fed h₁, canonicalBody]
    simp only [append_assoc, cons_append, nil_append]

end CanonicalWriter

/-- An accepted request is fed as a fixed head, the operation, the room and the body. -/
theorem canonicalMutationRequest_fed (h : canonicalMutationRequest op roomId body = .ok w) :
    w.fed = canonicalDomain ++ ([protocolVersion] ++ (be 2 op.code.toNat ++
      (canonicalRoom roomId ++ canonicalBody body))) ∧ SizedBody body := by
  obtain ⟨w₁, h₁, h⟩ := bind_ok.mp h
  obtain ⟨w₂, h₂, h⟩ := bind_ok.mp h
  obtain ⟨w₃, h₃, h⟩ := bind_ok.mp h
  obtain ⟨w₄, h₄, h⟩ := bind_ok.mp h
  obtain ⟨hb, hs⟩ := CanonicalWriter.body_fed h
  refine ⟨?_, hs⟩
  rw [hb, CanonicalWriter.room_fed h₄, CanonicalWriter.feed_fed h₃,
    CanonicalWriter.feed_fed h₂, CanonicalWriter.feed_fed h₁]
  simp only [CanonicalWriter.default, append_assoc, nil_append]

/-! The stream determines the request. -/

theorem canonicalScalar_inj {a : Bytes} (ha : a.length < 256 ^ 8) (hb : b.length < 256 ^ 8)
    (h : canonicalScalar tag a ++ r = canonicalScalar tag b ++ s) : a = b ∧ r = s := by
  simp only [canonicalScalar, cons_append, append_assoc, cons.injEq, true_and] at h
  exact lengthPrefixed_inj ha hb h

/-- A value is fed with its own tag first. -/
def canonicalTag : FrameValue → UInt8
  | .nil => 0
  | .bool _ => 1
  | .u64 _ => 2
  | .i64 _ => 3
  | .string _ => 4
  | .bytes _ => 5
  | .array _ => 6

theorem canonicalValue_tag (v : FrameValue) (r : Bytes) :
    (canonicalValue v ++ r).head? = some (canonicalTag v) := by
  cases v <;> rfl

mutual
/-- One value ends where the next begins. -/
theorem canonicalValue_inj (x y : FrameValue) {r s : Bytes} (hx : Sized x) (hy : Sized y)
    (h : canonicalValue x ++ r = canonicalValue y ++ s) : x = y ∧ r = s := by
  have htag : canonicalTag x = canonicalTag y := by
    have := congrArg head? h
    rw [canonicalValue_tag, canonicalValue_tag] at this
    exact Option.some.inj this
  -- equal tags leave one case for each constructor
  cases x with
  | nil =>
    cases y with
    | nil => exact ⟨rfl, (cons.inj h).2⟩
    | _ => simp [canonicalTag] at htag
  | bool b =>
    cases y with
    | bool c =>
      simp only [canonicalValue, cons_append, nil_append, cons.injEq, true_and] at h
      refine ⟨?_, h.2⟩
      cases b <;> cases c <;> first | rfl | exact absurd h.1 (by decide)
    | _ => simp [canonicalTag] at htag
  | u64 m =>
    cases y with
    | u64 n =>
      obtain ⟨he, hr⟩ := be_append_inj m.toNat_lt n.toNat_lt (cons.inj h).2
      exact ⟨by rw [UInt64.toNat_inj.mp he], hr⟩
    | _ => simp [canonicalTag] at htag
  | i64 m =>
    cases y with
    | i64 n =>
      obtain ⟨he, hr⟩ := be_append_inj m.toUInt64.toNat_lt n.toUInt64.toNat_lt (cons.inj h).2
      have hmn : m = n := congrArg UInt64.toInt64 (UInt64.toNat_inj.mp he)
      exact ⟨by rw [hmn], hr⟩
    | _ => simp [canonicalTag] at htag
  | string a =>
    cases y with
    | string b =>
      obtain ⟨he, hr⟩ := canonicalScalar_inj hx hy h
      exact ⟨by rw [utf8_inj he], hr⟩
    | _ => simp [canonicalTag] at htag
  | bytes a =>
    cases y with
    | bytes b =>
      obtain ⟨he, hr⟩ := canonicalScalar_inj hx hy h
      exact ⟨by rw [he], hr⟩
    | _ => simp [canonicalTag] at htag
  | array xs =>
    cases y with
    | array ys =>
      simp only [canonicalValue, cons_append, append_assoc, cons.injEq, true_and] at h
      obtain ⟨hlen, h⟩ := be_append_inj hx.1 hy.1 h
      obtain ⟨he, hr⟩ := canonicalValues_inj xs ys hlen hx.2 hy.2 h
      exact ⟨by rw [he], hr⟩
    | _ => simp [canonicalTag] at htag
/-- So do equally many in a row. -/
theorem canonicalValues_inj (xs ys : List FrameValue) {r s : Bytes} (hlen : xs.length = ys.length)
    (hx : SizedAll xs) (hy : SizedAll ys) (h : canonicalValues xs ++ r = canonicalValues ys ++ s) :
    xs = ys ∧ r = s := by
  cases xs with
  | nil =>
    obtain rfl : ys = [] := length_eq_zero_iff.mp hlen.symm
    exact ⟨rfl, h⟩
  | cons x xs =>
    cases ys with
    | nil => cases hlen
    | cons y ys =>
      rw [canonicalValues, canonicalValues, append_assoc, append_assoc] at h
      obtain ⟨he, h⟩ := canonicalValue_inj x y hx.1 hy.1 h
      obtain ⟨hes, hr⟩ := canonicalValues_inj xs ys (Nat.succ.inj hlen) hx.2 hy.2 h
      exact ⟨by rw [he, hes], hr⟩
end

/-- The three bodies have tags of their own, and a body is the last thing fed. -/
theorem canonicalBody_inj {a b : FrameBody} (ha : SizedBody a) (hb : SizedBody b)
    (h : canonicalBody a = canonicalBody b) : a = b := by
  cases a with
  | empty =>
    cases b with
    | empty => rfl
    | text | fields => exact absurd (cons.inj h).1 (by decide)
  | text s =>
    cases b with
    | empty | fields => exact absurd (cons.inj h).1 (by decide)
    | text t =>
      obtain ⟨he, _⟩ := canonicalScalar_inj (r := []) (s := []) ha hb (congrArg (· ++ []) h)
      rw [utf8_inj he]
  | fields xs =>
    cases b with
    | empty | text => exact absurd (cons.inj h).1 (by decide)
    | fields ys =>
      obtain ⟨hlen, h⟩ := be_append_inj ha.1 hb.1 (cons.inj h).2
      obtain ⟨he, _⟩ := canonicalValues_inj (r := []) (s := []) xs ys hlen ha.2 hb.2
        (congrArg (· ++ []) h)
      rw [he]

theorem canonicalRoom_inj {a b : Option UInt32} (h : canonicalRoom a ++ r = canonicalRoom b ++ s) :
    a = b ∧ r = s := by
  cases a with
  | none =>
    cases b with
    | none => exact ⟨rfl, (cons.inj h).2⟩
    | some y => exact absurd (cons.inj h).1 (by decide)
  | some x =>
    cases b with
    | none => exact absurd (cons.inj h).1 (by decide)
    | some y =>
      obtain ⟨he, hr⟩ := be_append_inj x.toNat_lt y.toNat_lt (cons.inj h).2
      exact ⟨by rw [UInt32.toNat_inj.mp he], hr⟩

theorem canonicalMutationRequest_stream {op' : ChatOp} {roomId' : Option UInt32}
    {body' : FrameBody} (h : canonicalMutationRequest op roomId body = .ok w)
    (h' : canonicalMutationRequest op' roomId' body' = .ok w') (he : w.fed = w'.fed) :
    op = op' ∧ roomId = roomId' ∧ body = body' := by
  obtain ⟨hf, hs⟩ := canonicalMutationRequest_fed h
  obtain ⟨hf', hs'⟩ := canonicalMutationRequest_fed h'
  rw [hf, hf', append_cancel_left_eq, append_cancel_left_eq] at he
  obtain ⟨hop, he⟩ := be_append_inj op.code.toNat_lt op'.code.toNat_lt he
  obtain ⟨hroom, he⟩ := canonicalRoom_inj he
  exact ⟨ChatOp.code_inj (UInt16.toNat_inj.mp hop), hroom, canonicalBody_inj hs hs' he⟩

/-- Two accepted requests are fed to SHA-256 as one byte stream only if they are one request,
so where SHA-256 has no collision on the two streams, equal hashes mean the same request. -/
theorem canonicalMutationRequest_injective {op op' : ChatOp} {roomId roomId' : Option UInt32}
    {body body' : FrameBody} {w w' : CanonicalWriter}
    (h : canonicalMutationRequest op roomId body = .ok w)
    (h' : canonicalMutationRequest op' roomId' body' = .ok w') :
    (w.fed = w'.fed → op = op' ∧ roomId = roomId' ∧ body = body') ∧
    ∀ sha256 : Bytes → RequestHash, (sha256 w.fed = sha256 w'.fed → w.fed = w'.fed) →
      canonicalMutationRequestHash sha256 op roomId body =
        canonicalMutationRequestHash sha256 op' roomId' body' →
      op = op' ∧ roomId = roomId' ∧ body = body' := by
  refine ⟨canonicalMutationRequest_stream h h', ?_⟩
  intro sha256 hcollision hhash
  rw [canonicalMutationRequestHash, canonicalMutationRequestHash, h, h'] at hhash
  exact canonicalMutationRequest_stream h h' (hcollision (Except.ok.inj hhash))

/-- The number 1 as an unsigned and as a signed field gives two streams. -/
theorem canonicalMutationRequest_injective_signed :
    ∃ w w', canonicalMutationRequest .roomMessage (some 7) (.fields [.u64 1]) = .ok w ∧
      canonicalMutationRequest .roomMessage (some 7) (.fields [.i64 1]) = .ok w' ∧
      w.fed ≠ w'.fed := by
  have hw := show canonicalMutationRequest .roomMessage (some 7) (.fields [.u64 1]) = .ok _ from rfl
  have hw' := show canonicalMutationRequest .roomMessage (some 7) (.fields [.i64 1]) = .ok _ from rfl
  refine ⟨_, _, hw, hw', ?_⟩
  intro he
  have hbody := ((canonicalMutationRequest_injective hw hw').1 he).2.2
  simp at hbody

end Omen.Protocol
