import Mathlib.Tactic.Common
import Mathlib.Tactic.Positivity
import Mathlib.Tactic.Ring

/- Byte strings: big-endian integers of a fixed width, and UTF-8 text.

   `be w n` is the `w`-byte big-endian encoding of `n` (truncated to `w` bytes) and
   `ofBe` reads one back. `utf8` is the encoding of a string and `asStr` its partial
   inverse: it is `none` exactly on bytes that are not UTF-8. `take?` splits a prefix
   off, or fails on an input that is too short. -/
namespace Wire

variable {w n : Nat}

abbrev Bytes := List UInt8

/-- The `w`-byte big-endian encoding of `n`, truncated. -/
def be : Nat → Nat → Bytes
  | 0, _ => []
  | w + 1, n => UInt8.ofNat (n / 256 ^ w) :: be w n

/-- The number a big-endian byte string encodes. -/
def ofBe : Bytes → Nat
  | [] => 0
  | b :: bs => b.toNat * 256 ^ bs.length + ofBe bs

@[simp] theorem length_be (w n : Nat) : (be w n).length = w := by
  induction w with
  | zero => rfl
  | succ w ih => simp [be, ih]

theorem ofBe_be (w n : Nat) : ofBe (be w n) = n % 256 ^ w := by
  induction w with
  | zero => simp [be, ofBe, Nat.mod_one]
  | succ w ih =>
    have hb : (UInt8.ofNat (n / 256 ^ w)).toNat = n / 256 ^ w % 256 := by simp
    rw [be, ofBe, ih, length_be, hb, pow_succ, Nat.mod_mul]
    ring

theorem ofBe_be_of_lt (h : n < 256 ^ w) : ofBe (be w n) = n := by
  rw [ofBe_be, Nat.mod_eq_of_lt h]

theorem ofBe_lt (bs : Bytes) : ofBe bs < 256 ^ bs.length := by
  induction bs with
  | nil => simp [ofBe]
  | cons b bs ih =>
    have hb : b.toNat < 256 := b.toNat_lt
    have hle : b.toNat * 256 ^ bs.length ≤ 255 * 256 ^ bs.length :=
      Nat.mul_le_mul_right _ (by omega)
    rw [ofBe, List.length_cons, pow_succ]
    omega

/-- Byte strings of one length that encode one number are equal. -/
theorem ofBe_inj {a b : Bytes} (hlen : a.length = b.length) (h : ofBe a = ofBe b) : a = b := by
  induction a generalizing b with
  | nil => exact (List.length_eq_zero_iff.mp hlen.symm).symm
  | cons x xs ih =>
    cases b with
    | nil => cases hlen
    | cons y ys =>
      have hlen : xs.length = ys.length := by simpa using hlen
      have hx := ofBe_lt xs
      have hy := ofBe_lt ys
      rw [ofBe, ofBe, hlen] at h
      rw [hlen] at hx
      -- the leading byte is the quotient, what follows the remainder
      have hdiv := congrArg (· / 256 ^ ys.length) h
      have hmod := congrArg (· % 256 ^ ys.length) h
      have hpos : 0 < 256 ^ ys.length := by positivity
      simp only [Nat.mul_comm _ (256 ^ ys.length), Nat.mul_add_div hpos, Nat.div_eq_of_lt hx,
        Nat.div_eq_of_lt hy, Nat.add_zero] at hdiv
      simp only [Nat.mul_comm _ (256 ^ ys.length), Nat.mul_add_mod, Nat.mod_eq_of_lt hx,
        Nat.mod_eq_of_lt hy] at hmod
      rw [UInt8.toNat_inj.mp hdiv, ih hlen hmod]

@[simp] theorem be_ofBe (bs : Bytes) : be bs.length (ofBe bs) = bs := by
  apply ofBe_inj (length_be _ _)
  rw [ofBe_be, Nat.mod_eq_of_lt (ofBe_lt bs)]

/-- Two in-range integers with one encoding are equal. -/
theorem be_inj {m : Nat} (hm : m < 256 ^ w) (hn : n < 256 ^ w) (h : be w m = be w n) : m = n := by
  rw [← ofBe_be_of_lt hm, h, ofBe_be_of_lt hn]

/-- A fixed-width integer ends where its width says, whatever follows. -/
theorem be_append_inj {m : Nat} {r s : Bytes} (hm : m < 256 ^ w) (hn : n < 256 ^ w)
    (h : be w m ++ r = be w n ++ s) : m = n ∧ r = s := by
  obtain ⟨hb, hr⟩ := List.append_inj h (by rw [length_be, length_be])
  exact ⟨be_inj hm hn hb, hr⟩

/-- A byte string behind its length ends where the length says. -/
theorem lengthPrefixed_inj {a b r s : Bytes} (ha : a.length < 256 ^ w) (hb : b.length < 256 ^ w)
    (h : be w a.length ++ (a ++ r) = be w b.length ++ (b ++ s)) : a = b ∧ r = s := by
  obtain ⟨hlen, h⟩ := be_append_inj ha hb h
  exact List.append_inj h hlen

/-- Split `n` bytes off the front. -/
def take? (n : Nat) (bs : Bytes) : Option (Bytes × Bytes) :=
  if n ≤ bs.length then some (bs.take n, bs.drop n) else none

theorem take?_some {bs a r : Bytes} : take? n bs = some (a, r) ↔ bs = a ++ r ∧ a.length = n := by
  unfold take?
  split
  · next h =>
    constructor
    · rintro ⟨rfl, rfl⟩
      exact ⟨(List.take_append_drop n bs).symm, by simp [h]⟩
    · rintro ⟨rfl, rfl⟩
      simp
  · next h =>
    simp only [reduceCtorEq, false_iff, not_and]
    rintro rfl rfl
    simp at h

@[simp] theorem take?_append (a r : Bytes) : take? a.length (a ++ r) = some (a, r) :=
  take?_some.mpr ⟨rfl, rfl⟩

theorem take?_be (w n : Nat) (r : Bytes) : take? w (be w n ++ r) = some (be w n, r) :=
  take?_some.mpr ⟨rfl, length_be w n⟩

/-! UTF-8 text. -/

/-- The UTF-8 bytes of a string. -/
def utf8 (s : String) : Bytes := s.toByteArray.data.toList

theorem utf8_ofList_cons (c : Char) (cs : List Char) :
    utf8 (String.ofList (c :: cs)) = String.utf8EncodeChar c ++ utf8 (String.ofList cs) := by
  unfold utf8
  rw [String.toByteArray_ofList, String.toByteArray_ofList, List.utf8Encode_cons,
    List.utf8Encode_singleton, ByteArray.data_append, Array.toList_append]
  simp

/-- The string a byte string encodes, if it is UTF-8. -/
def asStr (b : Bytes) : Option String := String.fromUTF8? ⟨b.toArray⟩

theorem asStr_some {b : Bytes} {s : String} : asStr b = some s ↔ utf8 s = b := by
  unfold asStr utf8 String.fromUTF8?
  split
  · next h =>
    simp only [Option.some.injEq]
    constructor
    · rintro rfl; rfl
    · rintro rfl; rfl
  · next h =>
    simp only [reduceCtorEq, false_iff]
    rintro rfl
    exact h s.isValidUTF8

@[simp] theorem asStr_utf8 (s : String) : asStr (utf8 s) = some s := asStr_some.mpr rfl

theorem utf8_inj {s t : String} (h : utf8 s = utf8 t) : s = t := by
  have := asStr_utf8 s
  rw [h, asStr_utf8] at this
  exact (Option.some.inj this).symm

end Wire
