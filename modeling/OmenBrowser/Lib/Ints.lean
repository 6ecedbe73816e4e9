import Mathlib.Tactic.Common

/- Machine integers as bounded integers: the ranges of `i64`, `u64` and `u32`, the
   saturating operations, and the checked conversions between them. A conversion
   that fails is `none`; a saturating operation stays at the end of the range. -/
namespace Ints

variable {a b : Nat}

def i64Max : Int := 9223372036854775807
def i64Min : Int := -9223372036854775808
def u64Max : Nat := 18446744073709551615
def u32Max : Nat := 4294967295

/-- `i64::saturating_add`. -/
def saturatingAdd (a b : Int) : Int := max i64Min (min i64Max (a + b))

/-- `i64::saturating_sub`. -/
def saturatingSub (a b : Int) : Int := max i64Min (min i64Max (a - b))

/-- `usize::saturating_add`. -/
def saturatingCount (a b : Nat) : Nat := min u64Max (a + b)

/-- `i64::checked_add`. -/
def checkedAddI64 (a b : Int) : Option Int :=
  if i64Min ≤ a + b ∧ a + b ≤ i64Max then some (a + b) else none

/-- `u64::checked_add`. -/
def checkedAdd (a b : Nat) : Option Nat := if a + b ≤ u64Max then some (a + b) else none

/-- `u64::checked_mul`. -/
def checkedMul (a b : Nat) : Option Nat := if a * b ≤ u64Max then some (a * b) else none

/-- `i64::try_from` of an unsigned value. -/
def toI64 (a : Nat) : Option Int := if (a : Int) ≤ i64Max then some a else none

/-- `u32::try_from` of an `i64`. -/
def toU32 (a : Int) : Option UInt32 :=
  if 0 ≤ a ∧ a ≤ u32Max then some (UInt32.ofNat a.toNat) else none

theorem saturatingAdd_le {a b limit : Int} (h : a + b ≤ i64Max) (hl : saturatingAdd a b ≤ limit) :
    a + b ≤ limit := by
  unfold saturatingAdd at hl
  omega

/-- A sum is over a limit below the end of the range iff it is over it with saturation. -/
theorem lt_saturatingCount {limit : Nat} (h : limit < u64Max) :
    limit < saturatingCount a b ↔ limit < a + b := by
  unfold saturatingCount
  omega

theorem saturatingCount_eq (h : a + b ≤ u64Max) : saturatingCount a b = a + b := by
  unfold saturatingCount
  omega

theorem checkedAdd_some {c : Nat} : checkedAdd a b = some c ↔ c = a + b ∧ a + b ≤ u64Max := by
  unfold checkedAdd
  split <;> simp_all [eq_comm]

theorem checkedAddI64_some {a b c : Int} (h : checkedAddI64 a b = some c) : c = a + b := by
  unfold checkedAddI64 at h
  split at h
  · exact (Option.some.inj h).symm
  · cases h

theorem checkedMul_some {c : Nat} : checkedMul a b = some c ↔ c = a * b ∧ a * b ≤ u64Max := by
  unfold checkedMul
  split <;> simp_all [eq_comm]

theorem toI64_some {b : Int} : toI64 a = some b ↔ b = a ∧ (a : Int) ≤ i64Max := by
  unfold toI64
  split <;> simp_all [eq_comm]

theorem toU32_some {a : Int} {b : UInt32} (h : toU32 a = some b) : a = b.toNat := by
  unfold toU32 at h
  split at h
  · next hrange =>
    have hlt : a.toNat < 2 ^ 32 := by
      have := hrange.2
      unfold u32Max at this
      omega
    rw [← Option.some.inj h, UInt32.toNat_ofNat_of_lt' hlt]
    omega
  · cases h

end Ints
