import Mathlib.Data.List.DropRight
import Mathlib.Tactic.Common

/- The methods of `str` and `char` the sources use, by their documentation: white space and
   control characters are the Unicode ones, changes of case only the ASCII ones. -/
namespace Text

/-! What is dropped at both ends. -/

section
open List
variable {α : Type} {p q : α → Bool} {cs : List α} {c : α}

/-- What is dropped in front and what is dropped behind do not get in each other's way. -/
theorem dropWhile_rdropWhile (cs : List α) :
    (cs.rdropWhile p).dropWhile q = (cs.dropWhile q).rdropWhile p := by
  induction cs using reverseRecOn with
  | nil => rfl
  | append_singleton cs c ih =>
    have hbehind : (cs ++ [c]).dropWhile q =
        if cs.dropWhile q = [] then [c].dropWhile q else cs.dropWhile q ++ [c] := by
      simp only [dropWhile_append, List.isEmpty_iff]
    by_cases hc : p c = true
    · rw [rdropWhile_concat_pos _ _ _ hc, ih, hbehind]
      split
      · next hempty =>
        rw [hempty, dropWhile_cons]
        split
        · rfl
        · exact (rdropWhile_concat_pos p [] c hc).symm
      · rw [rdropWhile_concat_pos _ _ _ hc]
    · rw [rdropWhile_concat_neg _ _ _ hc, hbehind]
      split
      · rw [dropWhile_cons]
        split
        · rfl
        · exact (rdropWhile_concat_neg p [] c hc).symm
      · rw [rdropWhile_concat_neg _ _ _ hc]

theorem head?_rdropWhile :
    (cs.rdropWhile p).head? = some c ↔ cs.head? = some c ∧ ∃ d ∈ cs, p d = false := by
  have hall : cs.rdropWhile p = [] ↔ ∀ d ∈ cs, p d = true := rdropWhile_eq_nil_iff
  have hprefix : cs.rdropWhile p <+: cs := rdropWhile_prefix p cs
  cases hcs : cs.rdropWhile p with
  | nil =>
    refine iff_of_false nofun fun h => ?_
    obtain ⟨_, d, hd, hp⟩ := h
    rw [hall.mp hcs d hd] at hp
    cases hp
  | cons d rest =>
    rw [hcs] at hprefix hall
    obtain ⟨tail, rfl⟩ := hprefix
    refine ⟨fun h => ⟨h, ?_⟩, fun h => h.1⟩
    by_contra hnone
    push Not at hnone
    exact absurd (hall.mpr fun d hd => by simpa using hnone d hd) (cons_ne_nil _ _)

end

/-- `char::is_whitespace`: the property `White_Space`. -/
def isWhitespace (c : Char) : Bool :=
  let n := c.toNat
  (0x9 ≤ n && n ≤ 0xd) || n == 0x20 || n == 0x85 || n == 0xa0 || n == 0x1680 ||
    (0x2000 ≤ n && n ≤ 0x200a) || n == 0x2028 || n == 0x2029 || n == 0x202f || n == 0x205f ||
    n == 0x3000

/-- `char::is_control`: the general category `Cc`. -/
def isControl (c : Char) : Bool := c.toNat ≤ 0x1f || (0x7f ≤ c.toNat && c.toNat ≤ 0x9f)

variable (cs : List Char)

def trimChars : List Char :=
  ((cs.dropWhile isWhitespace).reverse.dropWhile isWhitespace).reverse

variable (s : String)

/-- `str::trim`. -/
def trim : String := String.ofList (trimChars s.toList)

/-- What is trimmed begins with no white space. -/
theorem dropWhile_trimChars : (trimChars cs).dropWhile isWhitespace = trimChars cs := by
  show ((cs.dropWhile isWhitespace).rdropWhile isWhitespace).dropWhile isWhitespace = trimChars cs
  rw [dropWhile_rdropWhile, List.dropWhile_idempotent]
  rfl

/-- What is trimmed stays as it is. -/
theorem trimChars_trimChars : trimChars (trimChars cs) = trimChars cs := by
  show List.rdropWhile isWhitespace ((trimChars cs).dropWhile isWhitespace) = trimChars cs
  rw [dropWhile_trimChars]
  exact List.rdropWhile_idempotent _ _

/-- `split_whitespace().next()`. -/
def firstWord : Option String :=
  match (s.toList.dropWhile isWhitespace).takeWhile (fun c => !isWhitespace c) with
  | [] => none
  | cs => some (String.ofList cs)

/-- `str::to_ascii_lowercase`. -/
def toAsciiLowercase : String := String.ofList (s.toList.map Char.toLower)

end Text
