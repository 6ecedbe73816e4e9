import Mathlib.Algebra.GroupWithZero.Nat
import Mathlib.Data.List.Infix
import Mathlib.Tactic.Common

/- Text as its characters, with offsets in bytes as `str` has them.

   A cut at an offset beyond the end or inside a character fails; what is found in a text is found at
   an offset where it can be cut. -/
namespace Text
open List
variable {cs before after : List Char} {c : Char} {n : Nat} {p : List Char → Bool}

/-- `str::len`. -/
def utf8Len (cs : List Char) : Nat := (cs.map Char.utf8Size).sum

@[simp] theorem utf8Len_nil : utf8Len [] = 0 := rfl

@[simp] theorem utf8Len_cons : utf8Len (c :: cs) = c.utf8Size + utf8Len cs := by
  rw [utf8Len, map_cons, sum_cons, ← utf8Len]

@[simp] theorem utf8Len_append (before after : List Char) :
    utf8Len (before ++ after) = utf8Len before + utf8Len after := by
  rw [utf8Len, map_append, sum_append, ← utf8Len, ← utf8Len]

theorem length_le_utf8Len (cs : List Char) : cs.length ≤ utf8Len cs := by
  induction cs with
  | nil => exact Nat.le_refl _
  | cons c cs ih =>
    have hc : 0 < c.utf8Size := c.utf8Size_pos
    rw [length_cons, utf8Len_cons]
    omega

/-- `&s[..n]` and `&s[n..]`, or the two `get`s. -/
def splitAtByte : List Char → Nat → Option (List Char × List Char)
  | cs, 0 => some ([], cs)
  | [], _ + 1 => none
  | c :: cs, n + 1 =>
    if c.utf8Size ≤ n + 1 then
      (splitAtByte cs (n + 1 - c.utf8Size)).map (fun parts => (c :: parts.1, parts.2))
    else none

theorem splitAtByte_zero (cs : List Char) : splitAtByte cs 0 = some ([], cs) := by
  unfold splitAtByte
  rfl

theorem splitAtByte_cons (h : c.utf8Size ≤ n) :
    splitAtByte (c :: cs) n =
      (splitAtByte cs (n - c.utf8Size)).map (fun parts => (c :: parts.1, parts.2)) := by
  have hc : 0 < c.utf8Size := c.utf8Size_pos
  cases n with
  | zero => omega
  | succ n => exact if_pos h

/-- A text can be cut behind any of its beginnings. -/
theorem splitAtByte_append (before after : List Char) :
    splitAtByte (before ++ after) (utf8Len before) = some (before, after) := by
  induction before with
  | nil => exact splitAtByte_zero after
  | cons c before ih =>
    rw [cons_append, utf8Len_cons, splitAtByte_cons (Nat.le_add_right _ _),
      Nat.add_sub_cancel_left, ih, Option.map_some]

theorem splitAtByte_some (h : splitAtByte cs n = some (before, after)) :
    cs = before ++ after ∧ n = utf8Len before := by
  induction cs generalizing n before with
  | nil =>
    cases n with
    | zero =>
      cases h
      exact ⟨rfl, rfl⟩
    | succ n => cases h
  | cons c cs ih =>
    cases n with
    | zero =>
      cases h
      exact ⟨rfl, rfl⟩
    | succ n =>
      unfold splitAtByte at h
      split at h
      · next hc =>
        obtain ⟨parts, hparts, heq⟩ := Option.map_eq_some_iff.mp h
        cases heq
        obtain ⟨hcs, hn⟩ := ih hparts
        refine ⟨by rw [cons_append, ← hcs], ?_⟩
        rw [utf8Len_cons, ← hn]
        omega
      · cases h

/-- `find`, by what is to stand at the place. -/
def findByte (p : List Char → Bool) : List Char → Option Nat
  | [] => if p [] then some 0 else none
  | c :: cs => if p (c :: cs) then some 0 else (findByte p cs).map (c.utf8Size + ·)

/-- What is found stands where the text can be cut, and nowhere before. -/
theorem findByte_some (h : findByte p cs = some n) :
    ∃ before after, cs = before ++ after ∧ n = utf8Len before ∧ p after = true ∧
      ∀ c rest, before = c :: rest → p cs = false := by
  induction cs generalizing n with
  | nil =>
    unfold findByte at h
    split at h
    · next hp =>
      cases h
      exact ⟨[], [], rfl, rfl, hp, nofun⟩
    · cases h
  | cons c cs ih =>
    unfold findByte at h
    split at h
    · next hp =>
      cases h
      exact ⟨[], c :: cs, rfl, rfl, hp, nofun⟩
    · next hp =>
      obtain ⟨m, hm, rfl⟩ := Option.map_eq_some_iff.mp h
      obtain ⟨before, after, rfl, rfl, hafter, _⟩ := ih hm
      exact ⟨c :: before, after, rfl, utf8Len_cons.symm, hafter,
        fun _ _ _ => Bool.eq_false_iff.mpr hp⟩

/-! Slices of characters. -/

variable {α : Type} {xs : List α} {a b i : Nat}

/-- `&xs[a..b]`. -/
def slice (xs : List α) (a b : Nat) : Option (List α) :=
  if a ≤ b ∧ b ≤ xs.length then some ((xs.take b).drop a) else none

theorem slice_of_le (hab : a ≤ b) (hb : b ≤ xs.length) :
    slice xs a b = some ((xs.take b).drop a) := if_pos ⟨hab, hb⟩

/-- The place of the first `x` from `start` on. -/
def findFrom [BEq α] (xs : List α) (start : Nat) (x : α) : Option Nat :=
  ((xs.drop start).findIdx? (· == x)).map (· + start)

theorem findFrom_some [BEq α] {start : Nat} {x : α} (h : findFrom xs start x = some i) :
    start ≤ i ∧ i < xs.length := by
  obtain ⟨k, hk, rfl⟩ := Option.map_eq_some_iff.mp h
  have hlt := (findIdx?_eq_some_iff_getElem.mp hk).1
  rw [length_drop] at hlt
  omega

/-- The place of the first run of `target` from `start` on (`windows`). -/
def findSequence [BEq α] (xs : List α) (start : Nat) (target : List α) : Option Nat :=
  ((xs.drop start).tails.findIdx? (fun tail => target.isPrefixOf tail)).map (· + start)

theorem findSequence_some [BEq α] [LawfulBEq α] {start : Nat} {target : List α} (htarget : target ≠ [])
    (h : findSequence xs start target = some i) : start ≤ i ∧ i + target.length ≤ xs.length := by
  obtain ⟨k, hk, rfl⟩ := Option.map_eq_some_iff.mp h
  obtain ⟨_, hprefixed, _⟩ := findIdx?_eq_some_iff_getElem.mp hk
  rw [ isPrefixOf_iff_prefix, getElem_tails] at hprefixed
  have hlen := hprefixed.length_le
  rw [length_drop, length_drop] at hlen
  have hpos : 0 < target.length := length_pos_iff.mpr htarget
  omega

end Text
