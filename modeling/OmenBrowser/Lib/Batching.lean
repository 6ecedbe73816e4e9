import Mathlib.Data.List.Basic
import Mathlib.Tactic.Common

/- Cutting a list into batches, and parking what is large under keys.

   `cut` is the greedy cut: a batch grows while there is room, and every batch has an
   element even when that one alone is too much. Nothing is lost or reordered by it.

   A value that is parked under a key takes the place of what was parked there before. So
   of a list of values that are all parked before any is collected, each key gives the
   last: everyone gets their own back exactly when no two share a key and differ. -/
namespace Batching
open List
variable {α β κ : Type}
  {l : List α}

/-! The greedy cut. -/

/-- The batch in hand, and what is still to be cut. -/
def cut (full : List α → Bool) : List α → List α → List (List α)
  | batch, [] => if batch.isEmpty then [] else [batch]
  | batch, a :: rest =>
    if !batch.isEmpty && full (batch ++ [a]) then batch :: cut full [a] rest
    else cut full (batch ++ [a]) rest

section Cut
variable {full : List α → Bool}

/-- The batches put together are what was cut. -/
theorem cut_flatten (batch l : List α) : (cut full batch l).flatten = batch ++ l := by
  induction l generalizing batch with
  | nil =>
    unfold cut
    split
    · next h => simp [isEmpty_iff.mp h]
    · simp
  | cons a l ih =>
    unfold cut
    split
    · rw [flatten_cons, ih]
      simp
    · rw [ih]
      simp

theorem cut_ne_nil (batch l : List α) : ∀ b ∈ cut full batch l, b ≠ [] := by
  induction l generalizing batch with
  | nil =>
    intro b hb
    unfold cut at hb
    split at hb
    · simp at hb
    · next h =>
      obtain rfl := mem_singleton.mp hb
      simpa using h
  | cons a l ih =>
    intro b hb
    unfold cut at hb
    split at hb
    · next h =>
      rcases mem_cons.mp hb with rfl | hb
      · simpa using ((Bool.and_eq_true _ _).mp h).1
      · exact ih _ b hb
    · exact ih _ b hb

/-- A batch of more than one element is not too much. -/
theorem cut_room (batch l : List α) (hbatch : batch.length ≤ 1 ∨ full batch = false) :
    ∀ b ∈ cut full batch l, b.length ≤ 1 ∨ full b = false := by
  induction l generalizing batch with
  | nil =>
    intro b hb
    unfold cut at hb
    split at hb
    · simp at hb
    · rwa [mem_singleton.mp hb]
  | cons a l ih =>
    intro b hb
    unfold cut at hb
    split at hb
    · rcases mem_cons.mp hb with rfl | hb
      · exact hbatch
      · exact ih [a] (.inl (by simp)) b hb
    · next h =>
      refine ih (batch ++ [a]) ?_ b hb
      cases hempty : batch.isEmpty with
      | true =>
        rw [isEmpty_iff.mp hempty]
        exact .inl (by simp)
      | false => simpa [hempty] using Or.inr h

/-- A batch that is too much is of one element. -/
theorem cut_large {b : List α} (hb : b ∈ cut full [] l) (h : full b = true) : b.length = 1 := by
  have hne := cut_ne_nil [] l b hb
  rcases cut_room [] l (.inl (by simp)) b hb with hlen | hroom
  · have := length_pos_iff.mpr hne
    omega
  · rw [h] at hroom
    cases hroom

end Cut

/-! Parking. -/

section Parking
variable [DecidableEq κ] (key : α → κ)

/-- The last of the list with this key. -/
def latest (l : List α) (k : κ) : Option α := l.reverse.find? (fun a => key a = k)

variable {key}

theorem latest_mem {k : κ} {a : α} (h : latest key l k = some a) : a ∈ l ∧ key a = k := by
  refine ⟨mem_reverse.mp (mem_of_find?_eq_some h), ?_⟩
  have hkey := find?_some h
  simpa using hkey

variable (key) in
theorem latest_isSome {a : α} (h : a ∈ l) : ∃ b, latest key l (key a) = some b := by
  apply Option.isSome_iff_exists.mp
  apply find?_isSome.mpr
  exact ⟨a, mem_reverse.mpr h, by simp⟩

theorem latest_cons (a : α) (l : List α) (k : κ) :
    latest key (a :: l) k = (latest key l k).or (if key a = k then some a else none) := by
  unfold latest
  rw [reverse_cons, find?_append]
  congr 1
  split
  · next h => simp [h]
  · next h => simp [h]

variable (key) in
/-- Everyone gets their own value back iff no two with one key differ. -/
theorem latest_own (value : α → β) (l : List α) :
    (∀ a ∈ l, ∀ b, latest key l (key a) = some b → value b = value a) ↔
      ∀ a ∈ l, ∀ b ∈ l, key a = key b → value a = value b := by
  constructor
  · intro h a ha b hb hkey
    obtain ⟨c, hc⟩ := latest_isSome key ha
    calc value a = value c := (h a ha c hc).symm
      _ = value b := h b hb c (hkey ▸ hc)
  · intro h a ha b hb
    obtain ⟨hmem, hkey⟩ := latest_mem hb
    exact h b hmem a ha hkey

end Parking
end Batching
