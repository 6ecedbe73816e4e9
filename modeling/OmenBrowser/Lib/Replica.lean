import Mathlib.Data.List.Basic
import Mathlib.Order.Basic

/- A replica of registers.

   A source writes registers one after the other and keeps the writes in a log; `valueAt` is what a
   register holds after the first `n` of them. A replica is told, of some registers, what they hold
   at a version, and shows for each register a version of it (`Shows`). A telling that leaves out no
   write the replica has shown moves no register back (`Shows.told`); a write that a register does
   not see leaves its value as it is (`valueAt_of_unwritten`). -/
namespace Replica

variable {version : Nat}

structure Write (κ ν : Type) where
  key : κ
  value : Option ν

variable {κ ν : Type}

/-- None of the writes `lo ≤ i < hi` is to the register. -/
def Unwritten (log : List (Write κ ν)) (lo hi : Nat) (k : κ) : Prop :=
  ∀ i w, lo ≤ i → i < hi → log[i]? = some w → w.key ≠ k

variable {log : List (Write κ ν)} {n m lo hi : Nat} {k : κ} {w : Write κ ν}

theorem Unwritten.mono {lo' hi' : Nat} (h : Unwritten log lo hi k) (hlo : lo ≤ lo')
    (hhi : hi' ≤ hi) : Unwritten log lo' hi' k := by
  intro i w hle hlt hw
  exact h i w (Nat.le_trans hlo hle) (Nat.lt_of_lt_of_le hlt hhi) hw

theorem unwritten_of_le (h : hi ≤ lo) : Unwritten log lo hi k := by
  intro i w hle hlt _
  omega

theorem Unwritten.succ (h : Unwritten log lo n k) (hw : log[n]? = some w) (hkey : w.key ≠ k) :
    Unwritten log lo (n + 1) k := by
  intro i w' hle hlt hw'
  rcases Nat.lt_succ_iff_lt_or_eq.mp hlt with hlt | rfl
  · exact h i w' hle hlt hw'
  · rw [hw] at hw'
    rwa [← Option.some.inj hw']

theorem Unwritten.append (h : Unwritten log lo hi k) (hhi : hi ≤ log.length)
    (ws : List (Write κ ν)) : Unwritten (log ++ ws) lo hi k := by
  intro i w hle hlt hw
  rw [List.getElem?_append_left (Nat.lt_of_lt_of_le hlt hhi)] at hw
  exact h i w hle hlt hw

/-! Versions. -/

/-- The versions shown after registers are told of at a version. -/
def told (covers : κ → Prop) [DecidablePred covers] (version : Nat) (shown : κ → Nat) (k : κ) : Nat :=
  if covers k then max (shown k) version else shown k

section Told
variable {shown : κ → Nat} {covers : κ → Prop} [DecidablePred covers]

/-- No register is moved back. -/
theorem le_told (version : Nat) (k : κ) : shown k ≤ told covers version shown k := by
  unfold told
  split
  · exact Nat.le_max_left _ _
  · exact Nat.le_refl _

theorem told_of_covers (h : covers k) :
    told covers version shown k = max (shown k) version := if_pos h

theorem told_of_not (h : ¬covers k) : told covers version shown k = shown k :=
  if_neg h

/-- One register is told of. -/
theorem told_one [DecidableEq κ] {k' : κ} (h : k = k') :
    told (· = k') version shown k = max (shown k) version := if_pos h

theorem told_one_other [DecidableEq κ] {k' : κ} (h : k ≠ k') :
    told (· = k') version shown k = shown k := if_neg h

end Told

/-! Values. -/

variable [DecidableEq κ]

/-- What a register holds after the first `n` writes. -/
def valueAt (log : List (Write κ ν)) (n : Nat) (k : κ) : Option ν :=
  (log.take n).foldl (fun value w => if w.key = k then w.value else value) none

theorem valueAt_zero : valueAt log 0 k = none := by
  rw [valueAt, List.take_zero, List.foldl_nil]

theorem valueAt_succ (h : log[n]? = some w) :
    valueAt log (n + 1) k = if w.key = k then w.value else valueAt log n k := by
  rw [valueAt, List.take_add_one, h, Option.toList_some, List.foldl_append, List.foldl_cons,
    List.foldl_nil, ← valueAt]

theorem valueAt_append (h : n ≤ log.length) (ws : List (Write κ ν)) :
    valueAt (log ++ ws) n k = valueAt log n k := by
  rw [valueAt, List.take_append_of_le_length h, ← valueAt]

theorem valueAt_of_unwritten (hle : n ≤ m) (hm : m ≤ log.length) (h : Unwritten log n m k) :
    valueAt log m k = valueAt log n k := by
  induction m with
  | zero => rw [Nat.le_zero.mp hle]
  | succ m ih =>
    rcases Nat.lt_or_eq_of_le hle with hlt | rfl
    · have hw : log[m]? = some log[m] := List.getElem?_eq_getElem hm
      rw [valueAt_succ hw, if_neg (h m _ (Nat.le_of_lt_succ hlt) (Nat.lt_succ_self m) hw)]
      exact ih (Nat.le_of_lt_succ hlt) (Nat.le_of_lt hm) (h.mono (Nat.le_refl n) (Nat.le_succ m))
    · rfl

/-- A register that holds a value was written with it last. -/
theorem exists_last_write {v : ν} (hn : n ≤ log.length) (h : valueAt log n k = some v) :
    ∃ i w, i < n ∧ log[i]? = some w ∧ w.key = k ∧ w.value = some v ∧ Unwritten log (i + 1) n k := by
  induction n with
  | zero =>
    rw [valueAt_zero] at h
    cases h
  | succ n ih =>
    have hw : log[n]? = some log[n] := List.getElem?_eq_getElem hn
    rw [valueAt_succ hw] at h
    split at h
    · next hkey =>
      exact ⟨n, _, Nat.lt_succ_self n, hw, hkey, h, unwritten_of_le (Nat.le_refl _)⟩
    · next hkey =>
      obtain ⟨i, w, hlt, hwi, hkeyi, hvalue, hrest⟩ := ih (Nat.le_of_lt hn) h
      exact ⟨i, w, Nat.lt_succ_of_lt hlt, hwi, hkeyi, hvalue, hrest.succ hw hkey⟩

/-- A register that holds nothing was not written, if it was never cleared. -/
theorem unwritten_of_none (hn : n ≤ log.length) (hsome : ∀ w ∈ log, w.key = k → w.value ≠ none)
    (h : valueAt log n k = none) : Unwritten log 0 n k := by
  induction n with
  | zero => exact unwritten_of_le (Nat.le_refl 0)
  | succ n ih =>
    have hw : log[n]? = some log[n] := List.getElem?_eq_getElem hn
    rw [valueAt_succ hw] at h
    split at h
    · next hkey => exact absurd h (hsome _ (List.getElem_mem hn) hkey)
    · next hkey => exact (ih (Nat.le_of_lt hn) h).succ hw hkey

/-! What a replica shows. -/

/-- The replica holds, of each register, what it held at the version shown. -/
structure Shows (log : List (Write κ ν)) (store : κ → Option ν) (shown : κ → Nat) : Prop where
  within : ∀ k, shown k ≤ log.length
  value : ∀ k, store k = valueAt log (shown k) k

variable {store store' : κ → Option ν} {shown : κ → Nat} {covers : κ → Prop} [DecidablePred covers]

theorem Shows.append (h : Shows log store shown) (ws : List (Write κ ν)) :
    Shows (log ++ ws) store shown where
  within k := by
    rw [List.length_append]
    exact Nat.le_trans (h.within k) (Nat.le_add_right _ _)
  value k := by rw [h.value k, valueAt_append (h.within k)]

/-- A telling that leaves out no write that is shown gives every register a version again. -/
theorem Shows.told (h : Shows log store shown) (hn : n ≤ log.length)
    (hfresh : ∀ k, covers k → Unwritten log n (shown k) k)
    (hcovered : ∀ k, covers k → store' k = valueAt log n k)
    (hother : ∀ k, ¬covers k → store' k = store k) :
    Shows log store' (told covers n shown) where
  within k := by
    unfold Replica.told
    split
    · exact Nat.max_le.mpr ⟨h.within k, hn⟩
    · exact h.within k
  value k := by
    by_cases hk : covers k
    · rw [told_of_covers hk, hcovered k hk]
      rcases Nat.le_total (shown k) n with hle | hle
      · rw [Nat.max_eq_right hle]
      · rw [Nat.max_eq_left hle]
        exact (valueAt_of_unwritten hle (h.within k) (hfresh k hk)).symm
    · rw [told_of_not hk, hother k hk, h.value k]

end Replica
