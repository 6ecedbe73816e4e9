import Mathlib.Algebra.BigOperators.Group.Finset.Basic
import Mathlib.Algebra.GroupWithZero.Nat
import Mathlib.Algebra.Order.BigOperators.Group.Finset
import OmenBrowser.Lib.Table

/- Putting a sequence back together from parts that come in any order.

   The front part that is complete is kept as one list, and parts behind it wait, each under its
   offset. As long as a part waits at the end of the front it joins the front. Two things are said of
   this. Whatever the parts are, a part that was taken is either in its place in the front or still
   waits (`Agrees`). And if the parts are the pieces of one sequence, the front is as long as the
   pieces reach without a gap (`Holds`). -/
namespace Reassembly
open Sql Table Finset
variable {α : Type}
  {row : Nat × List α} {k : Nat}

structure Assembly (α : Type) where
  bytes : List α
  pendingChunks : Table (Prod.fst : Nat × List α → Nat)

namespace Assembly

def empty : Assembly α := ⟨[], .empty⟩

/-- All that is kept. -/
def retained (a : Assembly α) : Nat :=
  a.bytes.length + (a.pendingChunks.rows.map fun row => row.2.length).sum

/-- The part that waits at the end of the front joins it, as often as may be. -/
def absorb : Nat → Assembly α → Assembly α
  | 0, a => a
  | fuel + 1, a =>
    match a.pendingChunks.find? a.bytes.length with
    | none => a
    | some row =>
      absorb fuel
        { bytes := a.bytes ++ row.2
          pendingChunks := a.pendingChunks.deleteWhere fun r => r.1 == a.bytes.length }

/-- A part that waits, unless one waits there already. -/
def wait (a : Assembly α) (offset : Nat) (chunk : List α) : Assembly α :=
  { a with pendingChunks := a.pendingChunks.insertOrIgnore (offset, chunk) }

/-! Parts that were taken. -/

/-- A part is in its place, or waits. -/
def Agrees (a : Assembly α) (part : Nat × List α) : Prop :=
  (part.1 + part.2.length ≤ a.bytes.length ∧ (a.bytes.drop part.1).take part.2.length = part.2) ∨
    part ∈ a.pendingChunks.rows

variable {a : Assembly α} {part : Nat × List α}

/-- What is in its place stays there. -/
theorem agrees_append (more : List α) (rest : Table (Prod.fst : Nat × List α → Nat))
    (h : part.1 + part.2.length ≤ a.bytes.length ∧
      (a.bytes.drop part.1).take part.2.length = part.2) :
    Agrees ⟨a.bytes ++ more, rest⟩ part := by
  refine .inl ⟨?_, ?_⟩
  · rw [List.length_append]
    omega
  · have hdrop : part.1 ≤ a.bytes.length := by omega
    rw [List.drop_append_of_le_length hdrop, List.take_append_of_le_length]
    · exact h.2
    · rw [List.length_drop]
      omega

theorem agrees_absorb (fuel : Nat) (h : Agrees a part) : Agrees (absorb fuel a) part := by
  induction fuel generalizing a with
  | zero => exact h
  | succ fuel ih =>
    unfold absorb
    split
    · exact h
    · next row hfind =>
      obtain ⟨-, hkey⟩ := find?_eq_some.mp hfind
      apply ih
      rcases h with hplaced | hwaits
      · exact agrees_append _ _ hplaced
      · by_cases hrow : part.1 = a.bytes.length
        · -- the part that joins the front
          have hpart : part = row := eq_of_key hwaits
            (find?_eq_some.mp hfind).1 (hrow.trans hkey.symm)
          subst hpart
          refine .inl ⟨?_, ?_⟩
          · rw [List.length_append, hrow]
          · rw [hrow, List.drop_left, List.take_length]
        · exact .inr (mem_deleteWhere.mpr ⟨hwaits, by simpa using hrow⟩)

/-- A row and the rest of a table make up its sum. -/
theorem sum_deleteWhere {t : Table (Prod.fst : Nat × List α → Nat)} (h : row ∈ t.rows) :
    row.2.length + ((t.deleteWhere fun r => r.1 == row.1).rows.map fun r => r.2.length).sum =
      (t.rows.map fun r => r.2.length).sum := by
  obtain ⟨rows, hunique⟩ := t
  simp only [deleteWhere] at h ⊢
  induction rows with
  | nil => exact absurd h List.not_mem_nil
  | cons first rows ih =>
    rw [List.map_cons, List.nodup_cons] at hunique
    rcases List.mem_cons.mp h with rfl | hmem
    · have hrest : rows.filter (fun r => !(r.1 == row.1)) = rows := by
        rw [List.filter_eq_self]
        intro r hr
        have hne : r.1 ≠ row.1 := fun heq => hunique.1 (heq ▸ List.mem_map_of_mem hr)
        simpa using hne
      simp [hrest]
    · have hne : first.1 ≠ row.1 := fun heq => hunique.1 (heq ▸ List.mem_map_of_mem hmem)
      have hlater := ih hunique.2 hmem
      have hkeep : (!(first.1 == row.1)) = true := by simpa using hne
      simp only [List.filter_cons, hkeep, if_true, List.map_cons, List.sum_cons]
      omega

theorem retained_absorb (fuel : Nat) (a : Assembly α) : (absorb fuel a).retained = a.retained := by
  induction fuel generalizing a with
  | zero => rfl
  | succ fuel ih =>
    unfold absorb
    split
    · rfl
    · next row hfind =>
      obtain ⟨hmem, hkey⟩ := find?_eq_some.mp hfind
      have hsum := sum_deleteWhere hmem
      rw [ih]
      simp only [retained, List.length_append, ← hkey]
      omega

/-- Once the front is all that is kept, every part that was taken is in its place. -/
theorem placed_of_full (h : Agrees a part) (hfull : a.retained ≤ a.bytes.length) :
    (a.bytes.drop part.1).take part.2.length = part.2 := by
  rcases h with hplaced | hwaits
  · exact hplaced.2
  · have hle : part.2.length ≤ (a.pendingChunks.rows.map fun row => row.2.length).sum :=
      List.single_le_sum (fun _ _ => Nat.zero_le _) _
        (List.mem_map_of_mem (f := fun row => row.2.length) hwaits)
    have hnil : part.2 = [] := by
      apply List.length_eq_zero_iff.mp
      unfold retained at hfull
      omega
    simp [hnil]

theorem retained_wait {offset : Nat} {chunk : List α}
    (hfree : a.pendingChunks.find? offset = none) :
    (a.wait offset chunk).retained = a.retained + chunk.length ∧
      (a.wait offset chunk).pendingChunks.rows = (offset, chunk) :: a.pendingChunks.rows := by
  have hrows : (a.pendingChunks.insertOrIgnore (offset, chunk)).rows =
      (offset, chunk) :: a.pendingChunks.rows := by
    obtain ⟨t, ht⟩ := exists_insert (t := a.pendingChunks) (r := (offset, chunk))
      (find?_eq_none.mp hfree)
    rw [insertOrIgnore, ht]
    exact (insert_ok.mp ht).1
  refine ⟨?_, hrows⟩
  simp only [wait, retained, hrows, List.map_cons, List.sum_cons]
  omega

end Assembly

/-! Pieces of one sequence. -/

section Pieces
variable (data : List α) (size : Nat)

def piece (k : Nat) : List α := (data.drop (size * k)).take size

/-- How many pieces there are, and one if there is nothing. -/
def pieceCount : Nat := max 1 ((data.length + size - 1) / size)

variable {data size}

theorem length_piece (k : Nat) :
    (piece data size k).length = min size (data.length - size * k) := by
  rw [piece, List.length_take, List.length_drop]

theorem take_succ_piece (k : Nat) :
    data.take (size * k) ++ piece data size k = data.take (size * (k + 1)) := by
  rw [piece, Nat.mul_succ, List.take_add]

theorem sum_length_piece (m : Nat) :
    ∑ k ∈ range m, (piece data size k).length = min (size * m) data.length := by
  induction m with
  | zero => simp
  | succ m ih =>
    rw [sum_range_succ, ih, length_piece, Nat.mul_succ]
    omega

theorem length_le_pieceCount (hsize : 0 < size) :
    data.length ≤ size * pieceCount data size := by
  have hceil : data.length ≤ size * ((data.length + size - 1) / size) := by
    have hmod := Nat.mod_lt (data.length + size - 1) hsize
    have hdiv := Nat.div_add_mod (data.length + size - 1) size
    omega
  exact hceil.trans (Nat.mul_le_mul_left size (Nat.le_max_right _ _))

theorem pieceCount_of_nil (hsize : 0 < size) (h : data.length = 0) : pieceCount data size = 1 := by
  have hdiv : (size - 1) / size = 0 := Nat.div_eq_of_lt (by omega)
  rw [pieceCount, h, Nat.zero_add, hdiv]
  rfl

/-- A piece but the first begins within the sequence. -/
theorem offset_lt (hsize : 0 < size) (hk : k < pieceCount data size) (hpos : 0 < k) :
    size * k < data.length := by
  have hlt : k < (data.length + size - 1) / size := by
    unfold pieceCount at hk
    omega
  have hle := Nat.mul_le_of_le_div size k.succ _ hlt
  rw [Nat.succ_mul, Nat.mul_comm k size] at hle
  omega

theorem offset_le (hsize : 0 < size) (hk : k < pieceCount data size) : size * k ≤ data.length := by
  rcases Nat.eq_zero_or_pos k with rfl | hpos
  · simp
  · exact (offset_lt hsize hk hpos).le

/-- The front is all pieces up to one, and the taken pieces from there on wait. -/
structure Holds (data : List α) (size : Nat) (taken : Finset Nat) (p : Nat)
    (a : Assembly α) : Prop where
  front : a.bytes = data.take (size * p)
  reached : ∀ k < p, k ∈ taken
  waiting : ∀ row, row ∈ a.pendingChunks.rows ↔
    ∃ k ∈ taken, p ≤ k ∧ row = (size * k, piece data size k)

variable {taken : Finset Nat} {p : Nat} {a : Assembly α}

theorem Holds.start : Holds data size ∅ 0 (Assembly.empty : Assembly α) where
  front := by simp [Assembly.empty]
  reached := fun _ h => absurd h (Nat.not_lt_zero _)
  waiting := fun row => by simp [Assembly.empty, empty]

variable (h : Holds data size taken p a)
include h

variable (hsize : 0 < size)
include hsize

/-- The piece that waits at the end of the front is the next one. -/
theorem Holds.next
    (hfind : a.pendingChunks.find? a.bytes.length = some row) :
    p ∈ taken ∧ row = (size * p, piece data size p) ∧ a.bytes.length = size * p := by
  obtain ⟨hmem, hkey⟩ := find?_eq_some.mp hfind
  obtain ⟨k, hk, hle, rfl⟩ := (h.waiting row).mp hmem
  simp only [h.front, List.length_take] at hkey
  have hkp : k = p := by
    have hmul : size * k ≤ size * p := hkey ▸ Nat.min_le_left _ _
    exact Nat.le_antisymm (Nat.le_of_mul_le_mul_left hmul hsize) hle
  subst hkp
  refine ⟨hk, rfl, ?_⟩
  rw [h.front, List.length_take, ← hkey]

/-- Parts join the front until a piece is missing. -/
theorem Holds.absorb
    (hin : ∀ k ∈ taken, k < pieceCount data size) (fuel : Nat) :
    ∃ p', Holds data size taken p' (a.absorb fuel) ∧
      (a.pendingChunks.rows.length ≤ fuel → p' ∉ taken) := by
  -- each round takes one waiting piece, so as many rounds as pieces are enough
  induction fuel generalizing a p with
  | zero =>
    refine ⟨p, h, fun hle hp => ?_⟩
    have hnil := List.length_eq_zero_iff.mp (Nat.le_zero.mp hle)
    have hmem := (h.waiting _).mpr ⟨p, hp, Nat.le_refl p, rfl⟩
    rw [hnil] at hmem
    cases hmem
  | succ fuel ih =>
    unfold Assembly.absorb
    split
    · next hfind =>
      refine ⟨p, h, fun _ hp => ?_⟩
      have hmem := (h.waiting _).mpr ⟨p, hp, Nat.le_refl p, rfl⟩
      apply find?_eq_none.mp hfind _ hmem
      rw [h.front, List.length_take, Nat.min_eq_left (offset_le hsize (hin p hp))]
    · next row hfind =>
      obtain ⟨hp, rfl, hlen⟩ := h.next hsize hfind
      -- the piece at the front joins it, and waits no more
      have hnext : Holds data size taken (p + 1)
          { bytes := a.bytes ++ piece data size p
            pendingChunks := a.pendingChunks.deleteWhere fun r => r.1 == a.bytes.length } := by
        refine ⟨?_, ?_, ?_⟩
        · rw [h.front, take_succ_piece]
        · intro k hk
          rcases Nat.lt_succ_iff_lt_or_eq.mp hk with hlt | rfl
          · exact h.reached k hlt
          · exact hp
        · intro row
          rw [mem_deleteWhere, h.waiting, hlen]
          constructor
          · intro ⟨⟨k, hk, hle, hrow⟩, hne⟩
            subst hrow
            refine ⟨k, hk, ?_, rfl⟩
            rcases Nat.lt_or_eq_of_le hle with hlt | rfl
            · exact hlt
            · simp at hne
          · intro ⟨k, hk, hle, hrow⟩
            subst hrow
            refine ⟨⟨k, hk, by omega, rfl⟩, ?_⟩
            have hne : size * k ≠ size * p := fun heq => by
              have := Nat.eq_of_mul_eq_mul_left hsize heq
              omega
            simpa using hne
      obtain ⟨p', hp', hstop⟩ := ih hnext
      refine ⟨p', hp', fun hle => hstop ?_⟩
      have hshorter : (a.pendingChunks.deleteWhere fun r => r.1 == a.bytes.length).rows.length <
          a.pendingChunks.rows.length := by
        apply List.length_filter_lt_length_iff_exists.mpr
        exact ⟨_, (h.waiting _).mpr ⟨p, hp, Nat.le_refl p, rfl⟩, by simp [hlen]⟩
      simp only
      omega

/-- The parts that wait are as many as the pieces they are. -/
theorem Holds.sum_waiting :
    (a.pendingChunks.rows.map fun row => row.2.length).sum =
        ∑ k ∈ taken.filter (p ≤ ·), (piece data size k).length ∧
      a.pendingChunks.rows.length = (taken.filter (p ≤ ·)).card := by
  classical
  have hinj : Set.InjOn (fun k => (size * k, piece data size k))
      (taken.filter (p ≤ ·) : Finset Nat) := by
    intro j _ k _ heq
    exact Nat.eq_of_mul_eq_mul_left hsize (Prod.mk.inj heq).1
  have hrows : a.pendingChunks.rows.toFinset =
      (taken.filter (p ≤ ·)).image fun k => (size * k, piece data size k) := by
    ext row
    rw [List.mem_toFinset, h.waiting, mem_image]
    constructor
    · intro ⟨k, hk, hle, hrow⟩
      exact ⟨k, mem_filter.mpr ⟨hk, hle⟩, hrow.symm⟩
    · intro ⟨k, hk, hrow⟩
      exact ⟨k, (mem_filter.mp hk).1, (mem_filter.mp hk).2, hrow.symm⟩
  have hnodup := a.pendingChunks.nodup_rows
  refine ⟨?_, ?_⟩
  · rw [← List.sum_toFinset _ hnodup, hrows, sum_image hinj]
  · rw [← List.toFinset_card_of_nodup hnodup, hrows, card_image_of_injOn hinj]

/-- Everything kept is the pieces taken. -/
theorem Holds.retained :
    a.retained = ∑ k ∈ taken, (piece data size k).length := by
  have hsplit : range p ∪ taken.filter (p ≤ ·) = taken := by
    ext k
    simp only [mem_union, mem_range, mem_filter]
    constructor
    · rintro (hk | hk)
      · exact h.reached k hk
      · exact hk.1
    · intro hk
      rcases Nat.lt_or_ge k p with hlt | hge
      · exact .inl hlt
      · exact .inr ⟨hk, hge⟩
  have hdisjoint : Disjoint (range p) (taken.filter (p ≤ ·)) := by
    rw [disjoint_left]
    intro k hk hmem
    have hge := (mem_filter.mp hmem).2
    have hlt := mem_range.mp hk
    omega
  rw [Assembly.retained, (h.sum_waiting hsize).1, h.front, List.length_take, ← sum_length_piece,
    ← sum_union hdisjoint, hsplit]

/-- There is room for a piece that was not taken. -/
theorem Holds.room
    (hin : ∀ k ∈ taken, k < pieceCount data size) (hk : k < pieceCount data size) (hnew : k ∉ taken)
    : a.retained + (piece data size k).length ≤ data.length := by
  have hsub : insert k taken ⊆ range (pieceCount data size) := by
    intro j hj
    rcases mem_insert.mp hj with rfl | hj
    · exact mem_range.mpr hk
    · exact mem_range.mpr (hin j hj)
  have hle : ∑ j ∈ insert k taken, (piece data size j).length ≤
      ∑ j ∈ range (pieceCount data size), (piece data size j).length :=
    sum_le_sum_of_subset hsub
  rw [sum_insert hnew, sum_length_piece, ← h.retained hsize] at hle
  omega

/-- Fewer parts wait than there are pieces. -/
theorem Holds.length_waiting
    (hin : ∀ k ∈ taken, k < pieceCount data size) :
    a.pendingChunks.rows.length ≤ pieceCount data size := by
  rw [(h.sum_waiting hsize).2]
  have hsub : taken.filter (p ≤ ·) ⊆ range (pieceCount data size) := by
    intro k hk
    exact mem_range.mpr (hin k (mem_filter.mp hk).1)
  calc (taken.filter (p ≤ ·)).card
      ≤ (range (pieceCount data size)).card := card_le_card hsub
    _ = pieceCount data size := card_range _

/-- No part waits in the place of a piece that was not taken. -/
theorem Holds.free (hnew : k ∉ taken) :
    a.pendingChunks.find? (size * k) = none := by
  rw [find?_eq_none]
  intro row hrow hkey
  obtain ⟨j, hj, -, rfl⟩ := (h.waiting row).mp hrow
  exact hnew (Nat.eq_of_mul_eq_mul_left hsize hkey ▸ hj)

/-- A new piece is taken to wait. -/
theorem Holds.wait (hnew : k ∉ taken)
    (hk : p ≤ k) : Holds data size (insert k taken) p (a.wait (size * k) (piece data size k)) := by
  have hfree := h.free hsize hnew
  refine ⟨h.front, fun j hj => mem_insert_of_mem (h.reached j hj), ?_⟩
  intro row
  rw [(Assembly.retained_wait hfree).2, List.mem_cons, h.waiting]
  constructor
  · rintro (rfl | ⟨j, hj, hle, rfl⟩)
    · exact ⟨k, mem_insert_self k taken, hk, rfl⟩
    · exact ⟨j, mem_insert_of_mem hj, hle, rfl⟩
  · intro ⟨j, hj, hle, hrow⟩
    rcases mem_insert.mp hj with rfl | hj
    · exact .inl hrow
    · exact .inr ⟨j, hj, hle, hrow⟩

/-- A piece in front of a missing one is in its place. -/
theorem Holds.placed
    (hin : ∀ k ∈ taken, k < pieceCount data size) (hk : k < p) :
    size * k + (piece data size k).length ≤ a.bytes.length ∧
      (a.bytes.drop (size * k)).take (piece data size k).length = piece data size k := by
  have hmul : size * (k + 1) ≤ size * p := Nat.mul_le_mul_left size hk
  rw [Nat.mul_succ] at hmul
  have hoff := offset_le hsize (hin k (h.reached k hk))
  have hlen : (piece data size k).length = _ := length_piece k
  refine ⟨?_, ?_⟩
  · rw [h.front, List.length_take]
    omega
  · rw [h.front, List.drop_take, List.take_take]
    apply List.take_eq_take_iff.mpr
    rw [List.length_drop]
    omega

/-- The front is all there is exactly when all pieces are taken. -/
theorem Holds.complete_iff
    (hin : ∀ k ∈ taken, k < pieceCount data size) (hstop : p ∉ taken) (hsome : taken.Nonempty) :
    a.bytes.length = data.length ↔ ∀ k < pieceCount data size, k ∈ taken := by
  rw [h.front, List.length_take]
  constructor
  · intro hfull k hk
    by_contra hno
    have hpk : p ≤ k := Nat.le_of_not_lt fun hlt => hno (h.reached k hlt)
    rcases Nat.eq_zero_or_pos p with rfl | hpos
    · -- nothing has reached the front, so there is nothing, and one empty piece
      have hnil : data.length = 0 := by omega
      have hone := pieceCount_of_nil hsize hnil
      obtain ⟨j, hj⟩ := hsome
      have hjlt := hin j hj
      have hjk : j = k := by omega
      exact hno (hjk ▸ hj)
    · have hlt := offset_lt hsize (Nat.lt_of_le_of_lt hpk hk) hpos
      omega
  · intro hall
    have hge : pieceCount data size ≤ p := Nat.le_of_not_lt fun hlt => hstop (hall p hlt)
    have hmul := Nat.mul_le_mul_left size hge
    have hle : data.length ≤ size * pieceCount data size := length_le_pieceCount hsize
    omega

end Pieces
end Reassembly
