import Mathlib.Algebra.GroupWithZero.Nat
import Mathlib.Algebra.Order.BigOperators.Group.List
import Mathlib.Algebra.Order.Group.Nat
import OmenBrowser.Lib.Table

/- Tables that are pruned.

   Rows go for two reasons. `batch` names the rows of a condition that one statement
   deletes, the first `limit` in an order. `evict` is a loop: as long as the table does
   not fit, the first of the rows that may go is deleted, until nothing more may be
   pruned. Both delete rows of the table and add none, and the loop deletes only rows
   that are free to go; it ends at once on a table that fits, and after one row on a
   table that fits without it. Limits on the number of rows and on their bytes are met
   by what is left, and by one row more where there is room for it. -/
namespace Sql.Table
open List
variable {ρ κ : Type} {key : ρ → κ}

/-! Limits. -/

section
variable {rows rows' : List ρ} {p : ρ → Bool} {limit : Int}

theorem countP_le_of_sublist (hsub : rows'.Sublist rows) (h : (rows.countP p : Int) ≤ limit) :
    (rows'.countP p : Int) ≤ limit :=
  (Int.ofNat_le.mpr hsub.countP_le).trans h

theorem length_le_of_sublist (hsub : rows'.Sublist rows) (h : (rows.length : Int) ≤ limit) :
    (rows'.length : Int) ≤ limit :=
  (Int.ofNat_le.mpr hsub.length_le).trans h

theorem sum_le_of_sublist (bytes : ρ → Nat) (hsub : rows'.Sublist rows)
    (h : ((rows.map bytes).sum : Int) ≤ limit) : ((rows'.map bytes).sum : Int) ≤ limit := by
  have hle := (hsub.map bytes).sum_le_sum fun _ _ => Nat.zero_le _
  exact (Int.ofNat_le.mpr hle).trans h

/-- A new row counts where it meets the condition. -/
theorem countP_cons_le {r : ρ} (h : (rows.countP p : Int) ≤ limit)
    (hone : p r = true → (rows.countP p : Int) + 1 ≤ limit) :
    ((r :: rows).countP p : Int) ≤ limit := by
  cases hp : p r with
  | true =>
    rw [countP_cons_of_pos hp]
    exact hone hp
  | false =>
    rw [countP_cons_of_neg (Bool.not_eq_true _ ▸ hp)]
    exact h

end

/-! Batches. -/

/-- The rows of a condition, in an order, up to a limit. -/
def batch (t : Table key) (cmp : ρ → ρ → Ordering) (p : ρ → Bool) (limit : Nat) : List ρ :=
  (orderBy cmp (t.rows.filter p)).take limit

section
variable {t : Table key} {r v : ρ} {cmp : ρ → ρ → Ordering} {p : ρ → Bool} {limit : Nat}

theorem mem_of_mem_batch (h : r ∈ t.batch cmp p limit) : r ∈ t.rows ∧ p r = true :=
  mem_filter.mp (mem_orderBy.mp (mem_of_mem_take h))

theorem length_batch : (t.batch cmp p limit).length = min limit (t.rows.countP p) := by
  rw [batch, length_take, (perm_orderBy cmp _).length_eq, countP_eq_length_filter]

/-- A batch below its limit has all the rows of its condition. -/
theorem mem_batch_of_lt (h : (t.batch cmp p limit).length < limit) (hr : r ∈ t.rows)
    (hp : p r = true) : r ∈ t.batch cmp p limit := by
  have hall : t.batch cmp p limit = orderBy cmp (t.rows.filter p) := by
    apply take_of_length_le
    rw [batch, length_take] at h
    omega
  rw [hall, mem_orderBy]
  exact mem_filter.mpr ⟨hr, hp⟩

theorem nodup_batch (t : Table key) (cmp : ρ → ρ → Ordering) (p : ρ → Bool) (limit : Nat) :
    (t.batch cmp p limit).Nodup := by
  have hrows : (t.rows.filter p).Nodup := t.nodup_rows.filter p
  exact ((perm_orderBy cmp _).nodup_iff.mpr hrows).sublist (take_sublist _ _)

theorem mem_of_first? (h : first? cmp (t.rows.filter p) = some v) : v ∈ t.rows ∧ p v = true :=
  mem_filter.mp (first?_mem h)

theorem exists_first? (cmp : ρ → ρ → Ordering) (hr : r ∈ t.rows) (hp : p r = true) :
    ∃ v, first? cmp (t.rows.filter p) = some v := by
  have hne : orderBy cmp (t.rows.filter p) ≠ [] := by
    intro hnil
    have hmem : r ∈ orderBy cmp (t.rows.filter p) :=
      mem_orderBy.mpr (mem_filter.mpr ⟨hr, hp⟩)
    rw [hnil] at hmem
    cases hmem
  exact ⟨_, head?_eq_some_head hne⟩

/-- The rows are in order. -/
theorem pairwise_orderBy (cmp : ρ → ρ → Ordering) [Std.TransCmp cmp] (rows : List ρ) :
    (orderBy cmp rows).Pairwise (fun a b => (cmp a b).isLE = true) := by
  have htotal : Std.Total (fun a b : ρ => (cmp a b).isLE = true) := by
    refine ⟨fun a b => ?_⟩
    cases hab : cmp a b with
    | lt | eq => exact .inl rfl
    | gt => exact .inr (by rw [Std.OrientedCmp.lt_of_gt hab]; rfl)
  have htrans : IsTrans ρ (fun a b : ρ => (cmp a b).isLE = true) :=
    ⟨fun _ _ _ => Std.TransCmp.isLE_trans⟩
  exact pairwise_insertionSort _ rows

/-- The first row is before every other. -/
theorem first?_isLE [Std.TransCmp cmp] {rows : List ρ} (h : first? cmp rows = some v)
    (hr : r ∈ rows) : (cmp v r).isLE = true := by
  have hsorted := pairwise_orderBy cmp rows
  obtain ⟨rest, hrest⟩ : ∃ rest, orderBy cmp rows = v :: rest :=
    ⟨_, eq_cons_of_mem_head? h⟩
  have hmem : r ∈ v :: rest := hrest ▸ mem_orderBy.mpr hr
  rcases mem_cons.mp hmem with rfl | hmem
  · have hself : cmp r r = .eq := Std.ReflCmp.compare_self
    rw [hself]
    rfl
  · exact (pairwise_cons.mp (hrest ▸ hsorted)).1 r hmem

end

/-! Deleting rows. -/

section
variable [DecidableEq κ]

/-- `DELETE .. WHERE key IN (..)`. -/
def deleteRows (t : Table key) (victims : List ρ) : Table key :=
  t.deleteWhere (fun r => (victims.map key).contains (key r))

variable {t : Table key} {victims : List ρ} {r v : ρ}

theorem deleteRows_eq (t : Table key) (victims : List ρ) :
    t.deleteRows victims = t.deleteWhere (fun r => decide (key r ∈ victims.map key)) := by
  apply Table.ext
  apply filter_congr
  intro r _
  congr 1
  rw [Bool.eq_iff_iff, contains_iff_mem, decide_eq_true_eq]

theorem deleteRows_sublist (t : Table key) (victims : List ρ) :
    (t.deleteRows victims).rows.Sublist t.rows := filter_sublist

section
variable (hv : ∀ v ∈ victims, v ∈ t.rows)
include hv

/-- Rows of the table are deleted by their keys, and no other row has one of them. -/
theorem mem_deleteRows : r ∈ (t.deleteRows victims).rows ↔ r ∈ t.rows ∧ r ∉ victims := by
  rw [deleteRows, mem_deleteWhere]
  refine and_congr_right fun hr => ?_
  rw [← Bool.not_eq_true, contains_iff_mem, not_iff_not, mem_map]
  constructor
  · intro ⟨q, hq, hk⟩
    exact eq_of_key (hv q hq) hr hk ▸ hq
  · intro h
    exact ⟨r, h, rfl⟩

theorem perm_deleteRows (hnodup : victims.Nodup) :
    t.rows.Perm (victims ++ (t.deleteRows victims).rows) := by
  have hrest : (t.deleteRows victims).rows.Nodup :=
    t.nodup_rows.sublist (deleteRows_sublist t victims)
  have hdisjoint : List.Disjoint victims (t.deleteRows victims).rows := by
    intro q hq hleft
    exact ((mem_deleteRows hv).mp hleft).2 hq
  refine (perm_ext_iff_of_nodup t.nodup_rows
    (nodup_append'.mpr ⟨hnodup, hrest, hdisjoint⟩)).mpr fun q => ?_
  rw [mem_append, mem_deleteRows hv]
  by_cases hq : q ∈ victims
  · simp only [hq, true_or, iff_true]
    exact hv q hq
  · simp only [hq, false_or, not_false_eq_true, and_true]

/-- What is counted is counted among the deleted rows or among the others. -/
theorem countP_deleteRows (hnodup : victims.Nodup) (p : ρ → Bool) :
    t.rows.countP p = victims.countP p + (t.deleteRows victims).rows.countP p := by
  rw [(perm_deleteRows hv hnodup).countP_eq, countP_append]

end

/-! The loop. -/

/-- Delete rows until the table fits: whether it does, and what is left. -/
def evict (fits : Table key → Bool) (free : ρ → Bool) (cmp : ρ → ρ → Ordering) :
    Nat → Table key → Bool × Table key
  | 0, t => (fits t, t)
  | left + 1, t =>
    if fits t then (true, t)
    else
      match first? cmp (t.rows.filter free) with
      | none => (false, t)
      | some r => evict fits free cmp left (t.deleteRows [r])

variable {fits : Table key → Bool} {free : ρ → Bool} {cmp : ρ → ρ → Ordering} {left : Nat}

theorem evict_sublist : (evict fits free cmp left t).2.rows.Sublist t.rows := by
  induction left generalizing t with
  | zero => exact List.Sublist.refl _
  | succ left ih =>
    unfold evict
    split
    · exact List.Sublist.refl _
    · split
      · exact List.Sublist.refl _
      · exact ih.trans (deleteRows_sublist t _)

/-- The table that is said to fit does. -/
theorem evict_fits (h : (evict fits free cmp left t).1 = true) :
    fits (evict fits free cmp left t).2 = true := by
  induction left generalizing t with
  | zero => exact h
  | succ left ih =>
    unfold evict at h ⊢
    split at h
    · next hfits => simp only [hfits, if_true]
    · next hfits =>
      rw [if_neg hfits]
      split at h
      · cases h
      · exact ih h

/-- Rows that are not free to go stay. -/
theorem evict_spares (hr : r ∈ t.rows) (hfree : free r = false) :
    r ∈ (evict fits free cmp left t).2.rows := by
  induction left generalizing t with
  | zero => exact hr
  | succ left ih =>
    unfold evict
    split
    · exact hr
    · split
      · exact hr
      · next v hv =>
        obtain ⟨hmem, hv⟩ := mem_of_first? hv
        have hne : r ∉ [v] := by
          intro h
          rw [mem_singleton.mp h, hv] at hfree
          cases hfree
        exact ih ((mem_deleteRows (by simpa using hmem)).mpr ⟨hr, hne⟩)

theorem evict_of_fits (h : fits t = true) : evict fits free cmp left t = (true, t) := by
  cases left with
  | zero => rw [evict, h]
  | succ left => rw [evict, if_pos h]

theorem evict_step (h : fits t = false) (hv : first? cmp (t.rows.filter free) = some v) :
    evict fits free cmp (left + 1) t = evict fits free cmp left (t.deleteRows [v]) := by
  rw [evict, if_neg (by simp [h]), hv]

theorem evict_of_none (h : ∀ r ∈ t.rows, free r = false) :
    evict fits free cmp left t = (fits t, t) := by
  have hnone : first? cmp (t.rows.filter free) = none := by
    cases hv : first? cmp (t.rows.filter free) with
    | none => rfl
    | some v =>
      obtain ⟨hmem, hfree⟩ := mem_of_first? hv
      rw [h v hmem] at hfree
      cases hfree
  cases left with
  | zero => rfl
  | succ left =>
    rw [evict, hnone]
    cases fits t <;> rfl

/-- The row that is deleted first is gone for good. -/
theorem notMem_evict_first (h : fits t = false)
    (hv : first? cmp (t.rows.filter free) = some v) :
    v ∉ (evict fits free cmp (left + 1) t).2.rows := by
  rw [evict_step h hv]
  intro hmem
  have hrest := evict_sublist.subset hmem
  rw [mem_deleteRows (by simpa using (mem_of_first? hv).1)] at hrest
  exact hrest.2 (mem_singleton_self v)

/-- Where no row that is free to go is old, the loop keeps the rows that are not old unless it
deletes anything at all. -/
theorem evict_keeps_iff {old : ρ → Bool} (hold : ∀ r ∈ t.rows, free r = true → old r = false) :
    (∀ r ∈ t.rows, old r = false → r ∈ (evict fits free cmp left t).2.rows) ↔
      ¬(0 < left ∧ fits t = false ∧ ∃ r ∈ t.rows, free r = true) := by
  refine ⟨?_, ?_⟩
  · intro hkeep ⟨hleft, hfits, r, hr, hfree⟩
    obtain ⟨v, hv⟩ := exists_first? cmp hr hfree
    obtain ⟨left, rfl⟩ : ∃ n, left = n + 1 := ⟨left - 1, by omega⟩
    obtain ⟨hmem, hvfree⟩ := mem_of_first? hv
    exact notMem_evict_first hfits hv (hkeep v hmem (hold v hmem hvfree))
  · intro hspent r hr _
    by_cases hleft : 0 < left
    · by_cases hfits : fits t = true
      · rw [evict_of_fits hfits]
        exact hr
      · have hnone : ∀ r ∈ t.rows, free r = false := by
          intro q hq
          by_contra hfree
          exact hspent ⟨hleft, Bool.not_eq_true _ ▸ hfits, q, hq, Bool.not_eq_false _ ▸ hfree⟩
        rw [evict_of_none hnone]
        exact hr
    · obtain rfl : left = 0 := by omega
      exact hr

/-- Where one row that is free to go may be old, and it goes first, the loop keeps the others unless
it deletes a second one. -/
theorem evict_keeps_iff_first {old : ρ → Bool}
    (hold : ∀ r ∈ t.rows, free r = true → old r = true →
      ∀ q ∈ t.rows, free q = true → old q = true → q = r) :
    (∀ r ∈ t.rows, old r = false → r ∈ (evict fits free cmp left t).2.rows) ↔
      ¬(0 < left ∧ fits t = false ∧ ∃ v, first? cmp (t.rows.filter free) = some v ∧
        (old v = false ∨ 1 < left ∧ fits (t.deleteRows [v]) = false ∧
          ∃ r ∈ t.rows, r ≠ v ∧ free r = true)) := by
  cases left with
  | zero => exact iff_of_true (fun r hr _ => hr) fun h => absurd h.1 (Nat.lt_irrefl 0)
  | succ left =>
    cases hfits : fits t with
    | true =>
      rw [evict_of_fits hfits]
      exact iff_of_true (fun r hr _ => hr) fun h => Bool.noConfusion h.2.1
    | false =>
      cases hv : first? cmp (t.rows.filter free) with
      | none =>
        refine iff_of_true (fun r hr _ => ?_) fun ⟨_, _, v, hsome, _⟩ => by cases hsome
        simp only [evict, hfits, hv, Bool.false_eq_true, if_false]
        exact hr
      | some v =>
        obtain ⟨hmem, hfree⟩ := mem_of_first? hv
        have hrest : ∀ r, r ∈ (t.deleteRows [v]).rows ↔ r ∈ t.rows ∧ r ≠ v := by
          intro r
          rw [mem_deleteRows (by simpa using hmem), mem_singleton]
        cases hvold : old v with
        | false =>
          refine iff_of_false (fun hkeep => ?_) fun hno => ?_
          · exact notMem_evict_first hfits hv (hkeep v hmem hvold)
          · exact hno ⟨Nat.succ_pos left, rfl, v, rfl, .inl hvold⟩
        | true =>
          -- the others that are free to go are not old, and the loop goes on without `v`
          have hyoung : ∀ r ∈ (t.deleteRows [v]).rows, free r = true → old r = false := by
            intro r hr hrfree
            obtain ⟨hr, hne⟩ := (hrest r).mp hr
            by_contra hrold
            exact hne (hold v hmem hfree hvold r hr hrfree (Bool.not_eq_false _ ▸ hrold))
          rw [evict_step hfits hv]
          refine Iff.trans ⟨fun h r hr => h r ((hrest r).mp hr).1, fun h r hr hrold => ?_⟩
            ((evict_keeps_iff hyoung).trans (not_congr ?_))
          · refine h r ((hrest r).mpr ⟨hr, ?_⟩) hrold
            rintro rfl
            cases hvold.symm.trans hrold
          · constructor
            · intro ⟨hleft, hno, r, hr, hrfree⟩
              obtain ⟨hr, hne⟩ := (hrest r).mp hr
              exact ⟨Nat.succ_pos left, rfl, v, rfl,
                .inr ⟨Nat.succ_lt_succ hleft, hno, r, hr, hne, hrfree⟩⟩
            · intro ⟨_, _, w, hw, hcase⟩
              obtain rfl := Option.some.inj hw
              rcases hcase with hyes | ⟨hleft, hno, r, hr, hne, hrfree⟩
              · cases hvold.symm.trans hyes
              · exact ⟨Nat.lt_of_succ_lt_succ hleft, hno, r, (hrest r).mpr ⟨hr, hne⟩, hrfree⟩

end
end Sql.Table
