import OmenBrowser.Lib.Table

/- Rows in ascending order of an integer key.

   `ORDER BY` of a key that no two rows share gives one list only, the ascending one.
   Of such a list a batch `take n` is named by its keys: the rows whose key is one of
   the batch's are the batch, the others are the rest. A condition that lower keys
   meet if higher ones do selects a front part of it. A page `page bound n` is the last
   `n` rows below a bound; the next page is below its first row. -/
namespace Sql
open List
variable {ρ : Type} {k : ρ → Int}
  {l rows : List ρ} {n : Nat} {p : ρ → Bool}

/-- The order of a key. -/
def byKey (k : ρ → Int) (a b : ρ) : Ordering := compare (k a) (k b)

def Ascending (k : ρ → Int) (l : List ρ) : Prop := l.Pairwise (fun a b => k a < k b)

theorem byKey_isLE {a b : ρ} : (byKey k a b).isLE = true ↔ k a ≤ k b := by
  unfold byKey
  rw [Int.isLE_compare]

theorem Ascending.nodup (h : Ascending k l) : (l.map k).Nodup :=
  pairwise_map.mpr (h.imp fun hlt => by omega)

theorem ascending_orderBy (h : (rows.map k).Nodup) : Ascending k (orderBy (byKey k) rows) := by
  have htotal : Std.Total (fun a b : ρ => (byKey k a b).isLE = true) :=
    ⟨fun a b => by simp only [byKey_isLE]; omega⟩
  have htrans : IsTrans ρ (fun a b : ρ => (byKey k a b).isLE = true) :=
    ⟨fun a b c => by simp only [byKey_isLE]; omega⟩
  have hle := pairwise_insertionSort (fun a b : ρ => (byKey k a b).isLE = true) rows
  have hne : (orderBy (byKey k) rows).Pairwise (fun a b => k a ≠ k b) :=
    pairwise_map.mp (((perm_orderBy (byKey k) rows).map k).nodup_iff.mpr h)
  refine (List.Pairwise.and hle hne).imp ?_
  intro a b ⟨hab, hnab⟩
  have := byKey_isLE.mp hab
  omega

/-- Only one ascending list has the rows. -/
theorem orderBy_eq (hp : l.Perm rows) (hl : Ascending k l) : orderBy (byKey k) rows = l := by
  have hn : (rows.map k).Nodup := (hp.map k).nodup_iff.mp hl.nodup
  refine List.Perm.eq_of_pairwise ?_ (ascending_orderBy hn) hl ((perm_orderBy _ _).trans hp.symm)
  intro a b _ _ hab hba
  omega

theorem orderBy_filter (h : (rows.map k).Nodup) (p : ρ → Bool) :
    orderBy (byKey k) (rows.filter p) = (orderBy (byKey k) rows).filter p :=
  orderBy_eq ((perm_orderBy _ _).filter p) ((ascending_orderBy h).filter p)

theorem orderBy_map (h : (rows.map k).Nodup) {f : ρ → ρ} (hf : ∀ r, k (f r) = k r) :
    orderBy (byKey k) (rows.map f) = (orderBy (byKey k) rows).map f := by
  apply orderBy_eq ((perm_orderBy _ _).map f)
  refine pairwise_map.mpr ((ascending_orderBy h).imp ?_)
  intro a b hab
  rw [hf, hf]
  exact hab

/-- A row above all others comes last. -/
theorem orderBy_cons_max {r : ρ} (h : (rows.map k).Nodup) (hr : ∀ q ∈ rows, k q < k r) :
    orderBy (byKey k) (r :: rows) = orderBy (byKey k) rows ++ [r] := by
  apply orderBy_eq
  · exact ((perm_orderBy _ _).append_right [r]).trans (perm_append_singleton r rows)
  · refine pairwise_append.mpr ⟨ascending_orderBy h, pairwise_singleton _ _, ?_⟩
    intro a ha b hb
    rw [mem_singleton.mp hb]
    exact hr a (mem_orderBy.mp ha)

/-! Batches. -/

theorem Ascending.take (h : Ascending k l) (n : Nat) : Ascending k (l.take n) :=
  List.Pairwise.sublist (take_sublist n l) h

theorem Ascending.take_lt_drop (h : Ascending k l) {a b : ρ} (ha : a ∈ l.take n) (hb : b ∈ l.drop n)
    : k a < k b := by
  have hsplit : Ascending k (l.take n ++ l.drop n) := by rw [take_append_drop]; exact h
  exact (pairwise_append.mp hsplit).2.2 a ha b hb

section
variable (ht : ∀ r ∈ l.take n, p r = true) (hd : ∀ r ∈ l.drop n, p r = false)
include ht hd

/-- The rows that meet a condition, if it holds of the batch and fails behind it. -/
theorem filter_eq_take : l.filter p = l.take n := by
  conv_lhs => rw [← take_append_drop n l]
  rw [filter_append, filter_eq_self.mpr ht,
    filter_eq_nil_iff.mpr fun r hr => by simp [hd r hr], append_nil]

theorem filter_not_eq_drop : l.filter (fun r => !p r) = l.drop n := by
  conv_lhs => rw [← take_append_drop n l]
  rw [filter_append, filter_eq_nil_iff.mpr fun r hr => by simp [ht r hr],
    filter_eq_self.mpr fun r hr => by simp [hd r hr], nil_append]

end

/-- Two conditions that exclude each other split the rows that meet one of them. -/
theorem filter_or_perm {q s : ρ → Bool} (hs : ∀ r ∈ l, s r = (p r || q r))
    (hd : ∀ r ∈ l, p r = true → q r = false) : (l.filter s).Perm (l.filter p ++ l.filter q) := by
  induction l with
  | nil => exact List.Perm.nil
  | cons r l ih =>
    have ih := ih (fun x hx => hs x (mem_cons_of_mem r hx))
      (fun x hx => hd x (mem_cons_of_mem r hx))
    have hsr := hs r mem_cons_self
    have hdr := hd r mem_cons_self
    cases hp : p r with
    | true =>
      rw [hp, Bool.true_or] at hsr
      rw [filter_cons_of_pos hsr, filter_cons_of_pos hp,
        filter_cons_of_neg (by simp [hdr hp]), cons_append]
      exact ih.cons r
    | false =>
      cases hq : q r with
      | true =>
        rw [hq, Bool.or_true] at hsr
        rw [filter_cons_of_pos hsr, filter_cons_of_neg (by simp [hp]),
          filter_cons_of_pos hq]
        exact (ih.cons r).trans perm_middle.symm
      | false =>
        rw [hp, hq, Bool.or_false] at hsr
        rw [filter_cons_of_neg (by simp [hsr]), filter_cons_of_neg (by simp [hp]),
          filter_cons_of_neg (by simp [hq])]
        exact ih

/-- The keys of a batch are its own. -/
theorem Ascending.notMem_keys (h : Ascending k l) {b : ρ} (hb : b ∈ l.drop n) :
    k b ∉ (l.take n).map k := by
  intro hm
  obtain ⟨a, ha, hk⟩ := mem_map.mp hm
  have := h.take_lt_drop ha hb
  omega

/-- A condition that lower keys meet if higher ones do selects a front part. -/
theorem Ascending.filter_front (h : Ascending k l) (hp : ∀ a b, k a < k b → p b = true → p a = true)
    : ∃ n, l.filter p = l.take n := by
  induction l with
  | nil => exact ⟨0, rfl⟩
  | cons r l ih =>
    obtain ⟨hr, hl⟩ := pairwise_cons.mp h
    cases hpr : p r with
    | true =>
      obtain ⟨n, hn⟩ := ih hl
      exact ⟨n + 1, by rw [filter_cons_of_pos hpr, hn, take_succ_cons]⟩
    | false =>
      refine ⟨0, ?_⟩
      rw [take_zero, filter_eq_nil_iff]
      intro b hb hpb
      rcases mem_cons.mp hb with rfl | hb
      · rw [hpr] at hpb; cases hpb
      · rw [hp r b (hr b hb) hpb] at hpr; cases hpr

/-- The rows up to the last of a batch are the batch. -/
theorem Ascending.filter_le_last (h : Ascending k l) {x : ρ} (hx : (l.take n).getLast? = some x) :
    l.filter (fun r => k r ≤ k x) = l.take n := by
  have hmem : x ∈ l.take n := mem_of_getLast? hx
  apply filter_eq_take
  · intro r hr
    obtain ⟨front, hfront⟩ := getLast?_eq_some_iff.mp hx
    have hasc : Ascending k (front ++ [x]) := by rw [← hfront]; exact h.take n
    rw [hfront] at hr
    rcases mem_append.mp hr with hr | hr
    · have := (pairwise_append.mp hasc).2.2 r hr x (mem_singleton_self x)
      exact decide_eq_true (by omega)
    · rw [mem_singleton.mp hr]
      exact decide_eq_true (Int.le_refl _)
  · intro r hr
    have := h.take_lt_drop hmem hr
    exact decide_eq_false (by omega)

/-! Pages, from above. -/

/-- The order of a key, the highest first. -/
theorem orderBy_descending (h : (rows.map k).Nodup) :
    orderBy (fun a b => compare (k b) (k a)) rows = (orderBy (byKey k) rows).reverse := by
  -- it is the order of the opposite key
  have hkey : (fun a b => compare (k b) (k a)) = byKey fun r => -k r := by
    funext a b
    simp only [byKey, compare, compareOfLessAndEq]
    grind
  have hopposite : (rows.map fun r => -k r).Nodup := by
    rw [show rows.map (fun r => -k r) = (rows.map k).map Neg.neg from map_map.symm]
    exact h.map fun _ _ => Int.neg_inj.mp
  rw [hkey, ← reverse_reverse (orderBy (byKey fun r => -k r) rows)]
  refine congrArg reverse (orderBy_eq ?_ ?_).symm
  · exact (reverse_perm _).trans (perm_orderBy _ rows)
  · refine pairwise_reverse.mpr ((ascending_orderBy hopposite).imp ?_)
    intro a b (hab : -k a < -k b)
    omega

/-- The last `n` of the rows below a bound. -/
def page (k : ρ → Int) (bound : Int) (n : Nat) (l : List ρ) : List ρ :=
  (l.filter (fun r => decide (k r < bound))).drop
    ((l.filter (fun r => decide (k r < bound))).length - n)

section
variable {l : List ρ} {bound : Int} {n : Nat} {r x : ρ}

theorem mem_of_mem_page (h : r ∈ page k bound n l) : r ∈ l ∧ k r < bound := by
  obtain ⟨hr, hlt⟩ := mem_filter.mp (mem_of_mem_drop h)
  exact ⟨hr, of_decide_eq_true hlt⟩

theorem Ascending.page (h : Ascending k l) : Ascending k (page k bound n l) :=
  (h.filter _).sublist (drop_sublist _ _)

/-- A page leaves nothing out between its rows and its bound. -/
theorem Ascending.mem_page (h : Ascending k l) (hx : x ∈ Sql.page k bound n l) (hr : r ∈ l)
    (hlt : k r < bound) (hle : k x ≤ k r) : r ∈ Sql.page k bound n l := by
  have hbelow : r ∈ l.filter (fun r => decide (k r < bound)) :=
    mem_filter.mpr ⟨hr, decide_eq_true hlt⟩
  rw [← take_append_drop ((l.filter (fun r => decide (k r < bound))).length - n)
    (l.filter (fun r => decide (k r < bound)))] at hbelow
  rcases mem_append.mp hbelow with hfront | hpage
  · have hfiltered : Ascending k (l.filter (fun r => decide (k r < bound))) := h.filter _
    have := hfiltered.take_lt_drop hfront hx
    omega
  · exact hpage

/-- Fewer rows are below a row than below a bound above it. -/
theorem length_below_lt (hx : x ∈ l) (hlt : k x < bound) :
    (l.filter (fun r => decide (k r < k x))).length < (l.filter (fun r => decide (k r < bound))).length := by
  have hfilter : l.filter (fun r => decide (k r < k x)) =
      (l.filter (fun r => decide (k r < bound))).filter (fun r => decide (k r < k x)) := by
    rw [filter_filter]
    refine filter_congr fun r _ => ?_
    rw [Bool.eq_iff_iff, Bool.and_eq_true, decide_eq_true_eq, decide_eq_true_eq]
    omega
  rw [hfilter]
  apply length_filter_lt_length_iff_exists.mpr
  exact ⟨x, mem_filter.mpr ⟨hx, decide_eq_true hlt⟩, by simp⟩

/-- The empty page is below every row. -/
theorem page_eq_nil (hn : 0 < n) : page k bound n l = [] ↔ ∀ r ∈ l, bound ≤ k r := by
  rw [page, drop_eq_nil_iff]
  constructor
  · intro hlength r hr
    have hnil : l.filter (fun r => decide (k r < bound)) = [] := by
      apply eq_nil_of_length_eq_zero
      omega
    have := filter_eq_nil_iff.mp hnil r hr
    rw [decide_eq_true_eq] at this
    omega
  · intro hall
    have hnil : l.filter (fun r => decide (k r < bound)) = [] := by
      rw [filter_eq_nil_iff]
      intro r hr
      have := hall r hr
      rw [decide_eq_true_eq]
      omega
    rw [hnil, length_nil]
    omega

end

end Sql
