import OmenBrowser.Lib.Table

/- A table as a map, of which the rows carry their keys.

   A row that is put takes the place of the one under its key. -/
namespace Sql.Table
open List
variable {ρ κ : Type} {key : ρ → κ} [DecidableEq κ] {t : Table key} {rows : List ρ} {r : ρ} {k : κ}

/-- `insert` of a map. -/
def put (t : Table key) (r : ρ) : Table key where
  rows := r :: t.rows.filter (fun q => key q != key r)
  unique := by
    rw [map_cons, nodup_cons]
    refine ⟨fun hmem => ?_, t.unique.sublist (filter_sublist.map key)⟩
    obtain ⟨q, hq, hkey⟩ := mem_map.mp hmem
    rw [mem_filter, hkey] at hq
    simp at hq

/-- `remove` of a map. -/
def erase (t : Table key) (k : κ) : Table key := t.deleteWhere (fun r => key r == k)

def putAll (t : Table key) (rows : List ρ) : Table key := rows.foldl put t

theorem mem_put {q : ρ} (h : q ∈ (t.put r).rows) : q = r ∨ q ∈ t.rows := by
  rcases mem_cons.mp h with rfl | h
  · exact .inl rfl
  · exact .inr (mem_filter.mp h).1

theorem forall_put {p : ρ → Prop} (hr : p r) (hrows : ∀ q ∈ t.rows, p q) :
    ∀ q ∈ (t.put r).rows, p q := by
  intro q hq
  rcases mem_put hq with rfl | hold
  · exact hr
  · exact hrows q hold

theorem mem_erase {q : ρ} (h : q ∈ (t.erase k).rows) : q ∈ t.rows := (mem_filter.mp h).1

theorem mem_putAll {q : ρ} (h : q ∈ (t.putAll rows).rows) : q ∈ rows ∨ q ∈ t.rows := by
  induction rows generalizing t with
  | nil => exact .inr h
  | cons row rows ih =>
    rcases ih h with hrest | hput
    · exact .inl (mem_cons_of_mem row hrest)
    · rcases mem_put hput with rfl | hold
      · exact .inl mem_cons_self
      · exact .inr hold

theorem find?_put (t : Table key) (r : ρ) (k : κ) :
    (t.put r).find? k = if key r = k then some r else t.find? k := by
  unfold find? put
  rw [find?_cons]
  split
  · next hkey => rw [if_pos (beq_iff_eq.mp hkey)]
  · next hkey =>
    rw [beq_eq_false_iff_ne] at hkey
    rw [if_neg hkey, find?_filter]
    refine congrFun (congrArg List.find? (funext fun q => ?_)) t.rows
    by_cases hq : key q = k
    · simp [hq, Ne.symm hkey]
    · simp [hq]

/-- Rows that are deleted by their keys. -/
theorem find?_deleteKeys (t : Table key) (p : κ → Bool) (k : κ) :
    (t.deleteWhere (fun r => p (key r))).find? k = if p k = true then none else t.find? k := by
  split
  · next hp =>
    rw [find?_eq_none]
    intro r hr hkey
    have hkept : (!p (key r)) = true := (mem_filter.mp hr).2
    rw [hkey, hp] at hkept
    cases hkept
  · next hp =>
    refine find?_deleteWhere fun r hkey => ?_
    rw [hkey]
    exact Bool.eq_false_iff.mpr hp

theorem find?_erase (t : Table key) (k k' : κ) :
    (t.erase k).find? k' = if k = k' then none else t.find? k' := by
  have hdelete := find?_deleteKeys t (fun k' => k == k') k'
  have hsame : t.erase k = t.deleteWhere (fun r => k == key r) :=
    congrArg t.deleteWhere (funext fun r => Bool.beq_comm)
  simpa only [hsame, beq_iff_eq] using hdelete

theorem find?_putAll_of_not (h : ∀ q ∈ rows, key q ≠ k) : (t.putAll rows).find? k = t.find? k := by
  induction rows generalizing t with
  | nil => rfl
  | cons row rows ih =>
    have hrest := ih (t := t.put row) fun q hq => h q (mem_cons_of_mem row hq)
    rw [putAll, foldl_cons, ← putAll, hrest, find?_put, if_neg (h row mem_cons_self)]

/-- The rows that are put under one key are one row. -/
theorem find?_putAll_of_mem (hr : r ∈ rows) (hsame : ∀ q ∈ rows, key q = key r → q = r) :
    (t.putAll rows).find? (key r) = some r := by
  induction rows generalizing t with
  | nil => exact absurd hr not_mem_nil
  | cons row rows ih =>
    rw [putAll, foldl_cons, ← putAll]
    by_cases hrest : ∃ q ∈ rows, key q = key r
    · obtain ⟨q, hq, hkey⟩ := hrest
      have hmem : r ∈ rows := hsame q (mem_cons_of_mem row hq) hkey ▸ hq
      exact ih hmem fun q hq => hsame q (mem_cons_of_mem row hq)
    · rw [not_exists] at hrest
      rw [find?_putAll_of_not fun q hq hkey => hrest q ⟨hq, hkey⟩, find?_put]
      rcases mem_cons.mp hr with rfl | hmem
      · exact if_pos rfl
      · exact absurd ⟨hmem, rfl⟩ (hrest r)

end Sql.Table
