import Mathlib.Data.List.Sort
import Mathlib.Data.List.Nodup

/- Tables with a primary key, over arbitrary rows.

   A table carries the proof that no two of its rows share a key, so a state in
   which a primary key is violated cannot be built: `insert` fails on a key that is
   taken, and `updateWhere` takes the proof that it leaves keys alone. Rows are
   kept in no particular order; a query that names an order sorts (`orderBy`).
   A file holds at most `maxDatabaseBytes`, the largest page count times the
   largest page size; an insertion past it fails. -/
namespace Sql
open List

/-- The ways a statement fails. -/
inductive Error where
  | constraintFailed
  | databaseFull
  | integerOverflow
  | invalidColumnType
  | noRows
  deriving DecidableEq, Repr

structure Table {ρ κ : Type} (key : ρ → κ) where
  rows : List ρ
  unique : (rows.map key).Nodup

/-- 4294967294 pages of 65536 bytes. -/
def maxDatabaseBytes : Nat := 4294967294 * 65536

section Sorting
variable {ρ : Type}

variable (cmp : ρ → ρ → Ordering) (rows : List ρ)

/-- `ORDER BY`. -/
def orderBy : List ρ :=
  rows.insertionSort (fun a b => (cmp a b).isLE = true)

/-- `ORDER BY ... LIMIT 1`. -/
def first? : Option ρ := (orderBy cmp rows).head?

theorem perm_orderBy : (orderBy cmp rows).Perm rows :=
  perm_insertionSort _ _

theorem mem_orderBy {cmp : ρ → ρ → Ordering} {rows : List ρ} {r : ρ} :
    r ∈ orderBy cmp rows ↔ r ∈ rows := (perm_orderBy cmp rows).mem_iff

theorem first?_mem {cmp : ρ → ρ → Ordering} {rows : List ρ} {r : ρ} (h : first? cmp rows = some r) :
    r ∈ rows := mem_orderBy.mp (mem_of_mem_head? h)

end Sorting

namespace Table
variable {ρ κ : Type} {key : ρ → κ}

def empty : Table key := ⟨[], nodup_nil⟩

@[ext] theorem ext {t u : Table key} (h : t.rows = u.rows) : t = u := by
  cases t; cases u; cases h; rfl

/-- Two rows of a table with one key are one row. -/
theorem eq_of_key {t : Table key} {r s : ρ} (hr : r ∈ t.rows) (hs : s ∈ t.rows)
    (h : key r = key s) : r = s :=
  inj_on_of_nodup_map t.unique hr hs h

variable (t : Table key)

theorem nodup_rows : t.rows.Nodup := List.Nodup.of_map key t.unique

variable (p : ρ → Bool)

/-- `DELETE ... WHERE`. -/
def deleteWhere : Table key :=
  ⟨t.rows.filter (fun r => !p r), t.unique.sublist (filter_sublist.map key)⟩

variable (f : ρ → ρ)

/-- `UPDATE ... WHERE`, of columns outside the key. -/
def updateWhere (hf : ∀ r, key (f r) = key r) : Table key :=
  ⟨t.rows.map (fun r => if p r then f r else r), by
    have h : (key ∘ fun r => if p r then f r else r) = key := by
      funext r; simp only [Function.comp]; split
      · exact hf r
      · rfl
    rw [map_map, h]; exact t.unique⟩

@[simp] theorem mem_deleteWhere {t : Table key} {p : ρ → Bool} {r : ρ} :
    r ∈ (t.deleteWhere p).rows ↔ r ∈ t.rows ∧ p r = false := by
  simp [deleteWhere, mem_filter]

/-- An update leaves every key where it was. -/
@[simp] theorem map_key_updateWhere {t : Table key} {p : ρ → Bool} {f : ρ → ρ}
    {hf : ∀ r, key (f r) = key r} : (t.updateWhere p f hf).rows.map key = t.rows.map key := by
  simp only [updateWhere, map_map]
  apply map_congr_left
  intro r _
  simp only [Function.comp]
  split
  · exact hf r
  · rfl

/-- An update counts as before where it does not touch what is counted. -/
theorem countP_updateWhere {t : Table key} {p q : ρ → Bool} {f : ρ → ρ}
    {hf : ∀ r, key (f r) = key r} (hp : ∀ r, p (f r) = p r) :
    (t.updateWhere q f hf).rows.countP p = t.rows.countP p := by
  rw [updateWhere, countP_map]
  apply countP_congr
  intro r _
  simp only [Function.comp]
  split
  · rw [hp]
  · rfl

/-- A key that is in use is the key of one row. -/
theorem countP_key [BEq κ] [LawfulBEq κ] {t : Table key} {r : ρ} (hr : r ∈ t.rows) :
    t.rows.countP (fun q => key q == key r) = 1 := by
  have hcount : (t.rows.map key).count (key r) = 1 :=
    count_eq_one_of_mem t.unique (mem_map_of_mem hr)
  rw [← hcount, count, countP_map]
  rfl

variable [DecidableEq κ]

/-- The row with key `k`. -/
def find? (k : κ) : Option ρ := t.rows.find? (fun r => key r == k)

theorem find?_eq_some {t : Table key} {k : κ} {r : ρ} :
    t.find? k = some r ↔ r ∈ t.rows ∧ key r = k := by
  constructor
  · intro h
    exact ⟨mem_of_find?_eq_some h, by simpa using find?_some h⟩
  · rintro ⟨hm, rfl⟩
    cases hf : t.find? (key r) with
    | none => simpa using find?_eq_none.mp hf r hm
    | some q =>
      have hq : key q = key r := by simpa using find?_some hf
      rw [eq_of_key (mem_of_find?_eq_some hf) hm hq]

theorem find?_eq_none {t : Table key} {k : κ} : t.find? k = none ↔ ∀ r ∈ t.rows, key r ≠ k := by
  simp [find?]

variable (r : ρ)

/-- `INSERT`: fails on a key that is taken. -/
def insert : Except Error (Table key) :=
  if h : key r ∈ t.rows.map key then .error .constraintFailed
  else .ok ⟨r :: t.rows, by rw [map_cons]; exact nodup_cons.mpr ⟨h, t.unique⟩⟩

/-- `INSERT ... ON CONFLICT DO NOTHING`. -/
def insertOrIgnore : Table key :=
  match t.insert r with
  | .ok t' => t'
  | .error _ => t

/-- `INSERT ... ON CONFLICT DO UPDATE`. -/
def upsert (f : ρ → ρ) (hf : ∀ r, key (f r) = key r) : Table key :=
  match t.insert r with
  | .ok t' => t'
  | .error _ => t.updateWhere (fun q => key q == key r) f hf

theorem insert_ok {t t' : Table key} {r : ρ} :
    t.insert r = .ok t' ↔ t'.rows = r :: t.rows ∧ ∀ q ∈ t.rows, key q ≠ key r := by
  have hmem : key r ∈ t.rows.map key ↔ ∃ q ∈ t.rows, key q = key r := by simp [mem_map]
  unfold insert
  split
  · next h =>
    obtain ⟨q, hq, hk⟩ := hmem.mp h
    simp only [reduceCtorEq, false_iff, not_and, not_forall]
    exact fun _ => ⟨q, hq, fun hne => hne hk⟩
  · next h =>
    simp only [Except.ok.injEq]
    constructor
    · rintro rfl
      exact ⟨rfl, fun q hq hk => h (hmem.mpr ⟨q, hq, hk⟩)⟩
    · rintro ⟨hr, _⟩
      exact (Table.ext hr).symm

theorem exists_insert {t : Table key} {r : ρ} (h : ∀ q ∈ t.rows, key q ≠ key r) :
    ∃ t', t.insert r = .ok t' := by
  have hfree : key r ∉ t.rows.map key := by
    intro hmem
    obtain ⟨q, hq, hk⟩ := mem_map.mp hmem
    exact h q hq hk
  exact ⟨_, dif_neg hfree⟩

theorem insert_error {t : Table key} {r : ρ} {e : Error} (h : t.insert r = .error e) :
    ∃ q ∈ t.rows, key q = key r := by
  unfold insert at h
  split at h
  · next hm => simpa [mem_map] using hm
  · cases h

/-- An upsert adds the row, or updates the one with its key. -/
theorem upsert_cases (row : ρ) (f : ρ → ρ) (hf : ∀ r, key (f r) = key r) :
    t.insert row = .ok (t.upsert row f hf) ∨
      (t.find? (key row)).isSome = true ∧
        t.upsert row f hf = t.updateWhere (fun q => key q == key row) f hf := by
  unfold upsert
  cases h : t.insert row with
  | ok t' => exact .inl rfl
  | error e =>
    obtain ⟨q, hq, hkey⟩ := insert_error h
    refine .inr ⟨?_, rfl⟩
    rw [find?_eq_some.mpr ⟨hq, hkey⟩]
    rfl

/-- An upsert that sets all the columns leaves one row with the key, the new one. -/
theorem mem_upsert {t : Table key} {row : ρ} {f : ρ → ρ} {hf : ∀ r, key (f r) = key r}
    (hrow : ∀ q, key q = key row → f q = row) {r : ρ} :
    r ∈ (t.upsert row f hf).rows ↔ r = row ∨ r ∈ t.rows ∧ key r ≠ key row := by
  unfold upsert
  cases h : t.insert row with
  | ok t' =>
    obtain ⟨hrows, hfresh⟩ := insert_ok.mp h
    simp only [hrows, mem_cons]
    exact or_congr_right ⟨fun hr => ⟨hr, hfresh r hr⟩, fun hr => hr.1⟩
  | error e =>
    obtain ⟨q, hq, hkey⟩ := insert_error h
    simp only [updateWhere, mem_map, beq_iff_eq]
    constructor
    · rintro ⟨p, hp, rfl⟩
      by_cases hk : key p = key row
      · rw [if_pos hk]
        exact .inl (hrow p hk)
      · rw [if_neg hk]
        exact .inr ⟨hp, hk⟩
    · rintro (rfl | ⟨hr, hk⟩)
      · exact ⟨q, hq, by rw [if_pos hkey]; exact hrow q hkey⟩
      · exact ⟨r, hr, if_neg hk⟩

/-! What a key finds after a write. -/

theorem find?_insert {t t' : Table key} {r : ρ} (h : t.insert r = .ok t') (k : κ) :
    t'.find? k = if key r = k then some r else t.find? k := by
  unfold find?
  rw [(insert_ok.mp h).1, find?_cons]
  by_cases hk : key r = k
  · rw [if_pos hk, beq_iff_eq.mpr hk]
  · rw [if_neg hk, beq_eq_false_iff_ne.mpr hk]

theorem find?_insertOrIgnore (k : κ) :
    (t.insertOrIgnore r).find? k = if key r = k then some ((t.find? k).getD r) else t.find? k := by
  unfold insertOrIgnore
  cases h : t.insert r with
  | ok t' =>
    rw [find?_insert h]
    split
    · next hk =>
      have hnone : t.find? k = none := find?_eq_none.mpr (hk ▸ (insert_ok.mp h).2)
      rw [hnone, Option.getD_none]
    · rfl
  | error e =>
    obtain ⟨q, hq, hkey⟩ := insert_error h
    by_cases hk : key r = k
    · have hsome : t.find? k = some q := find?_eq_some.mpr ⟨hq, hkey.trans hk⟩
      simp only [if_pos hk, hsome, Option.getD_some]
    · simp only [if_neg hk]

/-- A key finds what it found, unless that was deleted. -/
theorem find?_deleteWhere {t : Table key} {p : ρ → Bool} {k : κ} (h : ∀ r, key r = k → p r = false) :
    (t.deleteWhere p).find? k = t.find? k := by
  apply Option.ext
  intro r
  rw [find?_eq_some, find?_eq_some, mem_deleteWhere]
  constructor
  · intro ⟨hr, hk⟩
    exact ⟨hr.1, hk⟩
  · intro ⟨hr, hk⟩
    exact ⟨⟨hr, h r hk⟩, hk⟩

theorem find?_updateWhere (hf : ∀ r, key (f r) = key r) (k : κ) :
    (t.updateWhere p f hf).find? k = (t.find? k).map (fun r => if p r then f r else r) := by
  have hkey : ((fun r => key r == k) ∘ fun r => if p r then f r else r) = fun r => key r == k := by
    funext r
    simp only [Function.comp]
    split
    · rw [hf]
    · rfl
  unfold find? updateWhere
  rw [find?_map, hkey]

end Table
end Sql
