import Mathlib.Algebra.GroupWithZero.Nat
import Mathlib.Algebra.Order.BigOperators.Group.List
import Mathlib.Data.List.Nodup
import Mathlib.Data.List.Perm.Basic
import Mathlib.Tactic.Common
import Std.Data.ExtTreeMap.Lemmas

/- A log of keyed entries, and the tables that are kept beside it.

   A log holds its entries in the order they came in, each under a key of its own. A
   program keeps it as several tables: the entries by key, the keys in their order, and
   for each scope (the entries of one owner, say) how many there are and what they take.
   `Views` and `Tallies` say that tables agree with a log, and what is erased from or added
   to each of them when an entry leaves or comes.

   `Evicts` is making room: for as long as there is too much, the oldest entry that may go
   goes. -/
namespace KeyedLog
open List
variable {α κ ι : Type} {key : α → κ} {scope : α → ι} {bytes : α → Nat}

/-! Making room. -/

/-- The oldest entry that may go goes, for as long as there is too much. -/
inductive Evicts (full : List α → Prop) (may : α → Prop) : List α → List α → Prop where
  | room {l : List α} (h : ¬ full l) : Evicts full may l l
  | oldest {before after l : List α} {e : α} (hfull : full (before ++ e :: after))
      (hbefore : ∀ x ∈ before, ¬ may x) (he : may e) (h : Evicts full may (before ++ after) l) :
      Evicts full may (before ++ e :: after) l

section Evicts
variable {full : List α → Prop} {may : α → Prop} {l l' : List α}

theorem Evicts.sublist (h : Evicts full may l l') : l'.Sublist l := by
  induction h with
  | room => exact List.Sublist.refl _
  | oldest _ _ _ _ ih => exact ih.trans ((sublist_cons_self _ _).append_left _)

theorem Evicts.not_full (h : Evicts full may l l') : ¬ full l' := by
  induction h with
  | room h => exact h
  | oldest _ _ _ _ ih => exact ih

end Evicts

/-! The entries by key, and the keys in order. -/

section
variable {before after : List α} {e : α} (h : ((before ++ e :: after).map key).Nodup)
include h

theorem nodup_fresh : ∀ x ∈ before ++ after, key x ≠ key e := by
  rw [map_append, map_cons, nodup_middle] at h
  intro x hx heq
  apply (nodup_cons.mp h).1
  rw [← heq, ← map_append]
  exact mem_map_of_mem hx

/-- Without the entries of its key the log is without the entry. -/
theorem filter_key {p : α → Bool} (hp : ∀ x, p x = true ↔ key x ≠ key e) :
    (before ++ e :: after).filter p = before ++ after := by
  have hself := filter_eq_self.mpr fun x hx => (hp x).mpr (nodup_fresh h x hx)
  rw [filter_append] at hself
  rw [filter_append, filter_cons_of_neg (fun hpe => (hp e).mp hpe rfl), hself]

end

section Views
variable [Ord κ] [Std.TransOrd κ]

/-- The map and the order are of this log. -/
structure Views (key : α → κ) (entries : Std.ExtTreeMap κ α) (order : List κ) (log : List α) :
    Prop where
  nodup : (log.map key).Nodup
  order_eq : order = log.map key
  lookup : ∀ k e, entries[k]? = some e ↔ e ∈ log ∧ key e = k

variable {entries : Std.ExtTreeMap κ α} {order : List κ} {log before after : List α} {e : α}

theorem Views.empty : Views key (∅ : Std.ExtTreeMap κ α) [] [] :=
  ⟨nodup_nil, rfl, fun k e => by simp⟩

theorem Views.mem_order (h : Views key entries order log) {k : κ} :
    k ∈ order ↔ ∃ e ∈ log, key e = k := by
  rw [h.order_eq]
  exact mem_map

theorem Views.contains (h : Views key entries order log) (k : κ) :
    entries.contains k = true ↔ ∃ e ∈ log, key e = k := by
  rw [Std.ExtTreeMap.contains_eq_isSome_getElem?, Option.isSome_iff_exists]
  exact exists_congr (h.lookup k)

theorem Views.find? (h : Views key entries order log) {k : κ} {p : α → Bool}
    (hp : ∀ e, p e = true ↔ key e = k) : entries[k]? = log.find? p := by
  cases hfind : log.find? p with
  | none =>
    refine Option.eq_none_iff_forall_ne_some.mpr fun e he => ?_
    obtain ⟨hmem, hkey⟩ := (h.lookup k e).mp he
    exact find?_eq_none.mp hfind e hmem ((hp e).mpr hkey)
  | some e =>
    exact (h.lookup k e).mpr ⟨mem_of_find?_eq_some hfind, (hp e).mp (find?_some hfind)⟩

variable [Std.LawfulEqOrd κ]

theorem Views.keys_perm (h : Views key entries order log) : order.Perm entries.keys := by
  have hnodup : order.Nodup := by
    rw [h.order_eq]
    exact h.nodup
  refine (perm_ext_iff_of_nodup hnodup Std.ExtTreeMap.nodup_keys).mpr fun k => ?_
  rw [Std.ExtTreeMap.mem_keys, ← Std.ExtTreeMap.contains_iff_mem, h.contains, h.mem_order]

theorem Views.size (h : Views key entries order log) : entries.size = log.length := by
  rw [← Std.ExtTreeMap.length_keys, ← h.keys_perm.length_eq, h.order_eq, length_map]

/-- The entries are those of the log, in another order. -/
theorem Views.toList_perm (h : Views key entries order log) :
    entries.toList.Perm (log.map fun e => (key e, e)) := by
  have hentries : entries.toList.Nodup := by
    apply List.Nodup.of_map Prod.fst
    rw [Std.ExtTreeMap.map_fst_toList_eq_keys]
    exact Std.ExtTreeMap.nodup_keys
  have hlog : (log.map fun e => (key e, e)).Nodup := by
    apply List.Nodup.of_map Prod.fst
    rw [map_map]
    exact h.nodup
  refine (perm_ext_iff_of_nodup hentries hlog).mpr fun ⟨k, e⟩ => ?_
  rw [Std.ExtTreeMap.mem_toList_iff_getElem?_eq_some, h.lookup, mem_map]
  constructor
  · rintro ⟨he, rfl⟩
    exact ⟨e, he, rfl⟩
  · rintro ⟨e', he', heq⟩
    cases heq
    exact ⟨he', rfl⟩

/-- An entry leaves. -/
theorem Views.erase [BEq κ] [LawfulBEq κ] (h : Views key entries order (before ++ e :: after)) :
    Views key (entries.erase (key e)) (order.filter (· != key e)) (before ++ after) := by
  have hfresh := nodup_fresh h.nodup
  refine ⟨?_, ?_, fun k x => ?_⟩
  · exact h.nodup.sublist (((sublist_cons_self _ _).append_left _).map key)
  · have hkept : ∀ k ∈ (before ++ after).map key, (k != key e) = true := by
      intro k hk
      obtain ⟨x, hx, rfl⟩ := mem_map.mp hk
      simpa using hfresh x hx
    have hself := filter_eq_self.mpr hkept
    rw [map_append, filter_append] at hself
    rw [h.order_eq, map_append, map_cons, filter_append,
      filter_cons_of_neg (by simp), hself, map_append]
  · rw [Std.ExtTreeMap.getElem?_erase]
    by_cases hk : key e = k
    · rw [if_pos (Std.compare_eq_iff_eq.mpr hk)]
      refine ⟨nofun, fun hx => absurd (hx.2.trans hk.symm) (hfresh x hx.1)⟩
    · rw [if_neg (fun heq => hk (Std.compare_eq_iff_eq.mp heq)), h.lookup]
      refine and_congr_left fun hx => ?_
      have hne : x ≠ e := fun heq => hk (heq ▸ hx)
      simp [hne]

/-- An entry comes. -/
theorem Views.insert (h : Views key entries order log) (hnew : ∀ x ∈ log, key x ≠ key e) :
    Views key (entries.insert (key e) e) (order ++ [key e]) (log ++ [e]) := by
  refine ⟨?_, ?_, fun k x => ?_⟩
  · rw [map_append]
    refine List.Nodup.append h.nodup (nodup_singleton _) ?_
    intro k hk hk'
    obtain ⟨x, hx, rfl⟩ := mem_map.mp hk
    exact hnew x hx (by simpa using hk')
  · rw [h.order_eq, map_append]
    rfl
  · rw [Std.ExtTreeMap.getElem?_insert]
    by_cases hk : key e = k
    · rw [if_pos (Std.compare_eq_iff_eq.mpr hk)]
      constructor
      · intro heq
        obtain rfl := Option.some.inj heq
        exact ⟨by simp, hk⟩
      · rintro ⟨hx, hxk⟩
        rcases mem_append.mp hx with hx | hx
        · exact absurd (hxk.trans hk.symm) (hnew x hx)
        · rw [mem_singleton.mp hx]
    · rw [if_neg (fun heq => hk (Std.compare_eq_iff_eq.mp heq)), h.lookup]
      refine and_congr_left fun hx => ?_
      have hne : x ≠ e := fun heq => hk (heq ▸ hx)
      simp [hne]

end Views

/-! What the entries of a scope take. -/

section Tallies
variable [Ord ι] [Std.TransOrd ι] [BEq ι]

/-- How many entries there are and what they take; nothing is kept of no entries. -/
def tally (bytes : α → Nat) : List α → Option (Nat × Nat)
  | [] => none
  | e :: log => some ((e :: log).length, ((e :: log).map bytes).sum)

def Tallies (scope : α → ι) (bytes : α → Nat) (usage : Std.ExtTreeMap ι (Nat × Nat))
    (log : List α) : Prop :=
  ∀ i, usage[i]? = tally bytes (log.filter (scope · == i))

/-- One entry less in its scope, which is dropped with its last one. -/
def discount (usage : Std.ExtTreeMap ι (Nat × Nat)) (i : ι) (n : Nat) : Std.ExtTreeMap ι (Nat × Nat) :=
  match usage[i]? with
  | none => usage
  | some (items, total) =>
    if items - 1 = 0 then usage.erase i else usage.insert i (items - 1, total - n)

theorem tally_eq {log : List α} (h : log ≠ []) :
    tally bytes log = some (log.length, (log.map bytes).sum) := by
  cases log with
  | nil => exact absurd rfl h
  | cons => rfl

theorem tally_getD (log : List α) :
    (tally bytes log).getD (0, 0) = (log.length, (log.map bytes).sum) := by
  cases log with
  | nil | cons => rfl

theorem tally_map {β : Type} (bytes : β → Nat) (f : α → β) (log : List α) :
    tally bytes (log.map f) = tally (fun e => bytes (f e)) log := by
  cases log with
  | nil => rfl
  | cons e log => simp [tally, Function.comp_def]

variable {usage : Std.ExtTreeMap ι (Nat × Nat)} {log before after : List α} {e : α}

theorem Tallies.empty : Tallies scope bytes (∅ : Std.ExtTreeMap ι (Nat × Nat)) [] :=
  fun i => by simp [tally]

variable [Std.LawfulEqOrd ι] [LawfulBEq ι]

theorem Tallies.erase (h : Tallies scope bytes usage (before ++ e :: after)) :
    Tallies scope bytes (discount usage (scope e) (bytes e)) (before ++ after) := by
  intro i
  have husage := h i
  rw [filter_append] at husage ⊢
  by_cases hi : scope e = i
  · -- the entry's own scope loses one
    subst hi
    rw [filter_cons_of_pos (by simp), tally_eq (by simp)] at husage
    unfold discount
    rw [husage]
    simp only [length_append, length_cons, map_append, map_cons, sum_append,
      sum_cons]
    split
    · next hzero =>
      have hnil : before.filter (scope · == scope e) ++ after.filter (scope · == scope e) = [] :=
        eq_nil_of_length_eq_zero (by rw [length_append]; omega)
      rw [Std.ExtTreeMap.getElem?_erase_self, hnil]
      rfl
    · next hpos =>
      rw [Std.ExtTreeMap.getElem?_insert_self, tally_eq, length_append, map_append,
        sum_append]
      · congr 2
        omega
      · intro hnil
        have := congrArg length hnil
        rw [length_append, length_nil] at this
        omega
  · rw [filter_cons_of_neg (by simpa using hi)] at husage
    rw [← husage]
    unfold discount
    split
    · rfl
    · split
      · rw [Std.ExtTreeMap.getElem?_erase, if_neg (fun heq => hi (Std.compare_eq_iff_eq.mp heq))]
      · rw [Std.ExtTreeMap.getElem?_insert, if_neg (fun heq => hi (Std.compare_eq_iff_eq.mp heq))]

theorem Tallies.insert (h : Tallies scope bytes usage log) {items total : Nat}
    (hown : usage[scope e]?.getD (0, 0) = (items, total)) :
    Tallies scope bytes (usage.insert (scope e) (items + 1, total + bytes e)) (log ++ [e]) := by
  intro i
  rw [h (scope e), tally_getD] at hown
  cases hown
  rw [filter_append, Std.ExtTreeMap.getElem?_insert]
  by_cases hi : scope e = i
  · subst hi
    rw [if_pos (Std.compare_eq_iff_eq.mpr rfl), filter_cons_of_pos (by simp),
      tally_eq (by simp)]
    simp
  · rw [if_neg (fun heq => hi (Std.compare_eq_iff_eq.mp heq)), h i,
      filter_cons_of_neg (by simpa using hi)]
    simp

/-- The order of the entries does not matter to what they take. -/
theorem tally_perm {log' : List α} (h : log.Perm log') : tally bytes log = tally bytes log' := by
  cases log with
  | nil => rw [h.nil_eq]
  | cons e log =>
    rw [tally_eq (by simp), tally_eq (fun hnil => by simpa [hnil] using h.length_eq), h.length_eq,
      (h.map bytes).sum_eq]

end Tallies

/-! What the values of a map weigh. -/

section Weight
variable {ν : Type} [Ord κ] [Std.TransOrd κ] (size : ν → Nat)
  {entries : Std.ExtTreeMap κ ν} {k : κ} {v : ν}

def weight (entries : Std.ExtTreeMap κ ν) : Nat := (entries.toList.map fun e => size e.2).sum

theorem nodup_toList (entries : Std.ExtTreeMap κ ν) : entries.toList.Nodup := by
  apply List.Nodup.of_map Prod.fst
  rw [Std.ExtTreeMap.map_fst_toList_eq_keys]
  exact Std.ExtTreeMap.nodup_keys

variable [Std.LawfulEqOrd κ]

theorem not_mem_erase (entries : Std.ExtTreeMap κ ν) (k : κ) (v : ν) :
    (k, v) ∉ (entries.erase k).toList := by
  rw [Std.ExtTreeMap.mem_toList_iff_getElem?_eq_some]
  simp

/-- A map with an entry is its entry and the others. -/
theorem toList_perm_erase (h : entries[k]? = some v) :
    entries.toList.Perm ((k, v) :: (entries.erase k).toList) := by
  refine (perm_ext_iff_of_nodup (nodup_toList _)
    (nodup_cons.mpr ⟨not_mem_erase _ _ _, nodup_toList _⟩)).mpr fun ⟨k', v'⟩ => ?_
  rw [mem_cons, Std.ExtTreeMap.mem_toList_iff_getElem?_eq_some,
    Std.ExtTreeMap.mem_toList_iff_getElem?_eq_some, Std.ExtTreeMap.getElem?_erase]
  by_cases hk : k = k'
  · subst hk
    rw [if_pos (Std.compare_eq_iff_eq.mpr rfl), h]
    simp [eq_comm]
  · rw [if_neg (fun heq => hk (Std.compare_eq_iff_eq.mp heq))]
    simp [Ne.symm hk]

variable {size}

theorem weight_erase (h : entries[k]? = some v) :
    weight size entries = size v + weight size (entries.erase k) := by
  unfold weight
  rw [((toList_perm_erase h).map _).sum_eq, map_cons, sum_cons]

theorem erase_absent (h : entries[k]? = none) : entries.erase k = entries := by
  apply Std.ExtTreeMap.ext_getElem?
  intro k'
  rw [Std.ExtTreeMap.getElem?_erase]
  by_cases hk : k = k'
  · subst hk
    rw [if_pos (Std.compare_eq_iff_eq.mpr rfl), h]
  · rw [if_neg (fun heq => hk (Std.compare_eq_iff_eq.mp heq))]

theorem erase_insert_self (entries : Std.ExtTreeMap κ ν) (k : κ) (v : ν) :
    (entries.insert k v).erase k = entries.erase k := by
  apply Std.ExtTreeMap.ext_getElem?
  intro k'
  rw [Std.ExtTreeMap.getElem?_erase, Std.ExtTreeMap.getElem?_erase, Std.ExtTreeMap.getElem?_insert]
  split <;> rfl

theorem weight_insert : weight size (entries.insert k v) = size v + weight size (entries.erase k) := by
  rw [weight_erase Std.ExtTreeMap.getElem?_insert_self, erase_insert_self]

/-- What is replaced leaves as much as it weighed. -/
theorem weight_erase_getD :
    weight size (entries.erase k) = weight size entries - (entries[k]?.map size).getD 0 := by
  cases h : entries[k]? with
  | none => rw [erase_absent h, Option.map_none, Option.getD_none, Nat.sub_zero]
  | some v => rw [weight_erase h, Option.map_some, Option.getD_some, Nat.add_sub_cancel_left]

end Weight

end KeyedLog
