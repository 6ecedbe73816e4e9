import Mathlib.Tactic.Common

/- Fallible computations, taken apart.

   A computation in `Except` ended well iff each of its parts did. A proof peels the
   parts off with these equivalences instead of splitting on every error path. -/
namespace Outcome
variable {ε ε' α β : Type}
  {x : Except ε α} {f : α → Except ε β} {l : List α}

variable {b : β} {c : Prop}

theorem bind_ok : (x >>= f) = .ok b ↔ ∃ a, x = .ok a ∧ f a = .ok b := by
  cases x with
  | error | ok => simp [bind, Except.bind]

/-- A check in front of a computation. -/
theorem check_ok {x : Except ε Unit} {f : Unit → Except ε β} :
    (x >>= f) = .ok b ↔ x = .ok () ∧ f () = .ok b := by
  rw [bind_ok]
  refine ⟨?_, ?_⟩
  · intro ⟨_, hx, hf⟩
    exact ⟨hx, hf⟩
  · intro ⟨hx, hf⟩
    exact ⟨(), hx, hf⟩

/-- A check that fails where `c` holds. -/
def refuse (c : Prop) [Decidable c] (e : ε) : Except ε Unit := if c then .error e else .ok ()

variable {e : ε}

theorem refuse_ok [Decidable c] : refuse c e = .ok () ↔ ¬c := by
  unfold refuse
  split <;> simp_all

theorem refuse_bind_ok [Decidable c] {f : Unit → Except ε β} :
    (refuse c e >>= f) = .ok b ↔ ¬c ∧ f () = .ok b := by
  rw [check_ok, refuse_ok]

variable {a : α}

theorem toOption_eq_some : x.toOption = some a ↔ x = .ok a := by
  cases x with
  | error | ok => simp [Except.toOption]

theorem isOk_iff : x.isOk = true ↔ ∃ a, x = .ok a := by
  cases x with
  | error | ok => simp [Except.isOk, Except.toBool]

theorem map_ok {f : α → β} : x.map f = .ok b ↔ ∃ a, x = .ok a ∧ f a = b := by
  cases x with
  | error | ok => simp [Except.map]

theorem map_error {f : α → β} : x.map f = .error e ↔ x = .error e := by
  cases x <;> simp [Except.map]

theorem mapError_ok {f : ε → ε'} : x.mapError f = .ok a ↔ x = .ok a := by
  cases x with
  | error | ok => simp [Except.mapError]

/-- A check made for each element of a list. -/
theorem forM_ok {f : α → Except ε Unit} : l.forM f = .ok () ↔ ∀ a ∈ l, f a = .ok () := by
  induction l with
  | nil => simp [List.forM, pure, Except.pure]
  | cons a l ih =>
    have hcons : (a :: l).forM f = (f a >>= fun _ => l.forM f) := rfl
    rw [hcons, check_ok, ih, List.forall_mem_cons]

variable {g : α → β}

/-- A list of outcomes that all end well is the list of what they are known to give. -/
theorem mapM_ok (hf : ∀ a b, f a = .ok b → b = g a) {bs : List β} (h : l.mapM f = .ok bs) :
    bs = l.map g := by
  induction l generalizing bs with
  | nil =>
    rw [List.mapM_nil] at h
    injection h with h
    exact h.symm
  | cons a l ih =>
    rw [List.mapM_cons] at h
    obtain ⟨b, hb, h⟩ := bind_ok.mp h
    obtain ⟨cs, hcs, h⟩ := bind_ok.mp h
    injection h with h
    rw [← h, hf a b hb, ih hcs, List.map_cons]

theorem mapM_of_ok (hf : ∀ a ∈ l, f a = .ok (g a)) : l.mapM f = .ok (l.map g) := by
  induction l with
  | nil => rfl
  | cons a l ih =>
    rw [List.mapM_cons, hf a List.mem_cons_self, ih fun b hb => hf b (List.mem_cons_of_mem a hb)]
    rfl

/-- A list of outcomes that all end well. -/
theorem mapM_of_forall (hf : ∀ a ∈ l, ∃ b, f a = .ok b) :
    l.mapM f = .ok (l.filterMap (fun a => (f a).toOption)) := by
  induction l with
  | nil => rfl
  | cons a l ih =>
    obtain ⟨b, hb⟩ := hf a List.mem_cons_self
    have hsome : (f a).toOption = some b := toOption_eq_some.mpr hb
    rw [List.mapM_cons, hb, ih fun c hc => hf c (List.mem_cons_of_mem a hc), List.filterMap_cons,
      hsome]
    rfl

/-- A list of outcomes ends well if and only if each of them does. -/
theorem exists_mapM_ok : (∃ bs, l.mapM f = .ok bs) ↔ ∀ a ∈ l, ∃ b, f a = .ok b := by
  constructor
  · induction l with
    | nil => simp
    | cons a l ih =>
      intro ⟨bs, h⟩
      rw [List.mapM_cons] at h
      obtain ⟨b, hb, h⟩ := bind_ok.mp h
      obtain ⟨cs, hcs, h⟩ := bind_ok.mp h
      exact List.forall_mem_cons.mpr ⟨⟨b, hb⟩, ih ⟨cs, hcs⟩⟩
  · intro h
    exact ⟨_, mapM_of_forall h⟩

end Outcome
