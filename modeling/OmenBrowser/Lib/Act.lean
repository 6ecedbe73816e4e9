import Mathlib.Order.Defs.Unbundled
import Mathlib.Tactic.Common

/- Actions on a state whose writes stay when they fail.

   `Act σ ε α` reads and writes a state `σ` and ends with an `α` or an `ε`; unlike a
   transaction, what was written before a failure is kept, and the actions after it are
   not run. What an action may do to the state is said by a relation between the state
   before and after it, whichever way it ends: `Act.Steps R` holds of a sequence when it
   holds of its parts and `R` is a preorder. A frame condition, an invariant and a bound
   are all of this form. -/

/-- An action on the state `σ` that may fail with `ε`. -/
def Act (σ ε α : Type) : Type := σ → Except ε α × σ

namespace Act
variable {σ τ ε α β : Type}

instance : Monad (Act σ ε) where
  pure a := fun s => (.ok a, s)
  bind x f := fun s => match x s with
    | (.ok a, s') => f a s'
    | (.error e, s') => (.error e, s')

/-- Fail; what was done before stays. -/
def throw (e : ε) : Act σ ε α := fun s => (.error e, s)

variable (f : σ → α)

/-- Read the state. -/
def read : Act σ ε α := fun s => (.ok (f s), s)

/-- Write the state. -/
def modify (f : σ → σ) : Act σ ε Unit := fun s => (.ok (), f s)

/-- A computation that does not touch the state. -/
def lift (x : Except ε α) : Act σ ε α := fun s => (x, s)

/-- An action on a part of the state. -/
def zoom (get : τ → σ) (set : σ → τ → τ) (x : Act σ ε α) : Act τ ε α :=
  fun t => ((x (get t)).1, set (x (get t)).2 t)

variable (x : Act σ ε α)

/-- The outcome as a value: the action itself does not fail. -/
def attempt : Act σ ε (Except ε α) := fun s => (.ok (x s).1, (x s).2)

/-- Run an action for each element in turn, until one fails. -/
def forEach (x : α → Act σ ε Unit) : List α → Act σ ε Unit
  | [] => pure ()
  | a :: l => do
    x a
    forEach x l

theorem bind_ok {x : Act σ ε α} {f : α → Act σ ε β} {s s' : σ} {a : α} (h : x s = (.ok a, s')) :
    (x >>= f) s = f a s' := by
  show (match x s with
    | (.ok a, s') => f a s'
    | (.error e, s') => (.error e, s')) = _
  rw [h]

theorem bind_error {x : Act σ ε α} {f : α → Act σ ε β} {s s' : σ} {e : ε}
    (h : x s = (.error e, s')) : (x >>= f) s = (.error e, s') := by
  show (match x s with
    | (.ok a, s') => f a s'
    | (.error e, s') => (.error e, s')) = _
  rw [h]

theorem read_bind (g : α → Act σ ε β) (s : σ) : (read f >>= g) s = g (f s) s := rfl

theorem modify_bind (f : σ → σ) (g : Unit → Act σ ε β) (s : σ) :
    (modify f >>= g) s = g () (f s) := rfl

variable (a : α) (g : α → Act σ ε β) (s : σ)

theorem lift_bind : (lift (.ok a) >>= g) s = g a s := rfl

theorem attempt_bind (g : Except ε α → Act σ ε β) (s : σ) :
    (attempt x >>= g) s = g (x s).1 (x s).2 := rfl

theorem pure_bind : (pure a >>= g : Act σ ε β) s = g a s := rfl

theorem pure_apply : (pure a : Act σ ε α) s = (.ok a, s) := rfl

/-- An action followed by a value made of its result. -/
theorem bind_pure (f : α → β) (s : σ) :
    (x >>= fun a => pure (f a)) s = ((x s).1.map f, (x s).2) := by
  rcases h : x s with ⟨r, s'⟩
  cases r with
  | error e => exact bind_error h
  | ok a => exact bind_ok h

theorem bind_pure_self : (x >>= fun a => pure a) = x := by
  funext s
  rw [bind_pure]
  rcases x s with ⟨r, s'⟩
  cases r <;> rfl

section
variable {x : Act σ ε α} {f : α → Act σ ε β}

/-- A sequence ended well iff both of its halves did. -/
theorem bind_eq_ok {s s' : σ} {b : β} :
    (x >>= f) s = (.ok b, s') ↔ ∃ a s₁, x s = (.ok a, s₁) ∧ f a s₁ = (.ok b, s') := by
  rcases hx : x s with ⟨r, s₁⟩
  cases r with
  | error e =>
    rw [bind_error hx]
    simp
  | ok a =>
    rw [bind_ok hx]
    simp

/-- A sequence failed iff one of its halves did. -/
theorem bind_eq_error {s s' : σ} {e : ε} : (x >>= f) s = (.error e, s') ↔
      x s = (.error e, s') ∨ ∃ a s₁, x s = (.ok a, s₁) ∧ f a s₁ = (.error e, s') := by
  rcases hx : x s with ⟨r, s₁⟩
  cases r with
  | error e =>
    rw [bind_error hx]
    simp
  | ok a =>
    rw [bind_ok hx]
    simp

/-- What follows an action and leaves the state does not show in it. -/
theorem bind_state (hf : ∀ a s, (f a s).2 = s) (s : σ) : ((x >>= f) s).2 = (x s).2 := by
  rcases h : x s with ⟨r, s'⟩
  cases r with
  | error e => rw [bind_error h]
  | ok a =>
    rw [bind_ok h]
    exact hf a s'

end

theorem bind_assoc {γ : Type} (f : α → Act σ ε β) (g : β → Act σ ε γ) :
    (x >>= f) >>= g = x >>= fun a => f a >>= g := by
  funext s
  rcases h : x s with ⟨r, s'⟩
  cases r with
  | error e => rw [bind_error (bind_error h), bind_error h]
  | ok a =>
    have hfirst : (x >>= f) s = f a s' := bind_ok h
    rw [bind_ok h]
    rcases h' : f a s' with ⟨r, s''⟩
    rw [h'] at hfirst
    cases r with
    | error e => rw [bind_error hfirst, bind_error h']
    | ok b => rw [bind_ok hfirst, bind_ok h']

theorem forEach_singleton (x : α → Act σ ε Unit) (a : α) : forEach x [a] = x a :=
  bind_pure_self (x a)

theorem forEach_append (x : α → Act σ ε Unit) (l l' : List α) (s : σ) :
    forEach x (l ++ l') s = (forEach x l >>= fun _ => forEach x l') s := by
  induction l generalizing s with
  | nil => rfl
  | cons a l ih =>
    show (x a >>= fun _ => forEach x (l ++ l')) s =
      ((x a >>= fun _ => forEach x l) >>= fun _ => forEach x l') s
    rcases h : x a s with ⟨r, s'⟩
    cases r with
    | error e => rw [bind_error h, bind_error (bind_error h)]
    | ok _ =>
      rw [bind_ok h, ih]
      rcases h' : forEach x l s' with ⟨r, s''⟩
      have hboth : (x a >>= fun _ => forEach x l) s = (r, s'') := (bind_ok h).trans h'
      cases r with
      | error e => rw [bind_error h', bind_error hboth]
      | ok _ => rw [bind_ok h', bind_ok hboth]

/-- What never fails for one element never fails for a list. -/
theorem forEach_ok {x : α → Act σ ε Unit} (h : ∀ a s, (x a s).1 = .ok ()) (l : List α) (s : σ) :
    (forEach x l s).1 = .ok () := by
  induction l generalizing s with
  | nil => rfl
  | cons a l ih =>
    have hfirst : x a s = (.ok (), (x a s).2) := Prod.ext (h a s) rfl
    show ((x a >>= fun _ => forEach x l) s).1 = .ok ()
    rw [bind_ok hfirst]
    exact ih _

/-- The action ends well for each in turn, with these results. -/
inductive Each (x : α → Act σ ε β) : List α → σ → List β → σ → Prop where
  | nil (s : σ) : Each x [] s [] s
  | cons {a : α} {b : β} {l : List α} {bs : List β} {s s₁ s₂ : σ} (h : x a s = (.ok b, s₁))
      (hs : Each x l s₁ bs s₂) : Each x (a :: l) s (b :: bs) s₂

/-! What an action may do to the state. -/

/-- The state before and after the action are related, whichever way it ends. -/
def Steps (R : σ → σ → Prop) (x : Act σ ε α) : Prop := ∀ s, R s (x s).2

section Steps
variable {R : σ → σ → Prop}

/-- A run of such an action. -/
theorem Steps.of_eq {x : Act σ ε α} (hx : Steps R x) {s s' : σ} {r : Except ε α}
    (h : x s = (r, s')) : R s s' := by
  have hstep := hx s
  rwa [h] at hstep

theorem Steps.bind [IsTrans σ R] {x : Act σ ε α} {f : α → Act σ ε β} (hx : Steps R x)
    (hf : ∀ a, Steps R (f a)) : Steps R (x >>= f) := by
  intro s
  have hfirst := hx s
  rcases h : x s with ⟨r, s₁⟩
  rw [h] at hfirst
  cases r with
  | error e =>
    rw [bind_error h]
    exact hfirst
  | ok a =>
    rw [bind_ok h]
    exact trans_of R hfirst (hf a s₁)

theorem Steps.pure [Std.Refl R] : Steps R (Pure.pure a : Act σ ε α) :=
  fun s => refl_of R s

theorem Steps.read [Std.Refl R] : Steps R (read f : Act σ ε α) :=
  fun s => refl_of R s

theorem Steps.lift [Std.Refl R] (x : Except ε α) : Steps R (lift x : Act σ ε α) :=
  fun s => refl_of R s

theorem Steps.throw [Std.Refl R] (e : ε) : Steps R (throw e : Act σ ε α) :=
  fun s => refl_of R s

theorem Steps.modify {f : σ → σ} (hf : ∀ s, R s (f s)) : Steps R (modify f : Act σ ε Unit) := hf

theorem Steps.attempt {x : Act σ ε α} (hx : Steps R x) : Steps R (attempt x) := hx

theorem Steps.ite {c : Prop} [Decidable c] {x y : Act σ ε α} (hx : Steps R x) (hy : Steps R y) :
    Steps R (if c then x else y) := by
  split
  · exact hx
  · exact hy

theorem Steps.forEach [IsPreorder σ R] {x : α → Act σ ε Unit} (hx : ∀ a, Steps R (x a))
    (l : List α) : Steps R (forEach x l) := by
  induction l with
  | nil => exact Steps.pure ()
  | cons a l ih => exact Steps.bind (hx a) fun _ => ih

end Steps

/-! What an action does from states of some kind. -/

/-- Steps by `R` follow each other, and from a state with `P` they lead to such states. -/
structure Guards (P : σ → Prop) (R : σ → σ → Prop) : Prop where
  refl : ∀ s, R s s
  trans : ∀ s₁ s₂ s₃, R s₁ s₂ → R s₂ s₃ → R s₁ s₃
  kept : ∀ s s', P s → R s s' → P s'

theorem Guards.preorder {P : σ → Prop} {R : σ → σ → Prop} (h : Guards P R) : IsPreorder σ R where
  refl := h.refl
  trans := h.trans

/-- From a state with `P` the action steps by `R`, and what it ends with has `Q`. -/
def Upholds (P : σ → Prop) (R : σ → σ → Prop) (Q : α → Prop) (x : Act σ ε α) : Prop :=
  ∀ s, P s → R s (x s).2 ∧ ∀ a, (x s).1 = .ok a → Q a

namespace Upholds
variable {P : σ → Prop} {R : σ → σ → Prop} {Q Q' : α → Prop}

theorem pure (h : Guards P R) {a : α} (ha : Q a) : Upholds P R Q (Pure.pure a : Act σ ε α) := by
  intro s _
  refine ⟨h.refl s, fun b hb => ?_⟩
  rwa [← Except.ok.inj hb]

theorem lift (h : Guards P R) {r : Except ε α} (hr : ∀ a, r = .ok a → Q a) :
    Upholds P R Q (Act.lift r) := fun s _ => ⟨h.refl s, hr⟩

theorem mono {x : Act σ ε α} (hx : Upholds P R Q x) (h : ∀ a, Q a → Q' a) : Upholds P R Q' x := by
  intro s hs
  obtain ⟨hstep, hend⟩ := hx s hs
  exact ⟨hstep, fun a ha => h a (hend a ha)⟩

theorem of_steps {x : Act σ ε α} (hx : Steps R x) : Upholds P R (fun _ => True) x :=
  fun s _ => ⟨hx s, fun _ _ => trivial⟩

theorem bind {Q'' : β → Prop} (h : Guards P R) {x : Act σ ε α} {f : α → Act σ ε β}
    (hx : Upholds P R Q x) (hf : ∀ a, Q a → Upholds P R Q'' (f a)) : Upholds P R Q'' (x >>= f) := by
  intro s hs
  obtain ⟨hstep, hend⟩ := hx s hs
  rcases hr : x s with ⟨r, s'⟩
  rw [hr] at hstep hend
  cases r with
  | error e =>
    rw [bind_error hr]
    exact ⟨hstep, nofun⟩
  | ok a =>
    rw [bind_ok hr]
    obtain ⟨hnext, hlast⟩ := hf a (hend a rfl) s' (h.kept s s' hs hstep)
    exact ⟨h.trans _ _ _ hstep hnext, hlast⟩

/-- An attempt that ends well has what the action ends with. -/
theorem attempt {x : Act σ ε α} (hx : Upholds P R Q x) :
    Upholds P R (fun r => ∀ a, r = .ok a → Q a) (Act.attempt x) := by
  intro s hs
  obtain ⟨hstep, hend⟩ := hx s hs
  refine ⟨hstep, fun r hr => ?_⟩
  rw [← Except.ok.inj hr]
  exact hend

theorem forEach (h : Guards P R) {x : α → Act σ ε Unit} {l : List α}
    (hx : ∀ a ∈ l, Upholds P R (fun _ => True) (x a)) :
    Upholds P R (fun _ => True) (Act.forEach x l) := by
  induction l with
  | nil => exact pure h trivial
  | cons a l ih =>
    refine bind h (hx a List.mem_cons_self) fun _ _ => ih ?_
    exact fun b hb => hx b (List.mem_cons_of_mem a hb)

end Upholds
end Act
