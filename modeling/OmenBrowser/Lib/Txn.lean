import Mathlib.Tactic.Common

/- Transactions over an arbitrary state, and runs of a system.

   `Txn σ ε α` is a transaction body: it reads and writes a state `σ`, returns an
   `α`, or aborts with an `ε`. `atomically` runs a body against a state and keeps
   its writes only when the body ends; a body that aborts leaves the state as it
   was, which is what a rolled back transaction does. A proof takes a body apart
   with `bind_ok`: a sequence ended well iff both of its halves did.

   `run` folds a step function over a list of inputs and records the outcome of
   each. `run_history` is the induction every whole-run result is proved with: an
   assertion about the history so far and the current state, kept by each step
   that meets `ok`, holds at the end of every run whose steps all meet it. -/
namespace Sql

/-- A transaction body over the state `σ` that may abort with `ε`. -/
def Txn (σ ε α : Type) : Type := σ → Except ε (α × σ)

namespace Txn
variable {σ τ ε α β : Type}

instance : Monad (Txn σ ε) where
  pure a := fun s => .ok (a, s)
  bind x f := fun s => match x s with
    | .ok (a, s') => f a s'
    | .error e => .error e

/-- Abort the transaction. -/
def abort (e : ε) : Txn σ ε α := fun _ => .error e

/-- Read the tables. -/
def query (f : σ → α) : Txn σ ε α := fun s => .ok (f s, s)

/-- Write the tables. -/
def execute (f : σ → σ) : Txn σ ε Unit := fun s => .ok ((), f s)

/-- A statement that may fail: it reads, writes, and returns a value. -/
def statement (f : σ → Except ε (α × σ)) : Txn σ ε α := f

/-- A check that does not touch the tables. -/
def lift (x : Except ε α) : Txn σ ε α := fun s => x.map (fun a => (a, s))

/-- Run a body on a part of the state. -/
def zoom (get : τ → σ) (set : σ → τ → τ) (x : Txn σ ε α) : Txn τ ε α :=
  fun t => (x (get t)).map (fun r => (r.1, set r.2 t))

variable {a : α} {r : α × σ}

theorem pure_ok {s : σ} : (pure a : Txn σ ε α) s = .ok r ↔ r = (a, s) := by
  constructor
  · intro h; injection h with h; exact h.symm
  · rintro rfl; rfl

variable {s' : σ}

theorem pure_eq_ok {b : α} {s : σ} (h : (pure a : Txn σ ε α) s = .ok (b, s')) :
    b = a ∧ s' = s := Prod.mk.inj (pure_ok.mp h)

theorem bind_ok {x : Txn σ ε α} {f : α → Txn σ ε β} {s : σ} {r : β × σ} :
    (x >>= f) s = .ok r ↔ ∃ a s', x s = .ok (a, s') ∧ f a s' = .ok r := by
  show (match x s with
    | .ok (a, s') => f a s'
    | .error e => .error e) = .ok r ↔ _
  cases hx : x s with
  | error e => simp
  | ok p =>
    obtain ⟨a, s'⟩ := p
    simp

theorem bind_run {x : Txn σ ε α} {f : α → Txn σ ε β} {s : σ} (h : x s = .ok (a, s')) :
    (x >>= f) s = f a s' := by
  show (match x s with
    | .ok (a, s') => f a s'
    | .error e => .error e) = _
  rw [h]

variable {e : ε}

@[simp] theorem abort_ok {s : σ} : (abort e : Txn σ ε α) s = .ok r ↔ False := by
  simp [abort]

@[simp] theorem query_ok {f : σ → α} {s : σ} : (query f : Txn σ ε α) s = .ok r ↔ r = (f s, s) := by
  simp [query, eq_comm]

@[simp] theorem execute_ok {f : σ → σ} {s : σ} {r : Unit × σ} :
    (execute f : Txn σ ε Unit) s = .ok r ↔ r = ((), f s) := by
  simp [execute, eq_comm]

theorem lift_ok {x : Except ε α} {s : σ} :
    (lift x : Txn σ ε α) s = .ok r ↔ x = .ok r.1 ∧ r.2 = s := by
  cases x with
  | error e => simp [lift, Except.map]
  | ok a =>
    obtain ⟨b, t⟩ := r
    simp [lift, Except.map, eq_comm]

theorem zoom_ok {get : τ → σ} {set : σ → τ → τ} {x : Txn σ ε α} {t : τ} {r : α × τ} :
    zoom get set x t = .ok r ↔ ∃ s', x (get t) = .ok (r.1, s') ∧ r.2 = set s' t := by
  unfold zoom
  cases hx : x (get t) with
  | error e => simp [Except.map]
  | ok p =>
    obtain ⟨a, s'⟩ := p
    obtain ⟨b, u⟩ := r
    simp only [Except.map, Except.ok.injEq, Prod.mk.injEq]
    constructor
    · rintro ⟨rfl, rfl⟩; exact ⟨s', ⟨rfl, rfl⟩, rfl⟩
    · rintro ⟨_, ⟨rfl, rfl⟩, rfl⟩; exact ⟨rfl, rfl⟩

/-! A first step that does one thing only, taken off a sequence. -/

variable {g : α → Txn σ ε β}

theorem query_bind {f : σ → α} {s : σ} : (query f >>= g) s = g (f s) s := rfl

theorem execute_bind {f : σ → σ} {g : Unit → Txn σ ε β} {s : σ} :
    (execute f >>= g) s = g () (f s) := rfl

theorem lift_bind_ok {x : Except ε α} {s : σ} {r : β × σ} :
    (lift x >>= g) s = .ok r ↔ ∃ a, x = .ok a ∧ g a s = .ok r := by
  rw [bind_ok]
  refine ⟨?_, ?_⟩
  · intro ⟨a, s', hx, hg⟩
    obtain ⟨hx, hs⟩ := lift_ok.mp hx
    exact ⟨a, hx, by rw [← hs]; exact hg⟩
  · intro ⟨a, hx, hg⟩
    exact ⟨a, s, lift_ok.mpr ⟨hx, rfl⟩, hg⟩

variable (x : Txn σ ε α)

/-- Run a body and keep its writes only if it ends: a body that aborts is rolled back. -/
def atomically (s : σ) : Except ε α × σ :=
  match x s with
  | .ok (a, s') => (.ok a, s')
  | .error e => (.error e, s)

theorem atomically_ok {x : Txn σ ε α} {s : σ} :
    (atomically x s).1 = .ok a ↔ x s = .ok (a, (atomically x s).2) := by
  unfold atomically
  cases hx : x s with
  | error e => simp
  | ok p =>
    obtain ⟨b, s'⟩ := p
    simp

/-- A failed transaction leaves the state as it was. -/
theorem atomically_error {x : Txn σ ε α} {s : σ} (h : (atomically x s).1 = .error e) :
    (atomically x s).2 = s := by
  unfold atomically at h ⊢
  cases hx : x s with
  | error e => rfl
  | ok p => obtain ⟨b, s'⟩ := p; rw [hx] at h; cases h

/-- What every completed body preserves, a transaction preserves, failed or not. -/
theorem atomically_preserves {I : σ → Prop} {x : Txn σ ε α} {s : σ}
    (hx : ∀ a s', x s = .ok (a, s') → I s') (hs : I s) : I (atomically x s).2 := by
  unfold atomically
  cases h : x s with
  | error e => exact hs
  | ok p => exact hx p.1 p.2 h

/-! What a body leaves alone. -/

/-- The part `f` of the state is as it was wherever the body ends. -/
def Keeps (f : σ → τ) (x : Txn σ ε α) : Prop := ∀ s a s', x s = .ok (a, s') → f s' = f s

variable {f : σ → τ}

theorem Keeps.pure (a : α) : Keeps f (Pure.pure a : Txn σ ε α) := by
  intro s b s' h
  rw [(pure_eq_ok h).2]

theorem Keeps.bind {x : Txn σ ε α} (hx : Keeps f x) (hg : ∀ a, Keeps f (g a)) :
    Keeps f (x >>= g) := by
  intro s b s' h
  obtain ⟨a, s₁, h₁, h₂⟩ := bind_ok.mp h
  exact (hg a s₁ b s' h₂).trans (hx s a s₁ h₁)

theorem Keeps.abort (e : ε) : Keeps f (abort e : Txn σ ε α) := by
  intro s a s' h
  exact (abort_ok.mp h).elim

theorem Keeps.query (g : σ → α) : Keeps f (query g : Txn σ ε α) := by
  intro s a s' h
  rw [(Prod.mk.inj (query_ok.mp h)).2]

theorem Keeps.lift (x : Except ε α) : Keeps f (lift x : Txn σ ε α) := by
  intro s a s' h
  exact congrArg f (lift_ok.mp h).2

theorem Keeps.execute {g : σ → σ} (hg : ∀ s, f (g s) = f s) : Keeps f (execute g : Txn σ ε Unit) := by
  intro s a s' h
  rw [(Prod.mk.inj (execute_ok.mp h)).2]
  exact hg s

theorem Keeps.ite {c : Prop} [Decidable c] {x y : Txn σ ε α} (hx : Keeps f x) (hy : Keeps f y) :
    Keeps f (if c then x else y) := by
  split
  · exact hx
  · exact hy

/-- A first step that only reads, taken off a sequence. -/
theorem Keeps.bind_ok {x : Txn σ ε α} {s : σ} {r : β × σ} (hx : Keeps id x)
    (h : (x >>= g) s = .ok r) : ∃ a, x s = .ok (a, s) ∧ g a s = .ok r := by
  obtain ⟨a, s', ha, hg⟩ := Txn.bind_ok.mp h
  have hs : s' = s := hx s a s' ha
  exact ⟨a, hs ▸ ha, hs ▸ hg⟩

/-! Bodies that end. -/

/-- The body does not abort on this state. -/
def Ends (s : σ) : Prop := ∃ r, x s = .ok r

theorem Ends.pure (a : α) (s : σ) : Ends (Pure.pure a : Txn σ ε α) s := ⟨(a, s), rfl⟩

theorem Ends.bind {x : Txn σ ε α} {s : σ} (hx : x s = .ok (a, s')) (hg : Ends (g a) s') :
    Ends (x >>= g) s := by
  obtain ⟨r, hr⟩ := hg
  exact ⟨r, (bind_run hx).trans hr⟩

end Txn
end Sql

namespace Machine
variable {σ ι ω : Type}

/-- Run a system over a list of inputs, recording the outcome of each. -/
def run (step : σ → ι → ω × σ) : σ → List ι → List (ι × ω) × σ
  | s, [] => ([], s)
  | s, i :: is =>
    let next := step s i
    let rest := run step next.2 is
    ((i, next.1) :: rest.1, rest.2)

/-- Every step of the run meets `ok` in the state it is taken from. -/
def Meets (step : σ → ι → ω × σ) (ok : σ → ι → Prop) : σ → List ι → Prop
  | _, [] => True
  | s, i :: is => ok s i ∧ Meets step ok (step s i).2 is

variable {step : σ → ι → ω × σ} {ok : σ → ι → Prop}

variable {is : List ι}

/-- A condition on the inputs alone. -/
theorem meets_of_forall {p : ι → Prop} {s : σ} (h : ∀ i ∈ is, p i) :
    Meets step (fun _ i => p i) s is := by
  induction is generalizing s with
  | nil => trivial
  | cons i is ih =>
    refine ⟨h i List.mem_cons_self, ih ?_⟩
    exact fun j hj => h j (List.mem_cons_of_mem i hj)

variable {ok' : σ → ι → Prop}

/-- Conditions that are the same at every step. -/
theorem meets_congr (h : ∀ s i, ok s i ↔ ok' s i) {s : σ} :
    Meets step ok s is ↔ Meets step ok' s is := by
  induction is generalizing s with
  | nil => exact Iff.rfl
  | cons i is ih => exact and_congr (h s i) ih

variable (s : σ)

theorem meets_true (is : List ι) : Meets step (fun _ _ => True) s is :=
  meets_of_forall (p := fun _ => True) fun _ _ => trivial

section
variable {I : List (ι × ω) → σ → Prop}
  (hstep : ∀ h s i, I h s → ok s i → I (h ++ [(i, (step s i).1)]) (step s i).2)
include hstep

/-- The history so far and the current state keep `I` along a run whose steps meet `ok`. -/
theorem run_history_from (h : List (ι × ω)) (s : σ) (is : List ι) (hm : Meets step ok s is) (hI : I h s) :
    I (h ++ (run step s is).1) (run step s is).2 := by
  induction is generalizing h s with
  | nil => simpa [run] using hI
  | cons i is ih =>
    have hnext := ih _ _ hm.2 (hstep h s i hI hm.1)
    simpa [run] using hnext

theorem run_history (s : σ) (is : List ι) (hm : Meets step ok s is) (hI : I [] s) :
    I (run step s is).1 (run step s is).2 := by
  simpa using run_history_from hstep [] s is hm hI

end

theorem run_invariant {I : σ → Prop} (hstep : ∀ s i, I s → ok s i → I (step s i).2)
    (s : σ) (is : List ι) (hm : Meets step ok s is) (hI : I s) : I (run step s is).2 :=
  run_history (I := fun _ s => I s) (fun _ s i => hstep s i) s is hm hI

theorem run_append (is js : List ι) :
    (run step s (is ++ js)).2 = (run step (run step s is).2 js).2 := by
  induction is generalizing s with
  | nil => rfl
  | cons i is ih => exact ih (step s i).2

theorem run_append_outputs (is js : List ι) :
    (run step s (is ++ js)).1 = (run step s is).1 ++ (run step (run step s is).2 js).1 := by
  induction is generalizing s with
  | nil => rfl
  | cons i is ih => exact congrArg ((i, (step s i).1) :: ·) (ih (step s i).2)

variable {js : List ι}

theorem meets_append {s : σ} (h : Meets step ok s (is ++ js)) :
    Meets step ok (run step s is).2 js := by
  induction is generalizing s with
  | nil => exact h
  | cons i is ih => exact ih h.2

theorem meets_front {s : σ} (h : Meets step ok s (is ++ js)) : Meets step ok s is := by
  induction is generalizing s with
  | nil => trivial
  | cons i is ih => exact ⟨h.1, ih h.2⟩

/-- What an invariant and a condition say together of a step, a run says of all its steps. -/
theorem meets_of_invariant {I : σ → Prop} (hkeep : ∀ s i, I s → ok s i → I (step s i).2)
    (hsay : ∀ s i, I s → ok s i → ok' s i) {s : σ} (h : Meets step ok s is) (hI : I s) :
    Meets step ok' s is := by
  induction is generalizing s with
  | nil => trivial
  | cons i is ih => exact ⟨hsay s i hI h.1, ih h.2 (hkeep s i hI h.1)⟩

variable {i : ι} {o : ω} {post pre : List (ι × ω)}

/-- A step of a run splits it: the run before it, the step, and the run after it. -/
theorem run_split {s : σ} (h : (run step s is).1 = pre ++ (i, o) :: post) :
    ∃ is₁ is₂, is = is₁ ++ i :: is₂ ∧ (run step s is₁).1 = pre ∧
      (step (run step s is₁).2 i).1 = o ∧
      (run step (step (run step s is₁).2 i).2 is₂).1 = post := by
  induction is generalizing s pre with
  | nil => simp [run] at h
  | cons j is ih =>
    cases pre with
    | nil =>
      simp only [run, List.nil_append, List.cons.injEq, Prod.mk.injEq] at h
      obtain ⟨⟨rfl, ho⟩, hp⟩ := h
      exact ⟨[], is, rfl, rfl, ho, hp⟩
    | cons q pre =>
      simp only [run, List.cons_append, List.cons.injEq] at h
      obtain ⟨hq, hrest⟩ := h
      obtain ⟨is₁, is₂, rfl, h₁, h₂, h₃⟩ := ih hrest
      exact ⟨j :: is₁, is₂, rfl, by simp only [run, h₁, hq], h₂, h₃⟩

/-- Once a step has made `Q` true, and every step keeps it, what `Q` says of a step is said
of all later ones. -/
theorem run_later {Q : σ → Prop} {R : ι → ω → Prop} (hkeep : ∀ s i, Q s → Q (step s i).2)
    (hsay : ∀ s i, Q s → R i (step s i).1) {s : σ}
    (hmade : ∀ s, (step s i).1 = o → Q (step s i).2)
    (h : (run step s is).1 = pre ++ (i, o) :: post) : ∀ p ∈ post, R p.1 p.2 := by
  obtain ⟨is₁, is₂, _, _, ho, hpost⟩ := run_split h
  intro p hp
  rw [← hpost] at hp
  obtain ⟨pre', post', hsplit⟩ := List.append_of_mem hp
  obtain ⟨is₃, _, _, _, hout, _⟩ := run_split hsplit
  -- the state before the later step still has `Q`
  have hQ : Q (run step (step (run step s is₁).2 i).2 is₃).2 :=
    run_invariant (fun s i hs _ => hkeep s i hs) _ _ (meets_true _ _)
      (hmade _ ho)
  rw [← hout]
  exact hsay _ _ hQ

/-- A list in which no entry with `p` comes after another has at most one. -/
theorem countP_le_one {α : Type} {p : α → Bool} {l : List α}
    (h : ∀ pre x post, l = pre ++ x :: post → p x = true → ∀ y ∈ post, p y = false) :
    l.countP p ≤ 1 := by
  induction l with
  | nil => exact Nat.zero_le 1
  | cons x l ih =>
    by_cases hx : p x = true
    · have hnone : l.countP p = 0 :=
        List.countP_eq_zero.mpr fun y hy => by rw [h [] x l rfl hx y hy]; exact Bool.false_ne_true
      rw [List.countP_cons_of_pos hx]
      omega
    · rw [List.countP_cons_of_neg hx]
      apply ih
      intro pre y post hl
      exact h (x :: pre) y post (by rw [hl]; rfl)

end Machine
