import OmenBrowser.Lib.Outcome

/- A writer and a reader of values, both of which may refuse.

   `ReadsBack` is the round trip of a value: if it can be written, reading gives it
   back. `Rewrites` is the round trip of what was written: if it can be read, the value
   can be written, and is read back. Both carry over to lists, written and read one by
   one, and the second follows from the first where the reader accepts only values the
   writer does. -/
namespace RoundTrip
variable {ε α β : Type} {write : α → Except ε β} {read : β → Except ε α}
  {l : List α}

def ReadsBack (write : α → Except ε β) (read : β → Except ε α) (a : α) : Prop :=
  ∀ b, write a = .ok b → read b = .ok a

def Rewrites (write : α → Except ε β) (read : β → Except ε α) (b : β) : Prop :=
  ∀ a, read b = .ok a → ∃ b', write a = .ok b' ∧ read b' = .ok a

theorem rewrites_of_writes {b : β} (hwrites : ∀ a, read b = .ok a → ∃ b', write a = .ok b')
    (hreads : ∀ a, read b = .ok a → ReadsBack write read a) : Rewrites write read b := by
  intro a ha
  obtain ⟨b', hb'⟩ := hwrites a ha
  exact ⟨b', hb', hreads a ha b' hb'⟩

/-! Lists. -/

theorem mapM_readsBack (h : ∀ a ∈ l, ReadsBack write read a) {bs : List β}
    (hbs : l.mapM write = .ok bs) : bs.mapM read = .ok l := by
  induction l generalizing bs with
  | nil =>
    rw [List.mapM_nil] at hbs
    cases hbs
    rfl
  | cons a l ih =>
    rw [List.mapM_cons] at hbs
    obtain ⟨b, hb, hbs⟩ := Outcome.bind_ok.mp hbs
    obtain ⟨rest, hrest, hbs⟩ := Outcome.bind_ok.mp hbs
    cases hbs
    rw [List.mapM_cons, h a List.mem_cons_self b hb,
      ih (fun a' ha' => h a' (List.mem_cons_of_mem a ha')) hrest]
    rfl

theorem mapM_writes (h : ∀ a ∈ l, ∃ b, write a = .ok b) : ∃ bs, l.mapM write = .ok bs := by
  induction l with
  | nil => exact ⟨[], rfl⟩
  | cons a l ih =>
    obtain ⟨b, hb⟩ := h a List.mem_cons_self
    obtain ⟨bs, hbs⟩ := ih fun a' ha' => h a' (List.mem_cons_of_mem a ha')
    rw [List.mapM_cons, hb, hbs]
    exact ⟨b :: bs, rfl⟩

theorem length_mapM {bs : List β} (h : l.mapM write = .ok bs) : bs.length = l.length := by
  induction l generalizing bs with
  | nil =>
    rw [List.mapM_nil] at h
    cases h
    rfl
  | cons a l ih =>
    rw [List.mapM_cons] at h
    obtain ⟨b, _, h⟩ := Outcome.bind_ok.mp h
    obtain ⟨rest, hrest, h⟩ := Outcome.bind_ok.mp h
    cases h
    rw [List.length_cons, List.length_cons, ih hrest]

end RoundTrip
