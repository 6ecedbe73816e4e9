import OmenBrowser.Lib.Act
import OmenBrowser.Lib.Table

/- Files on a disk, under paths of any kind, and the operations on them that may fail.

   A disk holds at most one file under a path; what it says of a path is `read`, and the two
   writes everything else is made of are `put` and `erase`. An operation takes whether it fails
   from its caller. One that fails changes nothing, but for a write: it leaves the bytes it had
   written by then, which are never all of them. -/
/-! What is taken back when an action fails. -/

/-- Where the action fails, `undo` is done to what it left. -/
def Act.undoing {σ ε α : Type} (x : Act σ ε α) (undo : σ → σ) : Act σ ε α := fun s =>
  match x s with
  | (.ok a, s') => (.ok a, s')
  | (.error e, s') => (.error e, undo s')

namespace Act
variable {σ ε α : Type} {x : Act σ ε α} {undo : σ → σ} {s s' : σ} {a : α} {e : ε}

theorem undoing_ok : x.undoing undo s = (.ok a, s') ↔ x s = (.ok a, s') := by
  unfold undoing
  rcases h : x s with ⟨r, t⟩
  cases r <;> simp

theorem undoing_error :
    x.undoing undo s = (.error e, s') ↔ ∃ t, x s = (.error e, t) ∧ s' = undo t := by
  unfold undoing
  rcases h : x s with ⟨r, t⟩
  cases r <;> simp [eq_comm]

end Act

namespace Disk

structure File (π : Type) where
  path : π
  bytes : List UInt8

end Disk

abbrev Disk (π : Type) : Type := Sql.Table (Disk.File.path : Disk.File π → π)

namespace Disk
variable {π ε : Type} [DecidableEq π]

/-- The content of the file under a path. -/
def read (d : Disk π) (p : π) : Option (List UInt8) := (d.find? p).map File.bytes

def erase (d : Disk π) (p : π) : Disk π := d.deleteWhere (fun f => f.path == p)

/-- The disk with this file under the path, in place of the one there was. -/
def put (d : Disk π) (p : π) (bytes : List UInt8) : Disk π :=
  ⟨⟨p, bytes⟩ :: (d.erase p).rows, by
    refine List.nodup_cons.mpr ⟨?_, (d.erase p).unique⟩
    intro hp
    obtain ⟨f, hf, hfp⟩ := List.mem_map.mp hp
    have hne := (Sql.Table.mem_deleteWhere.mp hf).2
    rw [show f.path = p from hfp, beq_self_eq_true] at hne
    cases hne⟩

theorem read_eq_some {d : Disk π} {p : π} {bytes : List UInt8} :
    d.read p = some bytes ↔ ⟨p, bytes⟩ ∈ d.rows := by
  unfold read
  rw [Option.map_eq_some_iff]
  constructor
  · rintro ⟨f, hf, rfl⟩
    obtain ⟨hmem, rfl⟩ := Sql.Table.find?_eq_some.mp hf
    exact hmem
  · intro hmem
    exact ⟨_, Sql.Table.find?_eq_some.mpr ⟨hmem, rfl⟩, rfl⟩

/-- What is erased by its path is gone, and nothing else. -/
theorem read_deleteWhere (d : Disk π) (gone : π → Bool) (q : π) :
    read (d.deleteWhere (fun f => gone f.path)) q = if gone q = true then none else d.read q := by
  apply Option.ext
  intro bytes
  rw [read_eq_some, Sql.Table.mem_deleteWhere]
  split
  · next h => simp [h]
  · next h => rw [read_eq_some]; exact and_iff_left (Bool.not_eq_true _ ▸ h)

/-- Erasing a path leaves every other as it was. -/
@[simp] theorem read_erase (d : Disk π) (p q : π) :
    (d.erase p).read q = if q = p then none else d.read q := by
  rw [erase, read_deleteWhere d (fun r => r == p)]
  simp only [beq_iff_eq]

@[simp] theorem read_put (d : Disk π) (p : π) (bytes : List UInt8) (q : π) :
    (d.put p bytes).read q = if q = p then some bytes else d.read q := by
  have hrest : (d.erase p).read q = if q = p then none else d.read q := read_erase d p q
  apply Option.ext
  intro bs
  have hmem : (⟨q, bs⟩ : File π) ∈ (d.put p bytes).rows ↔
      (⟨q, bs⟩ : File π) = ⟨p, bytes⟩ ∨ (⟨q, bs⟩ : File π) ∈ (d.erase p).rows := List.mem_cons
  rw [read_eq_some, hmem, ← read_eq_some, hrest, File.mk.injEq]
  split
  · next h => simp [h, eq_comm]
  · next h => simp [h]

/-! Operations. -/

/-- What a write that fails has written. -/
def partialWrite (written : Nat) (bytes : List UInt8) : List UInt8 := bytes.dropLast.take written

/-- `create_new`: fails on a path that is taken. -/
def create (e : ε) (fails : Bool) (p : π) : Act (Disk π) ε Unit := fun d =>
  if fails = true ∨ (d.read p).isSome = true then (.error e, d) else (.ok (), d.put p [])

/-- The disk with these bytes behind what the file holds; a file that is gone takes nothing. -/
def extend (d : Disk π) (p : π) (bytes : List UInt8) : Disk π :=
  match d.read p with
  | some old => d.put p (old ++ bytes)
  | none => d

@[simp] theorem read_extend (d : Disk π) (p : π) (bytes : List UInt8) (q : π) :
    (d.extend p bytes).read q = if q = p then (d.read p).map (· ++ bytes) else d.read q := by
  unfold extend
  split
  · next old h => rw [read_put, h]; rfl
  · next h =>
    split
    · next hq => rw [hq, h]; rfl
    · rfl

/-- `write_all` behind what the file holds. -/
def append (e : ε) (fails : Bool) (written : Nat) (p : π) (bytes : List UInt8) :
    Act (Disk π) ε Unit := fun d =>
  if fails then (.error e, d.extend p (partialWrite written bytes)) else (.ok (), d.extend p bytes)

/-- An operation that only may fail: a flush, a sync. -/
def sync (e : ε) (fails : Bool) : Act (Disk π) ε Unit :=
  if fails then Act.throw e else pure ()

/-- `rename`: a file under the new path is replaced. -/
def rename (e : ε) (fails : Bool) (source target : π) : Act (Disk π) ε Unit := fun d =>
  match d.read source with
  | none => (.error e, d)
  | some bytes => if fails then (.error e, d) else (.ok (), (d.erase source).put target bytes)

/-! The operations, taken apart. -/

section
variable {e e' : ε} {fails : Bool} {written : Nat} {p q : π} {bytes : List UInt8} {d d' : Disk π}

theorem create_ok : create e fails p d = (.ok (), d') ↔
    fails = false ∧ d.read p = none ∧ d' = d.put p [] := by
  unfold create
  cases fails <;> cases h : d.read p <;> simp [eq_comm]

theorem create_error (h : create e fails p d = (.error e', d')) : e' = e ∧ d' = d := by
  unfold create at h
  split at h
  · obtain ⟨he, hd⟩ := Prod.mk.inj h
    exact ⟨(Except.error.inj he).symm, hd.symm⟩
  · cases h

theorem append_ok : append e fails written p bytes d = (.ok (), d') ↔
    fails = false ∧ d' = d.extend p bytes := by
  unfold append
  cases fails <;> simp [eq_comm]

theorem append_error (h : append e fails written p bytes d = (.error e', d')) :
    e' = e ∧ fails = true ∧ d' = d.extend p (partialWrite written bytes) := by
  cases fails with
  | false => cases h
  | true =>
    obtain ⟨he, hd⟩ := Prod.mk.inj h
    exact ⟨(Except.error.inj he).symm, rfl, hd.symm⟩

omit [DecidableEq π] in
theorem sync_ok : sync e fails d = (.ok (), d') ↔ fails = false ∧ d' = d := by
  cases fails with
  | false =>
    constructor
    · intro h
      exact ⟨rfl, (Prod.mk.inj h).2.symm⟩
    · rintro ⟨_, rfl⟩
      rfl
  | true =>
    constructor
    · intro h
      cases h
    · rintro ⟨h, _⟩
      cases h

omit [DecidableEq π] in
theorem sync_error (h : sync e fails d = (.error e', d')) : e' = e ∧ d' = d := by
  cases fails
  · cases h
  · obtain ⟨he, hd⟩ := Prod.mk.inj h
    exact ⟨(Except.error.inj he).symm, hd.symm⟩

theorem rename_ok : rename e fails p q d = (.ok (), d') ↔
    fails = false ∧ ∃ bytes, d.read p = some bytes ∧ d' = (d.erase p).put q bytes := by
  unfold rename
  cases h : d.read p <;> cases fails <;> simp [eq_comm]

theorem rename_error (h : rename e fails p q d = (.error e', d')) : e' = e ∧ d' = d := by
  unfold rename at h
  split at h
  · obtain ⟨he, hd⟩ := Prod.mk.inj h
    exact ⟨(Except.error.inj he).symm, hd.symm⟩
  · split at h
    · obtain ⟨he, hd⟩ := Prod.mk.inj h
      exact ⟨(Except.error.inj he).symm, hd.symm⟩
    · cases h

end

/-! What an operation may touch. -/

/-- Outside these paths the disk is as it was. -/
def Within (ps : List π) (d d' : Disk π) : Prop := ∀ q, q ∉ ps → d'.read q = d.read q

theorem Within.refl (ps : List π) (d : Disk π) : Within ps d d := fun _ _ => rfl

theorem Within.trans (ps : List π) (d₁ d₂ d₃ : Disk π) (h₁ : Within ps d₁ d₂)
    (h₂ : Within ps d₂ d₃) : Within ps d₁ d₃ := fun q hq => (h₂ q hq).trans (h₁ q hq)

theorem Within.put {ps : List π} {p : π} (hp : p ∈ ps) (bytes : List UInt8) (d : Disk π) :
    Within ps d (d.put p bytes) := by
  intro q hq
  have hne : q ≠ p := fun h => hq (h ▸ hp)
  rw [read_put, if_neg hne]

theorem Within.erase {ps : List π} {p : π} (hp : p ∈ ps) (d : Disk π) : Within ps d (d.erase p) := by
  intro q hq
  have hne : q ≠ p := fun h => hq (h ▸ hp)
  rw [read_erase, if_neg hne]

section
variable {e : ε} {fails : Bool} {written : Nat} {p q : π} {bytes : List UInt8} {ps : List π}

theorem create_within (hp : p ∈ ps) : Act.Steps (Within ps) (create e fails p) := by
  intro d
  unfold create
  split
  · exact Within.refl ps d
  · exact Within.put hp [] d

theorem append_within (hp : p ∈ ps) : Act.Steps (Within ps) (append e fails written p bytes) := by
  intro d q hq
  have hne : q ≠ p := fun h => hq (h ▸ hp)
  unfold append
  split
  · exact (read_extend d p _ q).trans (if_neg hne)
  · exact (read_extend d p _ q).trans (if_neg hne)

theorem sync_within : Act.Steps (Within ps) (sync e fails) := by
  intro d
  cases fails
  · exact Within.refl ps d
  · exact Within.refl ps d

theorem rename_within (hp : p ∈ ps) (hq : q ∈ ps) : Act.Steps (Within ps) (rename e fails p q) := by
  intro d
  unfold rename
  split
  · exact Within.refl ps d
  · split
    · exact Within.refl ps d
    · exact Within.trans ps _ _ _ (Within.erase hp d) (Within.put hq _ _)

end

end Disk
