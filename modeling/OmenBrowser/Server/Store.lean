import OmenBrowser.Lib.Outcome
import OmenBrowser.Lib.Table
import OmenBrowser.Lib.Txn
import OmenBrowser.Lib.Wire

/- What the parts of the server's SQLite store share: errors, and the order of blobs.

   A store operation is a transaction body that aborts with a `ServerError`; a failed
   SQL statement aborts it with the error of the statement. -/
namespace Omen.Server
open Wire Sql

variable {σ : Type} {g : Unit → Txn σ ServerError β} {text : String}

inductive ServerError where
  | message (text : String)
  | io
  | sqlite (error : Sql.Error)
  deriving DecidableEq, Repr

/-- A statement that writes, whose failure is the operation's (`?` on a `rusqlite` result). -/
def sql {σ : Type} (f : σ → Except Sql.Error σ) : Txn σ ServerError Unit :=
  Txn.statement fun s => ((f s).mapError .sqlite).map (fun s => ((), s))

/-- `ServerError::Message`. -/
def fail {σ α : Type} (text : String) : Txn σ ServerError α := Txn.abort (.message text)

/-- A check whose failure is the operation's, with the text of its error. -/
def require {σ : Type} (c : Prop) [Decidable c] (text : String) : Txn σ ServerError Unit :=
  if c then pure () else fail text

/-- Blobs are compared byte by byte, a prefix before the longer blob. -/
def compareBytes : Bytes → Bytes → Ordering
  | [], [] => .eq
  | [], _ :: _ => .lt
  | _ :: _, [] => .gt
  | a :: as, b :: bs => (compare a.toNat b.toNat).then (compareBytes as bs)

theorem sql_bind_ok {σ β : Type} {f : σ → Except Sql.Error σ} {g : Unit → Txn σ ServerError β}
    {s : σ} {r : β × σ} :
    (sql f >>= g) s = .ok r ↔ ∃ s', f s = .ok s' ∧ g () s' = .ok r := by
  rw [Txn.bind_ok]
  refine ⟨?_, ?_⟩
  · intro ⟨_, s', hf, hg⟩
    obtain ⟨t, ht, he⟩ := Outcome.map_ok.mp hf
    obtain ⟨_, rfl⟩ := Prod.mk.inj he
    exact ⟨t, Outcome.mapError_ok.mp ht, hg⟩
  · intro ⟨s', hf, hg⟩
    exact ⟨(), s', Outcome.map_ok.mpr ⟨s', Outcome.mapError_ok.mpr hf, rfl⟩, hg⟩

@[simp] theorem fail_ok {α : Type} {s : σ} {r : α × σ} :
    (fail text : Txn σ ServerError α) s = .ok r ↔ False := Txn.abort_ok

theorem require_run {c : Prop} [Decidable c] (h : c) (s : σ) : require c text s = .ok ((), s) := by
  unfold require
  rw [if_pos h]
  rfl

theorem require_bind_ok {σ β : Type} {c : Prop} [Decidable c] {text : String}
    {g : Unit → Txn σ ServerError β} {s : σ} {r : β × σ} :
    (require c text >>= g) s = .ok r ↔ c ∧ g () s = .ok r := by
  rw [Txn.bind_ok]
  unfold require
  by_cases hc : c
  · rw [if_pos hc]
    refine ⟨?_, ?_⟩
    · intro ⟨_, s', hs, hg⟩
      obtain ⟨_, rfl⟩ := Txn.pure_eq_ok hs
      exact ⟨hc, hg⟩
    · intro ⟨_, hg⟩
      exact ⟨(), s, Txn.pure_ok.mpr rfl, hg⟩
  · rw [if_neg hc]
    simp only [fail_ok, false_and, exists_false, hc]

end Omen.Server
