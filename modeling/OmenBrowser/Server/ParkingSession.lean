import OmenBrowser.Server.ParkingLaws

/- The session engine's operations over its pending resources.

   A request for a join, for history, for the moderation log or for an upload is answered with
   frames that account for what was parked; every other operation keeps the store as it is,
   and so does a durable mutation, whichever way its commit ends. -/
namespace Omen.Server
open Wire Sql Omen.Protocol

variable {τ ρ : Type} {α ε : Type}
  {x : Session τ (PendingResourceStore × ρ) α} {peer : ServerPeer}
  {serve : ServerUser → Txn (Database × τ × PendingResourceStore × ρ) ServerError α}
  {serving : Serving τ (PendingResourceStore × ρ)} {roomId : Option UInt32}
  {unknown : UInt32 → Frame}

/-! Operations that keep the store. -/

def KeepsPending (s s' : SessionState τ (PendingResourceStore × ρ)) : Prop := s'.pending = s.pending

namespace KeepsPending

theorem of_run {s s' : SessionState τ (PendingResourceStore × ρ)} {r : Except ServerError α}
    (hx : Act.Steps KeepsPending x) (h : x s = (r, s')) : s'.pending = s.pending := by
  have hkept := hx s
  rwa [h] at hkept

end KeepsPending

theorem beside_keeps (x : Session τ ρ α) : Act.Steps KeepsPending (beside x) := fun _ => rfl

instance : IsTrans (SessionState τ (PendingResourceStore × ρ))
    fun s s' => KeepsBounds s.pending s'.pending :=
  ⟨fun s₁ s₂ s₃ => KeepsBounds.trans s₁.pending s₂.pending s₃.pending⟩

/-! Frames the live server asks for. -/

/-- The frame accounts for what was parked, and nothing is parked without one. -/
structure AccountsOne (x : Session τ (PendingResourceStore × ρ) Frame) : Prop where
  bounds : Act.Steps (fun s s' => KeepsBounds s.pending s'.pending) x
  accounted : ∀ s frame s', x s = (.ok frame, s') → Accounted s.pending s'.pending [frame]
  failed : ∀ s e s', x s = (.error e, s') → NothingNew s.pending s'.pending

theorem AccountsOne.onPending {x : Act PendingResourceStore ServerError Frame} (h : ParksOne x) :
    AccountsOne (onPending x : Session τ (PendingResourceStore × ρ) Frame) := by
  refine ⟨fun s => h.bounds s.pending, ?_, ?_⟩
  · intro s frame s' hrun
    obtain ⟨hresult, rfl⟩ := Prod.mk.inj hrun
    exact h.accounted s.pending frame _ (Prod.ext hresult rfl)
  · intro s e s' hrun
    obtain ⟨hresult, rfl⟩ := Prod.mk.inj hrun
    exact h.failed s.pending e _ (Prod.ext hresult rfl)

theorem AccountsOne.bind {f : α → Session τ (PendingResourceStore × ρ) Frame}
    (hx : Act.Steps KeepsPending x) (hf : ∀ a, AccountsOne (f a)) : AccountsOne (x >>= f) := by
  have hkept : Act.Steps (fun s s' => KeepsBounds s.pending s'.pending) x := by
    intro s
    rw [show (x s).2.pending = s.pending from hx s]
    exact KeepsBounds.refl _
  refine ⟨?_, ?_, ?_⟩
  · exact .bind hkept fun a => (hf a).bounds
  · intro s frame s' h
    obtain ⟨a, s₁, ha, h⟩ := Act.bind_eq_ok.mp h
    rw [← KeepsPending.of_run hx ha]
    exact (hf a).accounted s₁ frame s' h
  · intro s e s' h
    rcases Act.bind_eq_error.mp h with hfailed | ⟨a, s₁, ha, h⟩
    · rw [← KeepsPending.of_run hx hfailed]
      exact .refl _
    · rw [← KeepsPending.of_run hx ha]
      exact (hf a).failed s₁ e s' h

theorem activeUserlistFrame_accounts (c : BatchConfig) (reading : Reading τ ρ)
    (publishing : Publishing τ ρ) (roomId : UInt32) (peers : List ServerPeer) (coloured : Bool) :
    AccountsOne ((publishing.withParking c reading).activeUserlistFrame roomId peers coloured) :=
  .bind (beside_keeps _) fun users => .onPending (userlistFrame_parks c roomId users)

end Omen.Server
