import OmenBrowser.Server.LiveDelivery
import OmenBrowser.Server.LiveWalk
import OmenBrowser.Server.ParkingSession

/- The pending resources of the live server.

   What a request has parked is released at the end of its dispatch, whether or not its
   answers could be sent, and so is what a room's list of users has parked, link by link. Only
   a request that the engine fails on has no answers: what was parked for it before stays.
   Nothing ever releases it, and the store refuses what would take it over its bounds. -/
namespace Omen.Server
open Wire Sql Omen.Protocol Act List

variable {τ ρ : Type} {α : Type}

/-- A server whose engine keeps pending resources. -/
abbrev ParkingServer (τ ρ : Type) := LiveServer (SessionState τ (PendingResourceStore × ρ))

def LiveServer.pending (s : ParkingServer τ ρ) : PendingResourceStore := s.engine.pending

variable {s s' : ParkingServer τ ρ} {responses : List Frame} {before : PendingResourceStore}

/-- The bounds are kept, and nothing is left that was not there. -/
structure Clears (s s' : ParkingServer τ ρ) : Prop where
  bounds : KeepsBounds s.pending s'.pending
  clean : NothingNew s.pending s'.pending

namespace Clears

theorem refl (s : ParkingServer τ ρ) : Clears s s := ⟨.refl _, .refl _⟩

theorem trans (s₁ s₂ s₃ : ParkingServer τ ρ) (h₁ : Clears s₁ s₂) (h₂ : Clears s₂ s₃) :
    Clears s₁ s₃ := ⟨.trans _ _ _ h₁.bounds h₂.bounds, .trans h₁.clean h₂.clean⟩

instance : IsPreorder (ParkingServer τ ρ) Clears where
  refl := refl
  trans := trans

end Clears

section Releases
variable (host : Host) (c : BatchConfig) (reading : Reading τ ρ) (serving : Serving τ ρ)
  (durable : DurableServing τ ρ) (publishing : Publishing τ ρ)

/-- The release of a frame that can be released takes what the frame offers. -/
theorem releaseResponseResource_takes {frame : Frame} (s : ParkingServer τ ρ)
    (hreleasable : responseCarriesResource frame.op = true →
      ∃ resourceId, offeredResource frame = some resourceId) :
    ∃ s', releaseResponseResource (parkingEngine c reading serving durable publishing) frame s =
        (.ok (), s') ∧ KeepsBounds s.pending s'.pending ∧
      ∀ k p, s'.pending.get k = some p → s.pending.get k = some p ∧ ¬ offers frame k := by
  unfold releaseResponseResource
  cases hcarries : responseCarriesResource frame.op with
  | false =>
    refine ⟨s, rfl, .refl _, fun k p hp => ⟨hp, fun hoffers => ?_⟩⟩
    rw [hoffers.1] at hcarries
    cases hcarries
  | true =>
    obtain ⟨resourceId, hoffered⟩ := hreleasable hcarries
    have htaken : ∀ k p, (s.pending.take resourceId).get k = some p →
        s.pending.get k = some p ∧ ¬ offers frame k := by
      intro k p hp
      rw [PendingResourceStore.get_take] at hp
      split at hp
      · cases hp
      · next hother =>
        refine ⟨hp, fun hoffers => hother ?_⟩
        exact Option.some.inj (hoffered.symm.trans hoffers.2)
    have hbounds : KeepsBounds s.pending (s.pending.take resourceId) := fun h => h.take resourceId
    rw [if_pos rfl]
    unfold offeredResource at hoffered
    split at hoffered
    · next hop =>
      rw [if_pos hop, hoffered]
      exact ⟨_, rfl, hbounds, htaken⟩
    · next hop =>
      rw [if_neg hop, hoffered]
      exact ⟨_, rfl, hbounds, htaken⟩

/-- A room's list of users is released for each link, sent or not. -/
theorem broadcastUserlistForRoom_clears (roomId : UInt32) : Act.Steps Clears
    (broadcastUserlistForRoom host (parkingEngine c reading serving durable publishing) roomId) := by
  refine .bind (.read _) fun linkIds => ?_
  refine .bind (.read _) fun peers => ?_
  refine .forEach (fun linkId => ?_) _
  refine .bind (.read _) fun coloured => ?_
  intro s
  have haccounts := activeUserlistFrame_accounts c reading publishing roomId peers coloured
  rcases hframe : (publishing.withParking c reading).activeUserlistFrame roomId peers coloured s.engine
    with ⟨result, e⟩
  have hbounds := haccounts.bounds s.engine
  rw [hframe] at hbounds
  have hrun : onEngine ((parkingEngine c reading serving durable publishing).activeUserlistFrame roomId
      peers coloured) s = (result, { s with engine := e }) :=
    congrArg (fun ended => (ended.1, { s with engine := ended.2 })) hframe
  cases result with
  | error error =>
    rw [bind_error hrun]
    exact ⟨hbounds, haccounts.failed _ _ _ hframe⟩
  | ok frame =>
    rw [bind_ok hrun, attempt_bind]
    have haccounted := haccounts.accounted _ _ _ hframe
    have hsent : (sendResponseFrame host (parkingEngine c reading serving durable publishing) linkId frame
        { s with engine := e }).2.pending = e.pending := by
      have haside := sendResponseFrame_aside host (parkingEngine c reading serving durable publishing)
        linkId frame { s with engine := e }
      exact congrArg SessionState.pending haside.engine
    obtain ⟨s', hreleased, hbounds', htaken⟩ := releaseResponseResource_takes c reading serving durable
      publishing _ (haccounted.releasable frame (mem_singleton_self _))
    rw [bind_ok hreleased]
    rw [hsent] at hbounds' htaken
    refine ⟨.trans _ _ _ hbounds hbounds', fun k p hp => ?_⟩
    obtain ⟨hparked, hnot⟩ := htaken k p hp
    rcases haccounted.offered k p hparked with hbefore | ⟨f, hf, hoffers⟩
    · exact hbefore
    · rw [mem_singleton.mp hf] at hoffers
      exact (hnot hoffers).elim

end Releases

end Omen.Server
