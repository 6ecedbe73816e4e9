import OmenBrowser.Server.LiveDispatch
import OmenBrowser.Server.ParkingEngine

/- What the engine's operations do to its pending resources.

   Five handlers and two frames the live server asks for park something, and then every new
   entry is accounted for: a frame of the answer offers it, and can be released. An operation
   that fails may leave what it parked before it failed. All other operations leave the store
   as it is. None takes it over its bounds. -/
namespace Omen.Server
open Wire Sql Omen.Protocol Act PendingResourceStore HistoryReply

variable {τ ρ : Type} {α ε : Type}
  {frame : Frame} {op : ChatOp} {values : List FrameValue} {s s' : PendingResourceStore}

/-! Accounts. -/

/-- The resource a frame offers, as its release reads it. -/
def offeredResource (response : Frame) : Option String :=
  if response.op = .uploadResourceOffer then uploadResourceIdFromOffer response
  else resourceOfferId response.body

def offers (response : Frame) (resourceId : String) : Prop :=
  responseCarriesResource response.op = true ∧ offeredResource response = some resourceId

/-- There is nothing in the store that was not there before. -/
def NothingNew (before after : PendingResourceStore) : Prop :=
  ∀ resourceId payload, after.get resourceId = some payload → before.get resourceId = some payload

theorem NothingNew.refl (s : PendingResourceStore) : NothingNew s s := fun _ _ h => h

theorem NothingNew.trans {s₁ s₂ s₃ : PendingResourceStore} (h₁ : NothingNew s₁ s₂)
    (h₂ : NothingNew s₂ s₃) : NothingNew s₁ s₃ := fun k p h => h₁ k p (h₂ k p h)

/-- Every new entry is offered by one of the frames, and each of the frames can be released. -/
structure Accounted (before after : PendingResourceStore) (frames : List Frame) : Prop where
  offered : ∀ resourceId payload, after.get resourceId = some payload →
    before.get resourceId = some payload ∨ ∃ frame ∈ frames, offers frame resourceId
  releasable : ∀ frame ∈ frames, responseCarriesResource frame.op = true →
    ∃ resourceId, offeredResource frame = some resourceId

section Accounts
variable {s s₁ s₂ : PendingResourceStore} {frames more : List Frame}

theorem Accounted.of_plain (h : NothingNew s s₁)
    (hplain : ∀ frame ∈ frames, responseCarriesResource frame.op = false) : Accounted s s₁ frames := by
  refine ⟨fun k p hp => .inl (h k p hp), fun frame hframe hcarries => ?_⟩
  rw [hplain frame hframe] at hcarries
  cases hcarries

theorem Accounted.plain (s : PendingResourceStore)
    (hplain : responseCarriesResource frame.op = false) : Accounted s s [frame] := by
  refine .of_plain (.refl s) fun f hf => ?_
  rwa [List.mem_singleton.mp hf]

/-- What is put into the store is accounted for by a frame that offers it. -/
theorem Accounted.put {resourceId : String} {payload : Bytes} (hoffers : offers frame resourceId) :
    Accounted s (s.put resourceId payload) [frame] := by
  refine ⟨fun k p hp => ?_, fun f hf _ => ?_⟩
  · rw [get_put] at hp
    split at hp
    · next hk => exact .inr ⟨frame, List.mem_singleton_self _, hk ▸ hoffers⟩
    · exact .inl hp
  · rw [List.mem_singleton.mp hf]
    exact ⟨resourceId, hoffers.2⟩

end Accounts

/-- A frame that offers a batch. -/
theorem offers_batch {seq roomId : UInt32} {offer : ResourceOffer}
    (hcarries : responseCarriesResource op = true) (hop : op ≠ .uploadResourceOffer) :
    offers (Frame.new op seq (some roomId) (resourceOfferBody offer)) offer.resourceId := by
  refine ⟨hcarries, ?_⟩
  show (if op = .uploadResourceOffer then _ else resourceOfferId (resourceOfferBody offer)) = _
  rw [if_neg hop]
  exact resourceOfferId_body offer

/-! Actions on the store. -/

def KeepsBounds (before after : PendingResourceStore) : Prop := before.Bounded → after.Bounded

theorem KeepsBounds.refl (s : PendingResourceStore) : KeepsBounds s s := id

theorem KeepsBounds.trans (s₁ s₂ s₃ : PendingResourceStore) (h₁ : KeepsBounds s₁ s₂)
    (h₂ : KeepsBounds s₂ s₃) : KeepsBounds s₁ s₃ := fun h => h₂ (h₁ h)

instance : IsPreorder PendingResourceStore KeepsBounds where
  refl := KeepsBounds.refl
  trans := KeepsBounds.trans

theorem insert_bounds (resourceId : String) (payload : Bytes) :
    Act.Steps KeepsBounds (insert resourceId payload) :=
  fun _ h => h.insert resourceId payload

/-- What the store refuses is not in it. -/
theorem insert_failed {resourceId : String} {payload : Bytes} {e : ServerError}
    (h : insert resourceId payload s = (.error e, s')) : NothingNew s s' := by
  unfold PendingResourceStore.insert at h
  split at h
  · cases h
  · cases h
    exact fun _ _ h => h

theorem onBatch_bounds (x : Except BatchError α) : Act.Steps KeepsBounds (onBatch x) :=
  .lift _

/-- The same, of an action that ends with one frame. -/
structure ParksOne (x : Act PendingResourceStore ServerError Frame) : Prop where
  bounds : Act.Steps KeepsBounds x
  accounted : ∀ s frame s', x s = (.ok frame, s') → Accounted s s' [frame]
  failed : ∀ s e s', x s = (.error e, s') → NothingNew s s'

/-! Batches. -/

namespace HistoryReply
variable (r : HistoryReply)

theorem encodedCompressedLen_bounds (values : List FrameValue) :
    Act.Steps KeepsBounds (r.encodedCompressedLen values) := onBatch_bounds _

theorem resourceBatchBody_bounds (values : List FrameValue) :
    Act.Steps KeepsBounds (r.resourceBatchBody values) := by
  refine .bind (r.encodedCompressedLen_bounds values) fun lens => ?_
  refine .bind (onBatch_bounds _) fun payload => ?_
  refine .bind (insert_bounds _ payload) fun _ => ?_
  exact .pure _

/-- An offer that fails has parked nothing. -/
theorem resourceBatchBody_failed {e : ServerError}
    (h : r.resourceBatchBody values s = (.error e, s')) : NothingNew s s' := by
  unfold resourceBatchBody at h
  rw [measure_bind] at h
  have hpayload : onBatch (compressedValuesPayload r.rmpv r.bzip2 values) =
      (lift (.ok (r.payload values)) : Act PendingResourceStore ServerError Bytes) := by
    rw [compressedValuesPayload_eq]
    rfl
  rw [hpayload, lift_bind] at h
  rcases bind_eq_error.mp h with hinsert | ⟨_, _, _, hend⟩
  · exact insert_failed hinsert
  · cases hend

/-- A frame that offers a batch, whatever its size. -/
theorem offered_parks (hresource : responseCarriesResource op = true)
    (hop : op ≠ .uploadResourceOffer) (values : List FrameValue) :
    ParksOne (r.resourceBatchBody values >>= fun body =>
      pure (Frame.new op r.seq (some r.roomId) body)) where
  bounds := .bind (r.resourceBatchBody_bounds values) fun _ =>
    .pure _
  accounted := by
    intro s frame s' h
    obtain ⟨body, _, hparked, hend⟩ := bind_eq_ok.mp h
    obtain ⟨_, rfl, rfl⟩ := r.resourceBatchBody_ok.mp hparked
    cases hend
    exact .put (offers_batch hresource hop)
  failed := by
    intro s e s' h
    rcases bind_eq_error.mp h with hparked | ⟨body, _, _, hend⟩
    · exact r.resourceBatchBody_failed hparked
    · cases hend

/-- A frame with a batch in it. -/
theorem inlined_parks (hinline : responseCarriesResource op = false) (values : List FrameValue) :
    ParksOne (onBatch (compressedValuesBody r.rmpv r.bzip2 values) >>= fun body =>
      pure (Frame.new op r.seq (some r.roomId) body)) where
  bounds := .bind (onBatch_bounds _) fun _ =>
    .pure _
  accounted := by
    intro s frame s' h
    obtain ⟨body, _, hlifted, hend⟩ := bind_eq_ok.mp h
    cases hend
    rw [← (Prod.mk.inj hlifted).2]
    exact .plain s hinline
  failed := by
    intro s e s' h
    rcases bind_eq_error.mp h with hlifted | ⟨body, _, _, hend⟩
    · rw [← (Prod.mk.inj hlifted).2]
      exact .refl s
    · cases hend

section
variable {inlineOp resourceOp : ChatOp}

/-- A batch that is too large for a frame is offered, the others are in their frame. -/
theorem batchedFrame_eq (values : List FrameValue) :
    r.batchedFrame inlineOp resourceOp values =
      if (r.lens values).2 > r.largeBatchThresholdBytes then
        (r.resourceBatchBody values >>= fun body =>
          pure (Frame.new resourceOp r.seq (some r.roomId) body))
      else (onBatch (compressedValuesBody r.rmpv r.bzip2 values) >>= fun body =>
          pure (Frame.new inlineOp r.seq (some r.roomId) body)) := by
  funext s
  have hop (f : ChatOp → Act PendingResourceStore ServerError Frame) :
      (r.batchOp inlineOp resourceOp values >>= f) s =
        f (if (r.lens values).2 > r.largeBatchThresholdBytes then resourceOp else inlineOp) s := by
    unfold batchOp
    rw [bind_assoc, measure_bind]
    rfl
  unfold batchedFrame
  rw [hop]
  unfold batchBody
  rw [bind_assoc, measure_bind]
  split <;> rfl

/-- The frame of a batch, and where the batch is. -/
theorem batchedFrame_ok {values : List FrameValue}
    (h : r.batchedFrame inlineOp resourceOp values s = (.ok frame, s')) :
    (frame.op = inlineOp ∧ s' = s) ∨
      frame = Frame.new resourceOp r.seq (some r.roomId) (resourceOfferBody ⟨r.resourceId values, .bzip2,
          UInt64.ofNat (r.lens values).1, UInt64.ofNat (r.lens values).2, r.purpose⟩) ∧
        s' = s.put (r.resourceId values) (r.payload values) := by
  rw [batchedFrame_eq] at h
  split at h
  · obtain ⟨body, _, hparked, hend⟩ := bind_eq_ok.mp h
    obtain ⟨_, rfl, rfl⟩ := r.resourceBatchBody_ok.mp hparked
    cases hend
    exact .inr ⟨rfl, rfl⟩
  · obtain ⟨body, _, hlifted, hend⟩ := bind_eq_ok.mp h
    cases hend
    exact .inl ⟨rfl, (Prod.mk.inj hlifted).2.symm⟩

/-- A frame with a batch in it, or one that offers it. -/
theorem batchedFrame_parks (hinline : responseCarriesResource inlineOp = false)
    (hresource : responseCarriesResource resourceOp = true) (hop : resourceOp ≠ .uploadResourceOffer)
    (values : List FrameValue) : ParksOne (r.batchedFrame inlineOp resourceOp values) := by
  rw [batchedFrame_eq]
  split
  · exact r.offered_parks hresource hop values
  · exact r.inlined_parks hinline values

end

end HistoryReply

theorem userlistFrame_parks (c : BatchConfig) (roomId : UInt32) (users : List FrameValue) :
    ParksOne (userlistFrame c roomId users) :=
  (c.reply 0 roomId "userlist").batchedFrame_parks rfl rfl (by decide) users

end Omen.Server
