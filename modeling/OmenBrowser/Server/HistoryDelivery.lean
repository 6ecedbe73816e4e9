import OmenBrowser.Server.HistoryBatches
import OmenBrowser.Server.LiveBroadcasts

/- What a link is delivered of a history reply (`history_batch_frames` of
   `server/src/session.rs`, sent as in `server/src/live.rs` and `server/src/transport.rs`).

   All batches of a reply are parked before the first is sent, and are released after the
   last. So an offer is answered with what was parked last under its id, and the id says no
   more of a batch than its two lengths: of two events that are too much for a frame and
   have the same lengths, the later is delivered twice and the earlier not at all. -/
namespace Omen.Server
open Wire Omen.Protocol Outcome List PendingResourceStore HistoryReply

variable {a b : List FrameValue} {engine : SessionEngine σ} {linkId : LinkId}
  {responses : List Frame} {s : LiveServer σ} {outgoings : List Outgoing}

/-! What is parked. -/

namespace HistoryReply
variable {r : HistoryReply} {bs : List (List FrameValue)} {frames : List Frame}
  {s s' : PendingResourceStore}

/-- The frame of a batch. -/
inductive Frames (r : HistoryReply) (values : List FrameValue) : Frame → Prop
  | offer (hparks : r.parks values = true) : Frames r values (r.offer values)
  | inline {batch : CompressedBatch} (hparks : r.parks values = false)
      (hbatch : compressedValuesBatch r.rmpv r.bzip2 values = .ok batch)
      (hsmall : batch.bytes.length ≤ linkInlineHistoryTargetBytes) :
      Frames r values (Frame.new .historyInline r.seq (some r.roomId) (.fields batch.fields))

variable (h : Act.Each r.batchFrame bs s frames s')
include h

/-- Each batch has its frame. -/
theorem each_frames : List.Forall₂ (Frames r) bs frames := by
  induction h with
  | nil => exact .nil
  | @cons values frame _ _ s s₁ _ hframe _ ih =>
    refine .cons ?_ ih
    cases hparks : r.parks values with
    | true =>
      rw [batchFrame_parks r hparks] at hframe
      obtain ⟨_, _, rfl⟩ := r.offerFrame_ok.mp hframe
      exact .offer hparks
    | false =>
      obtain ⟨batch, hbatch, hsmall, hrun⟩ := r.batchFrame_inline hparks
      rw [hrun] at hframe
      cases hframe
      exact .inline hparks hbatch hsmall

/-- Under each id there is what was parked last, or what was there before. -/
theorem each_parked (resourceId : String) :
    s'.get resourceId = ((Batching.latest r.resourceId (bs.filter r.parks) resourceId).map r.payload).or
      (s.get resourceId) := by
  induction h with
  | nil => rfl
  | @cons values frame _ _ s s₁ _ hframe _ ih =>
    rw [ih]
    cases hparks : r.parks values with
    | true =>
      rw [batchFrame_parks r hparks] at hframe
      obtain ⟨_, rfl, _⟩ := r.offerFrame_ok.mp hframe
      rw [filter_cons_of_pos hparks, Batching.latest_cons, get_put]
      cases Batching.latest r.resourceId _ resourceId with
      | some b => rfl
      | none => split <;> rfl
    | false =>
      obtain ⟨batch, _, _, hrun⟩ := r.batchFrame_inline hparks
      rw [hrun] at hframe
      cases hframe
      rw [filter_cons_of_neg (by simp [hparks])]

/-- What is parked is within the bound of an entry. -/
theorem each_small :
    ∀ values ∈ bs.filter r.parks, (r.payload values).length ≤ pendingResourceMaxEntryBytes := by
  induction h with
  | nil => nofun
  | @cons values frame _ _ s s₁ _ hframe _ ih =>
    intro b hb
    cases hparks : r.parks values with
    | true =>
      rw [filter_cons_of_pos hparks] at hb
      rcases mem_cons.mp hb with rfl | hb
      · rw [batchFrame_parks r hparks] at hframe
        obtain ⟨hadmits, _⟩ := r.offerFrame_ok.mp hframe
        simp only [admits, Bool.and_eq_true, decide_eq_true_eq] at hadmits
        exact hadmits.1.1
      · exact ih b hb
    | false =>
      rw [filter_cons_of_neg (by simp [hparks])] at hb
      exact ih b hb

omit h

/-! The cut. -/

variable {values : List FrameValue}

/-- The batches put together are the events. -/
theorem batches_flatten (r : HistoryReply) (values : List FrameValue) :
    (r.batches values).flatten = values := by
  unfold batches
  split
  · simp
  · simpa using Batching.cut_flatten [] values

/-- Two batches that are parked are one, or each is of one event. -/
theorem parked_length (ha : a ∈ (r.batches values).filter r.parks)
    (hb : b ∈ (r.batches values).filter r.parks) : a.length = b.length := by
  obtain ⟨ha, haparks⟩ := mem_filter.mp ha
  obtain ⟨hb, hbparks⟩ := mem_filter.mp hb
  cases hoffers : r.alwaysOffers with
  | true =>
    unfold batches at ha hb
    rw [hoffers, if_pos rfl] at ha hb
    rw [mem_singleton.mp ha, mem_singleton.mp hb]
  | false =>
    unfold batches at ha hb
    unfold parks at haparks hbparks
    rw [hoffers, if_neg (by decide)] at ha hb
    rw [hoffers, Bool.false_or] at haparks hbparks
    rw [Batching.cut_large ha haparks, Batching.cut_large hb hbparks]

/-- The batch a link sees in the place of this one. -/
def seen (r : HistoryReply) (values batch : List FrameValue) : List FrameValue :=
  if r.parks batch then
    (Batching.latest r.resourceId ((r.batches values).filter r.parks) (r.resourceId batch)).getD batch
  else batch

theorem seen_length {batch : List FrameValue} (hb : batch ∈ r.batches values) :
    (r.seen values batch).length = batch.length := by
  unfold seen
  split
  · next hparks =>
    have hmem := mem_filter.mpr ⟨hb, hparks⟩
    obtain ⟨other, hother⟩ := Batching.latest_isSome r.resourceId hmem
    rw [hother, Option.getD_some]
    exact parked_length (Batching.latest_mem hother).1 hmem
  · rfl

/-- Every batch can be read, and no two of the parked batches have the same lengths and differ. -/
structure Lossless (r : HistoryReply) (values : List FrameValue) : Prop where
  readable : ∀ batch ∈ r.batches values, ReadableBatch r.rmpv batch
  distinct : ∀ a ∈ (r.batches values).filter r.parks, ∀ b ∈ (r.batches values).filter r.parks,
    r.lens a = r.lens b → onWireAll a = onWireAll b

theorem resourceId_eq : r.resourceId a = r.resourceId b ↔ r.lens a = r.lens b :=
  ⟨batchResourceId_inj, fun h => congrArg (batchResourceId r.purpose r.roomId) h⟩

/-- A link sees each batch as it is iff the parked ones are distinct. -/
theorem seen_own : (∀ batch ∈ r.batches values, onWireAll (r.seen values batch) = onWireAll batch) ↔
    ∀ a ∈ (r.batches values).filter r.parks, ∀ b ∈ (r.batches values).filter r.parks,
      r.lens a = r.lens b → onWireAll a = onWireAll b := by
  have hown := Batching.latest_own r.resourceId onWireAll ((r.batches values).filter r.parks)
  simp only [resourceId_eq] at hown
  rw [← hown]
  constructor
  · intro h a ha b hb
    obtain ⟨hmem, hparks⟩ := mem_filter.mp ha
    have hseen := h a hmem
    rwa [seen, if_pos hparks, hb, Option.getD_some] at hseen
  · intro h batch hb
    unfold seen
    split
    · next hparks =>
      have hmem := mem_filter.mpr ⟨hb, hparks⟩
      obtain ⟨other, hother⟩ := Batching.latest_isSome r.resourceId hmem
      rw [hother, Option.getD_some, h batch hmem other hother]
    · rfl

/-- What is the same on the wire can be read or not alike. -/
theorem readable_congr (h : onWireAll a = onWireAll b) :
    ReadableBatch r.rmpv a ↔ ReadableBatch r.rmpv b := by
  unfold ReadableBatch encodeValues
  rw [onWireAll_inj.mp h]

theorem onWireAll_batches (r : HistoryReply) (values : List FrameValue) :
    ((r.batches values).map onWireAll).flatten = onWireAll values := by
  calc ((r.batches values).map onWireAll).flatten
      = ((r.batches values).map (map FrameValue.onWire)).flatten := by
        congr 1
        exact map_congr_left fun batch _ => onWireAll_eq_map batch
    _ = (r.batches values).flatten.map FrameValue.onWire := map_flatten.symm
    _ = onWireAll values := by rw [batches_flatten, onWireAll_eq_map]

/-- All that is seen can be read and is the events, iff the reply is lossless. -/
theorem seen_iff : (∀ batch ∈ r.batches values, ReadableBatch r.rmpv (r.seen values batch)) ∧
    ((r.batches values).map fun batch => onWireAll (r.seen values batch)).flatten = onWireAll values ↔
      r.Lossless values := by
  -- batch for batch there is as much as there was
  have hflat : ((r.batches values).map fun batch => onWireAll (r.seen values batch)).flatten =
      onWireAll values ↔
        ∀ batch ∈ r.batches values, onWireAll (r.seen values batch) = onWireAll batch := by
    rw [← onWireAll_batches r values, ← map_inj_left]
    refine ⟨fun h => ?_, fun h => by rw [h]⟩
    refine eq_iff_flatten_eq.mpr ⟨h, ?_⟩
    rw [map_map, map_map]
    refine map_congr_left fun batch hb => ?_
    simp only [Function.comp, onWireAll_eq_map, length_map, seen_length hb]
  rw [hflat]
  constructor
  · rintro ⟨hreadable, hown⟩
    exact ⟨fun batch hb => (readable_congr (hown batch hb)).mp (hreadable batch hb), seen_own.mp hown⟩
  · intro h
    have hown := seen_own.mpr h.distinct
    exact ⟨fun batch hb => (readable_congr (hown batch hb)).mpr (h.readable batch hb), hown⟩

end HistoryReply
/-! Sending. -/

variable {τ ρ σ : Type}

/-- The pending resources are part of what is kept in memory, and are read and released there. -/
def Publishing.parking (publishing : Publishing τ (PendingResourceStore × ρ)) :
    Publishing τ (PendingResourceStore × ρ) :=
  { publishing with
    resourcePayload := fun resourceId memory => memory.1.get resourceId
    takeResourcePayload := fun resourceId memory => (memory.1.take resourceId, memory.2) }

def LiveServer.pendingResources (s : LiveServer (SessionState τ (PendingResourceStore × ρ))) :
    PendingResourceStore := s.engine.store.rest.2.2.1

/-- The responses are sent in order, and what they offered is released. -/
def respond (host : Host) (engine : SessionEngine σ) (linkId : LinkId) (responses : List Frame) :
    Live σ Unit := do
  let sent ← Act.attempt (Act.forEach (sendResponseFrame host engine linkId) responses)
  Act.forEach (releaseResponseResource engine) responses
  Act.lift sent

/-- The values a link gets with one response: the resource it came with, or its own body. -/
def Outgoing.batch (rmpv : Rmpv) (bzip2 : Bzip2) (o : Outgoing) : Except BatchError (List FrameValue) :=
  match o.resource with
  | some (_, payload) => decodeCompressedValuesPayload rmpv bzip2 payload
  | none => do
    let frame ← (decodeFrame rmpv o.bytes).mapError codecFailed
    decodeCompressedValuesBody rmpv bzip2 frame.body

/-- The values a link gets with all that it is sent, in order. -/
def delivered (rmpv : Rmpv) (bzip2 : Bzip2) (outgoings : List Outgoing) :
    Except BatchError (List FrameValue) :=
  (outgoings.mapM (Outgoing.batch rmpv bzip2)).map flatten

section
variable {host : Host}
  (h : List.Forall₂ (fun response outgoing => preflight host engine s linkId response = .ok outgoing)
    responses outgoings)
include h

/-- Answers that are prepared are transmitted. -/
theorem answersTo_prepared :
    Act.forEach Delivery.perform (answersTo host engine s linkId responses) =
      Act.forEach (transmit linkId) outgoings := by
  induction h with
  | nil => rfl
  | @cons response outgoing responses outgoings hprepared _ ih =>
    have hfirst : (deliveryOf host engine s linkId response).perform = transmit linkId outgoing := by
      unfold deliveryOf Delivery.perform
      rw [hprepared]
    show ((deliveryOf host engine s linkId response).perform >>= fun _ =>
      Act.forEach Delivery.perform (answersTo host engine s linkId responses)) = _
    rw [hfirst, ih]
    rfl

/-- What is sent is what was prepared, and releasing sends nothing. -/
theorem respond_transport : (respond host engine linkId responses s).2.transport =
      (Act.forEach (transmit linkId) outgoings s.transport).2 := by
  have hsent := answers_performs host engine s linkId responses s.transport
  have hreleased := fun s' => (Blind.forEach (releaseResponseResource_blind engine) responses).transport s'
  unfold respond
  rw [Act.attempt_bind, Act.bind_state fun _ _ => rfl, hreleased,
    show s = s.on s.transport from rfl, hsent, answersTo_prepared h]
  rfl

end

/-- History frames are not shaped for their link. -/
theorem shapeFrame_history {frame : Frame}
    (h : frame.op = .historyInline ∨ frame.op = .historyResourceOffer) :
    shapeFrame engine s linkId frame = .ok frame := by
  have hdelta : frame.op ≠ .userDelta := by
    rcases h with h | h <;> rw [h] <;> decide
  have hroom : ¬(frame.op = .joinAccept ∨ frame.op = .roomDelta ∨ frame.op = .commandResult) := by
    rcases h with h | h <;> rw [h] <;> decide
  unfold shapeFrame
  rw [if_neg fun h => hdelta h.2]
  cases s.catalogShape linkId with
  | legacy => rfl
  | _ => exact if_neg hroom

section Preflight
variable {host : Host} {engine : SessionEngine σ} {s : LiveServer σ} {linkId : LinkId} {frame : Frame}
  {bytes : Bytes}

theorem preflight_plain (hcarries : responseCarriesResource frame.op = false)
    (hshape : shapeFrame engine s linkId frame = .ok frame) (hencode : encode host frame = .ok bytes) :
    preflight host engine s linkId frame = .ok ⟨bytes, s.responseContext linkId, none⟩ := by
  refine bind_ok.mpr ⟨frame, hshape, ?_⟩
  rw [if_neg (by simp [hcarries])]
  exact bind_ok.mpr ⟨bytes, hencode, rfl⟩

theorem preflight_resource (hcarries : responseCarriesResource frame.op = true)
    (hshape : shapeFrame engine s linkId frame = .ok frame) (hencode : encode host frame = .ok bytes)
    {resource : String × Bytes} (hprepared : prepareResponseResource engine frame s.engine = .ok (some resource)) :
    preflight host engine s linkId frame = .ok ⟨bytes, s.responseContext linkId, some resource⟩ := by
  refine bind_ok.mpr ⟨frame, hshape, ?_⟩
  rw [if_pos hcarries]
  refine bind_ok.mpr ⟨some resource, hprepared, ?_⟩
  exact bind_ok.mpr ⟨bytes, hencode, rfl⟩

end Preflight

/-- An offer is prepared with what is kept under its id. -/
theorem prepareResponseResource_offer {engine : SessionEngine σ} {op : ChatOp} {seq : UInt32}
    {roomId : Option UInt32} {offer : ResourceOffer} {e : σ} (hop : op ≠ .uploadResourceOffer) :
    prepareResponseResource engine (Frame.new op seq roomId (resourceOfferBody offer)) e =
      .ok ((engine.resourcePayload offer.resourceId e).map (offer.resourceId, ·)) := by
  have hid : resourceOfferId (Frame.new op seq roomId (resourceOfferBody offer)).body =
      some offer.resourceId := resourceOfferId_body offer
  have hother : ¬(Frame.new op seq roomId (resourceOfferBody offer)).op = .uploadResourceOffer := hop
  unfold prepareResponseResource
  rw [if_neg hother, hid]

theorem encode_total (host : Host) (frame : Frame) : ∃ bytes, encode host frame = .ok bytes ∧
    encodeFrame host.rmpv frame = .ok bytes := by
  obtain ⟨bytes, hbytes⟩ := host.rmpv.write_total (frameToValueRef frame)
  have henc : encodeFrame host.rmpv frame = .ok bytes := mapError_ok.mpr hbytes
  exact ⟨bytes, mapError_ok.mpr henc, henc⟩

namespace HistoryReply
variable {r : HistoryReply} {values : List FrameValue} {frames : List Frame}
  {pending : PendingResourceStore} {s : LiveServer (SessionState τ (PendingResourceStore × ρ))}

variable (serving : Serving τ (PendingResourceStore × ρ))
  (durable : DurableServing τ (PendingResourceStore × ρ))
  (publishing : Publishing τ (PendingResourceStore × ρ)) (entryBytes : Bytes → List Frame → Nat)

section
variable (linkId : LinkId)
  (h : Act.Each r.batchFrame (r.batches values) pending frames s.pendingResources)
include h

/-- What is prepared for the frame of a batch: a link gets with it what is seen in its place. -/
theorem frames_prepared {batch : List FrameValue} (hmem : batch ∈ r.batches values) {frame : Frame}
    (hframe : Frames r batch frame) :
    ∃ outgoing, preflight ⟨r.rmpv, entryBytes⟩ (sessionEngine serving durable publishing.parking) s linkId
        frame = .ok outgoing ∧
      ∀ decoded, outgoing.batch r.rmpv r.bzip2 = .ok decoded ↔
        ReadableBatch r.rmpv (r.seen values batch) ∧ onWireAll (r.seen values batch) = decoded := by
  obtain ⟨bytes, hencode, hbytes⟩ := encode_total ⟨r.rmpv, entryBytes⟩ frame
  cases hframe with
  | @inline compressed hparks hbatch hsmall =>
    refine ⟨⟨bytes, s.responseContext linkId, none⟩,
      preflight_plain rfl (shapeFrame_history (.inl rfl)) hencode, fun decoded => ?_⟩
    rw [seen, hparks, if_neg (by decide), ← decodeBody_batch hbatch (Nat.le_trans hsmall (by decide))]
    show ((decodeFrame r.rmpv bytes).mapError codecFailed >>= _) = _ ↔ _
    rw [decodeFrame_batch hsmall hbytes]
    rfl
  | offer hparks =>
    -- the store answers with what was parked last under the id
    have hbatch := mem_filter.mpr ⟨hmem, hparks⟩
    obtain ⟨last, hlast⟩ := Batching.latest_isSome r.resourceId hbatch
    have hget : s.pendingResources.get (r.resourceId batch) = some (r.payload last) := by
      rw [each_parked h, hlast]
      rfl
    refine ⟨⟨bytes, s.responseContext linkId, some (r.resourceId batch, r.payload last)⟩, ?_,
      fun decoded => ?_⟩
    · have hprepared : prepareResponseResource (sessionEngine serving durable publishing.parking)
          (r.offer batch) s.engine = .ok (some (r.resourceId batch, r.payload last)) := by
        rw [offer, prepareResponseResource_offer (by decide)]
        exact congrArg (fun o => Except.ok (Option.map (r.resourceId batch, ·) o)) hget
      exact preflight_resource rfl (shapeFrame_history (.inr rfl)) hencode hprepared
    · have hsmall := each_small h last (Batching.latest_mem hlast).1
      rw [seen, if_pos hparks, hlast, Option.getD_some]
      exact decodePayload_batch (r.compressedValuesPayload_eq last) hsmall

/-- What is prepared for a reply, batch by batch. -/
theorem reply_prepared :
    ∃ outgoings, List.Forall₂ (fun frame outgoing => preflight ⟨r.rmpv, entryBytes⟩
        (sessionEngine serving durable publishing.parking) s linkId frame = .ok outgoing) frames outgoings ∧
      ∀ events, delivered r.rmpv r.bzip2 outgoings = .ok events ↔
        (∀ batch ∈ r.batches values, ReadableBatch r.rmpv (r.seen values batch)) ∧
          ((r.batches values).map fun batch => onWireAll (r.seen values batch)).flatten = events := by
  have hprepared {batch : List FrameValue} (hmem : batch ∈ r.batches values) {frame : Frame}
      (hframe : Frames r batch frame) :=
    frames_prepared serving durable publishing entryBytes linkId h hmem hframe
  have hframes := each_frames h
  generalize r.batches values = bs at *
  clear h
  suffices hall : ∃ outgoings, List.Forall₂ (fun frame outgoing => preflight ⟨r.rmpv, entryBytes⟩
      (sessionEngine serving durable publishing.parking) s linkId frame = .ok outgoing) frames outgoings ∧
      ∀ decoded, outgoings.mapM (Outgoing.batch r.rmpv r.bzip2) = .ok decoded ↔
        (∀ batch ∈ bs, ReadableBatch r.rmpv (r.seen values batch)) ∧
          (bs.map fun batch => onWireAll (r.seen values batch)) = decoded by
    obtain ⟨outgoings, hall, hdecoded⟩ := hall
    refine ⟨outgoings, hall, fun events => ?_⟩
    unfold delivered
    rw [map_ok]
    simp only [hdecoded]
    constructor
    · rintro ⟨_, ⟨hreadable, rfl⟩, rfl⟩
      exact ⟨hreadable, rfl⟩
    · rintro ⟨hreadable, rfl⟩
      exact ⟨_, ⟨hreadable, rfl⟩, rfl⟩
  induction hframes with
  | nil => exact ⟨[], .nil, fun decoded => by simp [pure, Except.pure, eq_comm]⟩
  | @cons batch frame bs frames hframe _ ih =>
    obtain ⟨outgoing, hfirst, hbatch⟩ := hprepared mem_cons_self hframe
    obtain ⟨outgoings, hall, hdecoded⟩ := ih fun hmem => hprepared (mem_cons_of_mem _ hmem)
    refine ⟨outgoing :: outgoings, .cons hfirst hall, fun decoded => ?_⟩
    rw [mapM_cons, bind_ok]
    simp only [bind_ok, hbatch, hdecoded, forall_mem_cons, map_cons]
    constructor
    · rintro ⟨_, ⟨hreadable, rfl⟩, _, ⟨hrest, rfl⟩, h⟩
      exact ⟨⟨hreadable, hrest⟩, Except.ok.inj h⟩
    · rintro ⟨⟨hreadable, hrest⟩, rfl⟩
      exact ⟨_, ⟨hreadable, rfl⟩, _, ⟨hrest, rfl⟩, rfl⟩

end

end HistoryReply

/-- A history reply is sent as what was prepared for its frames. It delivers the events it was made
of, as the wire has them, exactly when it is lossless: every batch of its cut can be read, and no
two parked batches have the same lengths and differ. The very events come back when besides they
have no non-negative `i64`, which the wire has as a `u64`. -/
theorem history_delivered_iff (r : HistoryReply) (serving : Serving τ (PendingResourceStore × ρ))
    (durable : DurableServing τ (PendingResourceStore × ρ))
    (publishing : Publishing τ (PendingResourceStore × ρ)) (entryBytes : Bytes → List Frame → Nat)
    (linkId : LinkId) {values : List FrameValue} (hne : values ≠ []) {pending : PendingResourceStore}
    {frames : List Frame} {s : LiveServer (SessionState τ (PendingResourceStore × ρ))}
    (h : r.historyBatchFrames values pending = (.ok frames, s.pendingResources)) :
    ∃ outgoings,
      (respond ⟨r.rmpv, entryBytes⟩ (sessionEngine serving durable publishing.parking) linkId frames
        s).2.transport = (Act.forEach (transmit linkId) outgoings s.transport).2 ∧
      (delivered r.rmpv r.bzip2 outgoings = .ok (onWireAll values) ↔ r.Lossless values) ∧
      (delivered r.rmpv r.bzip2 outgoings = .ok values ↔ r.Lossless values ∧ NormalAll values) := by
  obtain ⟨outgoings, hprepared, hdelivered⟩ := reply_prepared serving durable publishing
    entryBytes linkId ((r.historyBatchFrames_each hne).mp h)
  have hwire : delivered r.rmpv r.bzip2 outgoings = .ok (onWireAll values) ↔ r.Lossless values :=
    (hdelivered _).trans seen_iff
  refine ⟨outgoings, respond_transport hprepared, hwire, ?_⟩
  constructor
  · intro hsame
    -- what comes off the wire is as the wire has it
    obtain ⟨_, hflat⟩ := (hdelivered _).mp hsame
    have hfixed : onWireAll values = values := by
      rw [← hflat, onWireAll_eq_map, map_flatten, map_map]
      congr 1
      refine map_congr_left fun batch _ => ?_
      simp only [Function.comp]
      rw [← onWireAll_eq_map]
      exact onWireAll_inj.mpr (toValueRefs_onWire _)
    rw [← hfixed] at hsame
    exact ⟨hwire.mp hsame, (onWireAll_self values).mp hfixed⟩
  · rintro ⟨hlossless, hnormal⟩
    rw [← (onWireAll_self values).mpr hnormal]
    exact hwire.mpr hlossless

/-! Replies over recorded runs of the crate. -/

/-- A message as `event_to_value` has it. -/
def messageEvent (eventId : UInt64) (body : String) : FrameValue :=
  .array [.u64 eventId, .u64 1, .u64 7, .i64 1700000000, .string body, .string "ada"]

def greeting : FrameValue := messageEvent 41 "good morning"

def noise (seed : Nat) : Nat → List Char
  | 0 => []
  | n + 1 =>
    let next := (seed * 171 + 11213) % 30269
    Char.ofNat (33 + next % 90) :: noise next n

theorem length_utf8_noise (n seed : Nat) : (utf8 (String.ofList (noise seed n))).length = n := by
  induction n generalizing seed with
  | zero => rfl
  | succ n ih =>
    have hsmall : ∀ k < 90, (Char.ofNat (33 + k)).utf8Size = 1 := by decide
    rw [noise, utf8_ofList_cons, length_append, String.length_utf8EncodeChar,
      hsmall _ (Nat.mod_lt _ (by decide)), ih, Nat.add_comm]

/-- Two messages of 300 characters that do not compress well. -/
def firstTwin : FrameValue := messageEvent 41 (String.ofList (noise 1 300))

def secondTwin : FrameValue := messageEvent 42 (String.ofList (noise 22 300))

def recordings : List (Bytes × Bytes) :=
  [recording [greeting]
    (be 40 0x425a6839314159265359bcdd1d3900000ad3b4e0804020080026a390002100080400012000200031 ++
      be 36 0x40d343232621434000da6a19a597013da243b8ad50d1b99063f177245385090bcdd1d390),
  recording [firstTwin]
    (be 40 0x425a68393141592653597e12f29300009bdfb6e0803fffffffffdffff7fff7fff021000800000100 ++
      be 40 0x1020003000e26c807a351b2650d3c530ca3d41e28793269ea64d3351ea8f14f53ca3686a7a99a47a ++
      be 40 0x9b4320c87a81a64341a1a068c9a64686468680d06801a1a32341543269a68640681931191a000646 ++
      be 40 0x9a0019188340034a89a865172954a2657eed9cfec2488d0ab3d6fd732cbf24906cff880ead0b4972 ++
      be 40 0x8c8c91f01a88b69e1e6b77cb1bee73e5b5293a501c03dbe4b1ea9c3445d8735f0f3a42b1f7d13c20 ++
      be 40 0x6e69cd6d3cfae9dac141b1a8d0a11ae6129bd2788186485047574ffa9be294c7a62dc00988152287 ++
      be 40 0x19cfe849d712b3687e452d2485ed80a361c6ca5a0328745008ec2c2522a9cc34b2776b2263fc97a6 ++
      be 40 0x0242599bd680d346d42689c7b248b3e9d71f886ae06d9bfdd45dc30d0bcb42d0a20b04b1543fc5a6 ++
      be 40 0x7a4da8e105fcfc08bd12fa047c79b8b663e5a256b3481e48279adc7be76c00ced51ce2c52691e4bf ++
      be 29 0x2b4b762d1dc6fa08b7e01f3302b556b76eab78bb9229c28483f0979498),
  recording [secondTwin]
    (be 40 0x425a6839314159265359d5840e9900009bdfb6e0803fffff7ffffffffdfffffff021000800000100 ++
      be 40 0x1020003000f9b58641a6868d06800c40c800681a0699006d10007a4621cd064032340d0064698991 ++
      be 40 0xa0c8191a001a640d068f5020da27ea6d44c8d93d46536534d3f526c86a6c813ca6d329b4d1a9e434 ++
      be 40 0x4d19a4f53269faa1271250cd7ba8e4cfa8556a965dccef5e44644f4aaee0f0ad69ce74255ff6bbb5 ++
      be 40 0x0632a5dbf6f4208554576b6c09afaa9bfc2c87760342763e865f5154e2a252429ab7290b191e4fa7 ++
      be 40 0xc0dd39c7ac3e412e57018aa5e996cf45314681b591431c44752a32dd0cbcb8814835f9b6e234800b ++
      be 40 0xb2824d85be31e76997339dbec5bef272ea61ae8e56e92f1ba282490885439c780dd508050c7cf37d ++
      be 40 0x8d901b340a1fa15d030009672a49e0b844c2feb0c2419790ca6f1521a24a15d2941359c2ea09fac6 ++
      be 40 0xb43dd7f8380c11a616dc22e6760af142d24a20364b17f06299bf58046451bcdb484067c4dcd49d6e ++
      be 29 0x4f8f830c8dc5caeca48d0975ea9e0230422bfe2ee48a70a121ab081d32),
  recording [firstTwin, secondTwin]
    (be 40 0x425a68393141592653591f053fe70001375fb6e0803ffffffffffffffffffffff011000800000100 ++
      be 40 0x1020004001bbbb74ee30c400686801a1a01a0003403d4d00d1ea6434d03d43432622a689e8d353d4 ++
      be 40 0xda6a0f50f5309e40d0644f53c1188d27a047a3268998a69a1a62aa64f1134f26899b44323684d4f0 ++
      be 40 0x24f434834c26d1a1a9e9a4c4d1ea19343d432311934c80c83468034da81a0d0069a00c8d1a068000 ++
      be 40 0x900515200702ce16ab5d66e981d727a8895f420a6fbc43365732e68dd04eb66bf314d2c123a479aa ++
      be 40 0xae258551edd0cf848a4c3c066a18588df48164d2246519aa16522d99dd09ac1c3d6120a659f9336e ++
      be 40 0x357d197eeef418839e250a73d14697cd6e17fb915bb063a1508ef3db5a788ef6c07e25fa40e937aa ++
      be 40 0x4b4f1ece2ddfa7917e52e2645d1eae6dcbd4a7c889c078e69cbacf70a8cf29e543675447e7bfc585 ++
      be 40 0xb80d97c0ae7e947c60cb8fac962590da0187d9026293b27bba10818f1337fa750449ced0a101879a ++
      be 40 0xaeb55a24bf2b68cf23d1c137b623a2d1837663f7e14a725bfb55a599355eae1d414a156e416b008c ++
      be 40 0x6c332145013772b40578a755abb6af799b4e552e38f946c25b19c7920940baa6bb22a79664b04299 ++
      be 40 0xf576a4a27e1a94d82a5663d164f583cc55ea6038b7ae1730376a8e51089c0cfef10a520c618c03cd ++
      be 40 0xe43c06b7f92abcefd28b62d36ab58fc1e96c57f88683e8c38875dd54c7516c928627904715f9a0c8 ++
      be 40 0x2d5b5cc31a506d55419514eb570962dd0b67bc11c4cc040ffe185ca223fba04a2b035c9feef83946 ++
      be 40 0xf6714d7a19d50da73259d8f7d4409438269c98f5cac1a6d109fb3ed10622c25e5a4a5fe8ba170b12 ++
      be 40 0xa167868705512ddb0fe78fdf16c18274688d7a8a2829091ced1c2cee3a38ab6b64b7f1325cd09284 ++
      be 36 0x5aac24bb63213568d674cbfde2a18abefa324ac95640480781fe2ee48a70a1203e0a7fce)]

/-- A reply over the recorded runs, with the default limit. -/
def recordedReply : HistoryReply :=
  { rmpv := Rmpv.reference
    bzip2 := Bzip2.recorded recordings (by decide +kernel) (by decide +kernel)
    largeBatchThresholdBytes := 4096
    seq := 5
    roomId := 1
    purpose := "history" }

/-- A server with one resource store and a link that takes everything. -/
def keeping (pending : PendingResourceStore) : LiveServer (SessionState Unit (PendingResourceStore × Unit)) :=
  LiveServer.new (SessionState.bare Database.empty () (pending, ())) Transport.accepting

theorem greeting_lossless : recordedReply.Lossless [greeting] where
  readable := by
    intro batch hb
    obtain rfl : batch = [greeting] := mem_singleton.mp hb
    exact ⟨_, rfl, by decide +kernel, ⟨show 1 ≤ _ by decide, ⟨show 6 ≤ _ by decide, trivial, trivial,
      trivial, trivial, show 12 ≤ _ by decide, show 3 ≤ _ by decide, trivial⟩, trivial⟩,
      show 8 ≤ _ by decide, show 2 ≤ _ by decide⟩
  distinct := by
    intro a ha
    obtain ⟨hmem, hparks⟩ := mem_filter.mp ha
    obtain rfl : a = [greeting] := mem_singleton.mp hmem
    rw [show recordedReply.parks [greeting] = false by decide +kernel] at hparks
    cases hparks

/-- A short message goes in a frame, and comes out of it. -/
theorem history_delivered_iff_greeting : ∃ frames pending outgoings,
    recordedReply.historyBatchFrames [greeting] empty = (.ok frames, pending) ∧
      (respond Host.reference (sessionEngine Serving.bare DurableServing.bare Publishing.bare.parking)
        firstLink frames (keeping pending)).2.transport =
        (Act.forEach (transmit firstLink) outgoings Transport.accepting).2 ∧
      delivered Rmpv.reference recordedReply.bzip2 outgoings = .ok (onWireAll [greeting]) := by
  have hparks : recordedReply.parks [greeting] = false := by decide +kernel
  obtain ⟨batch, hbatch, hsmall, hrun⟩ := recordedReply.batchFrame_inline hparks
  have hmade : recordedReply.historyBatchFrames [greeting] empty =
      (.ok [_], empty) :=
    (recordedReply.historyBatchFrames_each (by simp)).mpr (.cons (hrun _) (.nil _))
  obtain ⟨outgoings, hsent, hdelivered, _⟩ := history_delivered_iff recordedReply Serving.bare
    DurableServing.bare Publishing.bare Host.reference.entryBytes firstLink (cons_ne_nil _ _)
    (s := keeping empty) hmade
  exact ⟨_, _, outgoings, hmade, hsent, hdelivered.mpr greeting_lossless⟩

/-- The bytes of a batch. -/
def written (values : List FrameValue) : Bytes := Msgpack.write (.array (frameValuesToValueRefs values))

/-- What stands before the text of a twin, and behind it. -/
theorem written_twin {eventId : UInt64} {body : String} (h : (utf8 body).length = 300) :
    written [messageEvent eventId body] = 0x91 :: 0x96 :: (Msgpack.writeInt eventId.toNat ++
      ([0x01, 0x07, 0xce, 0x65, 0x53, 0xf1, 0x00, 0xda, 0x01, 0x2c] ++ utf8 body ++
        [0xa3, 0x61, 0x64, 0x61])) := by
  have hheader : Msgpack.strHeader (utf8 body).length = [0xda, 0x01, 0x2c] := by
    rw [h]
    rfl
  show Msgpack.arrayHeader 1 ++ ((Msgpack.arrayHeader 6 ++ (Msgpack.writeInt eventId.toNat ++
    (Msgpack.writeInt 1 ++ (Msgpack.writeInt 7 ++ (Msgpack.writeInt 1700000000 ++
      ((Msgpack.strHeader (utf8 body).length ++ utf8 body) ++
        ([0xa3, 0x61, 0x64, 0x61] ++ []))))))) ++ []) = _
  rw [hheader]
  simp [Msgpack.arrayHeader, Msgpack.writeInt, be]

theorem length_written_twin {eventId : UInt64} {body : String} (h : (utf8 body).length = 300)
    (hid : (Msgpack.writeInt eventId.toNat).length = 1) :
    (written [messageEvent eventId body]).length = 317 := by
  rw [written_twin h]
  simp [h, hid]

/-- What a recorded run leaves of a batch. -/
theorem recorded_batch {c : Bytes} (values : List FrameValue)
    (h : recordings.find? (fun e => e.1 == written values) = some (written values, c)) :
    recordedReply.lens values = ((UInt64.ofNat (written values).length).toNat, c.length) ∧
      recordedReply.payload values = written [.u64 Compression.bzip2.code,
        .u64 (UInt64.ofNat (written values).length), .bytes c] := by
  have hcompress : recordedReply.bzip2.compress (written values) = c := by
    show ((recordings.find? (fun e => e.1 == written values)).map Prod.snd).getD _ = c
    rw [h]
    rfl
  rw [← hcompress]
  exact ⟨rfl, rfl⟩

/-- The twins are parked alone, and have the same lengths. -/
theorem twins_parked : recordedReply.batches [firstTwin, secondTwin] = [[firstTwin], [secondTwin]] ∧
    recordedReply.parks [firstTwin] = true ∧ recordedReply.parks [secondTwin] = true ∧
    recordedReply.lens [firstTwin] = (317, 389) ∧ recordedReply.lens [secondTwin] = (317, 389) ∧
    (recordedReply.payload [firstTwin]).length = 397 ∧
    (recordedReply.payload [secondTwin]).length = 397 := by
  have hfirst : (written [firstTwin]).length = 317 :=
    length_written_twin (length_utf8_noise 300 1) rfl
  have hsecond : (written [secondTwin]).length = 317 :=
    length_written_twin (length_utf8_noise 300 22) rfl
  have hgreeting : (written [greeting]).length = 27 := by decide +kernel
  -- no batch is written as another one
  have hgreetingFirst : written [greeting] ≠ written [firstTwin] := fun h => by
    rw [h, hfirst] at hgreeting
    cases hgreeting
  have hgreetingSecond : written [greeting] ≠ written [secondTwin] := fun h => by
    rw [h, hsecond] at hgreeting
    cases hgreeting
  have htwins : written [firstTwin] ≠ written [secondTwin] := by
    rw [firstTwin, secondTwin, written_twin (length_utf8_noise 300 1), written_twin (length_utf8_noise 300 22)]
    simp [Msgpack.writeInt]
  have hone (value : FrameValue) : written [value] ≠ written [firstTwin, secondTwin] := by
    intro h
    cases congrArg head? h
  have hfirstRun := recorded_batch [firstTwin] <| by
    refine (find?_cons_of_neg ?_).trans (find?_cons_of_pos ?_)
    · exact mt beq_iff_eq.mp hgreetingFirst
    · exact beq_self_eq_true _
  have hsecondRun := recorded_batch [secondTwin] <| by
    refine (find?_cons_of_neg ?_).trans
      ((find?_cons_of_neg ?_).trans (find?_cons_of_pos ?_))
    · exact mt beq_iff_eq.mp hgreetingSecond
    · exact mt beq_iff_eq.mp htwins
    · exact beq_self_eq_true _
  have hbothRun := recorded_batch [firstTwin, secondTwin] <| by
    refine (find?_cons_of_neg ?_).trans ((find?_cons_of_neg ?_).trans
      ((find?_cons_of_neg ?_).trans (find?_cons_of_pos ?_)))
    · exact mt beq_iff_eq.mp (hone _)
    · exact mt beq_iff_eq.mp (hone _)
    · exact mt beq_iff_eq.mp (hone _)
    · exact beq_self_eq_true _
  rw [hfirst] at hfirstRun
  rw [hsecond] at hsecondRun
  have hlensFirst : recordedReply.lens [firstTwin] = (317, 389) := hfirstRun.1.trans (by decide +kernel)
  have hlensSecond : recordedReply.lens [secondTwin] = (317, 389) :=
    hsecondRun.1.trans (by decide +kernel)
  have hboth : recordedReply.oversize [firstTwin, secondTwin] = true := by
    rw [oversize, hbothRun.1]
    decide +kernel
  have hcut : Batching.cut recordedReply.oversize [] [firstTwin, secondTwin] =
      if recordedReply.oversize [firstTwin, secondTwin] then [[firstTwin], [secondTwin]]
      else [[firstTwin, secondTwin]] := by
    simp [Batching.cut]
  refine ⟨?_, ?_, ?_, hlensFirst, hlensSecond, ?_, ?_⟩
  · rw [batches, if_neg (by decide), hcut, if_pos hboth]
  · rw [parks, oversize, hlensFirst]
    rfl
  · rw [parks, oversize, hlensSecond]
    rfl
  · rw [hfirstRun.2]
    decide +kernel
  · rw [hsecondRun.2]
    decide +kernel

/-- Two batches with the same lengths, put into an empty store, are both seen as the second. -/
theorem twins_sent (r : HistoryReply) {values : List FrameValue}
    (hbatches : r.batches values = [a, b]) (ha : r.parks a = true) (hb : r.parks b = true)
    (hlens : r.lens a = r.lens b) (hsmall : (r.payload a).length ≤ pendingResourceMaxEntryBytes ∧
      (r.payload b).length ≤ pendingResourceMaxEntryBytes)
    (hreadable : ReadableBatch r.rmpv b) (serving : Serving τ (PendingResourceStore × ρ))
    (durable : DurableServing τ (PendingResourceStore × ρ))
    (publishing : Publishing τ (PendingResourceStore × ρ)) (entryBytes : Bytes → List Frame → Nat)
    (linkId : LinkId) : ∃ frames pending,
      Act.Each r.batchFrame (r.batches values) empty frames pending ∧
      ∀ s : LiveServer (SessionState τ (PendingResourceStore × ρ)), s.pendingResources = pending →
        ∃ outgoings,
          (respond ⟨r.rmpv, entryBytes⟩ (sessionEngine serving durable publishing.parking) linkId frames
            s).2.transport = (Act.forEach (transmit linkId) outgoings s.transport).2 ∧
          delivered r.rmpv r.bzip2 outgoings = .ok (onWireAll b ++ onWireAll b) := by
  obtain ⟨hasmall, hbsmall⟩ := hsmall
  have hid : r.resourceId a = r.resourceId b := resourceId_eq.mpr hlens
  -- the store takes both, the second in the place of the first
  let once := empty.put (r.resourceId a) (r.payload a)
  have honce : once.retainedBytes ≤ (r.payload a).length := by
    show min Ints.u64Max (0 - _ + (r.payload a).length) ≤ _
    omega
  have hsize : once.entries.size ≤ 1 := Std.ExtTreeMap.size_insert_le
  have htakes : empty.admits (r.resourceId a) (r.payload a) = true := by
    refine admits_of_room hasmall (by decide) ?_
    show 0 + _ ≤ _
    unfold pendingResourceMaxEntryBytes pendingResourceMaxBytes at *
    omega
  have hagain : once.admits (r.resourceId b) (r.payload b) = true := by
    refine admits_of_room hbsmall (Nat.lt_of_le_of_lt hsize (by decide)) ?_
    unfold pendingResourceMaxEntryBytes pendingResourceMaxBytes at *
    omega
  have hfirst : r.batchFrame a empty = (.ok (r.offer a), once) := by
    rw [r.batchFrame_parks ha]
    exact r.offerFrame_ok.mpr ⟨htakes, rfl, rfl⟩
  have hsecond : r.batchFrame b once =
      (.ok (r.offer b), once.put (r.resourceId b) (r.payload b)) := by
    rw [r.batchFrame_parks hb]
    exact r.offerFrame_ok.mpr ⟨hagain, rfl, rfl⟩
  have heach : Act.Each r.batchFrame (r.batches values) empty
      [r.offer a, r.offer b] (once.put (r.resourceId b) (r.payload b)) := by
    rw [hbatches]
    exact .cons hfirst (.cons hsecond (.nil _))
  refine ⟨_, _, heach, fun s hs => ?_⟩
  obtain ⟨outgoings, hprepared, hdelivered⟩ := reply_prepared serving durable publishing
    entryBytes linkId (hs ▸ heach)
  have hlatest : Batching.latest r.resourceId ((r.batches values).filter r.parks) (r.resourceId b) =
      some b := by
    rw [hbatches, filter_cons_of_pos ha, filter_cons_of_pos hb, filter_nil]
    simp [Batching.latest]
  have hseen : r.seen values a = b ∧ r.seen values b = b := by
    simp [seen, ha, hb, hid, hlatest]
  refine ⟨outgoings, respond_transport hprepared, (hdelivered _).mpr ?_⟩
  rw [hbatches]
  simp [hseen, hreadable]

theorem twin_readable : ReadableBatch Rmpv.reference [secondTwin] := by
  have hlength : (written [secondTwin]).length = 317 :=
    length_written_twin (length_utf8_noise 300 22) rfl
  have htext : (utf8 (String.ofList (noise 22 300))).length ≤ maxBatchCompressedBytes := by
    rw [length_utf8_noise]
    decide
  exact ⟨_, rfl, hlength.le.trans (by decide), ⟨show 1 ≤ _ by decide, ⟨show 6 ≤ _ by decide, trivial,
    trivial, trivial, trivial, htext, show 3 ≤ _ by decide, trivial⟩, trivial⟩,
    show 8 ≤ _ by decide, show 2 ≤ _ by decide⟩

/-- The second of two messages with the same lengths is delivered twice, and the first is lost. -/
theorem first_twin_lost : ∃ frames pending outgoings,
    recordedReply.historyBatchFrames [firstTwin, secondTwin] empty =
        (.ok frames, pending) ∧
      (respond Host.reference (sessionEngine Serving.bare DurableServing.bare Publishing.bare.parking)
        firstLink frames (keeping pending)).2.transport =
        (Act.forEach (transmit firstLink) outgoings Transport.accepting).2 ∧
      delivered Rmpv.reference recordedReply.bzip2 outgoings =
        .ok (onWireAll [secondTwin] ++ onWireAll [secondTwin]) ∧
      onWireAll [firstTwin, secondTwin] ≠ onWireAll [secondTwin] ++ onWireAll [secondTwin] := by
  obtain ⟨hbatches, hfirst, hsecond, hlens₁, hlens₂, hsmall₁, hsmall₂⟩ := twins_parked
  have hsmall : (recordedReply.payload [firstTwin]).length ≤ pendingResourceMaxEntryBytes ∧
      (recordedReply.payload [secondTwin]).length ≤ pendingResourceMaxEntryBytes := by
    rw [hsmall₁, hsmall₂]
    decide
  obtain ⟨frames, pending, heach, hsends⟩ := twins_sent recordedReply hbatches hfirst hsecond
    (hlens₁.trans hlens₂.symm) hsmall twin_readable Serving.bare DurableServing.bare
    Publishing.bare Host.reference.entryBytes firstLink
  obtain ⟨outgoings, hsent, hdelivered⟩ := hsends (keeping pending) rfl
  refine ⟨frames, pending, outgoings,
    (recordedReply.historyBatchFrames_each (cons_ne_nil _ _)).mpr heach, hsent, hdelivered, ?_⟩
  intro hsame
  -- the two events have different ids
  have hhead := head_eq_of_cons_eq hsame
  simp [firstTwin, secondTwin, messageEvent, FrameValue.onWire, onWireAll] at hhead

end Omen.Server
