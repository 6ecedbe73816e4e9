import Std.Data.String.ToNat
import OmenBrowser.Lib.Batching
import OmenBrowser.Server.Batches
import OmenBrowser.Server.PendingResources

/- History replies (`resource_batch_body`, `history_batch_frames` and `history_batch_frame` of
   `server/src/session.rs`).

   The events of a reply are cut into batches that are small when compressed. A batch that is
   not small, one event alone by then, is put into the pending resources under an id made of
   its two lengths, and the frame offers that id.

   Correspondence (Rust ↔ Lean):
     `frames`, `chunk` and the `for` loop        ↔ the arguments of `historyBatchLoop`
     `clamp(1, LINK_INLINE_HISTORY_TARGET_BYTES)` ↔ `inlineTarget`
   A reply is the greedy cut, batch by batch (`historyBatchFrames_each`). -/
namespace Omen.Server
open Wire Omen.Protocol UInt64

variable {α : Type}
  {values : List FrameValue} {s s' : PendingResourceStore}

def linkInlineHistoryTargetBytes : Nat := 384

/-- `format!("{purpose}:{room_id}:{uncompressed_len}:{compressed_len}")`. -/
def batchResourceId (purpose : String) (roomId : UInt32) (lens : Nat × Nat) : String :=
  s!"{purpose}:{roomId.toNat}:{lens.1}:{lens.2}"

theorem colon_notMem_repr (n : Nat) : ':' ∉ n.repr.toList := by
  intro h
  have hdigit : Char.isDigit ':' = true := by
    apply Nat.isDigit_of_mem_toDigits (b := 10) (n := n) (by decide) (by decide)
    simpa [Nat.repr] using h
  exact absurd hdigit (by decide)

/-- The id of a batch says both of its lengths. -/
theorem batchResourceId_inj {purpose : String} {roomId : UInt32} {a b : Nat × Nat}
    (h : batchResourceId purpose roomId a = batchResourceId purpose roomId b) : a = b := by
  have hl := congrArg String.toList h
  simp only [batchResourceId, String.toList_append, toString, List.append_assoc] at hl
  have hl := List.append_cancel_left (List.append_cancel_left
    (List.append_cancel_left (List.append_cancel_left hl)))
  obtain ⟨hfst, -, hsnd⟩ := (List.append_cons_inj_of_notMem (colon_notMem_repr _)
    (colon_notMem_repr _)).mp hl
  exact Prod.ext (Nat.repr_injective (String.toList_inj.mp hfst))
    (Nat.repr_injective (String.toList_inj.mp hsnd))

/-- The message of a batch that failed. -/
def onBatch (x : Except BatchError α) : Act PendingResourceStore ServerError α :=
  Act.lift (x.mapError fun _ => .message "batch encode failed")

/-- What a history reply is made with: the crates, the limit, and the request. -/
structure HistoryReply where
  rmpv : Rmpv
  bzip2 : Bzip2
  largeBatchThresholdBytes : Nat
  seq : UInt32
  roomId : UInt32
  purpose : String

namespace HistoryReply
variable (r : HistoryReply)

def inlineTarget : Nat := max 1 (min r.largeBatchThresholdBytes linkInlineHistoryTargetBytes)

section
variable (values : List FrameValue)

def encodedCompressedLen : Act PendingResourceStore ServerError (Nat × Nat) :=
  onBatch (Server.encodedCompressedLen r.rmpv r.bzip2 values)

def resourceBatchBody : Act PendingResourceStore ServerError FrameBody := do
  let lens ← r.encodedCompressedLen values
  let resourceId := batchResourceId r.purpose r.roomId lens
  let payload ← onBatch (compressedValuesPayload r.rmpv r.bzip2 values)
  PendingResourceStore.insert resourceId payload
  pure (resourceOfferBody
    { resourceId
      compression := .bzip2
      uncompressedLen := ofNat lens.1
      compressedLen := ofNat lens.2
      purpose := r.purpose })

/-- Park the batch, and offer it. -/
def offerFrame : Act PendingResourceStore ServerError Frame := do
  let body ← r.resourceBatchBody values
  pure (Frame.new .historyResourceOffer r.seq (some r.roomId) body)

def historyBatchFrame : Act PendingResourceStore ServerError Frame := do
  let lens ← r.encodedCompressedLen values
  if lens.2 ≤ r.inlineTarget then do
    let body ← onBatch (compressedValuesBody r.rmpv r.bzip2 values)
    pure (Frame.new .historyInline r.seq (some r.roomId) body)
  else r.offerFrame values

end

def historyBatchLoop (frames : List Frame) (chunk : List FrameValue) :
    List FrameValue → Act PendingResourceStore ServerError (List Frame)
  | [] =>
    if chunk.isEmpty then pure frames
    else do
      let frame ← r.historyBatchFrame chunk
      pure (frames ++ [frame])
  | value :: values => do
    let lens ← r.encodedCompressedLen (chunk ++ [value])
    if !chunk.isEmpty && lens.2 > r.inlineTarget then do
      let frame ← r.historyBatchFrame chunk
      historyBatchLoop (frames ++ [frame]) [value] values
    else historyBatchLoop frames (chunk ++ [value]) values

section
variable (values : List FrameValue)

def historyBatchFrames : Act PendingResourceStore ServerError (List Frame) :=
  if values.isEmpty then pure []
  else if r.largeBatchThresholdBytes < linkInlineHistoryTargetBytes then do
    let frame ← r.offerFrame values
    pure [frame]
  else r.historyBatchLoop [] [] values

/-! The batches of a reply. -/

/-- The two lengths of a batch; it can always be encoded. -/
def lens : Nat × Nat :=
  (Server.encodedCompressedLen r.rmpv r.bzip2 values).toOption.getD (0, 0)

def payload : Bytes :=
  (compressedValuesPayload r.rmpv r.bzip2 values).toOption.getD []

def resourceId : String := batchResourceId r.purpose r.roomId (r.lens values)

/-- The frame that offers a batch. -/
def offer : Frame :=
  Frame.new .historyResourceOffer r.seq (some r.roomId) (resourceOfferBody
    { resourceId := r.resourceId values
      compression := .bzip2
      uncompressedLen := ofNat (r.lens values).1
      compressedLen := ofNat (r.lens values).2
      purpose := r.purpose })

/-- Too much for a frame. -/
def oversize : Bool := (r.lens values).2 > r.inlineTarget

end

/-- A configuration in which every history is a resource. -/
def alwaysOffers : Bool := r.largeBatchThresholdBytes < linkInlineHistoryTargetBytes

section
variable (values : List FrameValue)

/-- What a non-empty list of events is cut into. -/
def batches : List (List FrameValue) :=
  if r.alwaysOffers then [values] else Batching.cut r.oversize [] values

/-- The batch is sent as a resource. -/
def parks : Bool := r.alwaysOffers || r.oversize values

theorem compressed_total : ∃ raw batch, encodeValues r.rmpv values = .ok raw ∧
      compressedValuesBatch r.rmpv r.bzip2 values = .ok batch ∧
      batch.uncompressedLen.toNat = (r.lens values).1 ∧ batch.bytes.length = (r.lens values).2 := by
  obtain ⟨raw, hraw⟩ := encodeValues_total r.rmpv values
  have hbatch : compressedValuesBatch r.rmpv r.bzip2 values =
      .ok ⟨.bzip2, ofNat raw.length, r.bzip2.compress raw⟩ :=
    Outcome.bind_ok.mpr ⟨raw, hraw, rfl⟩
  have hlens : Server.encodedCompressedLen r.rmpv r.bzip2 values =
      .ok ((ofNat raw.length).toNat, (r.bzip2.compress raw).length) :=
    Outcome.bind_ok.mpr ⟨_, hbatch, rfl⟩
  refine ⟨raw, _, hraw, hbatch, ?_, ?_⟩
  · rw [lens, hlens]
    rfl
  · rw [lens, hlens]
    rfl

theorem encodedCompressedLen_eq :
    Server.encodedCompressedLen r.rmpv r.bzip2 values = .ok (r.lens values) := by
  obtain ⟨_, batch, _, hbatch, h₁, h₂⟩ := r.compressed_total values
  refine Outcome.bind_ok.mpr ⟨batch, hbatch, ?_⟩
  rw [h₁, h₂]
  rfl

theorem compressedValuesPayload_eq :
    compressedValuesPayload r.rmpv r.bzip2 values = .ok (r.payload values) := by
  obtain ⟨_, batch, _, hbatch, _⟩ := r.compressed_total values
  obtain ⟨bytes, hbytes⟩ := encodeValues_total r.rmpv batch.fields
  have hpayload : compressedValuesPayload r.rmpv r.bzip2 values = .ok bytes :=
    Outcome.bind_ok.mpr ⟨_, Outcome.bind_ok.mpr ⟨batch, hbatch, rfl⟩, hbytes⟩
  rw [payload, hpayload]
  rfl

end

/-! What a batch becomes. -/

theorem measure_bind {β : Type} (values : List FrameValue)
    (f : Nat × Nat → Act PendingResourceStore ServerError β) (s : PendingResourceStore) :
    (r.encodedCompressedLen values >>= f) s = f (r.lens values) s := by
  unfold encodedCompressedLen onBatch
  rw [encodedCompressedLen_eq]
  rfl

/-- An offer puts the batch's payload under its id. -/
theorem resourceBatchBody_ok {body : FrameBody} : r.resourceBatchBody values s = (.ok body, s') ↔
      s.admits (r.resourceId values) (r.payload values) = true ∧
        s' = s.put (r.resourceId values) (r.payload values) ∧
        body = resourceOfferBody ⟨r.resourceId values, .bzip2, ofNat (r.lens values).1,
          ofNat (r.lens values).2, r.purpose⟩ := by
  have hbody : r.resourceBatchBody values s =
      (PendingResourceStore.insert (r.resourceId values) (r.payload values) >>= fun _ =>
        pure (resourceOfferBody ⟨r.resourceId values, .bzip2, ofNat (r.lens values).1,
          ofNat (r.lens values).2, r.purpose⟩)) s := by
    unfold resourceBatchBody
    rw [measure_bind]
    rw [compressedValuesPayload_eq]
    rfl
  simp only [hbody, Act.bind_eq_ok, PendingResourceStore.insert_ok, Act.pure_apply, Prod.mk.injEq,
    Except.ok.injEq]
  constructor
  · rintro ⟨_, _, ⟨hadmits, rfl⟩, rfl, rfl⟩
    exact ⟨hadmits, rfl, rfl⟩
  · rintro ⟨hadmits, rfl, rfl⟩
    exact ⟨(), _, ⟨hadmits, rfl⟩, rfl, rfl⟩

theorem offerFrame_ok {frame : Frame} :
    r.offerFrame values s = (.ok frame, s') ↔
      s.admits (r.resourceId values) (r.payload values) = true ∧
        s' = s.put (r.resourceId values) (r.payload values) ∧ frame = r.offer values := by
  unfold offerFrame
  simp only [Act.bind_eq_ok, resourceBatchBody_ok, Act.pure_apply, Prod.mk.injEq, Except.ok.injEq]
  constructor
  · rintro ⟨_, _, ⟨hadmits, rfl, rfl⟩, rfl, rfl⟩
    exact ⟨hadmits, rfl, rfl⟩
  · rintro ⟨hadmits, rfl, rfl⟩
    exact ⟨_, _, ⟨hadmits, rfl, rfl⟩, rfl, rfl⟩

/-- The frame of a batch, as the reply makes it. -/
def batchFrame (values : List FrameValue) : Act PendingResourceStore ServerError Frame :=
  if r.alwaysOffers then r.offerFrame values else r.historyBatchFrame values

theorem batchFrame_parks (h : r.parks values = true) :
    r.batchFrame values = r.offerFrame values := by
  unfold batchFrame
  split
  · rfl
  · next hinline =>
    have hover : r.oversize values = true := by simpa [parks, hinline] using h
    funext s
    unfold historyBatchFrame
    rw [measure_bind, if_neg (by simpa [oversize] using hover)]

/-- What a batch that fits in a frame becomes. -/
theorem batchFrame_inline (h : r.parks values = false) :
    ∃ batch, compressedValuesBatch r.rmpv r.bzip2 values = .ok batch ∧
      batch.bytes.length ≤ linkInlineHistoryTargetBytes ∧
      ∀ s, r.batchFrame values s =
        (.ok (Frame.new .historyInline r.seq (some r.roomId) (.fields batch.fields)), s) := by
  obtain ⟨_, batch, _, hbatch, _, hlen⟩ := r.compressed_total values
  obtain ⟨hinline, hsmall⟩ : r.alwaysOffers = false ∧ r.oversize values = false := by
    simpa [parks] using h
  have hle : (r.lens values).2 ≤ r.inlineTarget := by simpa [oversize] using hsmall
  have htarget : r.inlineTarget ≤ linkInlineHistoryTargetBytes := by
    unfold inlineTarget linkInlineHistoryTargetBytes
    omega
  refine ⟨batch, hbatch, by omega, fun s => ?_⟩
  have hbody : compressedValuesBody r.rmpv r.bzip2 values = .ok (.fields batch.fields) :=
    Outcome.bind_ok.mpr ⟨batch, hbatch, rfl⟩
  unfold batchFrame historyBatchFrame
  rw [hinline, if_neg (by decide), measure_bind, if_pos hle, hbody]
  rfl

/-- The loop makes the frames of the cut, one after the other. -/
theorem historyBatchLoop_each (hinline : r.alwaysOffers = false) {frames done : List Frame}
    {chunk : List FrameValue} :
    r.historyBatchLoop done chunk values s = (.ok frames, s') ↔
      ∃ made, frames = done ++ made ∧
        Act.Each r.batchFrame (Batching.cut r.oversize chunk values) s made s' := by
  have hframe : r.batchFrame = r.historyBatchFrame := by
    funext values
    unfold batchFrame
    rw [hinline, if_neg (by decide)]
  rw [hframe]
  -- by the values that are left; a chunk becomes a frame before the value that is too much
  induction values generalizing done chunk s with
  | nil =>
    unfold historyBatchLoop Batching.cut
    by_cases hempty : chunk.isEmpty = true
    · rw [if_pos hempty, if_pos hempty]
      constructor
      · intro h
        cases h
        exact ⟨[], by simp, .nil _⟩
      · rintro ⟨_, rfl, heach⟩
        cases heach
        simp [Act.pure_apply]
    · rw [if_neg hempty, if_neg hempty, Act.bind_eq_ok]
      constructor
      · rintro ⟨frame, _, hmade, h⟩
        cases h
        exact ⟨[frame], rfl, .cons hmade (.nil _)⟩
      · rintro ⟨_, rfl, heach⟩
        obtain _ | ⟨hmade, hrest⟩ := heach
        cases hrest
        exact ⟨_, _, hmade, rfl⟩
  | cons value values ih =>
    unfold historyBatchLoop Batching.cut
    rw [measure_bind]
    have hcut : (!chunk.isEmpty && decide ((r.lens (chunk ++ [value])).2 > r.inlineTarget)) =
        (!chunk.isEmpty && r.oversize (chunk ++ [value])) := rfl
    rw [hcut]
    split
    · rw [Act.bind_eq_ok]
      constructor
      · rintro ⟨frame, _, hmade, h⟩
        obtain ⟨made, rfl, hrest⟩ := ih.mp h
        exact ⟨frame :: made, by simp, .cons hmade hrest⟩
      · rintro ⟨_, rfl, heach⟩
        obtain _ | ⟨hmade, hrest⟩ := heach
        exact ⟨_, _, hmade, ih.mpr ⟨_, by simp, hrest⟩⟩
    · exact ih

/-- A reply is made of its batches, one after the other. -/
theorem historyBatchFrames_each {frames : List Frame} (hne : values ≠ []) :
    r.historyBatchFrames values s = (.ok frames, s') ↔
      Act.Each r.batchFrame (r.batches values) s frames s' := by
  unfold historyBatchFrames batches
  rw [if_neg (by simpa using hne)]
  cases hoffers : r.alwaysOffers with
  | true =>
    have hframe : r.batchFrame values = r.offerFrame values := by
      unfold batchFrame
      rw [hoffers, if_pos rfl]
    rw [if_pos (by simpa [alwaysOffers] using hoffers), if_pos rfl, Act.bind_eq_ok]
    constructor
    · rintro ⟨frame, _, hmade, h⟩
      cases h
      exact .cons (by rw [hframe, hmade]) (.nil _)
    · intro heach
      obtain _ | ⟨hmade, hrest⟩ := heach
      cases hrest
      exact ⟨_, _, by rw [← hframe, hmade], rfl⟩
  | false =>
    rw [if_neg (by simpa [alwaysOffers] using hoffers), if_neg (by decide),
      r.historyBatchLoop_each hoffers]
    simp

end HistoryReply

/-! Recorded runs of the crate. -/

/-- The crate on inputs whose outputs are recorded, and marked copies of all others. -/
def Bzip2.recorded (table : List (Bytes × Bytes)) (hnodup : (table.map Prod.snd).Nodup)
    (hmark : ∀ e ∈ table, e.2.head? ≠ some 0) : Bzip2 where
  compress bytes := ((table.find? (·.1 == bytes)).map Prod.snd).getD (0 :: bytes)
  readUpTo bytes limit :=
    if bytes.head? = some 0 then some (bytes.tail.take limit)
    else (table.find? (·.2 == bytes)).map (fun e => e.1.take limit)
  lossless := by
    intro bytes limit
    cases hfound : table.find? (·.1 == bytes) with
    | none => rfl
    | some e =>
      have hmem := List.mem_of_find?_eq_some hfound
      have hkey : e.1 = bytes := by simpa using List.find?_some hfound
      obtain ⟨e', hback⟩ := Option.isSome_iff_exists.mp
        (List.find?_isSome (p := fun x : Bytes × Bytes => x.2 == e.2) |>.mpr ⟨e, hmem, by simp⟩)
      have hsame : e'.2 = e.2 := by simpa using List.find?_some hback
      have hone := List.inj_on_of_nodup_map hnodup (List.mem_of_find?_eq_some hback) hmem hsame
      rw [Option.map_some, Option.getD_some, if_neg (hmark e hmem), hback, hone, Option.map_some, hkey]

/-- A recorded run: the batch, and what the crate made of it. -/
def recording (values : List FrameValue) (compressed : Bytes) : Bytes × Bytes :=
  (Msgpack.write (.array (frameValuesToValueRefs values)), compressed)

end Omen.Server
