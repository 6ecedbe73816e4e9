import OmenBrowser.Server.DurableSession
import OmenBrowser.Server.HistoryBatches
import OmenBrowser.Server.HistoryReading
import OmenBrowser.Server.RoomUsers

/- The session engine with its pending resources (`server/src/session.rs`).

   Five handlers and the frames the live server asks for put resources into the store: what
   is too much for a frame is parked, and a frame of the answer offers it. What these handlers
   read before they put an answer together is `Reading`; what they park, and in which order,
   is here. No other operation of the engine can reach the store: they are the operations of
   an engine without one, `beside` it.

   Correspondence (Rust ↔ Lean):
     `pending_resources`                         ↔ the first part of what is kept in memory
     `cfg!(feature = "..resource-qualification")` ↔ `BatchConfig.resourceAudit`
     `DefaultHasher` over a snapshot             ↔ `Reading.fingerprint` -/
namespace Omen.Server
open Wire Sql Omen.Protocol

variable {τ ρ : Type} {α ε : Type}

/-! Batches in an answer. -/

namespace HistoryReply
variable (r : HistoryReply)

def batchOp (inlineOp resourceOp : ChatOp) (values : List FrameValue) :
    Act PendingResourceStore ServerError ChatOp := do
  let lens ← r.encodedCompressedLen values
  pure (if lens.2 > r.largeBatchThresholdBytes then resourceOp else inlineOp)

def batchBody (values : List FrameValue) : Act PendingResourceStore ServerError FrameBody := do
  let lens ← r.encodedCompressedLen values
  if lens.2 > r.largeBatchThresholdBytes then r.resourceBatchBody values
  else onBatch (compressedValuesBody r.rmpv r.bzip2 values)

/-- A frame with the values in it, or one that offers them. -/
def batchedFrame (inlineOp resourceOp : ChatOp) (values : List FrameValue) :
    Act PendingResourceStore ServerError Frame := do
  let op ← r.batchOp inlineOp resourceOp values
  let body ← r.batchBody values
  pure (Frame.new op r.seq (some r.roomId) body)

end HistoryReply

/-- The crates, the limit and the build the batches of an engine are made with. -/
structure BatchConfig where
  rmpv : Rmpv
  bzip2 : Bzip2
  largeBatchThresholdBytes : Nat
  resourceAudit : Bool

def BatchConfig.reply (c : BatchConfig) (seq roomId : UInt32) (purpose : String) : HistoryReply :=
  { rmpv := c.rmpv
    bzip2 := c.bzip2
    largeBatchThresholdBytes := c.largeBatchThresholdBytes
    seq
    roomId
    purpose }

/-! Beside the store. -/

def SessionState.withoutPending (s : SessionState τ (PendingResourceStore × ρ)) : SessionState τ ρ :=
  { store := { s.store with rest := (s.store.rest.1, s.store.rest.2.1, s.store.rest.2.2.2) }
    clock := s.clock
    readings := s.readings }

def SessionState.withPending (pending : PendingResourceStore) (s : SessionState τ ρ) :
    SessionState τ (PendingResourceStore × ρ) :=
  { store := { s.store with rest := (s.store.rest.1, s.store.rest.2.1, pending, s.store.rest.2.2) }
    clock := s.clock
    readings := s.readings }

def SessionState.pending (s : SessionState τ (PendingResourceStore × ρ)) : PendingResourceStore :=
  s.store.rest.2.2.1

/-- An action of an engine that has no pending resources. -/
def beside (x : Session τ ρ α) : Session τ (PendingResourceStore × ρ) α :=
  Act.zoom SessionState.withoutPending (fun s t => s.withPending t.pending) x

/-- An action on the pending resources. -/
def onPending (x : Act PendingResourceStore ServerError α) : Session τ (PendingResourceStore × ρ) α :=
  Act.zoom SessionState.pending (fun pending s => s.withoutPending.withPending pending) x

def restWithoutPending (rest : Database × τ × PendingResourceStore × ρ) : Database × τ × ρ :=
  (rest.1, rest.2.1, rest.2.2.2)

def txnBeside (x : Txn (Database × τ × ρ) ServerError α) :
    Txn (Database × τ × PendingResourceStore × ρ) ServerError α :=
  Txn.zoom restWithoutPending (fun rest t => (rest.1, rest.2.1, t.2.2.1, rest.2.2)) x

def memoryBeside (f : ρ → α × ρ) (memory : PendingResourceStore × ρ) : α × PendingResourceStore × ρ :=
  ((f memory.2).1, memory.1, (f memory.2).2)

/-! What the handlers read. -/

structure JoinReply where
  roomId : UInt32
  room : FrameValue
  users : List FrameValue
  events : List FrameValue

structure AuditReply where
  values : List FrameValue
  reachedEnd : Bool

structure FetchReply where
  filename : String
  byteLen : UInt64
  contentType : Option String
  bytes : Bytes

structure Reading (τ ρ : Type) where
  joinRoom : ServerUser → UInt32 → FrameBody → List ServerPeer → Bool → Session τ ρ (Found JoinReply)
  historyBefore : ServerUser → UInt32 → UInt32 → FrameBody → Session τ ρ (Found (List FrameValue))
  historyRecent : ServerUser → UInt32 → UInt32 → FrameBody → Session τ ρ (Found (List FrameValue))
  moderationAuditBefore : ServerUser → UInt32 → UInt32 → ModerationAuditRequest →
    Session τ ρ (Found AuditReply)
  uploadFetch : ServerUser → UInt32 → UInt32 → String → Session τ ρ (Found FetchReply)
  fingerprint : SnapshotKind → List FrameValue → String

/-! The handlers that park. -/

section Handlers
variable (c : BatchConfig) (reading : Reading τ ρ)

/-- The answer the reading gave, or the one put together of what it found. -/
def answerFound (read : Session τ ρ (Found α))
    (reply : α → Act PendingResourceStore ServerError (List Frame)) :
    Session τ (PendingResourceStore × ρ) (List Frame) := do
  let found ← beside read
  match found with
  | .answered frames => pure (frames.map PlainFrame.frame)
  | .found a => onPending (reply a)

def joinFrames (seq : UInt32) (j : JoinReply) : Act PendingResourceStore ServerError (List Frame) := do
  let users ← (c.reply seq j.roomId "userlist").batchedFrame .userListSnapshotInline
    .userListSnapshotResource j.users
  let history ← (c.reply seq j.roomId "history").historyBatchFrames j.events
  pure (Frame.new .joinAccept seq (some j.roomId) (.fields [j.room]) :: users :: history)

def historyBeforeFrames (seq roomId : UInt32) (events : List FrameValue) :
    Act PendingResourceStore ServerError (List Frame) :=
  if events.isEmpty then pure [Frame.new .historyEnd seq (some roomId) .empty]
  else (c.reply seq roomId "history").historyBatchFrames events

def historyRecentFrames (seq roomId : UInt32) (events : List FrameValue) :
    Act PendingResourceStore ServerError (List Frame) :=
  (c.reply seq roomId "recent").historyBatchFrames events

/-- `moderation-audit:{seq}:{cursor}`. -/
def auditPurpose (seq : UInt32) (beforeAuditId : Option UInt64) : String :=
  s!"moderation-audit:{seq.toNat}:" ++ match beforeAuditId with
    | some auditId => toString auditId.toNat
    | none => "newest"

def auditPage (seq roomId : UInt32) (request : ModerationAuditRequest) (values : List FrameValue) :
    Act PendingResourceStore ServerError Frame :=
  let reply := c.reply seq roomId (auditPurpose seq request.beforeAuditId)
  if c.resourceAudit then do
    let body ← reply.resourceBatchBody values
    pure (Frame.new .moderationAuditResource seq (some roomId) body)
  else reply.batchedFrame .moderationAuditInline .moderationAuditResource values

def auditFrames (seq roomId : UInt32) (request : ModerationAuditRequest) (a : AuditReply) :
    Act PendingResourceStore ServerError (List Frame) := do
  let page ← if a.values.isEmpty then pure [] else do
    let frame ← auditPage c seq roomId request a.values
    pure [frame]
  pure (page ++ if a.reachedEnd then [Frame.new .moderationAuditEnd seq (some roomId) .empty] else [])

def uploadInlineMaxBytes : Nat := 16 * 1024
def uploadInlineChunkBytes : Nat := 256

def contentTypeValue (contentType : Option String) : FrameValue :=
  (contentType.map FrameValue.string).getD .nil

/-- The chunks from this offset on. -/
def inlineChunks (seq roomId : UInt32) (resourceId : String) (f : FetchReply) (offset : Nat) :
    Nat → List Frame
  | 0 => []
  | n + 1 =>
    let chunk := (f.bytes.drop offset).take uploadInlineChunkBytes
    Frame.new .uploadInlineChunk seq (some roomId) (.fields
      [.string resourceId, .string f.filename, .u64 (UInt64.ofNat f.bytes.length),
        contentTypeValue f.contentType, .u64 (UInt64.ofNat offset), .bytes chunk,
        .bool (offset + chunk.length ≥ f.bytes.length)]) ::
      inlineChunks seq roomId resourceId f (offset + uploadInlineChunkBytes) n

/-- `upload_inline_chunk_frames`: one frame for each 256 bytes, and one if there are none. -/
def uploadInlineChunkFrames (seq roomId : UInt32) (resourceId : String) (f : FetchReply) : List Frame :=
  inlineChunks seq roomId resourceId f 0
    (max 1 ((f.bytes.length + uploadInlineChunkBytes - 1) / uploadInlineChunkBytes))

def fetchFrames (seq roomId : UInt32) (resourceId : String) (f : FetchReply) :
    Act PendingResourceStore ServerError (List Frame) :=
  if f.bytes.length ≤ uploadInlineMaxBytes then pure (uploadInlineChunkFrames seq roomId resourceId f)
  else do
    PendingResourceStore.insert resourceId f.bytes
    pure [Frame.new .uploadResourceOffer seq (some roomId) (.fields
      [.string resourceId, .string f.filename, .u64 f.byteLen, contentTypeValue f.contentType])]

/-- The ops of a snapshot of a kind, and what its resource ids begin with. -/
def SnapshotKind.ops : SnapshotKind → ChatOp × ChatOp × String
  | .reactions => (.reactionSnapshotInline, .reactionSnapshotResource, "reactions")
  | .messageRevisions =>
    (.messageRevisionSnapshotInline, .messageRevisionSnapshotResource, "message-revisions")
  | .pins => (.pinSnapshot, .pinSnapshot, "pins")

/-- A snapshot's frame; pins are never parked. -/
def snapshotFrame (fingerprint : SnapshotKind → List FrameValue → String) (kind : SnapshotKind)
    (seq roomId : UInt32) (body : FrameBody) : Act PendingResourceStore ServerError Frame :=
  match body with
  | .fields values =>
    let reply := c.reply seq roomId s!"{kind.ops.2.2}:{seq.toNat}:{fingerprint kind values}"
    if kind = .pins then do
      let body ← onBatch (compressedValuesBody c.rmpv c.bzip2 values)
      pure (Frame.new .pinSnapshot seq (some roomId) body)
    else reply.batchedFrame kind.ops.1 kind.ops.2.1 values
  | _ => Act.throw (.message "snapshot did not produce a fields body")

def userlistFrame (roomId : UInt32) (users : List FrameValue) : Act PendingResourceStore ServerError Frame :=
  (c.reply 0 roomId "userlist").batchedFrame .userListSnapshotInline .userListSnapshotResource users

end Handlers

/-! The engine. -/

/-- The handlers over the pending resources. -/
def Serving.parking (c : BatchConfig) (reading : Reading τ ρ) (serving : Serving τ ρ) :
    Serving τ (PendingResourceStore × ρ) where
  features := serving.features
  limits := serving.limits
  roomExists := fun roomId rest => serving.roomExists roomId (restWithoutPending rest)
  acceptFields := fun rest => serving.acceptFields (restWithoutPending rest)
  joinRoom := fun user seq body active coloured =>
    answerFound (reading.joinRoom user seq body active coloured) (joinFrames c seq)
  partRoom := fun user seq roomId => beside (serving.partRoom user seq roomId)
  roomText := fun peer user op seq roomId text => beside (serving.roomText peer user op seq roomId text)
  historyBefore := fun user seq roomId body =>
    answerFound (reading.historyBefore user seq roomId body) (historyBeforeFrames c seq roomId)
  historyRecent := fun user seq roomId body =>
    answerFound (reading.historyRecent user seq roomId body) (historyRecentFrames c seq roomId)
  moderationAuditBefore := fun user seq roomId request =>
    answerFound (reading.moderationAuditBefore user seq roomId request)
      (auditFrames c seq roomId request)
  uploadOffer := fun peer user seq roomId body media =>
    beside (serving.uploadOffer peer user seq roomId body media)
  uploadFetch := fun user seq roomId resourceId =>
    answerFound (reading.uploadFetch user seq roomId resourceId) (fetchFrames seq roomId resourceId)
  command := fun peer seq roomId body active => beside (serving.command peer seq roomId body active)
  uploadResource := fun peer user resourceId upload data media =>
    beside (serving.uploadResource peer user resourceId upload data media)
  channelUpload := fun peer user resourceId upload media =>
    beside (serving.channelUpload peer user resourceId upload media)
  takePendingUpload := fun resourceId identityHash now =>
    memoryBeside (serving.takePendingUpload resourceId identityHash now)
  stageChannelFrame := fun linkId peer data stages now =>
    memoryBeside (serving.stageChannelFrame linkId peer data stages now)
  stage_rejects := fun linkId peer data stages now memory responses h =>
    serving.stage_rejects linkId peer data stages now memory.2 responses h

theorem txnBeside_ok {x : Txn (Database × τ × ρ) ServerError α}
    {rest : Database × τ × PendingResourceStore × ρ}
    {a : α} {rest' : Database × τ × PendingResourceStore × ρ} (h : txnBeside x rest = .ok (a, rest')) :
    x (restWithoutPending rest) = .ok (a, restWithoutPending rest') ∧ rest'.2.2.1 = rest.2.2.1 := by
  obtain ⟨r, hr, hset⟩ := Outcome.map_ok.mp h
  cases hset
  exact ⟨hr, rfl⟩

def DurableServing.parking (durable : DurableServing τ ρ) : DurableServing τ (PendingResourceStore × ρ) where
  rmpv := durable.rmpv
  sha256 := durable.sha256
  historyRetention := durable.historyRetention
  checks := durable.checks
  eventToValue := durable.eventToValue
  roomText := fun request roomId user => txnBeside (durable.roomText request roomId user)
  textResult := durable.textResult
  partRoom := fun request roomId user => txnBeside (durable.partRoom request roomId user)
  projection := fun request roomId user => txnBeside (durable.projection request roomId user)
  command := fun request user => txnBeside (durable.command request user)
  reserveColourRate := fun peer => memoryBeside (durable.reserveColourRate peer)
  command_target := fun request user _ plan _ identityHash h =>
    durable.command_target request user _ plan _ identityHash (txnBeside_ok h).1

def Publishing.withParking (c : BatchConfig) (reading : Reading τ ρ) (publishing : Publishing τ ρ) :
    Publishing τ (PendingResourceStore × ρ) where
  snapshotFrame := fun kind seq roomId body =>
    onPending (Omen.Server.snapshotFrame c reading.fingerprint kind seq roomId body)
  roomIdsForIdentity := fun identityHash rest =>
    publishing.roomIdsForIdentity identityHash (restWithoutPending rest)
  activeUserlistFrame := fun roomId peers coloured => do
    let users ← beside (userValuesForActivePeers roomId peers coloured)
    onPending (userlistFrame c roomId users)
  shapeUserDelta := fun frame rest => publishing.shapeUserDelta frame (restWithoutPending rest)
  shapeRoomFrame := fun frame shape rest => publishing.shapeRoomFrame frame shape (restWithoutPending rest)
  resourcePayload := fun resourceId memory => memory.1.get resourceId
  takeResourcePayload := fun resourceId memory => (memory.1.take resourceId, memory.2)
  discardPendingUploadsForIdentity := fun identityHash memory =>
    (memory.1, publishing.discardPendingUploadsForIdentity identityHash memory.2)
  discardUniquePendingUploadForFailure := fun identityHash size memory =>
    (memory.1, publishing.discardUniquePendingUploadForFailure identityHash size memory.2)

/-- The engine with its pending resources. -/
def parkingEngine (c : BatchConfig) (reading : Reading τ ρ) (serving : Serving τ ρ)
    (durable : DurableServing τ ρ) (publishing : Publishing τ ρ) :
    SessionEngine (SessionState τ (PendingResourceStore × ρ)) :=
  sessionEngine (serving.parking c reading) durable.parking (publishing.withParking c reading)

end Omen.Server
