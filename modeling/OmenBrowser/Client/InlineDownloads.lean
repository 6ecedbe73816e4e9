import OmenBrowser.Client.LocalEchoes
import OmenBrowser.Lib.Reassembly
import OmenBrowser.Server.ParkingEngine

/- Downloads that arrive in chunks (`chat/live.rs`).

   A small file is sent as frames that each carry a chunk and its offset. The client keeps what has
   arrived of a resource under the resource's id, until all of it is there; a chunk that does not fit
   what is there ends the download.

   Correspondence (Rust ↔ Lean):
     `PendingLiveUploadDownload`         ↔ `PendingDownload`
     `inline_download_metrics`           ↔ `items`, `reservedBytes`
     `apply_upload_inline_chunk`         ↔ `parseInlineChunk`, `openDownload`, `mergeChunk`,
                                           `applyUploadInlineChunk`
     `reject_inline_download`            ↔ `rejectInlineDownload`
   Of the client's sessions only the status line is kept, and of the live state the downloads.
   `human_bytes` is a parameter. -/
namespace Omen.Client
open Wire Sql Reassembly Omen.Protocol

def liveInlineDownloadMaxItems : Nat := 16
def liveInlineDownloadMaxBytes : Nat := 16 * 1024 * 1024
def liveInlineDownloadMaxResourceBytes : Nat := 8 * 1024 * 1024
def liveInlineDownloadMaxPendingChunks : Nat := 1024
def chatContentTypeMaxBytes : Nat := 1024

structure PendingDownload extends Assembly UInt8 where
  sessionId : ChatSessionId
  filename : String
  contentType : Option String
  totalLen : Nat
  doneSeen : Bool

/-- What the events of a chunk say. -/
inductive DownloadEvent where
  | error (sessionId : ChatSessionId) (message : String)
  | uploadResourceProgress (sessionId : ChatSessionId) (resourceId filename : String)
      (received total : Nat)
  | uploadResourceAvailable (sessionId : ChatSessionId) (resourceId filename : String)
      (contentType : Option String) (bytes : Bytes)
  deriving DecidableEq

/-- The live state and the sessions' status lines, as far as chunks go. -/
structure LiveDownloads where
  pendingUploadDownloads : Table (Prod.fst : String × PendingDownload → String)
  rejectedUploadDownloads : Nat
  status : ChatSessionId → Option String

structure InlineChunk where
  resourceId : String
  filename : String
  totalLen : Nat
  contentType : Option String
  offset : Nat
  chunk : Bytes
  done : Bool

def fieldBytes : FrameValue → Option Bytes
  | .bytes value => some value
  | _ => none

def fieldBool : FrameValue → Option Bool
  | .bool value => some value
  | _ => none

def parseInlineChunk (values : List FrameValue) : Option InlineChunk := do
  let resourceId ← values[0]?.bind fieldStr
  let filename ← values[1]?.bind fieldStr
  let totalLen := ((values[2]?.bind fieldU64).map UInt64.toNat).getD 0
  let contentType := values[3]?.bind fieldStr
  let offset := ((values[4]?.bind fieldU64).map UInt64.toNat).getD (2 ^ 64 - 1)
  let chunk ← values[5]?.bind fieldBytes
  let done := (values[6]?.bind fieldBool).getD false
  pure { resourceId, filename, totalLen, contentType, offset, chunk, done }

namespace LiveDownloads

def empty (status : ChatSessionId → Option String) : LiveDownloads := ⟨.empty, 0, status⟩

variable (s : LiveDownloads)

def items : Nat := s.pendingUploadDownloads.rows.length

def reservedBytes : Nat :=
  (s.pendingUploadDownloads.rows.map fun row => row.2.totalLen).sum

variable (resourceId : String)

def find? : Option PendingDownload :=
  (s.pendingUploadDownloads.find? resourceId).map Prod.snd

def remove : LiveDownloads :=
  { s with
    pendingUploadDownloads := s.pendingUploadDownloads.deleteWhere fun row => row.1 == resourceId }

def put (download : PendingDownload) : LiveDownloads :=
  { s with
    pendingUploadDownloads :=
      (s.remove resourceId).pendingUploadDownloads.insertOrIgnore (resourceId, download) }

variable (sessionId : ChatSessionId)

/-- `session.status = ..`, where there is a session. -/
def setStatus (text : String) : LiveDownloads :=
  { s with
    status := fun other => if other = sessionId then (s.status other).map fun _ => text
      else s.status other }

def rejectInlineDownload (resourceId : String) (message : String) (removeExisting : Bool) :
    List DownloadEvent × LiveDownloads :=
  let s := if removeExisting then s.remove resourceId else s
  let message := "OMENchat " ++ message
  ([.error sessionId message],
    { s with rejectedUploadDownloads := min (s.rejectedUploadDownloads + 1) (2 ^ 64 - 1) }.setStatus
      sessionId message)

end LiveDownloads

/-- The download a chunk belongs to, or how it is refused and whether what is there goes. -/
def openDownload (s : LiveDownloads) (sessionId : ChatSessionId) (c : InlineChunk) :
    Except (String × Bool) PendingDownload :=
  if (utf8 c.resourceId).length > chatResourceIdMaxBytes ∨
      (utf8 c.filename).length > chatUploadFilenameMaxBytes ∨
      (c.contentType.any fun value => (utf8 value).length > chatContentTypeMaxBytes) ∨
      c.totalLen > liveInlineDownloadMaxResourceBytes then
    -- refused, and with it goes a download of this session under the id
    .error ("inline upload metadata exceeds client limits",
      (s.find? c.resourceId).any fun download => download.sessionId = sessionId)
  else
    match s.find? c.resourceId with
    | some entry =>
      -- a stranger cannot end the download of another session
      if entry.sessionId ≠ sessionId then
        .error ("inline upload resource id belongs to another session", false)
      else if entry.filename ≠ c.filename ∨ entry.contentType ≠ c.contentType ∨
          entry.totalLen ≠ c.totalLen then
        .error ("inline upload metadata changed during transfer", true)
      else .ok entry
    | none =>
      if s.items ≥ liveInlineDownloadMaxItems ∨
          s.reservedBytes + c.totalLen > liveInlineDownloadMaxBytes then
        .error ("inline upload queue is full", false)
      else
        .ok
          { Assembly.empty with
            sessionId, filename := c.filename, contentType := c.contentType
            totalLen := c.totalLen, doneSeen := false }

variable (entry : PendingDownload)

/-- `retained_payload_bytes`. -/
def PendingDownload.retainedPayloadBytes : Nat :=
  entry.toAssembly.retained

/-- Chunks that have become contiguous join the bytes. -/
def PendingDownload.drain : PendingDownload :=
  { entry with toAssembly := entry.toAssembly.absorb entry.pendingChunks.rows.length }

def PendingDownload.mark (done : Bool) : PendingDownload :=
  if done then { entry with doneSeen := true } else entry

def mergeChunk (c : InlineChunk) : Except String PendingDownload :=
  let entry := entry.mark c.done
  if c.offset > entry.totalLen ∨ c.offset + c.chunk.length > entry.totalLen then
    .error "inline upload chunk is outside the declared resource"
  -- bytes that came before have to say the same
  else if c.offset < entry.bytes.length then
    let stop := c.offset + c.chunk.length
    if stop ≤ entry.bytes.length ∧ (entry.bytes.drop c.offset).take c.chunk.length = c.chunk then
      .ok entry.drain
    else .error "inline upload chunk conflicts with received data"
  else
    match entry.pendingChunks.find? c.offset with
    | some existing =>
      if existing.2 ≠ c.chunk then .error "inline upload chunk conflicts at a pending offset"
      else .ok entry.drain
    | none =>
      if entry.pendingChunks.rows.length ≥ liveInlineDownloadMaxPendingChunks then
        .error "inline upload fragment limit exceeded"
      else if entry.retainedPayloadBytes + c.chunk.length > entry.totalLen then
        .error "inline upload retained bytes exceed the declared resource"
      else
        .ok { entry with toAssembly := entry.toAssembly.wait c.offset c.chunk }.drain

section Apply
variable (humanBytes : Nat → String)

variable (s : LiveDownloads) (sessionId : ChatSessionId) (c : InlineChunk)

/-- The rest of `apply_upload_inline_chunk`, once a chunk has been merged. -/
def finishChunk (entry : PendingDownload) : List DownloadEvent × LiveDownloads :=
  let s := (s.put c.resourceId entry).setStatus sessionId
    ("upload resource receiving: " ++ humanBytes entry.bytes.length ++ " / " ++
      humanBytes entry.totalLen)
  let progress := DownloadEvent.uploadResourceProgress sessionId c.resourceId c.filename
    entry.bytes.length entry.totalLen
  if (entry.doneSeen ∨ entry.bytes.length ≥ entry.totalLen) ∧
      entry.bytes.length ≥ entry.totalLen then
    let s := s.remove c.resourceId
    if entry.bytes.length ≠ entry.totalLen then
      ([progress, .error sessionId ("OMENchat upload resource incomplete: got " ++
        toString entry.bytes.length ++ ", expected " ++ toString entry.totalLen)], s)
    else
      ([progress, .uploadResourceAvailable sessionId c.resourceId entry.filename entry.contentType
        entry.bytes],
        s.setStatus sessionId ("upload resource received: " ++ entry.filename ++ " (" ++
          humanBytes entry.bytes.length ++ ")"))
  else ([progress], s)

def takeChunk : List DownloadEvent × LiveDownloads :=
  match openDownload s sessionId c with
  | .error (message, removeExisting) =>
    s.rejectInlineDownload sessionId c.resourceId message removeExisting
  | .ok entry =>
    match mergeChunk entry c with
    | .error message => s.rejectInlineDownload sessionId c.resourceId message true
    | .ok entry => finishChunk humanBytes s sessionId c entry

/-- A frame of a session. -/
def applyUploadInlineChunk (arrival : ChatSessionId × Frame) : List DownloadEvent × LiveDownloads :=
  match bodyValues arrival.2.body with
  | none => ([.error arrival.1 "OMENchat upload chunk had an invalid body"], s)
  | some values =>
    match parseInlineChunk values with
    | none => ([], s)
    | some c => takeChunk humanBytes s arrival.1 c

end Apply
end Omen.Client
