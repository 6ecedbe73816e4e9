import OmenBrowser.Lib.Disk
import OmenBrowser.Protocol.ChannelAttachment
import OmenBrowser.Server.RateLimits
import OmenBrowser.Server.Session

/- Uploads: what is stored of them, and where (`server/src/upload.rs`, `server/src/session.rs`).

   The files of an identity lie in a directory of their own. `upload_files` is the index over
   them, an offer that was accepted waits among the pending uploads, and an upload that arrives in
   parts is staged in a file of the same directory.

   Correspondence (Rust ↔ Lean):
     `cache_root.join(hex_lower(identity)).join(name)`  ↔ `UploadPath`
     `Path::exists`                                     ↔ `UploadServer.taken`
     `UPLOAD_TEMP_SEQUENCE`                             ↔ `UploadServer.tempSequence`
     `Sha256`, fed piece by piece                       ↔ the bytes it was fed, `ChannelUploadStage.hashed`
   The cache root stays the same and holds nothing but these directories, and they hold regular
   files. Locks are not poisoned. An operation on a file or on the store fails where `Faults` says
   so, and a statement of the store also where its tables make it; what a failed operation leaves
   can be removed. -/
namespace Omen.Server
open Wire Sql Ints Omen.Protocol

/-! Paths. -/

structure UploadPath where
  identity : Bytes
  name : String
  deriving DecidableEq

/-- `Path::file_name`: the last component, unless it leads up. -/
def fileName (path : String) : Option String :=
  match ((path.toList.splitOn '/').filter (fun part => part ≠ [] && part ≠ ['.'])).getLast? with
  | none => none
  | some part => if part = ['.', '.'] then none else some (String.ofList part)

def isPlainNameChar (c : Char) : Bool :=
  c.isAlphanum || c == '.' || c == '-' || c == '_'

/-- `trim_matches` of one character. -/
def trimMatches (c : Char) (cs : List Char) : List Char :=
  ((cs.dropWhile (· == c)).reverse.dropWhile (· == c)).reverse

def sanitizeUploadFilename (filenameHint : String) : String :=
  let hint := (fileName filenameHint).getD filenameHint
  let cleaned := (Text.trimChars hint.toList).map (fun c => if isPlainNameChar c then c else '_')
  let cleaned := trimMatches '_' (trimMatches '.' cleaned)
  if cleaned = [] then "upload.bin" else String.ofList (cleaned.take 96)

/-- `format!("{value:016x}")`. -/
def hex16 (value : UInt64) : String := String.ofList ((be 8 value.toNat).flatMap hexByte)

/-! What may fail. -/

inductive FileOp where
  | ensureDir (identity : Bytes)
  | create (path : UploadPath)
  | write (path : UploadPath)
  | flush (path : UploadPath)
  | syncFile (path : UploadPath)
  | rename (source : UploadPath)
  | remove (path : UploadPath)
  | syncDir (identity : Bytes)
  | metadata (path : UploadPath)
  | readDir (identity : Bytes)

inductive StoreOp where
  | roomById
  | ensureUser
  | hasMember
  | contentPolicy
  | uploadPolicy
  | tracked
  | entries
  | record
  | removeEvicted
  | appendEvent

/-- What fails while a request is handled, and how much a write that fails has written. -/
structure Faults where
  file : FileOp → Bool
  written : Nat
  store : StoreOp → Option Sql.Error

def Faults.none : Faults := { file := fun _ => false, written := 0, store := fun _ => Option.none }

/-- The readings of the clocks while a request is handled. -/
structure Readings where
  unixSeconds : Nat
  millis : Nat
  nanos : UInt64 → Nat
  processId : Nat
  seen : Int
  recorded : Int
  event : Clock

/-! Settings. -/

def roomUploadMaxFileBytes : UInt64 := 10 * 1024 * 1024

/-- The limits uploads are held to; the configuration clamps the size of a file. -/
structure UploadLimits where
  quotaBytes : UInt64
  maxFileBytes : UInt64
  cacheAvailable : Bool
  rateCommandsPerMinute : Nat
  historyRetention : RoomHistoryRetentionPolicy
  sha256 : Bytes → AttachmentDigest
  humanBytes : UInt64 → String
  clamped : maxFileBytes ≤ roomUploadMaxFileBytes

/-! Tables. -/

/-- The columns of a room that uploads are checked against. -/
structure RoomUploadRow where
  roomId : RoomId
  archived : Bool
  policyBits : Nat
  uploadMaxFileBytes : Option UInt64

structure UploadFileRow where
  resourceId : String
  roomId : UInt32
  actorUserId : UserId
  filename : String
  contentType : Option String
  byteLen : Nat
  path : UploadPath
  createdAt : Int
  deriving DecidableEq

/-! In memory. -/

def pendingUploadMaxItems : Nat := 256
def pendingUploadMaxItemsPerIdentity : Nat := 8
def pendingUploadTtlSeconds : Nat := 6 * 60 * 60
def channelUploadMaxItems : Nat := 16
def channelUploadMaxItemsPerLink : Nat := 4

structure PendingUploadEntry where
  resourceId : String
  identityHash : Bytes
  upload : PendingUpload
  acceptedAt : Nat

abbrev PendingUploads := Table PendingUploadEntry.resourceId

structure ChannelUploadStage where
  key : LinkId × String
  identityHash : Bytes
  path : UploadPath
  expectedBytes : UInt64
  writtenBytes : UInt64
  hashed : Bytes

structure UploadServer where
  database : Database
  rooms : Table RoomUploadRow.roomId
  uploads : Table UploadFileRow.resourceId
  verified : List UserId
  disk : Disk UploadPath
  pending : PendingUploads
  stages : Table ChannelUploadStage.key
  buckets : RateBuckets
  tempSequence : UInt64

abbrev Uploading := Act UploadServer ServerError

/-! Names of files. -/

/-- `candidate.exists()`: a directory has itself and the one above it in it. -/
def UploadServer.taken (s : UploadServer) (path : UploadPath) : Bool :=
  path.name == "." || path.name == ".." || (s.disk.read path).isSome

/-- The file an upload is published as. -/
def nextUploadPath (taken : UploadPath → Bool) (identity : Bytes) (filenameHint : String)
    (stamp : Nat) : UploadPath :=
  let filename := sanitizeUploadFilename filenameHint
  if !taken ⟨identity, filename⟩ then ⟨identity, filename⟩
  else
    let numbered := (List.range' 1 1000).map (fun index =>
      (⟨identity, s!"{stamp}-{index}-{filename}"⟩ : UploadPath))
    (numbered.find? (fun candidate => !taken candidate)).getD ⟨identity, s!"{stamp}-{filename}"⟩

variable (identity : Bytes)

/-- A temporary file of a publication. -/
def tempUploadPath (processId stamp : Nat) (sequence : UInt64) : UploadPath :=
  let sequence := sequence.toNat
  ⟨identity, s!".omen-upload-{processId}-{stamp}-{sequence}.tmp"⟩

/-- The file a Channel upload is staged in. -/
def stagePath (sequence : UInt64) : UploadPath :=
  let sequence := hex16 sequence
  ⟨identity, s!".omen-channel-{sequence}.part"⟩

/-- The first of the next names that is free, and the sequence behind it. -/
def freePath (taken : UploadPath → Bool) (path : UInt64 → UploadPath) :
    Nat → UInt64 → Option UploadPath × UInt64
  | 0, sequence => (none, sequence)
  | tries + 1, sequence =>
    if taken (path sequence) then freePath taken path tries (sequence + 1)
    else (some (path sequence), sequence + 1)

/-- A name that was found is free. -/
theorem freePath_free {taken : UploadPath → Bool} {path : UInt64 → UploadPath} {tries : Nat}
    {sequence next : UInt64} {p : UploadPath} (h : freePath taken path tries sequence = (some p, next)) :
    taken p = false ∧ ∃ k, p = path k := by
  induction tries generalizing sequence with
  | zero => cases h
  | succ tries ih =>
    unfold freePath at h
    split at h
    · exact ih h
    · next hfree =>
      obtain ⟨hp, _⟩ := Prod.mk.inj h
      rw [← Option.some.inj hp]
      exact ⟨by simpa using hfree, sequence, rfl⟩

/-! Pending uploads. -/

namespace PendingUploads

variable (pending : PendingUploads)

def purgeExpired (now : Nat) : PendingUploads :=
  pending.deleteWhere (fun entry => !decide (now - entry.acceptedAt < pendingUploadTtlSeconds))

variable (resourceId : String)

/-- `get_for_identity`, on what is left of the entries. -/
def getForIdentity (identityHash : Bytes) : Option PendingUpload :=
  ((pending.find? resourceId).filter (fun entry => entry.identityHash == identityHash)).map
    PendingUploadEntry.upload

def remove : PendingUploads :=
  pending.deleteWhere (fun entry => entry.resourceId == resourceId)

/-- `entries.insert`. -/
def store (entry : PendingUploadEntry) : PendingUploads :=
  pending.upsert entry (fun e => { entry with resourceId := e.resourceId }) (fun _ => rfl)

/-- `insert`, on what is left of the entries: an id of another identity is not taken over. -/
def admitEntry (entry : PendingUploadEntry) : Option PendingUploads :=
  match pending.find? entry.resourceId with
  | some existing =>
    if existing.identityHash = entry.identityHash then some (pending.store entry) else none
  | none =>
    if pendingUploadMaxItems ≤ pending.rows.length ∨ pendingUploadMaxItemsPerIdentity ≤
        pending.rows.countP (fun e => e.identityHash == entry.identityHash) then none
    else some (pending.store entry)

/-- `take_for_identity`, on what is left of the entries. -/
def takeForIdentity (identityHash : Bytes) : PendingUploadTake PendingUpload × PendingUploads :=
  match pending.find? resourceId with
  | none => (.notFound, pending)
  | some entry =>
    if entry.identityHash = identityHash then (.found entry.upload, pending.remove resourceId)
    else (.identityMismatch, pending)

end PendingUploads

end Omen.Server
