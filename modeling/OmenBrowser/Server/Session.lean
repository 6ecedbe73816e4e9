import OmenBrowser.Lib.Text
import OmenBrowser.Protocol.ModerationAudit
import OmenBrowser.Server.DurableEffects
import OmenBrowser.Server.SessionEngine

/- The session engine's handlers up to where a peer is let in (`server/src/session.rs`).

   Every handler looks the peer's user up, which writes the user's row, and turns a banned
   user away before it does anything else that is stored. What a handler does for a user it
   has let in is `Serving`: the model of the live server needs no more of it than its type.

   Correspondence (Rust ↔ Lean):
     the store: users, rooms and what hangs on events ↔ `Database`; the other tables ↔ `τ`
     what is kept in memory (rates, pending uploads and resources) ↔ `ρ`
     `ensure_allowed_peer(..)? else`, `reject_if_banned`           ↔ `admitted`
     `body_string(..).filter(..)`, `body.len() > max_message_bytes` ↔ `messageBody`
     the readings of the clock                                     ↔ `SessionState.clock`
   There is one connection, so the store is never busy. The texts of a codec's errors are left
   out of the messages that quote them. -/
namespace Omen.Server
open Wire Sql Omen.Protocol

variable {τ ρ : Type} {α : Type}

structure SessionState (τ ρ : Type) where
  store : ReplayStore (Database × τ × ρ)
  clock : Nat → Int
  readings : Nat

abbrev Session (τ ρ : Type) := Act (SessionState τ ρ) ServerError

def currentUnixSeconds : Session τ ρ Int := fun s =>
  (.ok (s.clock s.readings), { s with readings := s.readings + 1 })

/-- A transaction on the tables; one that fails leaves them as they were. -/
def onStore (x : Txn (Database × τ × ρ) ServerError α) : Session τ ρ α := fun s =>
  match x s.store.rest with
  | .ok (a, rest) => (.ok a, { s with store := { s.store with rest } })
  | .error e => (.error e, s)

def inDatabase (x : Txn Database ServerError α) : Txn (Database × τ × ρ) ServerError α :=
  Txn.zoom Prod.fst (fun database t => (database, t.2)) x

def SessionState.database (s : SessionState τ ρ) : Database := s.store.rest.1

def SessionState.withDatabase (s : SessionState τ ρ) (database : Database) : SessionState τ ρ :=
  { s with store := { s.store with rest := (database, s.store.rest.2) } }

/-- A transaction on the database ends well and its tables are written, or it fails and nothing is. -/
theorem inDatabase_cases (x : Txn Database ServerError α) (s : SessionState τ ρ) :
    (∃ a database, x s.database = .ok (a, database) ∧
        onStore (inDatabase x) s = (.ok a, s.withDatabase database)) ∨
      ∃ e, x s.database = .error e ∧ onStore (inDatabase x) s = (.error e, s) := by
  unfold onStore inDatabase Txn.zoom SessionState.database
  cases x s.store.rest.1 with
  | error e => exact .inr ⟨e, rfl, rfl⟩
  | ok ended => exact .inl ⟨ended.1, ended.2, rfl, rfl⟩

/-! Users. -/

def statusBanned : UInt32 := 1
def roleModerator : Nat := 2
def roleAdmin : Nat := 4

def ServerUser.isBanned (user : ServerUser) : Bool := user.statusBits &&& statusBanned != 0

variable (peer : ServerPeer)

def ensurePeer : Session τ ρ ServerUser :=
  if peer.identityHash = [] then Act.throw (.message "peer identity hash is empty")
  else do
    let now ← currentUnixSeconds
    onStore (inDatabase (ensureUserOn peer now))

def ensureAllowedPeer : Session τ ρ (Option ServerUser) := do
  let user ← ensurePeer peer
  pure (if user.isBanned then none else some user)

/-- A handler goes on only for a user that is not banned. -/
def admitted (refusal : Frame) (serve : ServerUser → Session τ ρ (List Frame)) :
    Session τ ρ (List Frame) := do
  let user ← ensureAllowedPeer peer
  match user with
  | none => pure [refusal]
  | some user => serve user

/-! What a request says. -/

/-- `command.trim().split_once(char::is_whitespace)`, the first part in lower case. -/
def splitCommand (command : String) : String × String :=
  let cs := Text.trimChars command.toList
  (Text.toAsciiLowercase (String.ofList (cs.takeWhile (fun c => !Text.isWhitespace c))),
    String.ofList ((cs.dropWhile (fun c => !Text.isWhitespace c)).drop 1))

/-- A message that can be published, or what is wrong with it. -/
def messageBody (limits : SessionLimits) (empty tooLong : String) (body : FrameBody) :
    Except String String :=
  match bodyString body with
  | none => .error empty
  | some text =>
    if Text.trim text = "" then .error empty
    else if text.utf8ByteSize > limits.maxMessageBytes then .error tooLong
    else .ok text

def uploadRejectFrame (limits : SessionLimits) (seq : UInt32) (roomId : Option UInt32)
    (reason : String) (incomingBytes : UInt64) : Frame :=
  Frame.new .uploadReject seq roomId
    (.fields [.string reason, .u64 limits.uploadQuotaBytes, .u64 incomingBytes])

def bannedFrame (seq : UInt32) (roomId : Option UInt32) : Frame :=
  errorFrame seq roomId .permissionDenied "user is banned"

/-! Targets of moderation. -/

def identityHex (identityHash : Bytes) : List Char := identityHash.flatMap hexByte

/-- `resolve_active_peer_target`. -/
def resolveActivePeerTarget (peers : List ServerPeer) (target : String) : Option ServerPeer :=
  let cs := (Text.trimChars target.toList).dropWhile (· == '@')
  if cs.isEmpty then none
  else
    let lower := cs.map Char.toLower
    peers.find? fun peer => peer.displayName.toList.map Char.toLower == lower ||
      lower.isPrefixOf (identityHex peer.identityHash)

/-- Whom a command to kick or ban would disconnect: never the peer who gives it. -/
def moderationTargetOf (target : String) (active : List ServerPeer) :
    Session τ ρ (Option Bytes) := do
  let actor ← ensureAllowedPeer peer
  match actor with
  | none => pure none
  | some actor =>
    if actor.roleBits &&& (roleModerator ||| roleAdmin) = 0 then pure none
    else
      match resolveActivePeerTarget active target with
      | none => pure none
      | some targetPeer =>
        if targetPeer.identityHash = peer.identityHash then pure none
        else do
          let targetUser ← ensurePeer targetPeer
          pure (if targetUser.roleBits &&& roleAdmin ≠ 0 ∧ actor.roleBits &&& roleAdmin = 0 then none
            else some targetPeer.identityHash)

def moderationDisconnectTarget (frame : Frame) (active : List ServerPeer) :
    Session τ ρ (Option Bytes) :=
  if frame.op ≠ .command then pure none
  else
    match bodyString frame.body with
    | none => pure none
    | some command =>
      if (splitCommand command).1 = "kick" ∨ (splitCommand command).1 = "ban" then
        moderationTargetOf peer (splitCommand command).2 active
      else pure none

/-! The handlers. -/

/-- The page of the audit log a request asks for. -/
structure ModerationAuditRequest where
  beforeAuditId : Option UInt64
  limit : UInt16

def requestedCursor : FrameValue → Option (Option UInt64)
  | .nil => some none
  | .u64 value => if value = 0 then none else some (some value)
  | _ => none

def ModerationAuditRequest.fromFrameBody : FrameBody → Option ModerationAuditRequest
  | .fields [.string tag, beforeAuditId, .u64 limit] => do
    let beforeAuditId ← requestedCursor beforeAuditId
    if tag = "moderation-audit-v1" ∧ limit ≠ 0 ∧
        limit.toNat ≤ moderationAuditPageMaxEntries then
      some { beforeAuditId, limit := limit.toUInt16 }
    else none
  | _ => none

inductive PendingUploadTake (υ : Type) where
  | found (upload : υ)
  | notFound
  | identityMismatch

/-- An upload that was offered and accepted. -/
structure PendingUpload where
  roomId : UInt32
  userId : UserId
  filename : String
  contentType : Option String
  incomingBytes : UInt64

/-- What an attachment frame asks for, once the staging in memory is done with it. -/
inductive ChannelRequest where
  | done (result : Except ServerError (List Frame))
  | finish (resourceId : String) (totalBytes : UInt64)

/-- What the engine does beyond letting a peer in: its settings, what it reads of the rooms, the
parts of its handlers behind the lookup of the user, and what it keeps in memory. -/
structure Serving (τ ρ : Type) where
  features : EngineFeatures
  limits : SessionLimits
  /-- The room exists and is not archived. -/
  roomExists : UInt32 → Database × τ × ρ → Bool
  acceptFields : Database × τ × ρ → Except ServerError AcceptFields
  joinRoom : ServerUser → UInt32 → FrameBody → List ServerPeer → Bool → Session τ ρ (List Frame)
  partRoom : ServerUser → UInt32 → UInt32 → Session τ ρ (List Frame)
  roomText : ServerPeer → ServerUser → ChatOp → UInt32 → UInt32 → String → Session τ ρ (List Frame)
  historyBefore : ServerUser → UInt32 → UInt32 → FrameBody → Session τ ρ (List Frame)
  historyRecent : ServerUser → UInt32 → UInt32 → FrameBody → Session τ ρ (List Frame)
  moderationAuditBefore : ServerUser → UInt32 → UInt32 → ModerationAuditRequest →
    Session τ ρ (List Frame)
  uploadOffer : ServerPeer → ServerUser → UInt32 → UInt32 → FrameBody → Bool →
    Session τ ρ (List Frame)
  uploadFetch : ServerUser → UInt32 → UInt32 → String → Session τ ρ (List Frame)
  command : ServerPeer → UInt32 → Option UInt32 → FrameBody → List ServerPeer →
    Session τ ρ (List Frame)
  uploadResource : ServerPeer → ServerUser → String → PendingUpload → Bytes → Bool →
    Session τ ρ (List Frame)
  channelUpload : ServerPeer → ServerUser → String → PendingUpload → Bool →
    Session τ ρ (List Frame)
  takePendingUpload : String → Bytes → Int → ρ → PendingUploadTake PendingUpload × ρ
  stageChannelFrame : LinkId → ServerPeer → Bytes → List (LinkId × String) → Int → ρ →
    (ChannelRequest × StageChange) × ρ
  /-- An attachment frame that is not the last of its upload is answered with a rejection or with
  nothing. -/
  stage_rejects : ∀ linkId peer data stages now memory responses,
    (stageChannelFrame linkId peer data stages now memory).1.1 = .done (.ok responses) →
      ∀ response ∈ responses, response.op = .uploadReject

section Handlers
variable (serving : Serving τ ρ)

def memory (f : ρ → α × ρ) : Session τ ρ α := fun s =>
  let ended := f s.store.rest.2.2
  (.ok ended.1, { s with
    store := { s.store with rest := (s.store.rest.1, s.store.rest.2.1, ended.2) } })

/-- The checks of a room handler that come before the user is looked up. -/
def inRoom (roomId : Option UInt32) (missing : Frame) (unknown : UInt32 → Frame)
    (serve : UInt32 → Session τ ρ (List Frame)) : Session τ ρ (List Frame) := do
  match roomId with
  | none => pure [missing]
  | some roomId => do
    let found ← Act.read (fun s => serving.roomExists roomId s.store.rest)
    if found then serve roomId else pure [unknown roomId]

section
variable (peer : ServerPeer) (seq : UInt32)

def handleSessionOpen (body : FrameBody) : Session τ ρ (List Frame) :=
  admitted peer (bannedFrame seq none) fun _ =>
    match parseSessionOpenNegotiation body with
    | .error _ => pure [errorFrame seq none .durableMutationMalformed
        "invalid session capability negotiation"]
    | .ok negotiation => do
      let fields ← Act.read (fun s => serving.acceptFields s.store.rest)
      let fields ← Act.lift fields
      let response ← Act.lift (sessionAcceptBody fields (select serving.features negotiation))
      pure [Frame.new .sessionAccept seq none response]

def handleJoinRoom (body : FrameBody)
    (active : List ServerPeer) (coloured : Bool) : Session τ ρ (List Frame) :=
  admitted peer (bannedFrame seq none) fun user => serving.joinRoom user seq body active coloured

def handlePartRoom (roomId : Option UInt32) : Session τ ρ (List Frame) :=
  inRoom serving roomId (errorFrame seq none .roomNotFound "part has no room id")
    (fun roomId => errorFrame seq (some roomId) .roomNotFound "room not found") fun roomId =>
    admitted peer (bannedFrame seq (some roomId)) fun user => serving.partRoom user seq roomId

end

/-- `handle_room_text` and `handle_room_notice`, which differ in the texts before the lookup. -/
def handleRoomText (op : ChatOp) (noun : String) (peer : ServerPeer) (seq : UInt32)
    (roomId : Option UInt32) (body : FrameBody) : Session τ ρ (List Frame) :=
  inRoom serving roomId (errorFrame seq none .roomNotFound (noun ++ " has no room id"))
    (fun roomId => errorFrame seq (some roomId) .roomNotFound "room not found") fun roomId =>
    match messageBody serving.limits (noun ++ " body is empty") (noun ++ " body exceeds server limit")
        body with
    | .error text => pure [errorFrame seq (some roomId) .malformedFrame text]
    | .ok text =>
      admitted peer (bannedFrame seq (some roomId)) fun user =>
        serving.roomText peer user op seq roomId text

section
variable (peer : ServerPeer) (seq : UInt32) (roomId : Option UInt32) (body : FrameBody)

def handleHistoryBefore : Session τ ρ (List Frame) :=
  inRoom serving roomId (errorFrame seq none .roomNotFound "history request has no room id")
    (fun roomId => errorFrame seq (some roomId) .roomNotFound "room was not found") fun roomId =>
    admitted peer (bannedFrame seq (some roomId)) fun user =>
      serving.historyBefore user seq roomId body

def handleHistoryRecent : Session τ ρ (List Frame) :=
  inRoom serving roomId (errorFrame seq none .roomNotFound "recent history request has no room id")
    (fun roomId => errorFrame seq (some roomId) .roomNotFound "room was not found") fun roomId =>
    admitted peer (bannedFrame seq (some roomId)) fun user =>
      serving.historyRecent user seq roomId body

def handleModerationAuditBefore : Session τ ρ (List Frame) :=
  match roomId with
  | none => pure [errorFrame seq none .malformedFrame "moderation audit request requires a room"]
  | some roomId =>
    match ModerationAuditRequest.fromFrameBody body with
    | none => pure [errorFrame seq (some roomId) .malformedFrame "invalid moderation audit request"]
    | some request =>
      admitted peer (bannedFrame seq (some roomId)) fun user =>
        serving.moderationAuditBefore user seq roomId request

def handleUploadOffer (media : Bool) : Session τ ρ (List Frame) :=
  inRoom serving roomId (uploadRejectFrame serving.limits seq none "upload offer has no room id" 0)
    (fun roomId => uploadRejectFrame serving.limits seq (some roomId) "room not found" 0)
    fun roomId =>
    admitted peer (uploadRejectFrame serving.limits seq (some roomId) "user is banned" 0) fun user =>
      serving.uploadOffer peer user seq roomId body media

end

/-- The resource id of a request to fetch an upload. -/
def fetchedResource : FrameBody → Option String
  | .fields (.string value :: _) => if Text.trim value = "" then none else some (Text.trim value)
  | _ => none

section
variable (peer : ServerPeer)

def handleUploadFetch (seq : UInt32) (roomId : Option UInt32)
    (body : FrameBody) : Session τ ρ (List Frame) :=
  match roomId with
  | none => pure [errorFrame seq none .notJoined "upload fetch has no room id"]
  | some roomId =>
    match fetchedResource body with
    | none => pure [errorFrame seq (some roomId) .malformedFrame
        "upload fetch must include a resource id"]
    | some resourceId =>
      admitted peer (bannedFrame seq (some roomId)) fun user =>
        serving.uploadFetch user seq roomId resourceId

def handleCommand (seq : UInt32) (roomId : Option UInt32) (body : FrameBody)
    (active : List ServerPeer) : Session τ ρ (List Frame) :=
  admitted peer (bannedFrame seq roomId) fun _ => serving.command peer seq roomId body active

/-- `handle_frame_with_negotiated_features_and_nickname_colours`. -/
def handleFrame (frame : Frame) (active : List ServerPeer)
    (negotiated : NegotiatedFeatures) : Session τ ρ (List Frame) :=
  let unsupported : Session τ ρ (List Frame) :=
    pure [errorFrame frame.seq frame.roomId .malformedFrame "unsupported server op"]
  match frame.op with
  | .sessionOpen => handleSessionOpen serving peer frame.seq frame.body
  | .joinRoom => handleJoinRoom serving peer frame.seq frame.body active negotiated.nicknameColours
  | .partRoom => handlePartRoom serving peer frame.seq frame.roomId
  | .roomMessage => handleRoomText serving .roomMessage "message" peer frame.seq frame.roomId frame.body
  | .roomAction => handleRoomText serving .roomAction "message" peer frame.seq frame.roomId frame.body
  | .roomNotice => handleRoomText serving .roomNotice "notice" peer frame.seq frame.roomId frame.body
  | .historyBefore => handleHistoryBefore serving peer frame.seq frame.roomId frame.body
  | .historyRecent => handleHistoryRecent serving peer frame.seq frame.roomId frame.body
  | .moderationAuditBefore =>
    if serving.features.moderationAudit && negotiated.moderationAudit then
      handleModerationAuditBefore serving peer frame.seq frame.roomId frame.body
    else unsupported
  | .uploadOffer =>
    handleUploadOffer serving peer frame.seq frame.roomId frame.body negotiated.roomMediaPolicy
  | .uploadFetch => handleUploadFetch serving peer frame.seq frame.roomId frame.body
  | .command => handleCommand serving peer frame.seq frame.roomId frame.body active
  | .ping => pure [Frame.new .pong frame.seq frame.roomId .empty]
  | _ => unsupported

/-- The upload that was offered under this id, by this identity and of this size, or the
rejection. -/
def pendingUploadOf (resourceId : String) (incomingBytes : UInt64)
    (notFound mismatch wrongSize : String) : Session τ ρ (Except Frame PendingUpload) := do
  let now ← currentUnixSeconds
  let taken ← memory (serving.takePendingUpload resourceId peer.identityHash now)
  pure <| match taken with
    | .notFound => .error (uploadRejectFrame serving.limits 0 none notFound incomingBytes)
    | .identityMismatch => .error (uploadRejectFrame serving.limits 0 none mismatch incomingBytes)
    | .found upload =>
      if upload.incomingBytes = incomingBytes then .ok upload
      else .error (uploadRejectFrame serving.limits 0 (some upload.roomId) wrongSize incomingBytes)

def handleUploadResource (resourceId : String) (data : Bytes) (media : Bool) :
    Session τ ρ (List Frame) := do
  let pending ← pendingUploadOf serving peer resourceId (UInt64.ofNat data.length)
    "unknown or expired upload resource" "upload resource identity mismatch"
    "upload resource size mismatch"
  match pending with
  | .error rejection => pure [rejection]
  | .ok upload =>
    admitted peer (uploadRejectFrame serving.limits 0 (some upload.roomId) "user is banned"
      upload.incomingBytes) fun user => serving.uploadResource peer user resourceId upload data media

/-- `commit_channel_upload_stage`. -/
def commitChannelUploadStage (resourceId : String) (incomingBytes : UInt64)
    (media : Bool) : Session τ ρ (List Frame) := do
  let pending ← pendingUploadOf serving peer resourceId incomingBytes
    "unknown, expired, or mismatched Channel upload"
    "unknown, expired, or mismatched Channel upload" "Channel upload size mismatch"
  match pending with
  | .error rejection => pure [rejection]
  | .ok upload =>
    admitted peer (uploadRejectFrame serving.limits 0 (some upload.roomId) "user is banned"
      incomingBytes) fun user => serving.channelUpload peer user resourceId upload media

end

/-- `ChannelAttachmentFrame::decode` and `handle_channel_upload_frame`. -/
def handleChannelUpload (linkId : LinkId) (peer : ServerPeer) (data : Bytes) (media : Bool)
    (stages : List (LinkId × String)) (s : SessionState τ ρ) :
    (Except ServerError (List Frame) × StageChange) × SessionState τ ρ :=
  let staged := (do
    let now ← currentUnixSeconds
    memory (serving.stageChannelFrame linkId peer data stages now) : Session τ ρ _) s
  match staged with
  | (.error e, s) => ((.error e, .keep), s)
  | (.ok (.done result, change), s) => ((result, change), s)
  | (.ok (.finish resourceId totalBytes, change), s) =>
    let ended := commitChannelUploadStage serving peer resourceId totalBytes media s
    ((ended.1, change), ended.2)

end Handlers

end Omen.Server
