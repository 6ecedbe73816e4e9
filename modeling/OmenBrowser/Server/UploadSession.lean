import OmenBrowser.Server.UploadPublishing

/- Offers, uploads and Channel stages (`server/src/session.rs`).

   An offer that passes the policies and the plan waits under its resource id until the bytes
   arrive: as one resource, or over a Channel, where they are staged until the last frame and then
   published. Either way the policies are checked again, the file is published, and the room event
   that announces it is appended.

   Correspondence (Rust ↔ Lean):
     `reject_room_content_policy`, `reject_room_upload_policy`  ↔ `contentRejection`, `policyRejection`
     the closures given to the publication                      ↔ `plannerOf`, `UploadFileRow.of`
     the two `remove_evicted_upload_records` and their failure  ↔ `cleanLedger`
     `remove_link`                                              ↔ `discardChannelUploadsForLink` -/
namespace Omen.Server
open Wire Sql Ints Omen.Protocol Act

def statusMuted : UInt32 := 2
def roomPolicyAnnouncement : Nat := 1
def roomPublisherRoleMask : Nat := 2 ||| 4
def uploadFilenameMaxBytes : Nat := 255
def uploadContentTypeMaxBytes : Nat := 255

/-! Refusals. -/

def uploadReject (seq : UInt32) (roomId : Option UInt32) (reason : String)
    (quotaBytes incomingBytes : UInt64) : Frame :=
  Frame.new .uploadReject seq roomId (.fields [.string reason, .u64 quotaBytes, .u64 incomingBytes])

def roomUploadPolicyReject (seq roomId : UInt32) (reason : String)
    (quotaBytes incomingBytes code : UInt64) : Frame :=
  Frame.new .uploadReject seq (some roomId)
    (.fields [.string reason, .u64 quotaBytes, .u64 incomingBytes, .u64 code])

variable (s : UploadServer)

/-- `SELECT .. FROM rooms WHERE room_id = ?1 AND archived = 0`. -/
def UploadServer.room? (roomId : UInt32) : Option RoomUploadRow :=
  (s.rooms.find? roomId.toNat).filter (fun r => !r.archived)

def contentRejection (seq roomId : UInt32) (roleBits : Nat) (operation : String) :
    Option RoomUploadRow → Option Frame
  | none => some (errorFrame seq (some roomId) .roomNotFound "room not found")
  | some room =>
    if room.policyBits &&& roomPolicyAnnouncement ≠ 0 ∧ roleBits &&& roomPublisherRoleMask = 0 then
      some (errorFrame seq (some roomId) .roomPolicyRestricted (operation ++
        " is restricted to moderators and administrators in this announcement room"))
    else none

inductive EffectiveRoomUploadPolicy where
  | disabled
  | maximumFileBytes (bytes : UInt64)

/-- `EffectiveRoomUploadPolicy::resolve`, for a global ceiling within the protocol's. -/
def EffectiveRoomUploadPolicy.resolve (configured : Option UInt64) (globalMax : UInt64) :
    EffectiveRoomUploadPolicy :=
  match configured with
  | some roomMax => if roomMax = 0 then .disabled else .maximumFileBytes (min roomMax globalMax)
  | none => if globalMax = 0 then .disabled else .maximumFileBytes globalMax

def policyRejection (limits : UploadLimits) (seq roomId : UInt32) (incomingBytes : UInt64) :
    Option RoomUploadRow → Option Frame
  | none => some (uploadReject seq (some roomId) "room not found" limits.quotaBytes incomingBytes)
  | some room =>
    match EffectiveRoomUploadPolicy.resolve room.uploadMaxFileBytes limits.maxFileBytes with
    | .disabled => some (roomUploadPolicyReject seq roomId "uploads are disabled by room policy" 0
        incomingBytes 1)
    | .maximumFileBytes maxFileBytes =>
      if incomingBytes > maxFileBytes then
        some (roomUploadPolicyReject seq roomId "upload exceeds room file size limit" maxFileBytes
          incomingBytes 2)
      else none

section Handlers
variable (limits : UploadLimits) (faults : Faults) (readings : Readings)

def rejectRoomContentPolicy (seq roomId : UInt32) (roleBits : Nat) (operation : String) :
    Uploading (Option Frame) :=
  storeOp faults .contentPolicy
    (read (fun s => contentRejection seq roomId roleBits operation (s.room? roomId)))

def rejectRoomUploadPolicy (seq roomId : UInt32) (incomingBytes : UInt64) (media : Bool) :
    Uploading (Option Frame) :=
  if media then
    storeOp faults .uploadPolicy
      (read (fun s => policyRejection limits seq roomId incomingBytes (s.room? roomId)))
  else pure none

variable (peer : ServerPeer)

def ensureUploader : Uploading (Option ServerUser) :=
  if peer.identityHash = [] then throw (.message "peer identity hash is empty")
  else do
    let user ← storeOp faults .ensureUser (onLedger (ensureUserOn peer readings.seen))
    pure (if user.isBanned then none else some user)

variable (roomId : UInt32) (userId : UserId)

def roomHasMember : Uploading Bool :=
  storeOp faults .hasMember
    (read (fun s => (s.database.roomMembers.find? (roomId.toNat, (userId.toNat : Int))).isSome))

/-- What the publications plan with. -/
def plannerOf (actorUserId : UserId) (identity : Bytes) (incomingBytes : Nat) :
    Uploading UploadQuotaDecision := do
  let indexed ← planUploadFromIndex faults actorUserId identity incomingBytes
    limits.quotaBytes.toNat
  pure (planUploadWithIndex limits.quotaBytes.toNat incomingBytes indexed)

/-! Offers. -/

structure UploadOfferBody where
  filename : String
  incomingBytes : UInt64
  contentType : Option String

def frameValueU64 : FrameValue → Option UInt64
  | .u64 value => some value
  | .i64 value => if 0 ≤ value then some value.toInt.toNat.toUInt64 else none
  | _ => none

def uploadOfferBody : FrameBody → Option UploadOfferBody
  | .fields (name :: size :: rest) => do
    let filename ← frameValueString name
    let incomingBytes ← frameValueU64 size
    some { filename, incomingBytes
           contentType := rest.head?.bind frameValueString }
  | _ => none

/-- One round of FNV-1a. -/
def fnvMix (hash : UInt64) (value : UInt64) : UInt64 := (hash ^^^ value) * 0x100000001b3

variable (seq : UInt32)

def uploadResourceId (offer : UploadOfferBody) : String :=
  let named := (utf8 offer.filename).foldl (fun hash b => fnvMix hash b.toUInt64)
    0xcbf29ce484222325
  let typed := (offer.contentType.elim [] utf8).foldl (fun hash b => fnvMix hash b.toUInt64) named
  let hash := hex16 (fnvMix typed offer.incomingBytes)
  let room := roomId.toNat
  let user := userId.toNat
  let sequence := seq.toNat
  s!"upload:{room}:{user}:{sequence}:{hash}"

/-- What is wrong with an offer, before anything is looked up for it. -/
def offerRejection (seq roomId : UInt32) (offer : UploadOfferBody) : Option Frame :=
  if offer.filename.utf8ByteSize > uploadFilenameMaxBytes ∨
      offer.contentType.any (fun value => decide (value.utf8ByteSize > uploadContentTypeMaxBytes)) =
        true then
    some (uploadReject seq (some roomId) "upload metadata exceeds server limit" limits.quotaBytes
      offer.incomingBytes)
  else if offer.incomingBytes = 0 then
    some (uploadReject seq (some roomId) "upload offer byte length is empty" limits.quotaBytes 0)
  else if offer.incomingBytes > limits.maxFileBytes then
    some (uploadReject seq (some roomId) "upload exceeds server file size limit" limits.maxFileBytes
      offer.incomingBytes)
  else none

variable (user : ServerUser)

/-- An offer the plan accepted waits for its bytes. -/
def acceptOffer (seq roomId : UInt32) (offer : UploadOfferBody) (plan : UploadQuotaPlan)
    (reservation : Option RateReservation) :
    Uploading (List Frame) := do
  let resourceId := uploadResourceId roomId user.userId seq offer
  let entry : PendingUploadEntry :=
    { resourceId
      identityHash := peer.identityHash
      upload := { roomId, userId := user.userId, filename := offer.filename
                  contentType := offer.contentType, incomingBytes := offer.incomingBytes }
      acceptedAt := readings.unixSeconds }
  modify (fun s => { s with pending := s.pending.purgeExpired readings.unixSeconds })
  let admitted ← read (fun s => s.pending.admitEntry entry)
  match admitted with
  -- no room for the offer: the reservation is given back
  | none => do
    modify (fun s => { s with
      buckets := reservation.elim s.buckets (·.release s.buckets) })
    pure [uploadReject seq (some roomId) "too many pending upload offers" limits.quotaBytes
      offer.incomingBytes]
  | some pending => do
    modify (fun s => { s with pending })
    pure [Frame.new .uploadAccept seq (some roomId) (.fields [.string resourceId,
      .u64 limits.quotaBytes, .u64 offer.incomingBytes, .u64 (UInt64.ofNat plan.evict.length)])]

/-- The plan of an offer whose request was counted; a reservation is dropped with the offer. -/
def planOffer (seq roomId : UInt32) (offer : UploadOfferBody) (reservation : Option RateReservation)
    : Uploading (List Frame) := do
  let release : UploadServer → UploadServer := fun s =>
    { s with buckets := reservation.elim s.buckets (·.release s.buckets) }
  let decision ← (plannerOf limits faults user.userId peer.identityHash
    offer.incomingBytes.toNat).undoing release
  match decision with
  | .disabled => do
    modify release
    pure [uploadReject seq (some roomId) "uploads are disabled by server policy" limits.quotaBytes
      offer.incomingBytes]
  | .tooLarge quotaBytes incomingBytes => do
    modify release
    pure [uploadReject seq (some roomId) "upload exceeds server quota" (UInt64.ofNat quotaBytes)
      (UInt64.ofNat incomingBytes)]
  | .accepted plan => acceptOffer limits readings peer user seq roomId offer plan reservation

/-- The offer of a user who may publish in the room. -/
def offerIn (seq roomId : UInt32) (body : FrameBody) (media : Bool) : Uploading (List Frame) :=
  match uploadOfferBody body with
  | none => pure [uploadReject seq (some roomId) "upload offer must include filename and byte length"
      limits.quotaBytes 0]
  | some offer =>
    match offerRejection limits seq roomId offer with
    | some rejection => pure [rejection]
    | none => do
      let rejection ← rejectRoomUploadPolicy limits faults seq roomId offer.incomingBytes media
      match rejection with
      | some rejection => pure [rejection]
      | none =>
        if !limits.cacheAvailable then
          pure [uploadReject seq (some roomId) "upload cache is unavailable" limits.quotaBytes
            offer.incomingBytes]
        else do
          -- the rate is spent before the plan is made, and given back if nothing is accepted
          let reserved ← read (fun s => reserveRate limits.rateCommandsPerMinute
            (peer.identityHash, .command) readings.unixSeconds s.buckets)
          modify (fun s => { s with buckets := reserved.2 })
          match reserved.1 with
          | .rejected => pure [errorFrame seq (some roomId) .rateLimited
              "command rate limit exceeded"]
          | .admitted reservation =>
            planOffer limits faults readings peer user seq roomId offer reservation

/-- `handle_upload_offer`. -/
def handleOffer (roomId : Option UInt32) (body : FrameBody) (media : Bool) :
    Uploading (List Frame) :=
  let reject (reason : String) : Uploading (List Frame) :=
    pure [uploadReject seq roomId reason limits.quotaBytes 0]
  match roomId with
  | none => reject "upload offer has no room id"
  | some roomId => do
    let room ← storeOp faults .roomById (read (fun s => s.room? roomId))
    if room.isNone then reject "room not found"
    else do
      -- the user row is made before membership is asked for
      let user ← ensureUploader faults readings peer
      match user with
      | none => reject "user is banned"
      | some user =>
        if user.statusBits &&& statusMuted ≠ 0 then reject "user is muted"
        else do
          let member ← roomHasMember faults roomId user.userId
          if !member then reject "join the room before uploading"
          else do
            let rejection ← rejectRoomContentPolicy faults seq roomId user.roleBits
              "publishing uploads"
            match rejection with
            | some rejection => pure [rejection]
            | none => offerIn limits faults readings peer user seq roomId body media

/-! Publications. -/

/-- What a request about an upload ends with. -/
inductive UploadAnswer where
  | quiet
  | refused (frame : Frame)
  | published (resourceId : String) (upload : PendingUpload) (stored : StoredUpload)
      (event : ServerRoomEvent)

variable (resourceId : String) (upload : PendingUpload)

/-- The row a publication records. -/
def UploadFileRow.of (createdAt : Int) (stored : StoredUpload) : UploadFileRow :=
  { resourceId
    roomId := upload.roomId
    actorUserId := upload.userId
    filename := upload.filename
    contentType := upload.contentType
    byteLen := stored.bytes
    path := stored.path
    createdAt }

def takePendingUpload (peer : ServerPeer) :
    Uploading (PendingUploadTake PendingUpload) := fun s =>
  let taken := (s.pending.purgeExpired readings.unixSeconds).takeForIdentity resourceId
    peer.identityHash
  (.ok taken.1, { s with pending := taken.2 })

/-- The checks before a publication, the first of which that fails gives the refusal. -/
def checkPublisher (muted notMember : String) (peer : ServerPeer) (upload : PendingUpload)
    (media : Bool) : Uploading (Option Frame) :=
  let reject (reason : String) : Uploading (Option Frame) :=
    pure (some (uploadReject 0 (some upload.roomId) reason limits.quotaBytes upload.incomingBytes))
  do
  -- the same checks as for the offer, at the time of the publication
  let user ← ensureUploader faults readings peer
  match user with
  | none => reject "user is banned"
  | some user =>
    if user.statusBits &&& statusMuted ≠ 0 then reject muted
    else do
      let member ← roomHasMember faults upload.roomId user.userId
      if !member then reject notMember
      else do
        let content ← rejectRoomContentPolicy faults 0 upload.roomId user.roleBits
          "publishing uploads"
        match content with
        | some rejection => pure (some rejection)
        | none => do
          let policy ← rejectRoomUploadPolicy limits faults 0 upload.roomId upload.incomingBytes media
          match policy with
          | some rejection => pure (some rejection)
          | none => if !limits.cacheAvailable then reject "upload cache is unavailable" else pure none

/-- The rows of the evicted files go; where that fails the ledger is no longer trusted. -/
def cleanLedger (evicted : List UploadPath) :
    Uploading Unit := fun s =>
  match removeEvictedUploadRecords faults userId resourceId evicted s with
  | (.ok (), s') => (.ok (), s')
  | (.error _, s') => (.ok (), s'.invalidateUploadLedger userId)

variable (stored : StoredUpload)

def appendUploadEvent : Uploading ServerRoomEvent :=
  storeOp faults .appendEvent (onLedger (appendEventInTransaction upload.roomId.toNat
    (some upload.userId) (.upload resourceId upload.filename stored.bytes) limits.historyRetention
    readings.event))

/-- What follows a publication. -/
def announce :
    Uploading UploadAnswer := do
  cleanLedger faults upload.userId resourceId stored.evicted
  let event ← appendUploadEvent limits faults readings resourceId upload stored
  pure (.published resourceId upload stored event)

def recordOf : Uploading Unit :=
  recordUploadFile faults (UploadFileRow.of resourceId upload readings.recorded stored)

variable (data : Bytes)

/-- The publication of an upload that arrived as one resource. -/
def publishResource : Uploading StoredUpload :=
  storeUpload faults readings peer.identityHash upload.filename data
    (plannerOf limits faults upload.userId peer.identityHash) (recordOf faults readings resourceId
      upload)

variable (media : Bool)

/-- An upload that was offered, arrived whole, and may be published. -/
def admitResource :
    Uploading (Except Frame PendingUpload) := do
  let reject (roomId : Option UInt32) (reason : String) : Uploading (Except Frame PendingUpload) :=
    pure (.error (uploadReject 0 roomId reason limits.quotaBytes (UInt64.ofNat data.length)))
  let taken ← takePendingUpload readings resourceId peer
  match taken with
  | .notFound => reject none "unknown or expired upload resource"
  | .identityMismatch => reject none "upload resource identity mismatch"
  | .found upload =>
    if data.length ≠ upload.incomingBytes.toNat then
      reject (some upload.roomId) "upload resource size mismatch"
    else do
      let refusal ← checkPublisher limits faults readings "user is muted"
        "join the room before uploading" peer upload media
      pure (refusal.elim (.ok upload) .error)

def handleUploadResourceWithRoomMediaPolicy : Uploading UploadAnswer := do
  let admitted ← admitResource limits faults readings peer resourceId data media
  match admitted with
  | .error frame => pure (.refused frame)
  | .ok upload => do
    let stored ← publishResource limits faults readings peer resourceId upload data
    announce limits faults readings resourceId upload stored

/-! Channel uploads. -/

variable (stagedPath : UploadPath) (incomingBytes : UInt64)

/-- The publication of an upload that was staged. -/
def publishStage : Uploading StoredUpload :=
  commitStagedUpload faults readings peer.identityHash upload.filename stagedPath
    incomingBytes.toNat (plannerOf limits faults upload.userId peer.identityHash)
    (recordOf faults readings resourceId upload)

/-- A staged upload that was offered and may be published; one that is refused loses its file. -/
def admitStage (media : Bool) : Uploading (Except Frame PendingUpload) := do
  let reject (frame : Frame) : Uploading (Except Frame PendingUpload) := do
    modify (·.erase stagedPath)
    pure (.error frame)
  -- the offer is taken out of the store, also where it is refused below
  let taken ← takePendingUpload readings resourceId peer
  match taken with
  | .found upload =>
    if upload.incomingBytes ≠ incomingBytes then
      reject (uploadReject 0 (some upload.roomId) "Channel upload size mismatch" limits.quotaBytes
        incomingBytes)
    else do
      let refusal ← checkPublisher limits faults readings
        "upload publisher is no longer allowed in the room"
        "upload publisher is no longer allowed in the room" peer upload media
      match refusal with
      | some frame => reject frame
      | none => pure (.ok upload)
  | _ =>
    reject (uploadReject 0 none "unknown, expired, or mismatched Channel upload" limits.quotaBytes
      incomingBytes)

/-- `commit_channel_upload_stage`. -/
def commitChannelStage (media : Bool) : Uploading UploadAnswer := do
  let admitted ← admitStage limits faults readings peer resourceId stagedPath incomingBytes media
  match admitted with
  | .error frame => pure (.refused frame)
  | .ok upload => do
    let stored ← publishStage limits faults readings peer resourceId upload stagedPath incomingBytes
    announce limits faults readings resourceId upload stored

variable (linkId : LinkId)

def startChannelUpload (peer : ServerPeer) (resourceId : String) (totalBytes : UInt64) :
    Uploading UploadAnswer := do
  let reject (roomId : Option UInt32) (reason : String) : Uploading UploadAnswer :=
    pure (.refused (uploadReject 0 roomId reason limits.quotaBytes totalBytes))
  modify (fun s => { s with pending := s.pending.purgeExpired readings.unixSeconds })
  let s ← read id
  match s.pending.getForIdentity resourceId peer.identityHash with
  | none => reject none "unknown or expired Channel upload"
  | some pending =>
    if pending.incomingBytes ≠ totalBytes ∨ totalBytes = 0 ∨ totalBytes > limits.maxFileBytes then
      reject (some pending.roomId) "Channel upload size mismatch"
    else if !limits.cacheAvailable then reject (some pending.roomId) "upload cache is unavailable"
    -- a repeated start leaves the stage that is open
    else if (s.stages.find? (linkId, resourceId)).isSome then pure .quiet
    else if s.stages.rows.length ≥ channelUploadMaxItems ∨
        s.stages.rows.countP (fun stage => stage.key.1 == linkId) ≥ channelUploadMaxItemsPerLink then
      reject (some pending.roomId) "too many active Channel uploads"
    else do
      let path ← createChannelUploadStage faults peer.identityHash
      let stage : ChannelUploadStage :=
        { key := (linkId, resourceId), identityHash := peer.identityHash, path
          expectedBytes := totalBytes, writtenBytes := 0, hashed := [] }
      modify (fun s => { s with stages := s.stages.insertOrIgnore stage })
      pure .quiet

def UploadServer.removeStage (s : UploadServer) (key : LinkId × String) : UploadServer :=
  { s with stages := s.stages.deleteWhere (fun stage => stage.key == key) }

/-- The stage with these bytes written to it. -/
def ChannelUploadStage.advance (stage : ChannelUploadStage) (bytes : Bytes) : ChannelUploadStage :=
  { stage with
    writtenBytes := stage.writtenBytes + UInt64.ofNat bytes.length
    hashed := stage.hashed ++ bytes }

def dataChannelUpload (peer : ServerPeer) (resourceId : String) (offset : UInt64) (bytes : Bytes) :
    Uploading UploadAnswer :=
  if bytes = [] then throw (.message "empty Channel upload data frame")
  else do
    let found ← read (fun s => s.stages.find? (linkId, resourceId))
    match found with
    | none => throw (.message "Channel upload data arrived without an accepted start")
    | some stage =>
      if stage.identityHash ≠ peer.identityHash ∨ offset ≠ stage.writtenBytes ∨
          offset.toNat + bytes.length > stage.expectedBytes.toNat then do
        modify (fun s => (s.removeStage (linkId, resourceId)).erase stage.path)
        throw (.message "Channel upload ownership, offset, or length mismatch")
      else do
        onDisk (Disk.append .io (faults.file (.write stage.path)) faults.written stage.path bytes)
        modify (fun s => { s with
          stages := s.stages.updateWhere (fun t => t.key == (linkId, resourceId))
            (·.advance bytes) (fun _ => rfl) })
        pure .quiet

def finishChannelUpload (peer : ServerPeer) (resourceId : String) (totalBytes : UInt64)
    (digest : AttachmentDigest) (media : Bool) : Uploading UploadAnswer := do
  let found ← read (fun s => s.stages.find? (linkId, resourceId))
  match found with
  | none => throw (.message "Channel upload finish arrived without an active stage")
  | some stage => do
    modify (fun s => s.removeStage (linkId, resourceId))
    if stage.identityHash ≠ peer.identityHash ∨ stage.expectedBytes ≠ totalBytes ∨
        stage.writtenBytes ≠ totalBytes ∨ limits.sha256 stage.hashed ≠ digest then do
      modify (fun s => s.erase stage.path)
      pure (.refused (uploadReject 0 none "Channel upload digest or length mismatch"
        limits.quotaBytes stage.writtenBytes))
    else do
      onDisk (Disk.sync .io (faults.file (.flush stage.path)))
      onDisk (Disk.sync .io (faults.file (.syncFile stage.path)))
      commitChannelStage limits faults readings peer resourceId stage.path totalBytes media

def cancelChannelUpload (resourceId : String) : Uploading UploadAnswer := do
  let found ← read (fun s => s.stages.find? (linkId, resourceId))
  match found with
  | none => pure .quiet
  | some stage => do
    modify (fun s => (s.removeStage (linkId, resourceId)).erase stage.path)
    pure .quiet

def handleChannelUploadFrame (peer : ServerPeer) (frame : ChannelAttachmentFrame) (media : Bool) :
    Uploading UploadAnswer :=
  match frame with
  | .start resourceId totalBytes =>
    startChannelUpload limits faults readings linkId peer resourceId totalBytes
  | .data resourceId offset bytes => dataChannelUpload faults linkId peer resourceId offset bytes
  | .finish resourceId totalBytes digest =>
    finishChannelUpload limits faults readings linkId peer resourceId totalBytes digest media
  | .cancel resourceId => cancelChannelUpload linkId resourceId

end Handlers

/-- The stages of a link that was closed go, with their files. -/
def UploadServer.discardChannelUploadsForLink (linkId : LinkId) : UploadServer :=
  let gone := s.stages.rows.filter (fun stage => stage.key.1 == linkId)
  { s with
    stages := s.stages.deleteWhere (fun stage => stage.key.1 == linkId)
    disk := s.disk.deleteWhere (fun f => gone.any (fun stage => stage.path == f.path)) }

end Omen.Server
