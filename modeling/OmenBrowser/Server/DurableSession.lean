import OmenBrowser.Server.ProjectionSnapshots
import OmenBrowser.Server.Session

/- The durable mutations of the session engine, and the engine as the live server sees it
   (`server/src/session.rs`).

   A durable mutation is checked, and then committed together with its result under the key of
   the request. The callback of the commit looks the user up in the transaction; every handler
   but the one for nickname colours turns a banned user away there. What a callback does for a
   user it has let in is `DurableServing`. A result that is already stored is answered again,
   with the sequence number of the new request, and nothing is published.

   Correspondence (Rust ↔ Lean):
     the checks before the commit             ↔ `DurableServing.checks`, `checkRequest`
     `ensure_durable_room_user`, `STATUS_BANNED` in a callback ↔ `admittedInRoom`, `admittedUser`
     the `match commit { .. }` of each handler ↔ `effectDispatch`, `roomEventDispatch`
     the reservations of a callback           ↔ what it leaves in `ρ`: one that is dropped is not made -/
namespace Omen.Server
open Wire Sql Omen.Protocol

variable {τ ρ : Type} {α ε : Type}

/-! Nickname colours. -/

def rgb24Max : UInt64 := 0x00ffffff

def colourValue : Option Nat → FrameValue
  | some colour => .u64 (UInt64.ofNat colour)
  | none => .nil

/-- `NicknameColourSet::from_frame_body`. -/
def nicknameColourSet : FrameBody → Option (Option Nat)
  | .fields [.nil] => some none
  | .fields [.u64 value] => if value ≤ rgb24Max then some (some value.toNat) else none
  | _ => none

def nicknameColourAck (mutationId : MutationId) (user : ServerUser) : FrameBody :=
  .fields [.bytes mutationId.bytes, .u64 (UInt64.ofNat user.profileRevision),
    colourValue user.nicknameColourRgb]

def nicknameColourEvent (user : ServerUser) : Except ServerError FrameBody :=
  if user.userId = 0 then .error (.message "nickname colour event encode failed")
  else .ok (.fields [.u64 user.userId.toUInt64, .u64 (UInt64.ofNat user.profileRevision),
    colourValue user.nicknameColourRgb])

variable (userId : UserId) (colour : Option Nat)

/-- The row this user has, with another colour. -/
def UserRow.recolours (r : UserRow) : Bool :=
  r.userId == (userId.toNat : Int) && r.nicknameColourRgb != colour

/-- `UPDATE users SET nickname_colour_rgb = ?2 .. WHERE .. nickname_colour_rgb IS NOT ?2`. -/
def Database.setNicknameColour (db : Database) (userId : UserId) (colour : Option Nat) : Database :=
  { db with
    users := db.users.updateWhere (UserRow.recolours userId colour)
      (fun r => { r with nicknameColourRgb := colour, profileRevision := r.profileRevision + 1 })
      (fun _ => rfl) (fun _ => rfl) }

/-- `set_durable_nickname_colour`: the user, and whether the colour is another. -/
def setDurableNicknameColour :
    Txn Database ServerError (ServerUser × Bool) := do
  let changed ← Txn.query (fun db : Database => db.users.rows.any (UserRow.recolours userId colour))
  Txn.execute (fun db : Database => db.setNicknameColour userId colour)
  let row ← Txn.query (fun db : Database =>
    db.users.rows.find? (fun r => r.userId == (userId.toNat : Int)))
  match row with
  | some r => pure (r.toUser, changed)
  | none => fail "user was not found"

/-! What the callbacks are made of. -/

structure DurableCommandEffect where
  broadcasts : List Frame
  disconnectIdentity : Option Bytes

/-- A durable mutation that was asked for. -/
structure DurableRequest where
  peer : ServerPeer
  activeRoomPeers : List ServerPeer
  seq : UInt32
  roomId : Option UInt32
  op : ChatOp
  noticeAck : Bool
  replyMentions : Bool
  envelope : DurableMutationEnvelope

/-- The checks of the requests before their commit, the parts of the callbacks behind the lookup of
the user, and how events are written. -/
structure DurableServing (τ ρ : Type) where
  rmpv : Rmpv
  sha256 : Bytes → RequestHash
  historyRetention : RoomHistoryRetentionPolicy
  /-- The checks of a request beyond its room and its hash. -/
  checks : DurableRequest → Except (ChatErrorCode × String) Unit
  eventToValue : ServerRoomEvent → Except ServerError FrameValue
  roomText : DurableRequest → UInt32 → ServerUser →
    Txn (Database × τ × ρ) ServerError (DurableRoomEventPlan Unit)
  textResult : DurableRequest → ServerRoomEvent → Except ServerError Bytes
  partRoom : DurableRequest → UInt32 → ServerUser →
    Txn (Database × τ × ρ) ServerError (DurableRoomEventPlan Unit)
  /-- Reactions, revisions of messages, and pins. -/
  projection : DurableRequest → UInt32 → ServerUser →
    Txn (Database × τ × ρ) ServerError (DurableMutationEffectPlan (Option Frame))
  command : DurableRequest → ServerUser →
    Txn (Database × τ × ρ) ServerError (DurableMutationEffectPlan DurableCommandEffect)
  reserveColourRate : ServerPeer → ρ → Bool × ρ
  /-- A command does not disconnect the peer who gives it. -/
  command_target : ∀ request user tables plan tables' identityHash,
    command request user tables = .ok (plan, tables') →
      (∀ result effect, plan = .effect result effect →
        effect.disconnectIdentity = some identityHash → identityHash ≠ request.peer.identityHash)

section Durable
variable (serving : Serving τ ρ) (durable : DurableServing τ ρ)

/-- `encode_durable_result`. -/
def encodeDurableResult (frame : Frame) : Except ServerError Bytes :=
  (encodeFrame durable.rmpv frame).mapError
    (fun _ => .message "durable origin response encode failed")

def decodeDurableResult (bytes : Bytes) : Except ServerError Frame :=
  (decodeFrame durable.rmpv bytes).mapError
    (fun _ => .message "stored durable origin response is invalid")

def decodeDurableReplayResult (bytes : Bytes) (seq : UInt32) : Except ServerError Frame :=
  (decodeDurableResult durable bytes).map (fun frame => { frame with seq })

variable (peer : ServerPeer)

/-- The user in the transaction, unless banned. -/
def admittedUser (now : Int) (refusal : Txn (Database × τ × ρ) ServerError α)
    (serve : ServerUser → Txn (Database × τ × ρ) ServerError α) :
    Txn (Database × τ × ρ) ServerError α := do
  let user ← inDatabase (ensureUserOn peer now)
  if user.isBanned then refusal else serve user

/-- The user of a room in the transaction, unless the room is gone or the user banned. -/
def admittedInRoom (now : Int) (seq roomId : UInt32) (respond : Bytes → α)
    (serve : ServerUser → Txn (Database × τ × ρ) ServerError α) :
    Txn (Database × τ × ρ) ServerError α := do
  let found ← Txn.query (serving.roomExists roomId)
  if found then
    admittedUser peer now
      (Txn.lift ((encodeDurableResult durable (bannedFrame seq (some roomId))).map respond)) serve
  else
    Txn.lift ((encodeDurableResult durable
      (errorFrame seq (some roomId) .roomNotFound "room not found")).map respond)

/-! The dispatch of a commit. -/

variable (seq : UInt32) (roomId : Option UInt32)

def conflictDispatch : DurableMutationDispatch :=
  durableErrorDispatch seq roomId .durableMutationConflict
    "durable mutation id was reused with different content"

def expiredDispatch : DurableMutationDispatch :=
  durableErrorDispatch seq roomId .durableMutationResultExpired
    "durable client instance has expired replay state"

/-- A result with what is published beside it. -/
def resultDispatch (origin : Except ServerError Frame) (broadcasts : Except ServerError (List Frame))
    (disconnectIdentity : Option Bytes) (pruned : Nat) :
    Except ServerError DurableMutationDispatch := do
  let origin ← origin
  let broadcasts ← broadcasts
  pure { origin, broadcasts, disconnectIdentity, pruned }

def effectDispatch (publish : ε → DurableCommandEffect) :
    DurableMutationEffectCommit ε → Except ServerError DurableMutationDispatch
  | .stored resultFrame effect pruned =>
    resultDispatch (decodeDurableResult durable resultFrame) (.ok (publish effect).broadcasts)
      (publish effect).disconnectIdentity pruned
  | .storedResponse resultFrame pruned =>
    resultDispatch (decodeDurableResult durable resultFrame) (.ok []) none pruned
  | .replayed resultFrame =>
    resultDispatch (decodeDurableReplayResult durable resultFrame seq) (.ok []) none 0
  | .conflict => .ok (conflictDispatch seq roomId)
  | .expired => .ok (expiredDispatch seq roomId)

/-- What is published of a room event. -/
def eventBroadcasts (seq roomId : UInt32) (event : ServerRoomEvent) :
    Except ServerError (List Frame) :=
  (durable.eventToValue event).map (fun value =>
    [Frame.new .roomEvent seq (some roomId) (.fields [value])])

def roomEventDispatch (seq roomId : UInt32) :
    DurableRoomEventCommit α → Except ServerError DurableMutationDispatch
  | .stored resultFrame event _ pruned =>
    resultDispatch (decodeDurableResult durable resultFrame)
      (eventBroadcasts durable seq roomId event) none pruned
  | .storedResponse resultFrame pruned =>
    resultDispatch (decodeDurableResult durable resultFrame) (.ok []) none pruned
  | .replayed resultFrame =>
    resultDispatch (decodeDurableReplayResult durable resultFrame seq) (.ok []) none 0
  | .conflict => .ok (conflictDispatch seq (some roomId))
  | .expired => .ok (expiredDispatch seq (some roomId))

/-! The handlers. -/

variable (request : DurableRequest) (clientInstanceId : ClientInstanceId)

def DurableRequest.key : DurableMutationKey :=
  { identityHash := request.peer.identityHash
    clientInstanceId
    mutationId := request.envelope.mutationId }

/-- The hash and the body of a request, or the dispatch that says what is wrong with them. -/
def checkRequest (tooLarge mismatch : String) : Except DurableMutationDispatch Unit :=
  let malformed := durableErrorDispatch request.seq request.roomId .durableMutationMalformed
  match canonicalMutationRequestHash durable.sha256 request.op request.roomId request.envelope.body with
  | .error _ => .error (malformed tooLarge)
  | .ok hash =>
    if hash = request.envelope.requestHash then
      (durable.checks request).mapError (fun e =>
        durableErrorDispatch request.seq request.roomId e.1 e.2)
    else .error (malformed mismatch)

def commitEffect (prepare : Int → Txn (Database × τ × ρ) ServerError (DurableMutationEffectPlan ε)) :
    Session τ ρ (DurableMutationEffectCommit ε) := do
  let now ← currentUnixSeconds
  let seenAt ← currentUnixSeconds
  fun s =>
    let ended := commitDurableMutationEffectResult durable.rmpv (request.key clientInstanceId)
      request.envelope.requestHash now (prepare seenAt) s.store
    (ended.1, { s with store := ended.2 })

def commitRoomEvent (roomId : UInt32) (clientInstanceId : ClientInstanceId)
    (prepare : Int → Txn (Database × τ × ρ) ServerError (DurableRoomEventPlan α))
    (encodeResult : ServerRoomEvent → Except ServerError Bytes) :
    Session τ ρ (DurableRoomEventCommit α) := do
  let now ← currentUnixSeconds
  let seenAt ← currentUnixSeconds
  let appended ← currentUnixSeconds
  let enforced ← currentUnixSeconds
  let compacted ← currentUnixSeconds
  fun s =>
    let ended := commitDurableRoomEventResult roomId.toNat durable.historyRetention
      ⟨appended, enforced, compacted⟩ (prepare seenAt) encodeResult durable.rmpv
      (request.key clientInstanceId) request.envelope.requestHash now s.store
    (ended.1, { s with store := ended.2 })

/-- A request for a room, checked. -/
def inDurableRoom (missing tooLarge mismatch : String)
    (run : UInt32 → Session τ ρ DurableMutationDispatch) : Session τ ρ DurableMutationDispatch :=
  match request.roomId with
  | none => pure (durableErrorDispatch request.seq none .durableMutationMalformed missing)
  | some roomId =>
    match checkRequest durable request tooLarge mismatch with
    | .error dispatch => pure dispatch
    | .ok () => run roomId

def handleDurableRoomText : Session τ ρ DurableMutationDispatch :=
  inDurableRoom durable request "durable room operation has no room id"
    "durable request body exceeds canonical bounds"
    "durable request hash does not match its canonical body" fun roomId => do
    let commit ← commitRoomEvent durable request roomId clientInstanceId
      (fun seenAt => admittedInRoom serving durable request.peer seenAt request.seq roomId .response
        (durable.roomText request roomId)) (durable.textResult request)
    Act.lift (roomEventDispatch durable request.seq roomId commit)

def handleDurablePartRoom : Session τ ρ DurableMutationDispatch :=
  inDurableRoom durable request "durable part has no room id"
    "durable request body exceeds canonical bounds" "durable part request is malformed" fun roomId => do
    let commit ← commitRoomEvent durable request roomId clientInstanceId
      (fun seenAt => admittedInRoom serving durable request.peer seenAt request.seq roomId .response
        (durable.partRoom request roomId))
      (fun _ => .error (.message
        "durable part unexpectedly requested event-derived result encoding"))
    Act.lift (roomEventDispatch durable request.seq roomId commit)

/-- `handle_durable_reaction`, `handle_durable_message_revision` and `handle_durable_pin`. -/
def handleDurableProjection (missing noun : String) (request : DurableRequest)
    (clientInstanceId : ClientInstanceId) : Session τ ρ DurableMutationDispatch :=
  inDurableRoom durable request missing
    (noun ++ " body exceeds canonical bounds") (noun ++ " hash does not match its canonical body")
    fun roomId => do
    let commit ← commitEffect durable request clientInstanceId
      (fun seenAt => admittedInRoom serving durable request.peer seenAt request.seq roomId .response
        (durable.projection request roomId))
    Act.lift (effectDispatch durable request.seq (some roomId) (fun broadcast =>
      { broadcasts := broadcast.toList, disconnectIdentity := none }) commit)

def handleDurableCommand : Session τ ρ DurableMutationDispatch :=
  match checkRequest durable request "durable command body exceeds canonical bounds"
      "durable command hash does not match its canonical body" with
  | .error dispatch => pure dispatch
  | .ok () => do
    let commit ← commitEffect durable request clientInstanceId
      (fun seenAt => admittedUser request.peer seenAt
        (Txn.lift ((encodeDurableResult durable (bannedFrame request.seq request.roomId)).map .response))
        (durable.command request))
    Act.lift (effectDispatch durable request.seq request.roomId id commit)

/-- A colour that is accepted, with the news of it when it is another. -/
def colourPlan (colour : Option Nat) (user : ServerUser) :
    Txn (Database × τ × ρ) ServerError (DurableMutationEffectPlan (Option Frame)) := do
  let admission ← Txn.query (fun t : Database × τ × ρ => durable.reserveColourRate request.peer t.2.2)
  if admission.1 then
    Txn.execute (fun t : Database × τ × ρ => (t.1, t.2.1, admission.2))
    let (user, changed) ← inDatabase (setDurableNicknameColour user.userId colour)
    let broadcast ← Txn.lift (if changed then
      (nicknameColourEvent user).map (fun body =>
        some (Frame.new .nicknameColourEvent request.seq none body)) else .ok none)
    let result ← Txn.lift (encodeDurableResult durable (Frame.new .nicknameColourAck request.seq none
      (nicknameColourAck request.envelope.mutationId user)))
    pure (.effect result broadcast)
  else
    Txn.lift ((encodeDurableResult durable (errorFrame request.seq none .rateLimited
      "nickname colour rate limit exceeded")).map .response)

/-- This handler looks the user up and does not ask whether the user is banned. -/
def handleDurableNicknameColour (envelope : DurableMutationEnvelope) :
    Session τ ρ DurableMutationDispatch :=
  let request : DurableRequest :=
    { peer, activeRoomPeers := [], seq, roomId := none, op := .nicknameColourSet
      noticeAck := false, replyMentions := false, envelope }
  match canonicalMutationRequestHash durable.sha256 .nicknameColourSet none envelope.body with
  | .error _ => pure (durableErrorDispatch seq none .durableMutationMalformed
      "nickname colour body exceeds canonical bounds")
  | .ok hash =>
    if hash = envelope.requestHash then
      match nicknameColourSet envelope.body with
      | none => pure (durableErrorDispatch seq none .durableMutationMalformed
          "nickname colour request is malformed")
      | some colour => do
        let commit ← commitEffect durable request clientInstanceId (fun seenAt => do
          let user ← inDatabase (ensureUserOn peer seenAt)
          colourPlan durable request colour user)
        Act.lift (effectDispatch durable seq none (fun broadcast =>
          { broadcasts := broadcast.toList, disconnectIdentity := none }) commit)
    else
      pure (durableErrorDispatch seq none .durableMutationMalformed
        "nickname colour hash does not match its canonical body")

def handleDurableMutationWithActivePeers (peers : DurableMutationPeerContext) (seq : UInt32)
    (roomId : Option UInt32) (op : ChatOp) (clientInstanceId : ClientInstanceId)
    (envelope : DurableMutationEnvelope) : Session τ ρ DurableMutationDispatch :=
  let request : DurableRequest :=
    { peer := peers.peer, activeRoomPeers := peers.activeRoomPeers, seq, roomId
      op, noticeAck := peers.durableNoticeAck, replyMentions := peers.replyMentions
      envelope }
  let notNegotiated (what : String) : Session τ ρ DurableMutationDispatch :=
    pure (durableErrorDispatch seq roomId .durableMutationNotNegotiated
      (what ++ " were not negotiated for this link"))
  match op with
  | .roomMessage | .roomAction | .roomNotice =>
    handleDurableRoomText serving durable request clientInstanceId
  | .partRoom => handleDurablePartRoom serving durable request clientInstanceId
  | .command => handleDurableCommand durable request clientInstanceId
  -- the projections ask what this link negotiated, the texts and the part do not
  | .roomReaction =>
    if peers.reactions then
      handleDurableProjection serving durable "durable reaction has no room id" "durable reaction"
        request clientInstanceId
    else notNegotiated "reactions"
  | .roomMessageRevision =>
    if peers.messageRevisions then
      handleDurableProjection serving durable "durable message revision has no room id"
        "durable message revision" request clientInstanceId
    else notNegotiated "message revisions"
  | .roomPin =>
    if peers.pins then
      handleDurableProjection serving durable "durable pin mutation has no room id" "durable pin"
        request clientInstanceId
    else notNegotiated "room pins"
  | _ => pure (durableErrorDispatch seq roomId .durableMutationMalformed
      "durable room operation is unsupported")

end Durable

/-! The engine. -/

/-- What the engine tells the live server beside its answers. -/
structure Publishing (τ ρ : Type) where
  /-- `batch_op` and `batch_body` of a snapshot's values: in the frame, or as a resource. -/
  snapshotFrame : SnapshotKind → UInt32 → UInt32 → FrameBody → Session τ ρ Frame
  roomIdsForIdentity : Bytes → Database × τ × ρ → Except ServerError (List UInt32)
  activeUserlistFrame : UInt32 → List ServerPeer → Bool → Session τ ρ Frame
  shapeUserDelta : Frame → Database × τ × ρ → Except ServerError Frame
  shapeRoomFrame : Frame → RoomCatalogShape → Database × τ × ρ → Except ServerError Frame
  resourcePayload : String → ρ → Option Bytes
  takeResourcePayload : String → ρ → ρ
  discardPendingUploadsForIdentity : Bytes → ρ → ρ
  discardUniquePendingUploadForFailure : Bytes → UInt64 → ρ → ρ

def SessionState.mapMemory (f : ρ → ρ) (s : SessionState τ ρ) : SessionState τ ρ :=
  { s with store := { s.store with rest := (s.store.rest.1, s.store.rest.2.1, f s.store.rest.2.2) } }

/-- A snapshot over the latest events of the room, from the store to its frame. -/
def recentSnapshot (publishing : Publishing τ ρ) (kind : SnapshotKind) (seq roomId : UInt32)
    (limit : Nat) : Session τ ρ Frame := do
  let targets ← Act.read (fun s => recentTargets kind s.store.rest.1 roomId.toNat limit)
  let targets ← Act.lift targets
  let body ← Act.read (fun s => snapshotBody kind s.store.rest.1 roomId.toNat targets)
  let body ← Act.lift body
  publishing.snapshotFrame kind seq roomId body

/-- The engine `server/src/session.rs` is. -/
def sessionEngine (serving : Serving τ ρ) (durable : DurableServing τ ρ)
    (publishing : Publishing τ ρ) : SessionEngine (SessionState τ ρ) where
  limits := serving.limits
  handleFrame := handleFrame serving
  localUserId := fun peer => do
    let user ← ensurePeer peer
    pure user.userId
  recentSnapshot := recentSnapshot publishing
  moderationDisconnectTargetForFrame := moderationDisconnectTarget
  handleDurableNicknameColour := handleDurableNicknameColour durable
  handleDurableMutationWithActivePeers := handleDurableMutationWithActivePeers serving durable
  roomIdsForIdentity := fun identityHash s => publishing.roomIdsForIdentity identityHash s.store.rest
  activeUserlistFrame := publishing.activeUserlistFrame
  shapeUserDelta := fun frame s => publishing.shapeUserDelta frame s.store.rest
  shapeRoomFrame := fun frame shape s => publishing.shapeRoomFrame frame shape s.store.rest
  resourcePayload := fun resourceId s => publishing.resourcePayload resourceId s.store.rest.2.2
  takeResourcePayload := fun resourceId s => s.mapMemory (publishing.takeResourcePayload resourceId)
  channelUpload := handleChannelUpload serving
  handleUploadResource := handleUploadResource serving
  discardPendingUploadsForIdentity := fun identityHash s =>
    s.mapMemory (publishing.discardPendingUploadsForIdentity identityHash)
  discardUniquePendingUploadForFailure := fun identityHash size s =>
    s.mapMemory (publishing.discardUniquePendingUploadForFailure identityHash size)

/-! Handlers that have nothing for their peers, for runs on given inputs. -/

def Serving.bare : Serving τ ρ where
  features := ⟨true, true, true, true⟩
  limits := ⟨50, 50, 4096, 1048576⟩
  roomExists := fun roomId _ => roomId == 1
  acceptFields := fun _ => .ok ⟨[], none, 1048576, 30, 1048576⟩
  joinRoom := fun _ seq _ _ _ => pure [Frame.new .joinAccept seq (some 1) (.fields [.nil])]
  partRoom := fun _ seq roomId =>
    pure [Frame.new .commandResult seq (some roomId) (.fields [.string "part"])]
  roomText := fun _ _ _ seq roomId _ =>
    pure [errorFrame seq (some roomId) .rateLimited "message rate limit exceeded"]
  historyBefore := fun _ seq roomId _ => pure [Frame.new .historyEnd seq (some roomId) .empty]
  historyRecent := fun _ seq roomId _ =>
    pure [Frame.new .historyCurrent seq (some roomId) (.fields [.u64 0, .u64 0, .u64 0, .u64 0])]
  moderationAuditBefore := fun _ seq roomId _ =>
    pure [errorFrame seq (some roomId) .permissionDenied
      "moderation audit requires moderator or administrator role"]
  uploadOffer := fun _ _ seq roomId _ _ =>
    pure [uploadRejectFrame ⟨50, 50, 4096, 1048576⟩ seq (some roomId) "upload offer is malformed" 0]
  uploadFetch := fun _ seq roomId _ =>
    pure [errorFrame seq (some roomId) .resourceUnavailable "upload resource is unavailable"]
  command := fun _ seq roomId _ _ => pure [errorFrame seq roomId .malformedFrame "unknown command"]
  uploadResource := fun _ _ _ _ _ _ => pure []
  channelUpload := fun _ _ _ _ _ => pure []
  takePendingUpload := fun _ _ _ memory => (.notFound, memory)
  stageChannelFrame := fun _ _ _ _ _ memory => ((.done (.ok []), .keep), memory)
  stage_rejects := by
    rintro _ _ _ _ _ _ responses h response hresponse
    obtain rfl := Except.ok.inj (ChannelRequest.done.inj h)
    cases hresponse

def DurableServing.bare : DurableServing τ ρ where
  rmpv := Rmpv.reference
  sha256 := fun _ => ⟨List.replicate 32 0, rfl⟩
  historyRetention := .disabled
  checks := fun _ => .ok ()
  eventToValue := fun _ => .ok .nil
  roomText := fun _ _ _ => fail "message was not written"
  textResult := fun _ _ => .error (.message "durable result was not written")
  partRoom := fun _ _ _ => fail "part was not written"
  projection := fun _ _ _ => fail "projection was not written"
  command := fun _ _ => fail "command was not written"
  reserveColourRate := fun _ memory => (true, memory)
  command_target := by
    intro _ _ _ _ _ _ h
    cases h

def Publishing.bare : Publishing τ ρ where
  snapshotFrame := fun _ seq roomId body =>
    pure (Frame.new .reactionSnapshotInline seq (some roomId) body)
  roomIdsForIdentity := fun _ _ => .ok [1]
  activeUserlistFrame := fun roomId _ _ =>
    pure (Frame.new .userListSnapshotInline 0 (some roomId) (.fields [.array []]))
  shapeUserDelta := fun frame _ => .ok frame
  shapeRoomFrame := fun frame _ _ => .ok frame
  resourcePayload := fun _ _ => none
  takeResourcePayload := fun _ memory => memory
  discardPendingUploadsForIdentity := fun _ memory => memory
  discardUniquePendingUploadForFailure := fun _ _ memory => memory

/-- The bare engine's state: no result is stored, and the tables are these. -/
def SessionState.bare (database : Database) (tables : τ) (memory : ρ) : SessionState τ ρ :=
  { store := { results := Table.empty, clients := Table.empty, rest := (database, tables, memory) }
    clock := fun _ => 0
    readings := 0 }

end Omen.Server
