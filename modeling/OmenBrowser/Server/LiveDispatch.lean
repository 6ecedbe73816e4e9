import OmenBrowser.Server.Live

/- How the live server handles a frame and the other events of its links
   (`handle_event` and what it calls, of `server/src/live.rs`).

   A frame is handed to the engine; the answers go to the link it came from, and those that
   are news for others are sent on. Which room a link hears is read off the request, not off
   the answer. A request that changes something is answered from the replay cache when the
   link repeats it.

   Correspondence (Rust ↔ Lean):
     `OmenchatLinkEvent::LinkData`       ↔ `LiveInput.linkData`, with the frame its bytes decode to
     its arm, up to the peer of the link ↔ `arrive`; up to the dispatch ↔ `dispatchPacket`;
       the rest                          ↔ `settleDispatch`
     the engine's part of `handle_decoded_frame` ↔ `executeFrame`
     the `*_accepted` fields             ↔ `FrameDispatchOutcome.accepted`
   `FrameDispatchOutcome.answers` is not in the source: it is the answer the link was given, for
   the results to speak of. -/
namespace Omen.Server
open Wire Omen.Protocol Act

/-! What a frame says. -/

def isDurableMutationEnvelope : FrameBody → Bool
  | .fields (.string tag :: _) => tag == durableMutationEnvelopeTag
  | _ => false

def commandName (body : FrameBody) : Option String := (bodyString body).bind Text.firstWord

def isMutatingCommand (command : String) : Bool :=
  ["topic", "create", "kick", "ban", "mute", "unmute", "role", "unban"].contains
    (Text.toAsciiLowercase command)

variable (frame : Frame)

def isReplayGuardedRequest : Bool :=
  match frame.op with
  | .roomMessage | .roomAction | .roomNotice | .partRoom => true
  | .command => (commandName frame.body).any isMutatingCommand
  | _ => false

def joinedRoomIdFromFrame : Option UInt32 :=
  match frame.op with
  | .joinRoom => some (frame.roomId.getD 1)
  | .roomMessage | .roomAction | .roomNotice => frame.roomId
  | .command => frame.roomId
  | _ => none

def partedRoomIdFromFrame : Option UInt32 :=
  if frame.op = .partRoom then frame.roomId else none

def commandResultName : Option String :=
  if frame.op = .commandResult then
    match frame.body with
    | .fields (.string value :: _) => some value
    | _ => none
  else none

def isSuccessfulPartResponse : Bool := commandResultName frame == some "part"

def isSuccessfulDisconnectResponse : Bool :=
  commandResultName frame == some "kick" || commandResultName frame == some "ban"

def isRoomBroadcastResponse : ChatOp → Bool
  | .roomEvent | .userDelta | .roomDelta | .userListSnapshotInline | .userListSnapshotResource =>
    true
  | _ => false

variable (seq : UInt32)

/-- What the author of a message gets for the event others get. -/
def messageAckFromRoomEvent (response : Frame) : Option Frame :=
  if response.op = .roomEvent then
    match response.body with
    | .fields (.array eventFields :: _) => do
      let eventId ← eventFields[0]?
      let kind ← eventFields[1]?
      let atUnix ← eventFields[3]?
      some (Frame.new .messageAck seq response.roomId (.fields [eventId, kind,
        eventFields[2]?.getD .nil, atUnix, eventFields[5]?.getD .nil]))
    | _ => none
  else none

def replayCollisionFrame (roomId : Option UInt32) : Frame :=
  errorFrame seq roomId .malformedFrame "operation sequence was reused with different content"

def withUserId (userId : UserId) (response : Frame) : Except ServerError Frame :=
  match response.body with
  | .fields [value] => .ok { response with body := .fields [value, .u64 userId.toUInt64] }
  | .fields _ =>
    .error (.message "join acceptance already contains unexpected extension fields")
  | _ => .error (.message "join acceptance did not contain fields")

/-- The first acceptance of a join gets the user's own id. -/
def appendJoinAcceptUserId (userId : UserId) : List Frame → Except ServerError (List Frame)
  | [] => .ok []
  | response :: responses =>
    if response.op = .joinAccept then (withUserId userId response).map (· :: responses)
    else (appendJoinAcceptUserId userId responses).map (response :: ·)

def sanitizeDisplayName (name : String) : Option String :=
  match ((Text.trimChars name.toList).filter (fun c => !Text.isControl c)).take 48 with
  | [] => none
  | cleaned => some (String.ofList cleaned)

variable (peer : ServerPeer)

def withName : Option String → Option ServerPeer
  | some name => (sanitizeDisplayName name).map (fun name => { peer with displayName := name })
  | none => some peer

def withAddress : Option String → ServerPeer
  | some lxmf =>
    if Text.trim lxmf = "" then peer else { peer with lxmfDestination := some (Text.trim lxmf) }
  | none => peer

/-- The name and the address a session-open body gives its peer. -/
def peerFromFields (fields : List FrameValue) : Option ServerPeer := do
  let named ← withName peer ((fields[1]?).bind frameValueString)
  some (withAddress named ((fields[2]?).bind frameValueString))

def peerFromSessionOpen (frame : Frame) : Option ServerPeer :=
  if frame.op ≠ .sessionOpen then none
  else
    match parseSessionOpenNegotiation frame.body with
    | .error _ => none
    | .ok _ =>
      match frame.body with
      | .text name => withName peer (some name)
      | .fields fields => peerFromFields peer fields
      | .empty => none

/-- The negotiation of a session-open frame that can be read. -/
def openNegotiation : Option SessionOpenNegotiation :=
  if frame.op = .sessionOpen then
    match parseSessionOpenNegotiation frame.body with
    | .ok negotiation => negotiation
    | .error _ => none
  else none

variable (expected : String)

def sessionOpenRequestsCapability : Bool :=
  (openNegotiation frame).any (fun negotiation => negotiation.requestedCapabilities.contains expected)

def requestedDurableClientInstance : Option ClientInstanceId := do
  let negotiation ← openNegotiation frame
  if negotiation.requestedCapabilities.contains durableMutationCapability then
    negotiation.clientInstanceId
  else none

def responseAcceptsCapability (response : Frame) : Bool :=
  if response.op = .sessionAccept then
    match parseSessionAcceptNegotiation response.body with
    | .ok (some negotiation) => negotiation.acceptedCapabilities.contains expected
    | _ => false
  else false

def responsesAcceptCapability (responses : List Frame) (expected : String) : Bool :=
  responses.any (responseAcceptsCapability expected)

def acceptedDurableClientInstance (requested : Option ClientInstanceId) (responses : List Frame) :
    Option ClientInstanceId := do
  let requested ← requested
  if responsesAcceptCapability responses durableMutationCapability then some requested else none

/-! Whom news is sent to. -/

variable {σ : Type}

namespace LiveServer

variable (s : LiveServer σ)

/-- The links of `broadcast_room_event`. -/
def roomEventTargets (origin : LinkId) (response : Frame) : List LinkId :=
  if isRoomBroadcastResponse response.op then
    match response.roomId with
    | some roomId => s.roomLinkIds roomId origin
    | none => if response.op = .roomDelta then s.peerLinkIds origin else []
  else []

/-- The links in the room whose session has negotiated the projection, the origin's among them:
`broadcast_reaction_event`, `broadcast_message_revision_event` and `broadcast_pin_event`. -/
def projectionTargets (flag : DurableSessionBinding → Bool) (response : Frame) : List LinkId :=
  match response.roomId with
  | none => []
  | some roomId => (s.roomLinkIdsIncluding roomId).filter fun linkId =>
    match s.durableSessions[linkId]?, s.peers[linkId]? with
    | some binding, some peer => flag binding && peer.identityHash == binding.identityHash
    | _, _ => false

/-- The loop of `broadcast_nickname_colour_event`: of the links that negotiated colours, those
whose identity shares a room with the actor. -/
def colourTargets (engine : SessionEngine σ) (s : LiveServer σ) (actorRooms : List UInt32) :
    List (LinkId × Bytes) → Except ServerError (List LinkId)
  | [] => .ok []
  | (linkId, identityHash) :: links =>
    if s.identifiedLinks.contains linkId &&
        (s.peers[linkId]?).any (fun peer => peer.identityHash == identityHash) then do
      let rooms ← engine.roomIdsForIdentity identityHash s.engine
      let rest ← colourTargets engine s actorRooms links
      pure (if actorRooms.any rooms.contains then linkId :: rest else rest)
    else colourTargets engine s actorRooms links

def nicknameColourTargets (engine : SessionEngine σ) (s : LiveServer σ) (actor : ServerPeer) :
    Except ServerError (List LinkId) := do
  let actorRooms ← engine.roomIdsForIdentity actor.identityHash s.engine
  if actorRooms.isEmpty then pure []
  else colourTargets engine s actorRooms s.nicknameColourLinks.toList

/-- The links a broadcast of a durable mutation goes to. -/
def durableTargets (engine : SessionEngine σ) (s : LiveServer σ) (origin : LinkId)
    (actor : ServerPeer) (broadcast : Frame) : Except ServerError (List LinkId) :=
  match broadcast.op with
  | .reactionEvent => .ok (s.projectionTargets (·.reactions) broadcast)
  | .messageRevisionEvent => .ok (s.projectionTargets (·.messageRevisions) broadcast)
  | .pinEvent => .ok (s.projectionTargets (·.pins) broadcast)
  | .nicknameColourEvent => s.nicknameColourTargets engine actor
  | _ => .ok (s.roomEventTargets origin broadcast)

end LiveServer

/-! A frame is dispatched. -/

section Dispatch
variable (host : Host) (engine : SessionEngine σ)

structure FrameDispatchOutcome where
  sessionAccepted : Bool
  acceptedClientInstanceId : Option ClientInstanceId
  accepted : Capability → Bool
  partSucceeded : Bool
  moderationDisconnectSucceeded : Bool
  answers : List Frame

/-- `FrameDispatchOutcome::default()`. -/
def FrameDispatchOutcome.default (answers : List Frame) : FrameDispatchOutcome :=
  { sessionAccepted := false
    acceptedClientInstanceId := none
    accepted := fun _ => false
    partSucceeded := false
    moderationDisconnectSucceeded := false
    answers }

def sendToEach (response : Frame) : List LinkId → Live σ Unit :=
  forEach (fun linkId => sendResponseFrame host engine linkId response)

variable (origin : LinkId)

def broadcastRoomEvent (response : Frame) : Live σ Unit := do
  let targets ← read (fun s => LiveServer.roomEventTargets s origin response)
  sendToEach host engine response targets

def broadcastDurable (actor : ServerPeer) (broadcast : Frame) : Live σ Unit := do
  let s ← read id
  let targets ← lift (LiveServer.durableTargets engine s origin actor broadcast)
  sendToEach host engine broadcast targets

/-- The capability was negotiated on the link for this identity. -/
def boundTo (links : LinkMap Bytes) (linkId : LinkId) (peer : ServerPeer) : Bool :=
  (links[linkId]?).any (fun identityHash => identityHash == peer.identityHash)

variable (s : LiveServer σ) (linkId : LinkId)

/-- The session's binding for this identity has the flag. -/
def bindingHas (peer : ServerPeer) (flag : DurableSessionBinding → Bool) : Bool :=
  (s.durableSessions[linkId]?).any
    (fun binding => binding.identityHash == peer.identityHash && flag binding)

/-- The room the first of the answers with a part of a room's history is about. -/
def snapshotRoom (responses : List Frame) : Option UInt32 :=
  responses.findSome? fun response =>
    match response.op with
    | .joinAccept | .historyCurrent | .historyInline | .historyResourceOffer => response.roomId
    | _ => none

def SnapshotKind.flag : SnapshotKind → DurableSessionBinding → Bool
  | .reactions => (·.reactions)
  | .messageRevisions => (·.messageRevisions)
  | .pins => (·.pins)

/-- The requests a snapshot is appended to the answers of. -/
def SnapshotKind.follows : SnapshotKind → ChatOp → Bool
  | .messageRevisions, .historyBefore => true
  | _, .joinRoom | _, .historyRecent => true
  | _, _ => false

def appendSnapshot (kind : SnapshotKind) (linkId : LinkId) (peer : ServerPeer) (request : Frame)
    (responses : List Frame) : Live σ (List Frame) := do
  let active ← read (fun s => bindingHas s linkId peer kind.flag && kind.follows request.op)
  match (if active then snapshotRoom responses else none) with
  | none => pure responses
  | some roomId => do
    let snapshot ← onEngine (engine.latestSnapshotFrame kind request.seq roomId request.op)
    pure (responses ++ [snapshot])

def appendUserId (peer : ServerPeer) (request : Frame) (responses : List Frame) :
    Live σ (List Frame) := do
  let active ← read (fun s => request.op == .joinRoom &&
    (bindingHas s linkId peer (·.replyMentions) || boundTo s.moderationAuditLinks linkId peer))
  if active then do
    let userId ← onEngine (engine.localUserId peer)
    lift (appendJoinAcceptUserId userId responses)
  else pure responses

/-- What the session asks for beside the engine's answers: the user id and the snapshots. -/
def appendExtensions (peer : ServerPeer) (frame : Frame) (responses : List Frame) :
    Live σ (List Frame) := do
  let responses ← appendUserId engine linkId peer frame responses
  let responses ← appendSnapshot engine .reactions linkId peer frame responses
  let responses ← appendSnapshot engine .messageRevisions linkId peer frame responses
  appendSnapshot engine .pins linkId peer frame responses

/-- What the engine's handlers look at of the link. -/
def negotiatedFeatures (peer : ServerPeer) : NegotiatedFeatures :=
  { moderationAudit := boundTo s.moderationAuditLinks linkId peer
    roomMediaPolicy := boundTo s.roomMediaPolicyLinks linkId peer
    nicknameColours := boundTo s.nicknameColourLinks linkId peer }

/-- The engine's answers, and what the session asks for beside them. -/
def executeFrame (peer : ServerPeer) (frame : Frame) (activeRoomPeers : List ServerPeer) :
    Live σ (List Frame) := do
  let features ← read (fun s => negotiatedFeatures s linkId peer)
  let responses ← onEngine (engine.handleFrame peer frame activeRoomPeers features)
  appendExtensions engine linkId peer frame responses

def dispatchOutcome (frame : Frame) (responses answers : List Frame) : FrameDispatchOutcome :=
  { sessionAccepted :=
      frame.op == .sessionOpen && responses.any (fun response => response.op == .sessionAccept)
    acceptedClientInstanceId :=
      acceptedDurableClientInstance (requestedDurableClientInstance frame) responses
    accepted := fun capability => sessionOpenRequestsCapability frame capability.name &&
      responsesAcceptCapability responses capability.name
    partSucceeded := frame.op == .partRoom && responses.any isSuccessfulPartResponse
    moderationDisconnectSucceeded :=
      frame.op == .command && responses.any isSuccessfulDisconnectResponse
    answers }

/-- What one response is for its origin, and what for others. -/
def splitResponse (requestOp : ChatOp) (seq : UInt32) (response : Frame) : List Frame × List Frame :=
  let asItIs := ([response], if isRoomBroadcastResponse response.op then [response] else [])
  if (requestOp = .roomMessage ∨ requestOp = .roomAction) ∧ response.op = .roomEvent then
    match messageAckFromRoomEvent seq response with
    | some ack => ([ack], [response])
    | none => asItIs
  else asItIs

def originResponses (frame : Frame) (responses : List Frame) : List Frame :=
  responses.flatMap (fun response => (splitResponse frame.op frame.seq response).1)

def broadcastResponses (frame : Frame) (responses : List Frame) : List Frame :=
  responses.flatMap (fun response => (splitResponse frame.op frame.seq response).2)

/-- The answers to the origin, then the news to the others. -/
def deliver (origin broadcasts : List Frame) : Live σ Unit := do
  forEach (sendResponseFrame host engine linkId) origin
  forEach (broadcastRoomEvent host engine linkId) broadcasts

def remember (seq : UInt32) (fingerprint : Option Bytes) (origin : List Frame) : Live σ Unit :=
  match fingerprint with
  | none => pure ()
  | some request => modify fun s => { s with
      replayCache := (LinkReplayCache.insert s.replayCache linkId seq request origin
        (host.entryBytes request origin)).2 }

/-- The bytes a guarded request is recognised by. -/
def requestFingerprint (frame : Frame) : Except ServerError (Option Bytes) :=
  if isReplayGuardedRequest frame then
    ((encodeFrame host.rmpv frame).map some).mapError
      (fun _ => .message "OMENchat replay fingerprint encode failed")
  else .ok none

def lookupReplay (seq : UInt32) : Option Bytes → ReplayLookup
  | some fingerprint => LinkReplayCache.lookup s.replayCache linkId seq fingerprint
  | none => .miss

/-- A request that is not a repetition. -/
def handleNewFrame (peer : ServerPeer) (frame : Frame) (fingerprint : Option Bytes)
    (activeRoomPeers : List ServerPeer) :
    Live σ FrameDispatchOutcome := do
  let responses ← executeFrame engine linkId peer frame activeRoomPeers
  let origin := originResponses frame responses
  let broadcasts := broadcastResponses frame responses
  remember host linkId frame.seq fingerprint origin
  let sent ← attempt (deliver host engine linkId origin broadcasts)
  forEach (releaseResponseResource engine) (origin ++ broadcasts)
  lift sent
  pure (dispatchOutcome frame responses origin)

/-- One error frame is the whole answer. -/
def answerError (frame : Frame) (code : ChatErrorCode) (message : String) :
    Live σ FrameDispatchOutcome := do
  let response := errorFrame frame.seq frame.roomId code message
  sendResponseFrame host engine linkId response
  pure (FrameDispatchOutcome.default [response])

/-- The binding a durable mutation is handled under. -/
def durableBinding (peer : ServerPeer) : Option DurableSessionBinding :=
  if s.identifiedLinks.contains linkId then
    (s.durableSessions[linkId]?).filter (fun binding => binding.identityHash == peer.identityHash)
  else none

/-- What the engine makes of a durable mutation. -/
def executeDurable (peer : ServerPeer) (frame : Frame) (activeRoomPeers : List ServerPeer)
    (binding : DurableSessionBinding) (envelope : DurableMutationEnvelope) :
    Live σ DurableMutationDispatch :=
  if frame.op = .nicknameColourSet then do
    -- a colour is of the user, not of a room
    let coloured ← read (fun s : LiveServer σ => boundTo s.nicknameColourLinks linkId peer)
    if coloured ∧ frame.roomId = none then
      onEngine (engine.handleDurableNicknameColour peer frame.seq binding.clientInstanceId envelope)
    else if coloured then
      pure (durableErrorDispatch frame.seq frame.roomId .durableMutationMalformed
        "nickname colour mutation must not identify a room")
    else
      pure (durableErrorDispatch frame.seq frame.roomId .durableMutationNotNegotiated
        "nickname colours were not negotiated for this authenticated link")
  else
    onEngine (engine.handleDurableMutationWithActivePeers
      { peer
        activeRoomPeers
        durableNoticeAck := binding.durableNoticeAck
        replyMentions := binding.replyMentions
        reactions := binding.reactions
        messageRevisions := binding.messageRevisions
        pins := binding.pins }
      frame.seq frame.roomId frame.op binding.clientInstanceId envelope)

def disconnectTarget : Option Bytes → Live σ Unit
  | some identityHash => disconnectIdentity host engine identityHash
  | none => pure ()

/-- What follows the engine's result: a disconnect, the answer, the news. -/
def deliverDurable (peer : ServerPeer) (frame : Frame) (dispatch : DurableMutationDispatch) :
    Live σ FrameDispatchOutcome := do
  disconnectTarget host engine dispatch.disconnectIdentity
  sendResponseFrame host engine linkId dispatch.origin
  forEach (broadcastDurable host engine linkId peer) dispatch.broadcasts
  pure { FrameDispatchOutcome.default [dispatch.origin] with
    partSucceeded := frame.op == .partRoom && isSuccessfulPartResponse dispatch.origin }

def handleDurableMutationFrame (peer : ServerPeer) (frame : Frame)
    (activeRoomPeers : List ServerPeer) : Live σ FrameDispatchOutcome :=
  match DurableMutationEnvelope.fromFrameBody frame.body with
  | .error _ =>
    answerError host engine linkId frame .durableMutationMalformed
      "durable mutation envelope is malformed"
  | .ok envelope => do
    let binding ← read (fun s => durableBinding s linkId peer)
    match binding with
    | none =>
      answerError host engine linkId frame .durableMutationNotNegotiated
        "durable mutations were not negotiated for this authenticated link"
    | some binding => do
      let dispatch ← executeDurable engine linkId peer frame activeRoomPeers binding envelope
      deliverDurable host engine linkId peer frame dispatch

def handleDecodedFrame (peer : ServerPeer) (frame : Option Frame)
    (activeRoomPeers : List ServerPeer) : Live σ FrameDispatchOutcome :=
  match frame with
  | none => throw (.message "OMENchat frame decode failed")
  | some frame =>
    if isDurableMutationEnvelope frame.body then
      handleDurableMutationFrame host engine linkId peer frame activeRoomPeers
    else do
      let fingerprint ← lift (requestFingerprint host frame)
      let found ← read (fun s => lookupReplay s linkId frame.seq fingerprint)
      match found with
      | .hit responses => do
        forEach (sendResponseFrame host engine linkId) responses
        pure (FrameDispatchOutcome.default responses)
      | .collision => do
        sendResponseFrame host engine linkId (replayCollisionFrame frame.seq frame.roomId)
        pure (FrameDispatchOutcome.default [replayCollisionFrame frame.seq frame.roomId])
      | .miss => handleNewFrame host engine linkId peer frame fingerprint activeRoomPeers

end Dispatch

/-! Events. -/

/-- `record_link_traffic` for one frame. -/
def LinkTrafficSummary.record (t : LinkTrafficSummary) (bytes : Nat) (op : Option ChatOp) :
    LinkTrafficSummary :=
  let t := { t with framesIn := t.framesIn + 1, bytesIn := t.bytesIn + bytes }
  match op with
  | some .sessionOpen => { t with sessionRequests := t.sessionRequests + 1 }
  | some .joinRoom | some .partRoom | some .roomSubscribe | some .roomUnsubscribe =>
    { t with roomNavigation := t.roomNavigation + 1 }
  | some .roomMessage | some .roomAction | some .roomNotice =>
    { t with chatMessages := t.chatMessages + 1 }
  | some .historyBefore | some .historyRecent => { t with historyRequests := t.historyRequests + 1 }
  | some .ping => { t with pings := t.pings + 1 }
  | some .command => { t with commands := t.commands + 1 }
  | some .uploadOffer | some .uploadFetch => { t with uploadRequests := t.uploadRequests + 1 }
  | _ => t

namespace LiveServer

/-- `entry(link_id).or_insert(..)`. -/
def orInsert {ν : Type} (links : LinkMap ν) (linkId : LinkId) (value : ν) : LinkMap ν :=
  if links.contains linkId then links else links.insert linkId value

variable (linkId : LinkId)

/-- The tables every open link is in. -/
def openLink (peer : ServerPeer) (now : Int) (s : LiveServer σ) : LiveServer σ :=
  { s with
    peers := s.peers.insert linkId peer
    linkOpenedAt := orInsert s.linkOpenedAt linkId now
    linkTraffic := orInsert s.linkTraffic linkId LinkTrafficSummary.default }

/-- The context the link's frames come with is the one its answers are sent with. -/
def noteContext (context : UInt8) (s : LiveServer σ) : LiveServer σ :=
  { s with linkResponseContexts := s.linkResponseContexts.insert linkId context }

def recordTraffic (bytes : Nat) (op : Option ChatOp) (s : LiveServer σ) : LiveServer σ :=
  let traffic := (s.linkTraffic[linkId]?).getD LinkTrafficSummary.default
  { s with linkTraffic := s.linkTraffic.insert linkId (traffic.record bytes op) }

variable (s : LiveServer σ)

/-- What was negotiated for an identity is void when the link has another. -/
def changeIdentity : LiveServer σ :=
  { s with
    durableSessions := s.durableSessions.erase linkId
    moderationAuditLinks := s.moderationAuditLinks.erase linkId
    announcementRoomLinks := s.announcementRoomLinks.erase linkId
    slowModeLinks := s.slowModeLinks.erase linkId
    roomMediaPolicyLinks := s.roomMediaPolicyLinks.erase linkId
    channelAttachmentLinks := s.channelAttachmentLinks.erase linkId
    nicknameColourLinks := s.nicknameColourLinks.erase linkId }

def markIdentified : LiveServer σ :=
  { s with identifiedLinks := s.identifiedLinks.insert linkId () }

def setPeer (peer : ServerPeer) (s : LiveServer σ) : LiveServer σ :=
  { s with peers := s.peers.insert linkId peer }

variable (identityHash : Bytes)

def identify (s : LiveServer σ) : LiveServer σ :=
  match s.peers[linkId]? with
  | none => s
  | some existing =>
    let peer := { existing with identityHash }
    let current := if existing.identityHash = identityHash then s else s.changeIdentity linkId
    ((current.markIdentified linkId).replaceDuplicatePeerLinks linkId peer).setPeer linkId peer

/-- A negotiated capability is kept, one that was not is forgotten. -/
def setIf (accepted : Bool) (linkId : LinkId) (identityHash : Bytes) (links : LinkMap Bytes) :
    LinkMap Bytes :=
  if accepted then links.insert linkId identityHash else links

variable (outcome : FrameDispatchOutcome)

def bindingOf (identityHash : Bytes) (clientInstanceId : ClientInstanceId) :
    DurableSessionBinding :=
  { identityHash
    clientInstanceId
    durableNoticeAck := outcome.accepted .noticeAck
    replyMentions := outcome.accepted .replyMentions
    reactions := outcome.accepted .reactions
    messageRevisions := outcome.accepted .messageRevisions
    pins := outcome.accepted .pins }

/-- What an accepted session starts from. -/
def resetSession : LiveServer σ :=
  { s with
    sessionOpenLinks := s.sessionOpenLinks.insert linkId ()
    durableSessions := s.durableSessions.erase linkId
    moderationAuditLinks := s.moderationAuditLinks.erase linkId
    announcementRoomLinks := s.announcementRoomLinks.erase linkId
    slowModeLinks := s.slowModeLinks.erase linkId
    roomMediaPolicyLinks := s.roomMediaPolicyLinks.erase linkId
    nicknameColourLinks := s.nicknameColourLinks.erase linkId }

/-- What an accepted session adds, on an identified link. -/
def grantSession (s : LiveServer σ) : LiveServer σ :=
  { s with
    durableSessions :=
      match outcome.acceptedClientInstanceId with
      | some id => s.durableSessions.insert linkId (bindingOf outcome identityHash id)
      | none => s.durableSessions
    moderationAuditLinks :=
      setIf (outcome.accepted .moderationAudit) linkId identityHash s.moderationAuditLinks
    announcementRoomLinks :=
      setIf (outcome.accepted .announcementRooms) linkId identityHash s.announcementRoomLinks
    slowModeLinks := setIf (outcome.accepted .slowMode) linkId identityHash s.slowModeLinks
    roomMediaPolicyLinks :=
      setIf (outcome.accepted .roomMediaPolicy) linkId identityHash s.roomMediaPolicyLinks
    channelAttachmentLinks :=
      setIf (outcome.accepted .channelAttachment) linkId identityHash s.channelAttachmentLinks
    nicknameColourLinks :=
      setIf (outcome.accepted .nicknameColours) linkId identityHash s.nicknameColourLinks }

/-- A session may give its peer another name or address. -/
def rename (peer candidate : ServerPeer) (s : LiveServer σ) : LiveServer σ :=
  if candidate = peer then s
  else (s.replaceDuplicatePeerLinks linkId candidate).setPeer linkId candidate

/-- The arm of an accepted session. The identity of the candidate is the peer's: only its name and
address come from the request. -/
def acceptSession (peer candidate : ServerPeer) (outcome : FrameDispatchOutcome) (s : LiveServer σ)
    : LiveServer σ :=
  let reset := (s.rename linkId peer candidate).resetSession linkId
  if reset.identifiedLinks.contains linkId then
    reset.grantSession linkId candidate.identityHash outcome
  else reset

def dropChannelAttachment : LiveServer σ :=
  { s with channelAttachmentLinks := s.channelAttachmentLinks.erase linkId }

def applyStage (change : StageChange) (s : LiveServer σ) : LiveServer σ :=
  match change with
  | .keep => s
  | .start resourceId => { s with channelUploads := s.channelUploads ++ [(linkId, resourceId)] }
  | .drop resourceId => { s with
      channelUploads := s.channelUploads.filter (fun upload => !(upload == (linkId, resourceId))) }

end LiveServer

inductive ResourceDirection where
  | inbound
  | outbound
  deriving DecidableEq

inductive ResourceOutcome where
  | complete
  | failed
  | cancelled
  deriving DecidableEq

/-- What happens to the server: the events of its links, and the two operations others call. -/
inductive LiveInput where
  | linkOpened (linkId : LinkId) (peer : ServerPeer) (now : Int)
  | peerIdentified (linkId : LinkId) (identityHash : Vector UInt8 16)
  | linkData (linkId : LinkId) (context : UInt8) (frame : Option Frame) (size : Nat) (now : Int)
  | channelAttachmentData (linkId : LinkId) (data : Bytes)
  | resourceReceived (linkId : LinkId) (resourceId : Option String) (data : Bytes)
  | resourceTerminal (linkId : LinkId) (direction : ResourceDirection) (outcome : ResourceOutcome)
      (expectedSize : Option UInt64)
  | linkClosed (linkId : LinkId)
  | disconnectIdentity (identityHash : Bytes)
  | expirePendingHandshakes (now : Int)

section Events
variable (host : Host) (engine : SessionEngine σ)

variable (linkId : LinkId)

def openLinkAs (peer : ServerPeer) (now : Int) (s : LiveServer σ) : LiveServer σ :=
  let peer := s.peerForLinkOpen linkId peer
  let marked := if isProvisionalPeer peer then s else s.markIdentified linkId
  (marked.replaceDuplicatePeerLinks linkId peer).openLink linkId peer now

/-- A link that is not known is opened if there is room for one (`admit_new_link`). -/
def handleLinkOpened (peer : ServerPeer) (now : Int) (s : LiveServer σ) : LiveServer σ :=
  if s.peers.contains linkId || s.admits then openLinkAs linkId peer now s
  else s.closeOnTransport linkId

/-- The room of a join-like request is the one its link hears from then on. -/
def subscribe : Option UInt32 → Live σ Unit
  | some roomId => modify (fun s => { s with linkRooms := s.linkRooms.insert linkId roomId })
  | none => pure ()

/-- The room of a granted part; the link's own room is removed, whichever it is. -/
def unsubscribe : Option UInt32 → Live σ Unit
  | some roomId => do
    let subscribed ← read (fun s : LiveServer σ => s.linkRooms.contains linkId)
    modify (fun s => { s with linkRooms := s.linkRooms.erase linkId })
    if subscribed then broadcastUserlistForRoom host engine roomId else pure ()
  | none => pure ()

/-- What `handle_event` does once the frame is dispatched. -/
def settleDispatch (peer candidate : ServerPeer) (frame : Option Frame) (target : Option Bytes)
    (dispatch : FrameDispatchOutcome) : Live σ Unit := do
  modify (fun s =>
    if dispatch.sessionAccepted then s.acceptSession linkId peer candidate dispatch else s)
  disconnectTarget host engine (if dispatch.moderationDisconnectSucceeded then target else none)
  subscribe linkId (frame.bind joinedRoomIdFromFrame)
  unsubscribe host engine linkId
    (if dispatch.partSucceeded then frame.bind partedRoomIdFromFrame else none)

variable (s : LiveServer σ)

/-- The peers the engine is told are in the room of the request. -/
def activeRoomPeers (linkId : LinkId) (candidate : ServerPeer) (frame : Option Frame) :
    List ServerPeer :=
  match (frame.bind joinedRoomIdFromFrame).or (frame.bind partedRoomIdFromFrame) with
  | some roomId => s.activePeersForRoom linkId roomId candidate
  | none => []

def candidatePeer (peer : ServerPeer) (frame : Option Frame) : ServerPeer :=
  (frame.bind (peerFromSessionOpen peer)).getD peer

/-- The identity a successful kick or ban would disconnect; an error is none. -/
def moderationTarget (candidate : ServerPeer) (frame : Option Frame) (active : List ServerPeer) :
    Live σ (Option Bytes) :=
  match frame with
  | none => pure none
  | some frame => do
    let target ← attempt
      (onEngine (engine.moderationDisconnectTargetForFrame candidate frame active))
    pure (target.toOption.bind id)

/-- A packet of a known peer, up to its dispatch. -/
def dispatchPacket (peer : ServerPeer) (frame : Option Frame) (size : Nat) :
    Live σ (Option Bytes × FrameDispatchOutcome) := do
  let candidate := candidatePeer peer frame
  modify (LiveServer.recordTraffic linkId size (frame.map (·.op)))
  let active ← read (fun s => activeRoomPeers s linkId candidate frame)
  let target ← moderationTarget engine candidate frame active
  let dispatch ← handleDecodedFrame host engine linkId candidate frame active
  pure (target, dispatch)

def handlePacket (peer : ServerPeer) (frame : Option Frame) (size : Nat) :
    Live σ Unit := do
  let dispatched ← attempt (dispatchPacket host engine linkId peer frame size)
  match dispatched with
  | .error _ => pure ()
  | .ok (target, dispatch) =>
    settleDispatch host engine linkId peer (candidatePeer peer frame) frame target dispatch

variable (context : UInt8)

/-- The peer a packet is from. A link that is not known is opened by a session-open frame, with a
provisional peer; other packets of it are dropped. -/
def arrive (frame : Option Frame) (now : Int) (s : LiveServer σ) :
    Option ServerPeer × LiveServer σ :=
  if context ≠ omenchatLinkContext ∧ frame.isNone then (none, s)
  else
    let noted := if frame.isSome ∧ context ≠ 0 then s.noteContext linkId context else s
    match noted.peers[linkId]? with
    | some peer => (some peer, noted)
    | none =>
      if frame.any (fun frame => frame.op == .sessionOpen) then
        if noted.admits then
          (some (provisionalPeer linkId), noted.openLink linkId (provisionalPeer linkId) now)
        else (none, noted.closeOnTransport linkId)
      else (none, noted)

def handleLinkData (frame : Option Frame) (size : Nat) (now : Int) : Live σ Unit := fun s =>
  match arrive linkId context frame now s with
  | (some peer, s) => handlePacket host engine linkId peer frame size s
  | (none, s) => (.ok (), s)

def handleChannelAttachmentData (data : Bytes) : Live σ Unit := do
  let known ← read (fun s : LiveServer σ => s.peers[linkId]?)
  match known with
  | none => pure ()
  | some peer => do
    let negotiated ← read (fun s : LiveServer σ => boundTo s.channelAttachmentLinks linkId peer)
    if negotiated then do
      let media ← read (fun s : LiveServer σ => boundTo s.roomMediaPolicyLinks linkId peer)
      let handled ← read (fun s : LiveServer σ =>
        engine.channelUpload linkId peer data media s.channelUploads s.engine)
      modify (fun s => (LiveServer.applyStage linkId handled.1.2 { s with engine := handled.2 }))
      let responses ← lift handled.1.1
      forEach (fun response => do
        sendResponseFrame host engine linkId response
        broadcastRoomEvent host engine linkId response
        releaseResponseResource engine response) responses
    else pure ()

def handleResourceReceived (resourceId : Option String) (data : Bytes) :
    Live σ Unit := do
  let known ← read (fun s : LiveServer σ => s.peers[linkId]?)
  match known, resourceId with
  | some peer, some resourceId => do
    let media ← read (fun s : LiveServer σ => boundTo s.roomMediaPolicyLinks linkId peer)
    let responses ← onEngine (engine.handleUploadResource peer resourceId data media)
    let sent ← attempt (forEach (fun response => do
      sendResponseFrame host engine linkId response
      broadcastRoomEvent host engine linkId response) responses)
    forEach (releaseResponseResource engine) responses
    lift sent
  | _, _ => pure ()

def handleResourceTerminal (direction : ResourceDirection) (outcome : ResourceOutcome)
    (expectedSize : Option UInt64) (s : LiveServer σ) : LiveServer σ :=
  if direction = .inbound ∧ outcome = .failed then
    match s.peers[linkId]?, expectedSize with
    | some peer, some size => { s with
        engine := engine.discardUniquePendingUploadForFailure peer.identityHash size s.engine }
    | _, _ => s
  else s

/-- What `handle_event` does to the tables when a link is closed. -/
def closeLink : LiveServer σ :=
  let forgot := s.forgetLink linkId
  let closed :=
    match s.peers[linkId]? with
    | some peer => forgot.discardPendingUploadsWithoutActivePeer engine peer.identityHash
    | none => forgot
  (closed.discardChannelUploads linkId).dropChannelAttachment linkId

def handleLinkClosed : Live σ Unit := do
  let room ← read (fun s : LiveServer σ => s.linkRooms[linkId]?)
  modify (closeLink engine linkId)
  match room with
  | some roomId => broadcastUserlistForRoom host engine roomId
  | none => pure ()

def handleInput : LiveInput → Live σ Unit
  | .linkOpened linkId peer now => modify (handleLinkOpened linkId peer now)
  | .peerIdentified linkId identityHash =>
    modify (LiveServer.identify linkId identityHash.toList)
  | .linkData linkId context frame size now =>
    handleLinkData host engine linkId context frame size now
  | .channelAttachmentData linkId data => handleChannelAttachmentData host engine linkId data
  | .resourceReceived linkId resourceId data =>
    handleResourceReceived host engine linkId resourceId data
  | .resourceTerminal linkId direction outcome expectedSize =>
    modify (handleResourceTerminal engine linkId direction outcome expectedSize)
  | .linkClosed linkId => handleLinkClosed host engine linkId
  | .disconnectIdentity identityHash => disconnectIdentity host engine identityHash
  | .expirePendingHandshakes now => modify (LiveServer.expirePendingHandshakes engine now)

/-- One input; the server goes on whether or not handling it failed. -/
def liveStep (i : LiveInput) : Except ServerError Unit × LiveServer σ :=
  handleInput host engine i s

/-- The outcome of the dispatch, if the input is a frame that is dispatched. -/
def dispatchOf : LiveInput → Option FrameDispatchOutcome
  | .linkData linkId context frame size now =>
    match arrive linkId context frame now s with
    | (some peer, s) =>
      (dispatchPacket host engine linkId peer frame size s).1.toOption.map (·.2)
    | (none, _) => none
  | _ => none

end Events

end Omen.Server
