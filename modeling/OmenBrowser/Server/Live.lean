import OmenBrowser.Lib.Text
import OmenBrowser.Server.Codec
import OmenBrowser.Server.SessionEngine

/- The live server: its links, what is kept for each, and how frames leave it
   (`server/src/live.rs`, `server/src/transport.rs`).

   Everything the server keeps for a link is in a map from link ids, one for each thing
   kept. A link is torn down in four ways: it is closed by the other side (`linkClosed`),
   disconnected by an administrator or a moderator (`disconnectIdentity`), replaced by a
   new link of its identity (`retireDuplicatePeerLink`), or given up when its handshake
   takes too long (`retireLink`).

   Correspondence (Rust ↔ Lean):
     `BTreeMap<LinkId, V>`, `BTreeSet<LinkId>`   ↔ `LinkMap V`, `LinkMap Unit`
     `OmenchatTransport`                         ↔ `Transport`, which refuses the calls
                                                    `refuses` says and records the others
     `LinkReplayCache`                           ↔ its entries in the order of insertion; the
                                                    usage of a link is computed from them
     `shrink_to_fit`, `capacity`, `size_of`      ↔ `entryBytes`, what an entry takes in memory
   Counters, the log of closed links and the texts of a codec's errors are left out. -/
namespace Omen.Server
open Wire Omen.Protocol Act

/-- What is kept for some of the links, in the order of the links. -/
abbrev LinkMap (ν : Type) := Std.ExtTreeMap LinkId ν

instance : Std.TransCmp (compare : LinkId → LinkId → Ordering) := inferInstance

/-! The transport. -/

def omenchatLinkContext : UInt8 := 0x4f

structure CapturedFrame where
  linkId : LinkId
  bytes : Bytes
  context : UInt8

structure CapturedResource where
  linkId : LinkId
  resourceId : String
  payload : Bytes

/-- `refuses n link`: the `n`-th call of the transport is refused if it is for this link. -/
structure Transport where
  refuses : Nat → LinkId → Bool
  calls : Nat
  frames : List CapturedFrame
  resources : List CapturedResource
  closedLinks : List LinkId

variable (linkId : LinkId)

def Transport.sendFrameWithContext (bytes : Bytes) (context : UInt8) :
    Act Transport ServerError Unit := fun t =>
  if t.refuses t.calls linkId then (.error .io, { t with calls := t.calls + 1 })
  else (.ok (), { t with
    calls := t.calls + 1
    frames := t.frames ++ [⟨linkId, bytes, context⟩] })

def Transport.offerResource (resourceId : String) (payload : Bytes) :
    Act Transport ServerError Unit := fun t =>
  if t.refuses t.calls linkId then (.error .io, { t with calls := t.calls + 1 })
  else (.ok (), { t with
    calls := t.calls + 1
    resources := t.resources ++ [⟨linkId, resourceId, payload⟩] })

def Transport.closeLink (t : Transport) : Transport :=
  { t with closedLinks := t.closedLinks ++ [linkId] }

/-- A transport that has sent nothing yet and refuses nothing. -/
def Transport.accepting : Transport :=
  { refuses := fun _ _ => false, calls := 0, frames := [], resources := [], closedLinks := [] }

/-! The replay cache of a link's own requests. -/

def replayCacheMaxItems : Nat := 1024
def replayCacheMaxBytes : Nat := 4 * 1024 * 1024
def replayCacheMaxItemsPerLink : Nat := 64
def replayCacheMaxBytesPerLink : Nat := 256 * 1024
def replayCacheMaxEntryBytes : Nat := 64 * 1024

structure ReplayEntry where
  linkId : LinkId
  seq : UInt32
  request : Bytes
  originResponses : List Frame
  retainedBytes : Nat

abbrev LinkReplayCache := List ReplayEntry

inductive ReplayLookup where
  | miss
  | hit (originResponses : List Frame)
  | collision

namespace LinkReplayCache

variable (cache : LinkReplayCache)

def lookup (linkId : LinkId) (seq : UInt32) (request : Bytes) : ReplayLookup :=
  match cache.find? (fun e => e.linkId == linkId && e.seq == seq) with
  | none => .miss
  | some entry =>
    if entry.request = request then .hit entry.originResponses else .collision

def retainedBytes : Nat := (cache.map ReplayEntry.retainedBytes).sum

/-- One of the two loops that make room: while there is too much, the oldest entry that may go
goes. It gives up when none may. -/
def makeRoom (beyond : LinkReplayCache → Bool) (may : ReplayEntry → Bool) :
    Nat → LinkReplayCache → Bool × LinkReplayCache
  | 0, cache => (!beyond cache, cache)
  | n + 1, cache =>
    if beyond cache then
      match cache.find? may with
      | none => (false, cache)
      | some oldest =>
        makeRoom beyond may n
          (cache.filter fun e => !(e.linkId == oldest.linkId && e.seq == oldest.seq))
    else (true, cache)

variable (bytes : Nat)

/-- There is too much for one more entry of the link; a link with no entry has room. -/
def linkOver (cache : LinkReplayCache) : Bool :=
  let own := cache.filter fun e => e.linkId == linkId
  !own.isEmpty && (own.length ≥ replayCacheMaxItemsPerLink ||
    retainedBytes own + bytes > replayCacheMaxBytesPerLink)

def totalOver (cache : LinkReplayCache) : Bool :=
  cache.length ≥ replayCacheMaxItems || retainedBytes cache + bytes > replayCacheMaxBytes

/-- Whether the entry was kept. An entry of the same link and sequence number stays as it is. -/
def insert (linkId : LinkId) (seq : UInt32) (request : Bytes) (originResponses : List Frame)
    (bytes : Nat) : Bool × LinkReplayCache :=
  if bytes > replayCacheMaxEntryBytes ∨ bytes > replayCacheMaxBytesPerLink ∨
      bytes > replayCacheMaxBytes then (false, cache)
  else if cache.any (fun e => e.linkId == linkId && e.seq == seq) then (false, cache)
  else
    match makeRoom (linkOver linkId bytes) (fun e => e.linkId == linkId) cache.length cache with
    | (false, cache) => (false, cache)
    | (true, cache) =>
      match makeRoom (totalOver bytes) (fun _ => true) cache.length cache with
      | (false, cache) => (false, cache)
      | (true, cache) => (true, cache ++ [⟨linkId, seq, request, originResponses, bytes⟩])

def removeLink (linkId : LinkId) : LinkReplayCache :=
  cache.filter fun e => !(e.linkId == linkId)

end LinkReplayCache

/-! The server. -/

structure LinkTrafficSummary where
  framesIn : Nat
  bytesIn : Nat
  sessionRequests : Nat
  roomNavigation : Nat
  chatMessages : Nat
  historyRequests : Nat
  pings : Nat
  commands : Nat
  uploadRequests : Nat

def LinkTrafficSummary.default : LinkTrafficSummary := ⟨0, 0, 0, 0, 0, 0, 0, 0, 0⟩

structure DurableSessionBinding where
  identityHash : Bytes
  clientInstanceId : ClientInstanceId
  durableNoticeAck : Bool
  replyMentions : Bool
  reactions : Bool
  messageRevisions : Bool
  pins : Bool

structure LiveServer (σ : Type) where
  engine : σ
  channelUploads : List (LinkId × String)
  transport : Transport
  peers : LinkMap ServerPeer
  linkRooms : LinkMap UInt32
  linkResponseContexts : LinkMap UInt8
  linkOpenedAt : LinkMap Int
  linkTraffic : LinkMap LinkTrafficSummary
  identifiedLinks : LinkMap Unit
  sessionOpenLinks : LinkMap Unit
  durableSessions : LinkMap DurableSessionBinding
  moderationAuditLinks : LinkMap Bytes
  announcementRoomLinks : LinkMap Bytes
  slowModeLinks : LinkMap Bytes
  roomMediaPolicyLinks : LinkMap Bytes
  channelAttachmentLinks : LinkMap Bytes
  nicknameColourLinks : LinkMap Bytes
  replayCache : LinkReplayCache

variable {σ : Type}

/-- An action of the server. -/
abbrev Live (σ : Type) := Act (LiveServer σ) ServerError

def onEngine {α : Type} (x : Act σ ServerError α) : Live σ α :=
  zoom LiveServer.engine (fun e s => { s with engine := e }) x

def onTransport {α : Type} (x : Act Transport ServerError α) : Live σ α :=
  zoom LiveServer.transport (fun t s => { s with transport := t }) x

def LiveServer.new (engine : σ) (transport : Transport) : LiveServer σ :=
  { engine, channelUploads := [], transport, peers := ∅, linkRooms := ∅
    linkResponseContexts := ∅, linkOpenedAt := ∅, linkTraffic := ∅, identifiedLinks := ∅
    sessionOpenLinks := ∅, durableSessions := ∅, moderationAuditLinks := ∅
    announcementRoomLinks := ∅, slowModeLinks := ∅, roomMediaPolicyLinks := ∅
    channelAttachmentLinks := ∅, nicknameColourLinks := ∅, replayCache := [] }

/-- What the server is built with: the codec's crate, and what a cached entry takes in memory. -/
structure Host where
  rmpv : Rmpv
  entryBytes : Bytes → List Frame → Nat

/-- The format's own codec, and an entry counted as its request. -/
def Host.reference : Host := ⟨Rmpv.reference, fun request _ => request.length⟩

namespace LiveServer

variable (s : LiveServer σ)

/-- The capability was negotiated on this link for the identity its peer has now. -/
def negotiated (links : LinkMap Bytes) (linkId : LinkId) : Bool :=
  match links[linkId]?, s.peers[linkId]? with
  | some identityHash, some peer => identityHash == peer.identityHash
  | _, _ => false

/-- The shape the room catalog has on this link. -/
def catalogShape (linkId : LinkId) : RoomCatalogShape :=
  if s.negotiated s.roomMediaPolicyLinks linkId then .mediaPolicy
  else if s.negotiated s.slowModeLinks linkId then .slowMode
  else if s.negotiated s.announcementRoomLinks linkId then .policyBits
  else .legacy

def responseContext (linkId : LinkId) : UInt8 :=
  s.linkResponseContexts[linkId]?.getD omenchatLinkContext

def peerLinkIds (exclude : LinkId) : List LinkId :=
  s.peers.keys.filter (· != exclude)

variable (roomId : UInt32)

def roomLinkIdsIncluding : List LinkId :=
  (s.linkRooms.toList.filter (fun p => p.2 == roomId)).map (·.1)

def roomLinkIds (exclude : LinkId) : List LinkId :=
  (s.linkRooms.toList.filter (fun p => p.1 != exclude && p.2 == roomId)).map (·.1)

def activePeersInRoom : List ServerPeer :=
  (s.roomLinkIdsIncluding roomId).filterMap (s.peers[·]?)

def activePeersForRoom (linkId : LinkId) (roomId : UInt32) (peer : ServerPeer) : List ServerPeer :=
  (s.roomLinkIds roomId linkId).filterMap (s.peers[·]?) ++ [peer]

/-- `handshake_complete`. -/
def handshakeComplete (linkId : LinkId) : Bool :=
  s.identifiedLinks.contains linkId && s.sessionOpenLinks.contains linkId

def pendingHandshakeCount : Nat :=
  s.peers.keys.countP (fun linkId => !s.handshakeComplete linkId)

end LiveServer

/-! Sending a response. -/

section Sending
variable (host : Host) (engine : SessionEngine σ)

def responseCarriesResource : ChatOp → Bool
  | .historyResourceOffer | .userListSnapshotResource | .reactionSnapshotResource
  | .messageRevisionSnapshotResource | .moderationAuditResource | .uploadResourceOffer => true
  | _ => false

def fieldAsU64 : FrameValue → Option UInt64
  | .u64 value => some value
  | .i64 value => if 0 ≤ value then some value.toUInt64 else none
  | _ => none

/-- The resource id of `decode_resource_offer_body`. -/
def resourceOfferId : FrameBody → Option String
  | .fields [.string resourceId, compression, uncompressedLen, compressedLen, .string _] => do
    let compression ← fieldAsU64 compression
    let _ ← fieldAsU64 uncompressedLen
    let _ ← fieldAsU64 compressedLen
    if compression = 0 ∨ compression = 1 then some resourceId else none
  | _ => none

variable (response : Frame)

def uploadResourceIdFromOffer : Option String :=
  match response.body with
  | .fields (.string value :: _) => if Text.trim value = "" then none else some (Text.trim value)
  | _ => none

/-- The frame that stands in for a response whose resource is gone. -/
def resourceUnavailable : Frame :=
  errorFrame response.seq response.roomId .resourceUnavailable
    "Resource unavailable on the current Reticulum compatibility train"

/-- `prepare_response_resource`. -/
def prepareResponseResource (e : σ) : Except ServerError (Option (String × Bytes)) :=
  if response.op = .uploadResourceOffer then
    .ok (do
      let resourceId ← uploadResourceIdFromOffer response
      let payload ← engine.resourcePayload resourceId e
      some (resourceId, payload))
  else
    match resourceOfferId response.body with
    | none => .error (.message "OMENchat resource offer decode failed")
    | some resourceId => .ok ((engine.resourcePayload resourceId e).map (resourceId, ·))

def encode (frame : Frame) : Except ServerError Bytes :=
  (encodeFrame host.rmpv frame).mapError (fun _ => .message "OMENchat frame encode failed")

variable (s : LiveServer σ)

/-- The frame as the link is to see it. -/
def shapeFrame (linkId : LinkId) (frame : Frame) : Except ServerError Frame :=
  if s.negotiated s.nicknameColourLinks linkId ∧ frame.op = .userDelta then
    engine.shapeUserDelta frame s.engine
  else
    match s.catalogShape linkId with
    | .legacy => .ok frame
    | shape =>
      if frame.op = .joinAccept ∨ frame.op = .roomDelta ∨ frame.op = .commandResult then
        engine.shapeRoomFrame frame shape s.engine
      else .ok frame

/-- What `send_response_frame` hands to the transport. -/
structure Outgoing where
  bytes : Bytes
  context : UInt8
  resource : Option (String × Bytes)

/-- All of `send_response_frame` but the calls of the transport. -/
def preflight (linkId : LinkId) (frame : Frame) : Except ServerError Outgoing := do
  let shaped ← shapeFrame engine s linkId frame
  if responseCarriesResource shaped.op then
    let prepared ← prepareResponseResource engine shaped s.engine
    match prepared with
    | none =>
      let bytes ← encode host (resourceUnavailable shaped)
      pure ⟨bytes, s.responseContext linkId, none⟩
    | some resource =>
      let bytes ← encode host shaped
      pure ⟨bytes, s.responseContext linkId, some resource⟩
  else
    let bytes ← encode host shaped
    pure ⟨bytes, s.responseContext linkId, none⟩

def transmit (linkId : LinkId) (outgoing : Outgoing) : Act Transport ServerError Unit := do
  Transport.sendFrameWithContext linkId outgoing.bytes outgoing.context
  match outgoing.resource with
  | none => pure ()
  | some (resourceId, payload) => Transport.offerResource linkId resourceId payload

def sendResponseFrame (linkId : LinkId) (frame : Frame) : Live σ Unit := do
  let s ← read id
  let outgoing ← lift (preflight host engine s linkId frame)
  onTransport (transmit linkId outgoing)

/-- `release_response_resource`. -/
def releaseResponseResource : Live σ Unit :=
  if responseCarriesResource response.op then
    if response.op = .uploadResourceOffer then
      match uploadResourceIdFromOffer response with
      | none => pure ()
      | some resourceId =>
        modify (fun s => { s with engine := engine.takeResourcePayload resourceId s.engine })
    else
      match resourceOfferId response.body with
      | none => throw (.message "OMENchat resource release decode failed")
      | some resourceId =>
        modify (fun s => { s with engine := engine.takeResourcePayload resourceId s.engine })
  else pure ()

def broadcastUserlistForRoom (roomId : UInt32) : Live σ Unit := do
  let linkIds ← read (fun s => LiveServer.roomLinkIdsIncluding s roomId)
  let peers ← read (fun s => LiveServer.activePeersInRoom s roomId)
  -- with no link there is nothing to send
  forEach (fun linkId => do
    let coloured ← read (fun s => LiveServer.negotiated s s.nicknameColourLinks linkId)
    let frame ← onEngine (engine.activeUserlistFrame roomId peers coloured)
    let sent ← attempt (sendResponseFrame host engine linkId frame)
    releaseResponseResource engine frame
    lift sent) linkIds

end Sending

/-! Links come and go. -/

def activeLinkMaxItems : Nat := 256
def pendingHandshakeMaxItems : Nat := 32
def handshakeTimeoutSeconds : Int := 30

def isGeneratedPeerName (name : String) : Bool :=
  "link-".toList.isPrefixOf name.toList || "peer-".toList.isPrefixOf name.toList

def isProvisionalPeer (peer : ServerPeer) : Bool :=
  peer.identityHash.length == 16 && "link-".toList.isPrefixOf peer.displayName.toList

def shortLinkId : String := String.ofList ((linkId.toList.take 4).flatMap hexByte)

/-- Who a link speaks for before it has said so. -/
def provisionalPeer : ServerPeer :=
  { identityHash := linkId.toList
    displayName := "link-" ++ shortLinkId linkId
    lxmfDestination := none }

namespace LiveServer
variable (engine : SessionEngine σ)

section
variable (linkId : LinkId) (s : LiveServer σ)

/-- What every way to tear a link down forgets of it. -/
def forgetLink : LiveServer σ :=
  { s with
    peers := s.peers.erase linkId
    replayCache := LinkReplayCache.removeLink s.replayCache linkId
    linkRooms := s.linkRooms.erase linkId
    linkResponseContexts := s.linkResponseContexts.erase linkId
    linkOpenedAt := s.linkOpenedAt.erase linkId
    linkTraffic := s.linkTraffic.erase linkId
    identifiedLinks := s.identifiedLinks.erase linkId
    sessionOpenLinks := s.sessionOpenLinks.erase linkId
    durableSessions := s.durableSessions.erase linkId
    moderationAuditLinks := s.moderationAuditLinks.erase linkId
    announcementRoomLinks := s.announcementRoomLinks.erase linkId
    slowModeLinks := s.slowModeLinks.erase linkId
    roomMediaPolicyLinks := s.roomMediaPolicyLinks.erase linkId
    nicknameColourLinks := s.nicknameColourLinks.erase linkId }

def closeOnTransport : LiveServer σ :=
  { s with transport := s.transport.closeLink linkId }

/-- `discard_channel_uploads_for_link`. -/
def discardChannelUploads : LiveServer σ :=
  { s with channelUploads := s.channelUploads.filter (fun upload => !(upload.1 == linkId)) }

end

variable (identityHash : Bytes) (s : LiveServer σ)

def discardPendingUploadsForIdentity : LiveServer σ :=
  { s with engine := engine.discardPendingUploadsForIdentity identityHash s.engine }

def discardPendingUploadsWithoutActivePeer : LiveServer σ :=
  if s.peers.values.any (fun peer => peer.identityHash == identityHash) then s
  else s.discardPendingUploadsForIdentity engine identityHash

def retireDuplicatePeerLink (linkId : LinkId) (s : LiveServer σ) : LiveServer σ :=
  (s.closeOnTransport linkId).forgetLink linkId

def retireLink (linkId : LinkId) (s : LiveServer σ) : LiveServer σ :=
  let closed := (s.closeOnTransport linkId).forgetLink linkId
  match s.peers[linkId]? with
  | some peer => closed.discardPendingUploadsWithoutActivePeer engine peer.identityHash
  | none => closed

/-- The other links of the peer's identity. -/
def duplicateLinks (linkId : LinkId) (peer : ServerPeer) : List LinkId :=
  (s.peers.toList.filter
    (fun p => p.1 != linkId && p.2.identityHash == peer.identityHash)).map (·.1)

def replaceDuplicatePeerLinks (linkId : LinkId) (peer : ServerPeer) (s : LiveServer σ) :
    LiveServer σ :=
  (s.duplicateLinks linkId peer).foldl (fun s duplicate => s.retireDuplicatePeerLink duplicate) s

def expiredHandshakes (now : Int) : List LinkId :=
  (s.linkOpenedAt.toList.filter (fun p => !s.handshakeComplete p.1 &&
    Ints.saturatingSub now p.2 ≥ handshakeTimeoutSeconds)).map (·.1)

def expirePendingHandshakes (now : Int) (s : LiveServer σ) : LiveServer σ :=
  (s.expiredHandshakes now).foldl (fun s linkId => s.retireLink engine linkId) s

/-- `admit_new_link`: a link over the limits is closed. -/
def admits : Bool :=
  s.peers.size < activeLinkMaxItems && s.pendingHandshakeCount < pendingHandshakeMaxItems

def peerForLinkOpen (linkId : LinkId) (peer : ServerPeer) : ServerPeer :=
  match s.peers[linkId]? with
  | none => peer
  | some existing =>
    if !isProvisionalPeer existing && isProvisionalPeer peer then existing
    else
      { peer with
        displayName :=
          if isGeneratedPeerName peer.displayName && !isGeneratedPeerName existing.displayName then
            existing.displayName
          else peer.displayName
        lxmfDestination := peer.lxmfDestination.or existing.lxmfDestination }

end LiveServer

variable (host : Host) (engine : SessionEngine σ)

def disconnectIdentity (identityHash : Bytes) : Live σ Unit := do
  let linkIds ← read (fun s : LiveServer σ =>
    (s.peers.toList.filter (fun p => p.2.identityHash == identityHash)).map (·.1))
  let affectedRooms ← read (fun s : LiveServer σ => linkIds.filterMap (s.linkRooms[·]?))
  modify (LiveServer.discardPendingUploadsForIdentity engine identityHash)
  modify (fun s => linkIds.foldl
    (fun s linkId => (s.closeOnTransport linkId).forgetLink linkId) s)
  forEach (fun roomId => do
    let _ ← attempt (broadcastUserlistForRoom host engine roomId)
    pure ()) affectedRooms.eraseDups

end Omen.Server
