import OmenBrowser.Lib.Act
import OmenBrowser.Protocol.DurableEnvelope
import OmenBrowser.Server.SessionOpen
import OmenBrowser.Server.Users

/- What the live server asks of the session engine (`server/src/session.rs`).

   `SessionEngine σ` lists the operations `server/src/live.rs` calls, over whatever state
   `σ` the engine has: its store, its pending resources and uploads, its rate buckets, and
   the readings of the clock still to come. An operation that only reads is a function of
   the state; one that may write is an action, whose writes stay when it fails.

   The uploads staged over a link's channel are kept beside `σ`: the handler of an
   attachment frame may at most begin or drop the stage of its own link and resource.

   Correspondence (Rust ↔ Lean):
     `handle_frame_with_negotiated_features_and_nickname_colours` ↔ `handleFrame`
     `latest_reaction_snapshot_frame` and its two siblings        ↔ `latestSnapshotFrame`
     what these build once the limit is known                     ↔ `recentSnapshot`
     `ChannelAttachmentFrame::decode`, `handle_channel_upload_frame` ↔ `channelUpload` -/
namespace Omen.Server
open Wire Omen.Protocol

/-- `[u8; 16]`, in the order of its bytes. -/
abbrev LinkId := Vector UInt8 16

inductive ChatErrorCode where
  | permissionDenied | notJoined | roomNotFound | userNotFound | rateLimited | historyUnavailable
  | malformedFrame | unsupportedProtocolVersion | compressionUnsupported | resourceUnavailable
  | durableMutationNotNegotiated | durableMutationMalformed | durableMutationConflict
  | durableMutationResultExpired | durableMutationStoreBusy | roomPolicyRestricted
  | slowModeActive
  deriving DecidableEq, Repr

/-- `code as u16`. -/
def ChatErrorCode.code : ChatErrorCode → UInt64
  | .permissionDenied => 1001
  | .notJoined => 1002
  | .roomNotFound => 1003
  | .userNotFound => 1004
  | .rateLimited => 1005
  | .historyUnavailable => 1006
  | .malformedFrame => 1007
  | .unsupportedProtocolVersion => 1008
  | .compressionUnsupported => 1009
  | .resourceUnavailable => 1010
  | .durableMutationNotNegotiated => 1011
  | .durableMutationMalformed => 1012
  | .durableMutationConflict => 1013
  | .durableMutationResultExpired => 1014
  | .durableMutationStoreBusy => 1015
  | .roomPolicyRestricted => 1016
  | .slowModeActive => 1017

/-- `error_frame`, and `durable_dispatch_error_frame` of the live server. -/
def errorFrame (seq : UInt32) (roomId : Option UInt32) (code : ChatErrorCode) (message : String) :
    Frame :=
  Frame.new .error seq roomId (.fields [.u64 code.code, .string message])

/-- The first string of a body. -/
def firstStringOf : List FrameValue → Option String
  | [] => none
  | .string value :: _ => some value
  | _ :: values => firstStringOf values

def bodyString : FrameBody → Option String
  | .text value => some value
  | .fields values => firstStringOf values
  | .empty => none

/-- `format!("{byte:02x}")`. -/
def hexByte (byte : UInt8) : List Char :=
  [Nat.digitChar (byte.toNat / 16), Nat.digitChar (byte.toNat % 16)]

structure DurableMutationDispatch where
  origin : Frame
  broadcasts : List Frame
  disconnectIdentity : Option Bytes
  pruned : Nat

/-- `durable_error_dispatch`. -/
def durableErrorDispatch (seq : UInt32) (roomId : Option UInt32) (code : ChatErrorCode)
    (message : String) : DurableMutationDispatch :=
  { origin := errorFrame seq roomId code message
    broadcasts := []
    disconnectIdentity := none
    pruned := 0 }

structure DurableMutationPeerContext where
  peer : ServerPeer
  activeRoomPeers : List ServerPeer
  durableNoticeAck : Bool
  replyMentions : Bool
  reactions : Bool
  messageRevisions : Bool
  pins : Bool

/-- What the link has negotiated that the engine's handlers look at. -/
structure NegotiatedFeatures where
  moderationAudit : Bool
  roomMediaPolicy : Bool
  nicknameColours : Bool

/-- The snapshots of a room's projections. -/
inductive SnapshotKind where
  | reactions
  | messageRevisions
  | pins
  deriving DecidableEq, Repr

/-- What an attachment frame does to the uploads staged for its link. -/
inductive StageChange where
  | keep
  | start (resourceId : String)
  | drop (resourceId : String)

/-- `SessionLimits`, as far as it is used here. -/
structure SessionLimits where
  joinBacklogEvents : Nat
  historyBatchSize : Nat
  maxMessageBytes : Nat
  uploadQuotaBytes : UInt64

structure SessionEngine (σ : Type) where
  limits : SessionLimits
  handleFrame : ServerPeer → Frame → List ServerPeer → NegotiatedFeatures →
    Act σ ServerError (List Frame)
  localUserId : ServerPeer → Act σ ServerError UserId
  /-- A snapshot over the latest events of the room, at most so many. -/
  recentSnapshot : SnapshotKind → UInt32 → UInt32 → Nat → Act σ ServerError Frame
  moderationDisconnectTargetForFrame : ServerPeer → Frame → List ServerPeer →
    Act σ ServerError (Option Bytes)
  handleDurableNicknameColour : ServerPeer → UInt32 → ClientInstanceId →
    DurableMutationEnvelope → Act σ ServerError DurableMutationDispatch
  handleDurableMutationWithActivePeers : DurableMutationPeerContext → UInt32 → Option UInt32 →
    ChatOp → ClientInstanceId → DurableMutationEnvelope →
    Act σ ServerError DurableMutationDispatch
  roomIdsForIdentity : Bytes → σ → Except ServerError (List UInt32)
  activeUserlistFrame : UInt32 → List ServerPeer → Bool → Act σ ServerError Frame
  shapeUserDelta : Frame → σ → Except ServerError Frame
  shapeRoomFrame : Frame → RoomCatalogShape → σ → Except ServerError Frame
  resourcePayload : String → σ → Option Bytes
  takeResourcePayload : String → σ → σ
  channelUpload : LinkId → ServerPeer → Bytes → Bool → List (LinkId × String) → σ →
    (Except ServerError (List Frame) × StageChange) × σ
  handleUploadResource : ServerPeer → String → Bytes → Bool → Act σ ServerError (List Frame)
  discardPendingUploadsForIdentity : Bytes → σ → σ
  discardUniquePendingUploadForFailure : Bytes → UInt64 → σ → σ

variable {σ : Type}

def SnapshotKind.maxTargets : SnapshotKind → Nat
  | .reactions => 256
  | .messageRevisions => 256
  | .pins => 256

def SnapshotKind.boundaryError : SnapshotKind → String
  | .reactions => "reaction snapshot request does not identify a recent-history boundary"
  | .messageRevisions =>
    "message revision snapshot request does not identify a recent-history boundary"
  | .pins => "pin snapshot request does not identify a recent-history boundary"

/-- `latest_reaction_snapshot_frame`, `latest_message_revision_snapshot_frame` and
`latest_pin_snapshot_frame`: a join and a request for recent history say how many of the latest
events the snapshot is over; no other request does. -/
def SessionEngine.latestSnapshotFrame (engine : SessionEngine σ) (kind : SnapshotKind)
    (seq roomId : UInt32) (requestOp : ChatOp) : Act σ ServerError Frame :=
  match requestOp with
  | .joinRoom =>
    engine.recentSnapshot kind seq roomId (min engine.limits.joinBacklogEvents kind.maxTargets)
  | .historyRecent =>
    engine.recentSnapshot kind seq roomId (min engine.limits.historyBatchSize kind.maxTargets)
  | _ => Act.throw (.message kind.boundaryError)

end Omen.Server
