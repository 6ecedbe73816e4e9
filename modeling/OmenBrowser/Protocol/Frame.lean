import OmenBrowser.Lib.Wire

/- The shared wire types of protocol version 1
   (`omenchat-protocol/src/lib.rs`): operation codes, frames, and the recursive
   value a frame's body carries. Fixed-width fields keep their width, so a value
   that does not fit its field cannot be built. -/
namespace Omen.Protocol
open Wire

def protocolVersion : UInt8 := 1

/-- The operations of the protocol, in the order of their numbers. -/
inductive ChatOp where
  | sessionOpen | sessionAccept | sessionReject | joinRoom | joinAccept | partRoom
  | roomSubscribe | roomUnsubscribe | roomMessage | roomAction | roomNotice | roomEvent
  | messageAck | roomReaction | reactionAck | reactionEvent | reactionSnapshotInline
  | reactionSnapshotResource | userListSnapshotInline | userListSnapshotResource | userDelta
  | roomDelta | roleDelta | roomMessageRevision | messageRevisionAck | messageRevisionEvent
  | messageRevisionSnapshotInline | messageRevisionSnapshotResource | historyBefore
  | historyInline | historyResourceOffer | historyEnd | historyRecent | historyCurrent | roomPin
  | pinAck | pinEvent | pinSnapshot | command | commandResult | moderationAuditBefore
  | moderationAuditInline | moderationAuditResource | moderationAuditEnd | contactRequest
  | contactOffer | contactAccept | contactReject | uploadOffer | uploadAccept | uploadReject
  | uploadComplete | uploadFetch | uploadResourceOffer | uploadInlineChunk | nicknameColourSet
  | nicknameColourAck | nicknameColourEvent | error | ping | pong
  deriving DecidableEq, Repr

/-- Why bytes are no frame. -/
inductive ProtocolError where
  | unknownOp (value : Nat)
  | unknownCompression (value : Nat)
  | malformedFrame (text : String)
  deriving DecidableEq, Repr

/-- `op as u16`. -/
def ChatOp.code : ChatOp → UInt16
  | .sessionOpen => 1
  | .sessionAccept => 2
  | .sessionReject => 3
  | .joinRoom => 10
  | .joinAccept => 11
  | .partRoom => 12
  | .roomSubscribe => 13
  | .roomUnsubscribe => 14
  | .roomMessage => 20
  | .roomAction => 21
  | .roomNotice => 22
  | .roomEvent => 23
  | .messageAck => 24
  | .roomReaction => 25
  | .reactionAck => 26
  | .reactionEvent => 27
  | .reactionSnapshotInline => 28
  | .reactionSnapshotResource => 29
  | .userListSnapshotInline => 30
  | .userListSnapshotResource => 31
  | .userDelta => 32
  | .roomDelta => 33
  | .roleDelta => 34
  | .roomMessageRevision => 35
  | .messageRevisionAck => 36
  | .messageRevisionEvent => 37
  | .messageRevisionSnapshotInline => 38
  | .messageRevisionSnapshotResource => 39
  | .historyBefore => 40
  | .historyInline => 41
  | .historyResourceOffer => 42
  | .historyEnd => 43
  | .historyRecent => 44
  | .historyCurrent => 45
  | .roomPin => 46
  | .pinAck => 47
  | .pinEvent => 48
  | .pinSnapshot => 49
  | .command => 50
  | .commandResult => 51
  | .moderationAuditBefore => 52
  | .moderationAuditInline => 53
  | .moderationAuditResource => 54
  | .moderationAuditEnd => 55
  | .contactRequest => 60
  | .contactOffer => 61
  | .contactAccept => 62
  | .contactReject => 63
  | .uploadOffer => 70
  | .uploadAccept => 71
  | .uploadReject => 72
  | .uploadComplete => 73
  | .uploadFetch => 74
  | .uploadResourceOffer => 75
  | .uploadInlineChunk => 76
  | .nicknameColourSet => 77
  | .nicknameColourAck => 78
  | .nicknameColourEvent => 79
  | .error => 90
  | .ping => 100
  | .pong => 101

/-- `ChatOp::try_from`. -/
def ChatOp.tryFrom (value : Nat) : Except ProtocolError ChatOp :=
  match value with
  | 1 => .ok .sessionOpen
  | 2 => .ok .sessionAccept
  | 3 => .ok .sessionReject
  | 10 => .ok .joinRoom
  | 11 => .ok .joinAccept
  | 12 => .ok .partRoom
  | 13 => .ok .roomSubscribe
  | 14 => .ok .roomUnsubscribe
  | 20 => .ok .roomMessage
  | 21 => .ok .roomAction
  | 22 => .ok .roomNotice
  | 23 => .ok .roomEvent
  | 24 => .ok .messageAck
  | 25 => .ok .roomReaction
  | 26 => .ok .reactionAck
  | 27 => .ok .reactionEvent
  | 28 => .ok .reactionSnapshotInline
  | 29 => .ok .reactionSnapshotResource
  | 30 => .ok .userListSnapshotInline
  | 31 => .ok .userListSnapshotResource
  | 32 => .ok .userDelta
  | 33 => .ok .roomDelta
  | 34 => .ok .roleDelta
  | 35 => .ok .roomMessageRevision
  | 36 => .ok .messageRevisionAck
  | 37 => .ok .messageRevisionEvent
  | 38 => .ok .messageRevisionSnapshotInline
  | 39 => .ok .messageRevisionSnapshotResource
  | 40 => .ok .historyBefore
  | 41 => .ok .historyInline
  | 42 => .ok .historyResourceOffer
  | 43 => .ok .historyEnd
  | 44 => .ok .historyRecent
  | 45 => .ok .historyCurrent
  | 46 => .ok .roomPin
  | 47 => .ok .pinAck
  | 48 => .ok .pinEvent
  | 49 => .ok .pinSnapshot
  | 50 => .ok .command
  | 51 => .ok .commandResult
  | 52 => .ok .moderationAuditBefore
  | 53 => .ok .moderationAuditInline
  | 54 => .ok .moderationAuditResource
  | 55 => .ok .moderationAuditEnd
  | 60 => .ok .contactRequest
  | 61 => .ok .contactOffer
  | 62 => .ok .contactAccept
  | 63 => .ok .contactReject
  | 70 => .ok .uploadOffer
  | 71 => .ok .uploadAccept
  | 72 => .ok .uploadReject
  | 73 => .ok .uploadComplete
  | 74 => .ok .uploadFetch
  | 75 => .ok .uploadResourceOffer
  | 76 => .ok .uploadInlineChunk
  | 77 => .ok .nicknameColourSet
  | 78 => .ok .nicknameColourAck
  | 79 => .ok .nicknameColourEvent
  | 90 => .ok .error
  | 100 => .ok .ping
  | 101 => .ok .pong
  | _ => .error (.unknownOp value)

theorem ChatOp.tryFrom_code (op : ChatOp) : ChatOp.tryFrom op.code.toNat = .ok op := by
  cases op <;> rfl

theorem ChatOp.code_inj {a b : ChatOp} (h : a.code = b.code) : a = b := by
  have hb := ChatOp.tryFrom_code b
  rw [← h, ChatOp.tryFrom_code] at hb
  exact Except.ok.inj hb

/-- Every accepted code is the operation's own: an operation is named by one integer only. -/
theorem ChatOp.tryFrom_ok {n : Nat} {op : ChatOp} (h : ChatOp.tryFrom n = .ok op) :
    op.code.toNat = n := by
  unfold ChatOp.tryFrom at h
  split at h <;> cases h <;> rfl

/-- A value of a frame's body. -/
inductive FrameValue where
  | nil
  | bool (value : Bool)
  | u64 (value : UInt64)
  | i64 (value : Int64)
  | string (value : String)
  | bytes (value : Bytes)
  | array (values : List FrameValue)

def frameValueString : FrameValue → Option String
  | .string value => some value
  | _ => none

/-- What a frame holds: nothing, a text or a list of values. -/
inductive FrameBody where
  | empty
  | text (value : String)
  | fields (values : List FrameValue)

/-- A message of the protocol, as it is before it is encoded. -/
structure Frame where
  version : UInt8
  op : ChatOp
  flags : UInt16
  seq : UInt32
  roomId : Option UInt32
  body : FrameBody

/-- `Frame::new`. -/
def Frame.new (op : ChatOp) (seq : UInt32) (roomId : Option UInt32) (body : FrameBody) : Frame :=
  { version := protocolVersion, op, flags := 0, seq, roomId, body }

end Omen.Protocol
