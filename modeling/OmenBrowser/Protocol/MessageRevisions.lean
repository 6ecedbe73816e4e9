import OmenBrowser.Protocol.RichMessage

/- Message revisions (`omenchat-protocol/src/message_revisions.rs`): what a client asks for,
   and what the members of a room are told. -/
namespace Omen.Protocol

/-- The revisions a message can have. -/
def messageRevisionMaxNumber : Nat := 9

/-- A message is corrected, or deleted for good. -/
inductive MessageRevisionAction where
  | correct
  | tombstone
  deriving DecidableEq, Repr

/-- `self as u8`. -/
def MessageRevisionAction.code : MessageRevisionAction → Nat
  | .correct => 1
  | .tombstone => 2

/-- `TryFrom<u64>`. -/
def MessageRevisionAction.ofCode? : Nat → Option MessageRevisionAction
  | 1 => some .correct
  | 2 => some .tombstone
  | _ => none

/-- What a client asks for. -/
structure MessageRevisionRequest where
  targetEventId : EventId
  action : MessageRevisionAction
  replacement : Option String
  deriving DecidableEq, Repr

/-- What the room is told of it. -/
structure MessageRevisionEvent where
  revisionEventId : EventId
  targetEventId : EventId
  action : MessageRevisionAction
  actorUserId : UserId
  atUnix : Int
  replacement : Option String
  revisionNumber : Nat
  actorDisplayName : Option String
  deriving DecidableEq, Repr

end Omen.Protocol
