import OmenBrowser.Protocol.RichMessage

/- Reactions and pins of room events (`omenchat-protocol/src/reactions.rs` and `pins.rs`):
   what a client asks for, and what the members of a room are told. -/
namespace Omen.Protocol

/-! Reactions. -/

/-- The reactions there are. -/
inductive ReactionToken where
  | thumbsUp
  | heart
  | laugh
  | surprised
  | sad
  | thumbsDown
  | celebrate
  | question
  deriving DecidableEq, Repr

/-- The name of a reaction on the wire and in the database. -/
def ReactionToken.asStr : ReactionToken → String
  | .thumbsUp => "thumbs_up"
  | .heart => "heart"
  | .laugh => "laugh"
  | .surprised => "surprised"
  | .sad => "sad"
  | .thumbsDown => "thumbs_down"
  | .celebrate => "celebrate"
  | .question => "question"

inductive ReactionAction where
  | add
  | remove
  deriving DecidableEq, Repr

/-- `self as u8`. -/
def ReactionAction.code : ReactionAction → Nat
  | .add => 1
  | .remove => 2

structure ReactionRequest where
  targetEventId : EventId
  token : ReactionToken
  action : ReactionAction
  deriving DecidableEq, Repr

/-- What the room is told of a reaction. -/
structure ReactionEvent where
  reactionEventId : EventId
  targetEventId : EventId
  actorUserId : UserId
  token : ReactionToken
  action : ReactionAction
  atUnix : Int
  deriving DecidableEq, Repr

/-! Pins. -/

inductive PinAction where
  | pin
  | unpin
  deriving DecidableEq, Repr

/-- `self as u8`. -/
def PinAction.code : PinAction → Nat
  | .pin => 1
  | .unpin => 2

/-- What a client asks for. -/
structure PinRequest where
  targetEventId : EventId
  action : PinAction
  deriving DecidableEq, Repr

/-- What the room is told of a pin. -/
structure PinEvent where
  pinEventId : EventId
  targetEventId : EventId
  action : PinAction
  actorUserId : UserId
  atUnix : Int
  deriving DecidableEq, Repr

end Omen.Protocol
