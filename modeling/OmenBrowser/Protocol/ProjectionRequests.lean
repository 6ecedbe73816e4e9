import OmenBrowser.Lib.Text
import OmenBrowser.Protocol.EventMetadata
import OmenBrowser.Protocol.ProjectionBodies
import OmenBrowser.Protocol.RevisionBodies

/- What a client asks for as a frame body: reactions, message revisions, pins, and messages with
   metadata (`omenchat-protocol/src/reactions.rs`, `message_revisions.rs`, `pins.rs`,
   `rich_message.rs`).

   The body of a reaction, a revision or a pin is read back as the request it was written from.
   Whoever reads one here only asks whether it can be read: the errors are left out. -/
namespace Omen.Protocol
open Wire Outcome

def reactionBodyTag : String := "reaction-v1"
def messageRevisionBodyTag : String := "message-revision-v1"
def roomPinBodyTag : String := "room-pin-v1"
def replyMentionsBodyTag : String := "reply-mentions-v1"
def richMessageBodyMaxBytes : Nat := 512 * 1024

/-! Reactions. -/

variable {body : FrameBody} {target : UInt64}

namespace ReactionRequest

/-- A reaction as a request; the target is an event. -/
def intoFrameBody (target : UInt64) (token : ReactionToken) (action : ReactionAction) :
    Except ReactionError FrameBody := do
  validateEventId .invalidEventId target
  pure (.fields [.string reactionBodyTag, .u64 target, .string token.asStr,
    .u64 (UInt64.ofNat action.code)])

/-- The request read; whatever is wrong with it, there is none. -/
def fromFrameBody? : FrameBody → Option ReactionRequest
  | .fields [.string tag, .u64 target, .string token, .u64 action] =>
    if tag = reactionBodyTag ∧ target ≠ 0 then do
      let token ← (parseToken token).toOption
      let action ← (ReactionAction.tryFrom action).toOption
      pure { targetEventId := target.toNat, token, action }
    else none
  | _ => none

theorem fromFrameBody?_written {token : ReactionToken} {action : ReactionAction}
    (h : intoFrameBody target token action = .ok body) :
    fromFrameBody? body = some { targetEventId := target.toNat, token, action } := by
  obtain ⟨htarget, hbody⟩ := check_ok.mp h
  cases hbody
  simp [fromFrameBody?, validateEventId_ok.mp htarget, parseToken_asStr, ReactionAction.tryFrom_code,
    Except.toOption]

end ReactionRequest

/-! Revisions. -/

namespace MessageRevisionRequest

/-- A revision as a request; a correction has a text, a deletion none. -/
def intoFrameBody (target : UInt64) (action : MessageRevisionAction) (replacement : Option String) :
    Except MessageRevisionError FrameBody := do
  validateEventId .invalidEventId target
  validateReplacement action replacement
  pure (.fields [.string messageRevisionBodyTag, .u64 target, .u64 (UInt64.ofNat action.code),
    optionalStringValue replacement])

def fromFrameBody? : FrameBody → Option MessageRevisionRequest
  | .fields [.string tag, .u64 target, .u64 action, replacement] =>
    if tag = messageRevisionBodyTag ∧ target ≠ 0 then do
      let action ← (MessageRevisionAction.tryFrom action).toOption
      let replacement ← (parseReplacement replacement).toOption
      (validateReplacement action replacement).toOption
      pure { targetEventId := target.toNat, action, replacement }
    else none
  | _ => none

theorem fromFrameBody?_written {action : MessageRevisionAction} {replacement : Option String}
    (h : intoFrameBody target action replacement = .ok body) :
    fromFrameBody? body =
      some { targetEventId := target.toNat, action, replacement } := by
  obtain ⟨htarget, h⟩ := check_ok.mp h
  obtain ⟨hreplacement, hbody⟩ := check_ok.mp h
  cases hbody
  simp [fromFrameBody?, validateEventId_ok.mp htarget, MessageRevisionAction.tryFrom_code,
    parseReplacement_value hreplacement, hreplacement, Except.toOption]

end MessageRevisionRequest

/-! Pins. -/

namespace PinRequest

/-- A pin as a request. -/
def intoFrameBody (target : UInt64) (action : PinAction) : Except PinError FrameBody := do
  validateEventId .invalidEventId target
  pure (.fields [.string roomPinBodyTag, .u64 target, .u64 (UInt64.ofNat action.code)])

def fromFrameBody? : FrameBody → Option PinRequest
  | .fields [.string tag, .u64 target, .u64 action] =>
    if tag = roomPinBodyTag ∧ target ≠ 0 then do
      let action ← (PinAction.tryFrom action).toOption
      pure { targetEventId := target.toNat, action }
    else none
  | _ => none

theorem fromFrameBody?_written {action : PinAction} (h : intoFrameBody target action = .ok body) :
    fromFrameBody? body = some { targetEventId := target.toNat, action } := by
  obtain ⟨htarget, hbody⟩ := check_ok.mp h
  cases hbody
  simp [fromFrameBody?, validateEventId_ok.mp htarget, PinAction.tryFrom_code, Except.toOption]

end PinRequest

/-! Messages with metadata. -/

/-- A text with what it answers and whom it mentions. -/
structure RichMessageBody where
  body : String
  replyTo : Option (UInt32 × UInt64)
  mentionedUserIds : List UserId
  deriving DecidableEq

namespace RichMessageBody

/-- `validate_body`. -/
def bodyFits (body : String) : Bool :=
  !(Text.trim body).isEmpty && decide (body.utf8ByteSize ≤ richMessageBodyMaxBytes)

/-- What is answered, as its room and its event. -/
def replyValue : Option (UInt32 × UInt64) → FrameValue
  | some (roomId, eventId) => .array [.u64 roomId.toUInt64, .u64 eventId]
  | none => .nil

/-- A rich message has a reply or a mention; without either it is written plain. -/
def intoFrameBody? (message : RichMessageBody) : Option FrameBody := do
  guard (bodyFits message.body)
  (validateMetadataPresent message.replyTo.isSome message.mentionedUserIds).toOption
  (validateMentions message.mentionedUserIds).toOption
  guard (message.replyTo.all (fun reply => reply.1 != 0 && reply.2 != 0))
  pure (.fields [.string message.body, .string replyMentionsBodyTag, replyValue message.replyTo,
    mentionsValue message.mentionedUserIds])

/-- A reply names a room and an event, neither of them zero. -/
def parseReplyReference? : FrameValue → Option (Option (UInt32 × UInt64))
  | .nil => some none
  | .array [.u64 roomId, .u64 eventId] =>
    if roomId.toNat < 2 ^ 32 ∧ roomId ≠ 0 ∧ eventId ≠ 0 then some (some (roomId.toUInt32, eventId))
    else none
  | _ => none

def fromFrameBody? : FrameBody → Option RichMessageBody
  | .fields [.string body, .string tag, reply, mentions] =>
    if tag = replyMentionsBodyTag ∧ bodyFits body then do
      let replyTo ← parseReplyReference? reply
      let mentionedUserIds ← (parseMentions mentions).toOption
      (validateMetadataPresent replyTo.isSome mentionedUserIds).toOption
      pure { body, replyTo, mentionedUserIds }
    else none
  | _ => none

end RichMessageBody

end Omen.Protocol
