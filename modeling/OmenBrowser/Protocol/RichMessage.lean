import OmenBrowser.Lib.Wire

/- Reply and mention metadata of a room message
   (`omenchat-protocol/src/rich_message.rs`): the metadata an event carries, and the
   check every writer and reader of it makes. -/
namespace Omen.Protocol

abbrev RoomId := Nat
abbrev EventId := Nat
abbrev UserId := UInt32

def richMessageMaxMentions : Nat := 16

/-- The errors of an event's metadata. -/
inductive RichMessageError where
  | invalidReplyReference
  | invalidMentionShape
  | invalidMentionId
  | tooManyMentions
  | nonCanonicalMentions
  | emptyMetadata
  | invalidEventShape
  deriving DecidableEq, Repr

def RichMessageError.text : RichMessageError → String
  | .invalidReplyReference => "rich message reply reference is invalid"
  | .invalidMentionShape => "rich message mention list must be an array of unsigned user ids"
  | .invalidMentionId => "rich message mention user id is invalid"
  | .tooManyMentions => s!"rich message contains more than {richMessageMaxMentions} mentions"
  | .nonCanonicalMentions => "rich message mention ids must be strictly increasing and unique"
  | .emptyMetadata => "rich message extension must contain a reply or at least one mention"
  | .invalidEventShape => "rich message event must have exactly six legacy or eight rich fields"

/-- What a rich message has beside its text. -/
structure RichMessageEventMetadata where
  replyToEventId : Option EventId
  mentionedUserIds : List UserId
  deriving DecidableEq, Repr

/-- `mentions.windows(2).any(|pair| pair[0] >= pair[1])`. -/
def hasDescent : List UserId → Bool
  | a :: b :: rest => decide (b ≤ a) || hasDescent (b :: rest)
  | _ => false

/-- Mentions are bounded in number, never zero, and in rising order. -/
def validateMentions (mentions : List UserId) : Except RichMessageError Unit :=
  if mentions.length > richMessageMaxMentions then .error .tooManyMentions
  else if mentions.contains 0 then .error .invalidMentionId
  else if hasDescent mentions then .error .nonCanonicalMentions
  else .ok ()

/-- Metadata that says nothing is not written. -/
def validateMetadataPresent (hasReply : Bool) (mentions : List UserId) :
    Except RichMessageError Unit :=
  if !hasReply && mentions.isEmpty then .error .emptyMetadata else .ok ()

/-- `RichMessageEventMetadata::validate`. -/
def RichMessageEventMetadata.validate (metadata : RichMessageEventMetadata) :
    Except RichMessageError Unit := do
  if metadata.replyToEventId = some 0 then throw .invalidReplyReference
  validateMetadataPresent metadata.replyToEventId.isSome metadata.mentionedUserIds
  validateMentions metadata.mentionedUserIds

end Omen.Protocol
