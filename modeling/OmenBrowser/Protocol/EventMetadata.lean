import OmenBrowser.Lib.Ints
import OmenBrowser.Lib.Outcome
import OmenBrowser.Protocol.Frame
import OmenBrowser.Protocol.RichMessage

/- Reply and mention metadata in the value of a room event
   (`omenchat-protocol/src/rich_message.rs`).

   An event is six fields, or eight with metadata. What was appended to the six is what is parsed
   from the eight. -/
namespace Omen.Protocol
open Wire Outcome

def legacyRoomEventFields : Nat := 6
def richRoomEventFields : Nat := 8

/-- The mentioned users, as they are in the event. -/
def mentionsValue (mentions : List UserId) : FrameValue :=
  .array (mentions.map fun userId => .u64 userId.toUInt64)

/-- The reply and the mentions behind the six fields of an event. -/
def appendRichMessageEventMetadata (fields : List FrameValue) (metadata : RichMessageEventMetadata) :
    Except RichMessageError (List FrameValue) := do
  if fields.length ≠ legacyRoomEventFields then throw .invalidEventShape
  metadata.validate
  pure (fields ++
    [metadata.replyToEventId.elim .nil (fun eventId => .u64 (UInt64.ofNat eventId)),
      mentionsValue metadata.mentionedUserIds])

/-- A mention is a user id of 32 bits. -/
def parseMention : FrameValue → Except RichMessageError UserId
  | .u64 userId =>
    if userId.toNat < 2 ^ 32 then .ok (UInt32.ofNat userId.toNat) else .error .invalidMentionId
  | _ => .error .invalidMentionShape

def parseMentions : FrameValue → Except RichMessageError (List UserId)
  | .array values => do
    if values.length > richMessageMaxMentions then throw .tooManyMentions
    let mentions ← values.mapM parseMention
    validateMentions mentions
    pure mentions
  | _ => .error .invalidMentionShape

/-- An event that answers none has nil; no event has id zero. -/
def parseReplyToEventId : FrameValue → Except RichMessageError (Option EventId)
  | .nil => .ok none
  | .u64 eventId => if eventId = 0 then .error .invalidReplyReference else .ok (some eventId.toNat)
  | _ => .error .invalidEventShape

/-- An event of six fields has no metadata; any other number but eight is refused. -/
def parseRichMessageEventMetadata (fields : List FrameValue) :
    Except RichMessageError (Option RichMessageEventMetadata) :=
  if fields.length = legacyRoomEventFields then .ok none
  else if fields.length ≠ richRoomEventFields then .error .invalidEventShape
  else do
    let replyToEventId ← parseReplyToEventId (fields.getD legacyRoomEventFields .nil)
    let mentionedUserIds ← parseMentions (fields.getD (legacyRoomEventFields + 1) .nil)
    let metadata : RichMessageEventMetadata := { replyToEventId, mentionedUserIds }
    metadata.validate
    pure (some metadata)

/-! What is valid. -/

theorem validateMentions_length {ids : List UserId} (h : validateMentions ids = .ok ()) :
    ids.length ≤ richMessageMaxMentions := by
  unfold validateMentions at h
  split at h
  · cases h
  · next hlength => exact Nat.not_lt.mp hlength

theorem metadata_validate_ok {metadata : RichMessageEventMetadata} :
    metadata.validate = .ok () ↔ metadata.replyToEventId ≠ some 0 ∧
      ¬(metadata.replyToEventId = none ∧ metadata.mentionedUserIds = []) ∧
      validateMentions metadata.mentionedUserIds = .ok () := by
  unfold RichMessageEventMetadata.validate validateMetadataPresent
  by_cases hreply : metadata.replyToEventId = some 0
  · simp [hreply, Outcome.bind_ok]
  · cases hr : metadata.replyToEventId with
    | none =>
      cases hm : metadata.mentionedUserIds with
      | nil | cons => simp [bind, Except.bind]
    | some reply =>
      rw [hr] at hreply
      simp [hreply, bind, Except.bind]

/-! What is appended is parsed. -/

variable {fields fields' : List FrameValue} {metadata : RichMessageEventMetadata}

theorem append_ok : appendRichMessageEventMetadata fields metadata = .ok fields' ↔
    fields.length = legacyRoomEventFields ∧ metadata.validate = .ok () ∧
      fields' = fields ++
        [metadata.replyToEventId.elim .nil (fun eventId => .u64 (UInt64.ofNat eventId)),
          mentionsValue metadata.mentionedUserIds] := by
  unfold appendRichMessageEventMetadata
  by_cases hlength : fields.length = legacyRoomEventFields
  · cases hvalid : metadata.validate with
    | error e => simp [hlength, bind, Except.bind]
    | ok _ => simp [hlength, bind, Except.bind, pure, Except.pure, eq_comm]
  · simp [hlength, bind, Except.bind, throw, throwThe, MonadExceptOf.throw]

end Omen.Protocol
