import OmenBrowser.Lib.Fnv
import OmenBrowser.Lib.Text
import OmenBrowser.Protocol.EventMetadata

/- Room events as the client has them (`chat/model.rs`, `chat/live.rs`).

   Correspondence (Rust ↔ Lean):
     `FrameValueExt`                              ↔ `fieldArray`, `fieldU64`, `fieldI64`, `fieldStr`
     `bounded_chat_text`                          ↔ `boundedChatText`
     `parse_event`                                ↔ `parseEvent` -/
namespace Omen.Client
open Wire Text Omen.Protocol

def chatActorDisplayMaxBytes : Nat := 256
def chatResourceIdMaxBytes : Nat := 4 * 1024
def chatUploadFilenameMaxBytes : Nat := 4 * 1024

structure ChatMessageMetadata where
  replyToEventId : Option UInt64
  mentionedUserIds : List UserId
  deriving DecidableEq

inductive ChatEventKind where
  | message (body : String)
  | richMessage (body : String) (metadata : ChatMessageMetadata)
  | action (body : String)
  | notice (body : String)
  | system (body : String)
  | upload (resourceId filename : String) (bytes : UInt64)
  deriving DecidableEq

structure ChatEvent where
  serverId : String
  roomId : UInt32
  eventId : UInt64
  actorUserId : Option UserId
  actorDisplayName : Option String
  atUnix : Int64
  kind : ChatEventKind
  deriving DecidableEq

/-! Fields of a value. -/

def fieldArray : FrameValue → Option (List FrameValue)
  | .array values => some values
  | _ => none

def fieldU64 : FrameValue → Option UInt64
  | .u64 value => some value
  | .i64 value => if 0 ≤ value then some value.toUInt64 else none
  | _ => none

def fieldI64 : FrameValue → Option Int64
  | .i64 value => some value
  | .u64 value => if value.toNat < 2 ^ 63 then some value.toInt64 else none
  | _ => none

def fieldStr : FrameValue → Option String
  | .string value => some value
  | _ => none

/-! Texts. -/

def chatTextFits (value : String) (maxBytes : Nat) : Bool := decide ((utf8 value).length ≤ maxBytes)

/-- The longest front part of at most so many bytes, at a character's boundary. -/
def takeBytes : Nat → List Char → List Char
  | _, [] => []
  | n, c :: cs => if c.utf8Size ≤ n then c :: takeBytes (n - c.utf8Size) cs else []

def boundedChatText (value : String) (maxBytes : Nat) : String :=
  if (utf8 value).length ≤ maxBytes then value
  else if maxBytes < '…'.utf8Size then ""
  else String.ofList (takeBytes (maxBytes - '…'.utf8Size) value.toList ++ ['…'])

theorem boundedChatText_of_fits {value : String} {maxBytes : Nat}
    (h : (utf8 value).length ≤ maxBytes) : boundedChatText value maxBytes = value := if_pos h

/-! Events. -/

variable (fields : List FrameValue)

def parseUploadKind : Option ChatEventKind := do
  let resourceId ← fields[6]?.bind fieldStr
  let filename ← fields[7]?.bind fieldStr
  if resourceId = "" ∨ chatTextFits resourceId chatResourceIdMaxBytes = false then none
  else
    let bytes ← fields[8]?.bind fieldU64
    some (.upload resourceId (boundedChatText filename chatUploadFilenameMaxBytes) bytes)

def parseRichKind (body : String) : Option ChatEventKind :=
  match parseRichMessageEventMetadata fields with
  | .ok (some metadata) =>
    some (.richMessage body
      { replyToEventId := metadata.replyToEventId.map UInt64.ofNat
        mentionedUserIds := metadata.mentionedUserIds })
  | _ => none

def parseEventKind (kindId : UInt64) (body : String) : Option ChatEventKind :=
  if kindId = 1 then
    if fields.length ≤ 6 then some (.message body) else parseRichKind fields body
  else if kindId = 2 then some (.action body)
  else if kindId = 3 then some (.notice body)
  else if kindId = 4 then some (.system body)
  else if kindId = 5 then parseUploadKind fields
  else none

/-- Nothing, or a number of which the low half is the id. -/
def parseActor : Option FrameValue → Option (Option UserId)
  | none => some none
  | some .nil => some none
  | some value => (fieldU64 value).map (fun userId => some userId.toUInt32)

def parseActorDisplayName : Option FrameValue → Option String
  | some (.string name) =>
    if trim name = "" then none else some (boundedChatText (trim name) chatActorDisplayMaxBytes)
  | _ => none

def parseEvent (serverId : String) (roomId : UInt32) (value : FrameValue) : Option ChatEvent := do
  let fields ← fieldArray value
  let kindId ← fields[1]?.bind fieldU64
  let body ← fields[4]?.bind fieldStr
  let kind ← parseEventKind fields kindId body
  let eventId ← fields[0]?.bind fieldU64
  let actorUserId ← parseActor fields[2]?
  let atUnix ← fields[3]?.bind fieldI64
  pure
    { serverId
      roomId
      eventId
      actorUserId
      actorDisplayName := parseActorDisplayName fields[5]?
      atUnix
      kind }

end Omen.Client
