import OmenBrowser.Lib.Fnv
import OmenBrowser.Server.EventValues
import OmenBrowser.Server.Live

/- What a member of a room is answered to a request for its history (`handle_history_before`,
   `handle_history_recent` of `server/src/session.rs`).

   A request for older events is answered with those below an id, a request for the recent ones
   with those events unless the requester has them already: it sends a fingerprint of what it
   has, and the server makes one of what it would send.

   Correspondence (Rust ↔ Lean):
     `return Ok(vec![..])` before the answer       ↔ `Found.answered`
     `body_u64`                                    ↔ `bodyU64`
     `handle_history_before`                       ↔ `historyBefore`, as `handleHistoryBefore` reads it
     `server_history_fingerprint`                  ↔ `serverHistoryFingerprint`
     `handle_history_recent`                       ↔ `historyRecent` -/
namespace Omen.Server
open Wire Sql Ints Fnv Omen.Protocol List UInt64

/-- A frame that offers nothing. -/
structure PlainFrame where
  frame : Frame
  plain : responseCarriesResource frame.op = false

/-- A handler's answer, or what an answer is to be put together of. -/
inductive Found (α : Type) where
  | answered (frames : List PlainFrame)
  | found (reply : α)

/-! Requests. -/

/-- The first number of a body. -/
def bodyU64 : FrameBody → Option UInt64
  | .fields values => values.findSome? frameValueU64
  | _ => none

/-- `body_u64(&body).unwrap_or(i64::MAX as u64).min(i64::MAX as u64)`. -/
def historyCursor (body : FrameBody) : Nat :=
  min ((bodyU64 body).elim i64Max.toNat UInt64.toNat) i64Max.toNat

/-- `RecentHistoryFingerprint` of the client and `HistoryFingerprint` of the server. -/
structure HistoryFingerprint where
  firstEventId : UInt64
  lastEventId : UInt64
  eventCount : UInt64
  checksum : UInt64
  deriving DecidableEq

/-- The body of a `HistoryRecent`, and of the answer that the history is current. -/
def HistoryFingerprint.body (f : HistoryFingerprint) : FrameBody :=
  .fields [.u64 f.firstEventId, .u64 f.lastEventId, .u64 f.eventCount, .u64 f.checksum]

variable (checksum : UInt64)

def mixRoomKind : ServerRoomEventKind → UInt64
  | .message body => mixBytes (mixU64 checksum 1) body
  | .action body => mixBytes (mixU64 checksum 2) body
  | .notice body => mixBytes (mixU64 checksum 3) body
  | .system body => mixBytes (mixU64 checksum 4) body
  | .upload resourceId filename bytes =>
    mixU64 (mixBytes (mixBytes (mixU64 checksum 5) resourceId) filename) (ofNat bytes)

def mixRoomEvent (event : ServerRoomEvent) : UInt64 :=
  let checksum := mixU64 checksum (ofNat event.eventId)
  let checksum := mixU64 checksum (ofNat event.roomId)
  let checksum := mixU64 checksum (event.actorUserId.getD 0).toUInt64
  let checksum := mixU64 checksum (Int64.ofInt event.atUnix).toUInt64
  let checksum := mixBytes checksum (event.actorDisplayName.getD "")
  mixRoomKind checksum event.kind

def serverHistoryFingerprint (events : List ServerRoomEvent) : HistoryFingerprint :=
  { firstEventId := ofNat ((events.head?.map ServerRoomEvent.eventId).getD 0)
    lastEventId := ofNat ((events.getLast?.map ServerRoomEvent.eventId).getD 0)
    eventCount := ofNat events.length
    checksum := events.foldl mixRoomEvent offsetBasis }

/-- A field that is not there, or is no number, counts as zero. -/
def historyFingerprintBody : FrameBody → HistoryFingerprint
  | .fields values =>
    let field := fun i : Nat => (values[i]?.bind frameValueU64).getD 0
    { firstEventId := field 0, lastEventId := field 1, eventCount := field 2, checksum := field 3 }
  | _ => ⟨0, 0, 0, 0⟩

def historyCurrent (seq roomId : UInt32) (f : HistoryFingerprint) : PlainFrame :=
  ⟨Frame.new .historyCurrent seq (some roomId) f.body, rfl⟩

@[simp] theorem historyFingerprintBody_body (f : HistoryFingerprint) :
    historyFingerprintBody f.body = f := rfl

/-! Handlers. -/

section Handlers
variable (humanBytes : HumanBytes) (historyBatchSize : Nat)

/-- What a member of the room is answered. -/
def historyBefore (db : Database) (user : ServerUser) (seq roomId : UInt32) (body : FrameBody) :
    Except ServerError (Found (List FrameValue)) :=
  if (db.roomMembers.find? (roomId.toNat, (user.userId.toNat : Int))).isNone then
    .ok (.answered [⟨errorFrame seq (some roomId) .notJoined "join the room before requesting history",
      rfl⟩])
  else do
    let events ← db.eventsBefore roomId.toNat (historyCursor body) historyBatchSize
    let values ← events.mapM (eventToValue humanBytes)
    pure (.found values)

def historyRecent (db : Database) (user : ServerUser) (seq roomId : UInt32) (body : FrameBody) :
    Except ServerError (Found (List FrameValue)) :=
  if (db.roomMembers.find? (roomId.toNat, (user.userId.toNat : Int))).isNone then
    .ok (.answered [⟨errorFrame seq (some roomId) .notJoined "join the room before syncing history",
      rfl⟩])
  else do
    let events ← db.latestEvents roomId.toNat historyBatchSize
    let server := serverHistoryFingerprint events
    if historyFingerprintBody body = server then
      pure (.answered [historyCurrent seq roomId server])
    else do
      let values ← events.mapM (eventToValue humanBytes)
      if values.isEmpty then
        pure (.answered [historyCurrent seq roomId { server with
          firstEventId := 0, lastEventId := 0, eventCount := 0 }])
      else pure (.found values)

end Handlers

end Omen.Server
