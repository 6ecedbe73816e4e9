import OmenBrowser.Lib.Pruning
import OmenBrowser.Protocol.ProjectionBodies
import OmenBrowser.Protocol.RevisionBodies
import OmenBrowser.Server.MessageRevisions
import OmenBrowser.Server.SessionEngine

/- The snapshots of what hangs on a room's latest events (`reaction_snapshot`,
   `message_revision_snapshot` and `pin_snapshot` of `server/src/store/`, and what
   `server/src/session.rs` does with them up to the encoding of the frame).

   A snapshot is over the latest events of the room. It has a limit on its entries, and is
   refused when the store has more of them: a room whose latest events have more than 1024
   reactions has no reaction snapshot.

   Correspondence (Rust ↔ Lean):
     `SELECT .. WHERE .. ORDER BY .. LIMIT ?`     ↔ `Table.batch`
     `latest_events(..)`, the ids of it           ↔ `latestEvents`, `recentTargets`
     the three snapshots of the store             ↔ `storedSnapshot` at their formats
   The texts of a codec's errors are left out of the messages that quote them. -/
namespace Omen.Server
open Wire Sql Ints Omen.Protocol

/-! The latest events of a room. -/

/-- `chunks_exact(4)`, each a big-endian id. -/
def mentionedIds : Bytes → List UserId
  | a :: b :: c :: d :: rest =>
    UInt32.ofNat (((a.toNat * 256 + b.toNat) * 256 + c.toNat) * 256 + d.toNat) :: mentionedIds rest
  | _ => []

def storedMentions : Option Bytes → Except ServerError (List UserId)
  | none => .ok []
  | some bytes =>
    if !bytes.isEmpty && bytes.length ≤ richMessageMaxMentions * 4 && bytes.length % 4 == 0 then
      .ok (mentionedIds bytes)
    else
      .error (.message "stored room event mention identifiers have an invalid bounded encoding")

def storedReply : Option Int → Except ServerError (Option EventId)
  | none => .ok none
  | some eventId =>
    if 0 ≤ eventId then .ok (some eventId.toNat)
    else .error (.message "stored room event reply identifier is invalid")

def decodeStoredEventMetadata (replyToEventId : Option Int) (mentionUserIds : Option Bytes) :
    Except ServerError (Option RichMessageEventMetadata) :=
  if replyToEventId.isNone && mentionUserIds.isNone then .ok none
  else do
    let reply ← storedReply replyToEventId
    let mentions ← storedMentions mentionUserIds
    let metadata : RichMessageEventMetadata :=
      { replyToEventId := reply, mentionedUserIds := mentions }
    metadata.validate.mapError
      (fun _ => .message "stored room event reply/mention metadata is invalid")
    pure (some metadata)

/-- `latest_events`, the rows of it: every one of them has to be readable. -/
def latestEvents (db : Database) (roomId : RoomId) (limit : Nat) :
    Except ServerError (List RoomEventRow) := do
  let rows := db.roomEvents.batch (fun a b => compare b.eventId a.eventId)
    (fun e => e.roomId == roomId && !e.deleted) limit
  let _ ← rows.mapM (fun e => decodeStoredEventMetadata e.replyToEventId e.mentionUserIds)
  pure rows.reverse

/-- `ServerRoomEventKind::Message`, by its code. -/
def RoomEventRow.isMessage (e : RoomEventRow) : Bool := e.eventKind == 1

/-- The events a snapshot is over: revisions hang on messages only. -/
def SnapshotKind.covers : SnapshotKind → RoomEventRow → Bool
  | .messageRevisions, e => e.isMessage
  | _, _ => true

/-- `event_id as u64`, sorted, without repetitions. -/
def recentTargets (kind : SnapshotKind) (db : Database) (roomId : RoomId) (limit : Nat) :
    Except ServerError (List UInt64) := do
  let events ← latestEvents db roomId limit
  let ids := (events.filter kind.covers).map (fun e => UInt64.ofInt e.eventId)
  pure (ids.insertionSort (· ≤ ·)).eraseReps

/-! A snapshot of the store. -/

def checkTargets (noun : String) (maxTargets : Nat) (targets : List UInt64) : Except ServerError Unit := do
  Outcome.refuse (targets.length > maxTargets) (.message s!"{noun} snapshot exceeds {maxTargets} targets")
  Outcome.refuse (targets.contains 0 = true ∨ anyWindow (fun a b => decide (b ≤ a)) targets = true ∨
      targets.any (fun target => (toI64 target.toNat).isNone) = true)
    (.message (noun ++ " snapshot target ids must be sorted, unique, nonzero SQLite event ids"))

/-- The row hangs on one of the targets in the room. -/
def hangsOn (roomId : RoomId) (targets : List UInt64) (rowRoom : RoomId) (rowTarget : Int) : Bool :=
  rowRoom == roomId && targets.any (fun target => (target.toNat : Int) == rowTarget)

section
variable {ε entry row : Type} (format : SnapshotFormat ε entry) (noun : String)
  (targets : List UInt64) (rows : List row) (entryOf : row → Except ServerError entry)

/-- The entries of the rows, unless there are too many; without targets nothing is read. -/
def snapshotEntries : Except ServerError (List entry) :=
  if targets.isEmpty then .ok []
  else do
    Outcome.refuse (rows.length > format.maxEntries)
      (.message s!"{noun} snapshot exceeds {format.maxEntries} entries")
    rows.mapM entryOf

/-- The body of a snapshot: the rows are those of the targets, one more than the limit at most. -/
def storedSnapshot : Except ServerError FrameBody := do
  checkTargets noun format.maxTargets targets
  let entries ← snapshotEntries format noun targets rows entryOf
  (format.intoFrameBody { targetEventIds := targets, entries }).mapError
    (fun _ => .message s!"stored {noun} snapshot is invalid")

end

/-- `u64::try_from` and `u32::try_from` of a stored id. -/
def storedU64 (text : String) (value : Int) : Except ServerError UInt64 :=
  if 0 ≤ value then .ok (UInt64.ofNat value.toNat) else .error (.message text)

def storedU32 (text : String) (value : Int) : Except ServerError UInt32 :=
  match toU32 value with
  | some value => .ok value
  | none => .error (.message text)

def ReactionRow.snapshotEntry (r : ReactionRow) : Except ServerError ReactionSnapshotEntry := do
  let targetEventId ← storedU64 "stored reaction target event id is invalid" r.targetEventId
  let actorUserId ← storedU32 "stored reaction actor user id is invalid" r.actorUserId
  let token ← (ReactionToken.tryFrom r.reactionToken).mapError
    (fun _ => .message "stored reaction token is invalid")
  pure { targetEventId, actorUserId, token
         createdAtUnix := Int64.ofInt r.createdAt }

/-- `stored_event_id`. -/
def storedEventId (value : Int) : Except ServerError UInt64 :=
  if 0 < value then .ok (UInt64.ofNat value.toNat)
  else .error (.message "stored message revision event id is invalid")

def RevisionStateRow.snapshotEntry (r : RevisionStateRow) :
    Except ServerError MessageRevisionSnapshotEntry := do
  let targetEventId ← storedEventId r.targetEventId
  let latestRevisionEventId ← storedEventId r.latestRevisionEventId
  let action ← storedAction r.revisionAction
  let actorUserId ← storedU32 "stored message revision actor user id is invalid" r.actorUserId
  let replacement ← decodeReplacement r.replacementBody
  pure { targetEventId, latestRevisionEventId
         action, actorUserId, atUnix := Int64.ofInt r.atUnix
         replacement, revisionNumber := UInt64.ofNat r.revisionNumber }

def PinRow.snapshotEntry (r : PinRow) : Except ServerError PinSnapshotEntry := do
  let targetEventId ← storedU64 "stored pin target event id is invalid" r.targetEventId
  let pinEventId ← storedU64 "stored pin event id is invalid" r.pinEventId
  let actorUserId ← storedU32 "stored pin actor user id is invalid" r.actorUserId
  pure { targetEventId, pinEventId, actorUserId
         pinnedAtUnix := Int64.ofInt r.pinnedAt }

/-- `ORDER BY target_event_id, reaction_token, actor_user_id`. -/
def ReactionRow.snapshotOrder (a b : ReactionRow) : Ordering :=
  (compare a.targetEventId b.targetEventId).then
    ((compare a.reactionToken b.reactionToken).then (compare a.actorUserId b.actorUserId))

/-- `reaction_snapshot`, `message_revision_snapshot` and `pin_snapshot`, with `into_frame_body`. -/
def snapshotBody (kind : SnapshotKind) (db : Database) (roomId : RoomId) (targets : List UInt64) :
    Except ServerError FrameBody :=
  match kind with
  | .reactions =>
    storedSnapshot reactionSnapshot "reaction" targets
      (db.roomReactions.batch ReactionRow.snapshotOrder
        (fun r => hangsOn roomId targets r.roomId r.targetEventId) (reactionSnapshotMaxEntries + 1))
      ReactionRow.snapshotEntry
  | .messageRevisions =>
    storedSnapshot messageRevisionSnapshot "message revision" targets
      (db.roomMessageRevisionState.batch (fun a b => compare a.targetEventId b.targetEventId)
        (fun r => hangsOn roomId targets r.roomId r.targetEventId)
        (messageRevisionSnapshotMaxEntries + 1))
      RevisionStateRow.snapshotEntry
  | .pins =>
    storedSnapshot pinSnapshot "pin" targets
      (db.roomPins.batch (fun a b => compare a.targetEventId b.targetEventId)
        (fun r => hangsOn roomId targets r.roomId r.targetEventId) (roomPinSnapshotMaxEntries + 1))
      PinRow.snapshotEntry

end Omen.Server
