import OmenBrowser.Protocol.Projections
import OmenBrowser.Protocol.Snapshots

/- Acknowledgements and snapshots of reactions and pins (`omenchat-protocol/src/reactions.rs`,
   `pins.rs`).

   An acknowledgement says whether the request changed anything, and gives the id of the event
   exactly then. Both check the same before they write and after they read.

   Correspondence (Rust ↔ Lean):
     `into_frame_body`, `from_frame_body` of a snapshot   ↔ the ones of its `SnapshotFormat`
     `pair[0].target_event_id >= pair[1].target_event_id` ↔ `misplaced` -/
namespace Omen.Protocol
open Wire Ints RoundTrip Outcome

/-! Reactions. -/

/-- Why a reaction, an acknowledgement of one or a snapshot is refused. -/
inductive ReactionError where
  | invalidEventId
  | invalidUserId
  | tokenTooLong
  | unknownToken
  | unknownAction
  | invalidAckShape
  | invalidAckResult
  | invalidTimestamp
  | invalidSnapshotShape
  | invalidSnapshotTag
  | tooManySnapshotTargets
  | tooManySnapshotEntries
  | nonCanonicalSnapshotTargets
  | nonCanonicalSnapshotEntries
  | snapshotEntryOutsideTargets
  deriving DecidableEq, Repr

def reactionTokenMaxBytes : Nat := 16
def reactionSnapshotMaxTargets : Nat := 256
def reactionSnapshotMaxEntries : Nat := 1024

/-- `ReactionToken::try_from`. -/
def ReactionToken.tryFrom : String → Except ReactionError ReactionToken
  | "thumbs_up" => .ok .thumbsUp
  | "heart" => .ok .heart
  | "laugh" => .ok .laugh
  | "surprised" => .ok .surprised
  | "sad" => .ok .sad
  | "thumbs_down" => .ok .thumbsDown
  | "celebrate" => .ok .celebrate
  | "question" => .ok .question
  | _ => .error .unknownToken

def ReactionAction.tryFrom (value : UInt64) : Except ReactionError ReactionAction :=
  if value = 1 then .ok .add
  else if value = 2 then .ok .remove
  else .error .unknownAction

/-- The length of a token is checked before it is looked up. -/
def parseToken (token : String) : Except ReactionError ReactionToken := do
  refuse (token.utf8ByteSize > reactionTokenMaxBytes) .tokenTooLong
  ReactionToken.tryFrom token

theorem parseToken_asStr (token : ReactionToken) : parseToken token.asStr = .ok token := by
  cases token <;> rfl

theorem ReactionAction.tryFrom_code (action : ReactionAction) :
    ReactionAction.tryFrom (UInt64.ofNat action.code) = .ok action := by
  cases action <;> rfl

/-- The answer to a reaction; it has an event exactly if it changed anything. -/
structure ReactionAck where
  targetEventId : UInt64
  actorUserId : UInt32
  token : ReactionToken
  action : ReactionAction
  changed : Bool
  reactionEventId : Option UInt64
  deriving DecidableEq, Repr

namespace ReactionAck

variable (ack : ReactionAck)

/-- An event goes with a change, and a change with an event. -/
def validate : Except ReactionError Unit := do
  validateEventId .invalidEventId ack.targetEventId
  validateUserId .invalidUserId ack.actorUserId
  refuse (ack.changed ≠ ack.reactionEventId.isSome) .invalidAckResult
  match ack.reactionEventId with
  | some eventId => validateEventId .invalidEventId eventId
  | none => pure ()

/-- The six fields of an acknowledgement that passes its check. -/
def intoFrameBody : Except ReactionError FrameBody := do
  ack.validate
  pure (.fields [.u64 ack.targetEventId, .u64 ack.actorUserId.toUInt64, .string ack.token.asStr,
    .u64 (UInt64.ofNat ack.action.code), .bool ack.changed,
    optionalEventIdValue ack.reactionEventId])

/-- The acknowledgement read, and checked as before it was written. -/
def fromFrameBody : FrameBody → Except ReactionError ReactionAck
  | .fields [.u64 targetEventId, .u64 actorUserId, .string token, .u64 action, .bool changed,
      reactionEventId] => do
    let actorUserId ← parseUserId .invalidUserId actorUserId
    let token ← parseToken token
    let action ← ReactionAction.tryFrom action
    let reactionEventId ← parseOptionalEventId .invalidEventId .invalidAckShape reactionEventId
    let ack : ReactionAck := { targetEventId, actorUserId, token, action, changed, reactionEventId }
    ack.validate
    pure ack
  | _ => .error .invalidAckShape

theorem validate_ok {ack : ReactionAck} (h : ack.validate = .ok ()) :
    ack.actorUserId ≠ 0 ∧ ack.reactionEventId ≠ some 0 := by
  obtain ⟨_, h⟩ := check_ok.mp h
  obtain ⟨huser, h⟩ := check_ok.mp h
  obtain ⟨_, h⟩ := refuse_bind_ok.mp h
  refine ⟨validateUserId_ok.mp huser, fun hzero => ?_⟩
  rw [hzero] at h
  exact validateEventId_ok.mp h rfl

theorem readsBack : ReadsBack intoFrameBody fromFrameBody ack := by
  intro body h
  obtain ⟨hvalid, h⟩ := check_ok.mp h
  cases h
  obtain ⟨huser, hevent⟩ := validate_ok hvalid
  refine bind_ok.mpr ⟨_, parseUserId_toUInt64 huser, bind_ok.mpr ⟨_, parseToken_asStr _,
    bind_ok.mpr ⟨_, ReactionAction.tryFrom_code _, ?_⟩⟩⟩
  refine bind_ok.mpr ⟨_, parseOptionalEventId_value.mpr hevent, ?_⟩
  exact check_ok.mpr ⟨hvalid, rfl⟩

theorem rewrites (body : FrameBody) : Rewrites intoFrameBody fromFrameBody body := by
  refine rewrites_of_writes ?_ fun ack _ => readsBack ack
  intro ack h
  unfold fromFrameBody at h
  split at h
  · obtain ⟨_, _, h⟩ := bind_ok.mp h
    obtain ⟨_, _, h⟩ := bind_ok.mp h
    obtain ⟨_, _, h⟩ := bind_ok.mp h
    obtain ⟨_, _, h⟩ := bind_ok.mp h
    obtain ⟨hvalid, h⟩ := check_ok.mp h
    cases h
    exact ⟨_, check_ok.mpr ⟨hvalid, rfl⟩⟩
  · cases h

end ReactionAck

/-- A reaction that stands. -/
structure ReactionSnapshotEntry where
  targetEventId : UInt64
  actorUserId : UInt32
  token : ReactionToken
  createdAtUnix : Int64
  deriving DecidableEq, Repr

namespace ReactionSnapshotEntry

def validate (e : ReactionSnapshotEntry) : Except ReactionError Unit := do
  validateEventId .invalidEventId e.targetEventId
  validateUserId .invalidUserId e.actorUserId
  validateTimestamp .invalidTimestamp e.createdAtUnix

/-- `snapshot_sort_key(a).cmp(&snapshot_sort_key(b))`. -/
def compareKeys (a b : ReactionSnapshotEntry) : Ordering :=
  (compare a.targetEventId b.targetEventId).then
    ((compare a.token.asStr b.token.asStr).then (compare a.actorUserId b.actorUserId))

/-- An entry as the snapshot holds it. -/
def intoValue (e : ReactionSnapshotEntry) : Except ReactionError FrameValue := do
  let createdAt ← timestampValue .invalidTimestamp e.createdAtUnix
  pure (.array [.u64 e.targetEventId, .u64 e.actorUserId.toUInt64, .string e.token.asStr,
    createdAt])

def parseSnapshotEntry : FrameValue → Except ReactionError ReactionSnapshotEntry
  | .array [.u64 targetEventId, .u64 actorUserId, .string token, createdAtUnix] => do
    let actorUserId ← parseUserId .invalidUserId actorUserId
    let token ← parseToken token
    let createdAtUnix ← parseTimestamp .invalidTimestamp createdAtUnix
    pure { targetEventId, actorUserId, token, createdAtUnix }
  | _ => .error .invalidSnapshotShape

end ReactionSnapshotEntry

/-- All reactions to the targets a snapshot speaks of. -/
abbrev ReactionSnapshot := TargetSnapshot ReactionSnapshotEntry

/-- Entries come in the order of their targets, then of their tokens and actors. -/
def reactionSnapshot : SnapshotFormat ReactionError ReactionSnapshotEntry where
  bodyTag := "reaction-snapshot-v1"
  maxTargets := reactionSnapshotMaxTargets
  maxEntries := reactionSnapshotMaxEntries
  errors :=
    { invalidEventId := .invalidEventId
      invalidSnapshotShape := .invalidSnapshotShape
      invalidSnapshotTag := .invalidSnapshotTag
      tooManySnapshotTargets := .tooManySnapshotTargets
      tooManySnapshotEntries := .tooManySnapshotEntries
      nonCanonicalSnapshotTargets := .nonCanonicalSnapshotTargets
      nonCanonicalSnapshotEntries := .nonCanonicalSnapshotEntries
      snapshotEntryOutsideTargets := .snapshotEntryOutsideTargets }
  target := ReactionSnapshotEntry.targetEventId
  validateEntry := ReactionSnapshotEntry.validate
  misplaced a b := (ReactionSnapshotEntry.compareKeys a b).isGE
  writeEntry := ReactionSnapshotEntry.intoValue
  readEntry := ReactionSnapshotEntry.parseSnapshotEntry

def ReactionSnapshot.intoFrameBody : ReactionSnapshot → Except ReactionError FrameBody :=
  reactionSnapshot.intoFrameBody

def ReactionSnapshot.fromFrameBody : FrameBody → Except ReactionError ReactionSnapshot :=
  reactionSnapshot.fromFrameBody

theorem reactionSnapshot_lawful : reactionSnapshot.Lawful := by
  intro e hvalid
  obtain ⟨_, hvalid⟩ := check_ok.mp hvalid
  obtain ⟨huser, htime⟩ := check_ok.mp hvalid
  refine ⟨?_, ?_⟩
  · obtain ⟨createdAt, htime⟩ := exists_timestampValue (validateTimestamp_ok.mp htime)
    exact ⟨_, bind_ok.mpr ⟨createdAt, htime, rfl⟩⟩
  · intro value h
    obtain ⟨createdAt, htime, h⟩ := bind_ok.mp h
    cases h
    refine bind_ok.mpr ⟨_, parseUserId_toUInt64 (validateUserId_ok.mp huser), ?_⟩
    refine bind_ok.mpr ⟨_, parseToken_asStr _, bind_ok.mpr ⟨_, parseTimestamp_value htime, rfl⟩⟩

/-! Pins. -/

/-- Why a pin, an acknowledgement of one or a snapshot is refused. -/
inductive PinError where
  | invalidEventId
  | invalidUserId
  | unknownAction
  | invalidAckShape
  | invalidAckResult
  | invalidTimestamp
  | invalidSnapshotShape
  | invalidSnapshotTag
  | tooManySnapshotTargets
  | tooManySnapshotEntries
  | nonCanonicalSnapshotTargets
  | nonCanonicalSnapshotEntries
  | snapshotEntryOutsideTargets
  deriving DecidableEq, Repr

def roomPinSnapshotMaxTargets : Nat := 256
def roomPinSnapshotMaxEntries : Nat := 64

def PinAction.tryFrom (value : UInt64) : Except PinError PinAction :=
  if value = 1 then .ok .pin
  else if value = 2 then .ok .unpin
  else .error .unknownAction

theorem PinAction.tryFrom_code (action : PinAction) :
    PinAction.tryFrom (UInt64.ofNat action.code) = .ok action := by
  cases action <;> rfl

/-- The answer to a pin; it has an event exactly if it changed anything. -/
structure PinAck where
  targetEventId : UInt64
  action : PinAction
  actorUserId : UInt32
  changed : Bool
  pinEventId : Option UInt64
  deriving DecidableEq, Repr

namespace PinAck

def validate (ack : PinAck) : Except PinError Unit := do
  validateEventId .invalidEventId ack.targetEventId
  validateUserId .invalidUserId ack.actorUserId
  refuse (ack.changed ≠ ack.pinEventId.isSome) .invalidAckResult
  match ack.pinEventId with
  | some eventId => validateEventId .invalidEventId eventId
  | none => pure ()

/-- The five fields of an acknowledgement that passes its check. -/
def intoFrameBody (ack : PinAck) : Except PinError FrameBody := do
  ack.validate
  pure (.fields [.u64 ack.targetEventId, .u64 (UInt64.ofNat ack.action.code),
    .u64 ack.actorUserId.toUInt64, .bool ack.changed, optionalEventIdValue ack.pinEventId])

def fromFrameBody : FrameBody → Except PinError PinAck
  | .fields [.u64 targetEventId, .u64 action, .u64 actorUserId, .bool changed, pinEventId] => do
    let action ← PinAction.tryFrom action
    let actorUserId ← parseUserId .invalidUserId actorUserId
    let pinEventId ← parseOptionalEventId .invalidEventId .invalidAckShape pinEventId
    let ack : PinAck := { targetEventId, action, actorUserId, changed, pinEventId }
    ack.validate
    pure ack
  | _ => .error .invalidAckShape

theorem validate_ok {ack : PinAck} (h : ack.validate = .ok ()) :
    ack.actorUserId ≠ 0 ∧ ack.pinEventId ≠ some 0 := by
  obtain ⟨_, h⟩ := check_ok.mp h
  obtain ⟨huser, h⟩ := check_ok.mp h
  obtain ⟨_, h⟩ := refuse_bind_ok.mp h
  refine ⟨validateUserId_ok.mp huser, fun hzero => ?_⟩
  rw [hzero] at h
  exact validateEventId_ok.mp h rfl

theorem readsBack (ack : PinAck) : ReadsBack intoFrameBody fromFrameBody ack := by
  intro body h
  obtain ⟨hvalid, h⟩ := check_ok.mp h
  cases h
  obtain ⟨huser, hevent⟩ := validate_ok hvalid
  refine bind_ok.mpr ⟨_, PinAction.tryFrom_code _, bind_ok.mpr ⟨_, parseUserId_toUInt64 huser, ?_⟩⟩
  refine bind_ok.mpr ⟨_, parseOptionalEventId_value.mpr hevent, ?_⟩
  exact check_ok.mpr ⟨hvalid, rfl⟩

theorem rewrites (body : FrameBody) : Rewrites intoFrameBody fromFrameBody body := by
  refine rewrites_of_writes ?_ fun ack _ => readsBack ack
  intro ack h
  unfold fromFrameBody at h
  split at h
  · obtain ⟨_, _, h⟩ := bind_ok.mp h
    obtain ⟨_, _, h⟩ := bind_ok.mp h
    obtain ⟨_, _, h⟩ := bind_ok.mp h
    obtain ⟨hvalid, h⟩ := check_ok.mp h
    cases h
    exact ⟨_, check_ok.mpr ⟨hvalid, rfl⟩⟩
  · cases h

end PinAck

/-- A pin that stands. -/
structure PinSnapshotEntry where
  targetEventId : UInt64
  pinEventId : UInt64
  actorUserId : UInt32
  pinnedAtUnix : Int64
  deriving DecidableEq, Repr

namespace PinSnapshotEntry

def validate (e : PinSnapshotEntry) : Except PinError Unit := do
  validateEventId .invalidEventId e.targetEventId
  validateEventId .invalidEventId e.pinEventId
  validateUserId .invalidUserId e.actorUserId
  validateTimestamp .invalidTimestamp e.pinnedAtUnix

def intoValue (e : PinSnapshotEntry) : Except PinError FrameValue := do
  let pinnedAt ← timestampValue .invalidTimestamp e.pinnedAtUnix
  pure (.array [.u64 e.targetEventId, .u64 e.pinEventId, .u64 e.actorUserId.toUInt64, pinnedAt])

def parseSnapshotEntry : FrameValue → Except PinError PinSnapshotEntry
  | .array [.u64 targetEventId, .u64 pinEventId, .u64 actorUserId, pinnedAtUnix] => do
    let actorUserId ← parseUserId .invalidUserId actorUserId
    let pinnedAtUnix ← parseTimestamp .invalidTimestamp pinnedAtUnix
    pure { targetEventId, pinEventId, actorUserId, pinnedAtUnix }
  | _ => .error .invalidSnapshotShape

end PinSnapshotEntry

/-- All pins among the targets a snapshot speaks of. -/
abbrev PinSnapshot := TargetSnapshot PinSnapshotEntry

/-- A target is pinned at most once, so entries come in the order of their targets. -/
def pinSnapshot : SnapshotFormat PinError PinSnapshotEntry where
  bodyTag := "room-pin-snapshot-v1"
  maxTargets := roomPinSnapshotMaxTargets
  maxEntries := roomPinSnapshotMaxEntries
  errors :=
    { invalidEventId := .invalidEventId
      invalidSnapshotShape := .invalidSnapshotShape
      invalidSnapshotTag := .invalidSnapshotTag
      tooManySnapshotTargets := .tooManySnapshotTargets
      tooManySnapshotEntries := .tooManySnapshotEntries
      nonCanonicalSnapshotTargets := .nonCanonicalSnapshotTargets
      nonCanonicalSnapshotEntries := .nonCanonicalSnapshotEntries
      snapshotEntryOutsideTargets := .snapshotEntryOutsideTargets }
  target := PinSnapshotEntry.targetEventId
  validateEntry := PinSnapshotEntry.validate
  misplaced a b := decide (b.targetEventId ≤ a.targetEventId)
  writeEntry := PinSnapshotEntry.intoValue
  readEntry := PinSnapshotEntry.parseSnapshotEntry

def PinSnapshot.intoFrameBody : PinSnapshot → Except PinError FrameBody := pinSnapshot.intoFrameBody

def PinSnapshot.fromFrameBody : FrameBody → Except PinError PinSnapshot := pinSnapshot.fromFrameBody

theorem pinSnapshot_lawful : pinSnapshot.Lawful := by
  intro e hvalid
  obtain ⟨_, hvalid⟩ := check_ok.mp hvalid
  obtain ⟨_, hvalid⟩ := check_ok.mp hvalid
  obtain ⟨huser, htime⟩ := check_ok.mp hvalid
  refine ⟨?_, ?_⟩
  · obtain ⟨pinnedAt, htime⟩ := exists_timestampValue (validateTimestamp_ok.mp htime)
    exact ⟨_, bind_ok.mpr ⟨pinnedAt, htime, rfl⟩⟩
  · intro value h
    obtain ⟨pinnedAt, htime, h⟩ := bind_ok.mp h
    cases h
    refine bind_ok.mpr ⟨_, parseUserId_toUInt64 (validateUserId_ok.mp huser), ?_⟩
    exact bind_ok.mpr ⟨_, parseTimestamp_value htime, rfl⟩

end Omen.Protocol
