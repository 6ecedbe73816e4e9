import OmenBrowser.Protocol.MessageRevisions
import OmenBrowser.Protocol.Snapshots

/- Acknowledgements and snapshots of message revisions
   (`omenchat-protocol/src/message_revisions.rs`).

   The acknowledgement is unlike those of reactions and pins in one check: it is written
   whatever the id of its event is, while the parser of an optional event id refuses zero. An
   acknowledgement with event id zero can be written and cannot be read (`readsBack_iff`). -/
namespace Omen.Protocol
open Wire Ints RoundTrip Outcome

/-- Why a revision, an acknowledgement of one or a snapshot is refused. -/
inductive MessageRevisionError where
  | invalidEventId
  | invalidUserId
  | unknownAction
  | emptyReplacement
  | replacementTooLong
  | actionReplacementMismatch
  | invalidOptionalString
  | invalidAckShape
  | invalidAckResult
  | invalidTimestamp
  | invalidRevisionNumber
  | invalidSnapshotShape
  | invalidSnapshotTag
  | tooManySnapshotTargets
  | tooManySnapshotEntries
  | nonCanonicalSnapshotTargets
  | nonCanonicalSnapshotEntries
  | snapshotEntryOutsideTargets
  deriving DecidableEq, Repr

def messageRevisionMaxReplacementBytes : Nat := 262144
def messageRevisionSnapshotMaxTargets : Nat := 256
def messageRevisionSnapshotMaxEntries : Nat := 256

def MessageRevisionAction.tryFrom (value : UInt64) :
    Except MessageRevisionError MessageRevisionAction :=
  if value = 1 then .ok .correct
  else if value = 2 then .ok .tombstone
  else .error .unknownAction

theorem MessageRevisionAction.tryFrom_code (action : MessageRevisionAction) :
    MessageRevisionAction.tryFrom (UInt64.ofNat action.code) = .ok action := by
  cases action <;> rfl

/-- Revisions are counted from one. -/
def validateRevisionNumber (revisionNumber : UInt64) : Except MessageRevisionError Unit :=
  refuse (¬(1 ≤ revisionNumber ∧ revisionNumber.toNat ≤ messageRevisionMaxNumber))
    .invalidRevisionNumber

/-- A correction has a text within its limit, a deletion has none. -/
def validateReplacement : MessageRevisionAction → Option String → Except MessageRevisionError Unit
  | .correct, some replacement => do
    refuse (replacement = "") .emptyReplacement
    refuse (replacement.utf8ByteSize > messageRevisionMaxReplacementBytes) .replacementTooLong
  | .tombstone, none => pure ()
  | _, _ => .error .actionReplacementMismatch

def optionalStringValue : Option String → FrameValue
  | some value => .string value
  | none => .nil

/-- `parse_optional_string` of the field `Replacement`. -/
def parseReplacement : FrameValue → Except MessageRevisionError (Option String)
  | .nil => .ok none
  | .string value => do
    refuse (value.utf8ByteSize > messageRevisionMaxReplacementBytes) .replacementTooLong
    pure (some value)
  | _ => .error .invalidOptionalString

theorem parseReplacement_value {action : MessageRevisionAction} {replacement : Option String}
    (h : validateReplacement action replacement = .ok ()) :
    parseReplacement (optionalStringValue replacement) = .ok replacement := by
  cases replacement with
  | none => rfl
  | some text =>
    cases action with
    | correct =>
      obtain ⟨_, hlength⟩ := refuse_bind_ok.mp h
      exact refuse_bind_ok.mpr ⟨refuse_ok.mp hlength, rfl⟩
    | tombstone => cases h

/-! The acknowledgement. -/

/-- The answer to a revision, with the number of the revision that stands. -/
structure MessageRevisionAck where
  targetEventId : UInt64
  action : MessageRevisionAction
  actorUserId : UInt32
  changed : Bool
  revisionEventId : Option UInt64
  revisionNumber : UInt64
  deriving DecidableEq, Repr

namespace MessageRevisionAck

variable (ack : MessageRevisionAck)

def validate : Except MessageRevisionError Unit := do
  validateEventId .invalidEventId ack.targetEventId
  validateUserId .invalidUserId ack.actorUserId
  validateRevisionNumber ack.revisionNumber
  refuse (ack.changed ≠ ack.revisionEventId.isSome) .invalidAckResult

/-- The six fields of an acknowledgement that passes its check. -/
def intoFrameBody : Except MessageRevisionError FrameBody := do
  ack.validate
  pure (.fields [.u64 ack.targetEventId, .u64 (UInt64.ofNat ack.action.code),
    .u64 ack.actorUserId.toUInt64, .bool ack.changed, optionalEventIdValue ack.revisionEventId,
    .u64 ack.revisionNumber])

/-- The acknowledgement read, and checked as before it was written. -/
def fromFrameBody : FrameBody → Except MessageRevisionError MessageRevisionAck
  | .fields [.u64 targetEventId, .u64 action, .u64 actorUserId, .bool changed, revisionEventId,
      .u64 revisionNumber] => do
    let action ← MessageRevisionAction.tryFrom action
    let actorUserId ← parseUserId .invalidUserId actorUserId
    let revisionEventId ← parseOptionalEventId .invalidEventId .invalidAckShape revisionEventId
    let ack : MessageRevisionAck :=
      { targetEventId, action, actorUserId, changed, revisionEventId, revisionNumber }
    ack.validate
    pure ack
  | _ => .error .invalidAckShape

/-- What a written acknowledgement is read as: itself, if its event id is not zero. -/
theorem fromFrameBody_written {ack : MessageRevisionAck} {body : FrameBody}
    (h : ack.intoFrameBody = .ok body) :
    fromFrameBody body = .ok ack ↔ ack.revisionEventId ≠ some 0 := by
  obtain ⟨hvalid, h⟩ := check_ok.mp h
  cases h
  obtain ⟨_, hrest⟩ := check_ok.mp hvalid
  have huser := validateUserId_ok.mp (check_ok.mp hrest).1
  constructor
  · intro h
    obtain ⟨action, _, h⟩ := bind_ok.mp h
    obtain ⟨actorUserId, _, h⟩ := bind_ok.mp h
    obtain ⟨revisionEventId, hevent, h⟩ := bind_ok.mp h
    obtain ⟨_, h⟩ := check_ok.mp h
    have hsame : revisionEventId = ack.revisionEventId :=
      congrArg MessageRevisionAck.revisionEventId (Except.ok.inj h)
    rw [← hsame]
    exact parseOptionalEventId_ok hevent
  · intro hnonzero
    refine bind_ok.mpr ⟨_, MessageRevisionAction.tryFrom_code _, ?_⟩
    refine bind_ok.mpr ⟨_, parseUserId_toUInt64 huser, ?_⟩
    refine bind_ok.mpr ⟨_, parseOptionalEventId_value.mpr hnonzero, ?_⟩
    exact check_ok.mpr ⟨hvalid, rfl⟩

theorem readsBack_iff :
    ReadsBack intoFrameBody fromFrameBody ack ↔
      ¬(ack.validate = .ok () ∧ ack.revisionEventId = some 0) := by
  constructor
  · intro hreads ⟨hvalid, hzero⟩
    have hwritten := hreads _ (check_ok.mpr ⟨hvalid, rfl⟩)
    exact (fromFrameBody_written (check_ok.mpr ⟨hvalid, rfl⟩)).mp hwritten hzero
  · intro hnot body hbody
    obtain ⟨hvalid, _⟩ := check_ok.mp hbody
    exact (fromFrameBody_written hbody).mpr fun hzero => hnot ⟨hvalid, hzero⟩

theorem rewrites (body : FrameBody) : Rewrites intoFrameBody fromFrameBody body := by
  -- what is read has no event id zero and has passed the writer's check
  have hread : ∀ ack, fromFrameBody body = .ok ack →
      ack.validate = .ok () ∧ ack.revisionEventId ≠ some 0 := by
    intro ack h
    unfold fromFrameBody at h
    split at h
    · obtain ⟨_, _, h⟩ := bind_ok.mp h
      obtain ⟨_, _, h⟩ := bind_ok.mp h
      obtain ⟨_, hevent, h⟩ := bind_ok.mp h
      obtain ⟨hvalid, h⟩ := check_ok.mp h
      cases h
      exact ⟨hvalid, parseOptionalEventId_ok hevent⟩
    · cases h
  refine rewrites_of_writes ?_ ?_
  · intro ack h
    exact ⟨_, check_ok.mpr ⟨(hread ack h).1, rfl⟩⟩
  · intro ack h
    exact (readsBack_iff ack).mpr fun hbad => (hread ack h).2 hbad.2

end MessageRevisionAck

/-! The snapshot. -/

/-- The revision of a message that stands. -/
structure MessageRevisionSnapshotEntry where
  targetEventId : UInt64
  latestRevisionEventId : UInt64
  action : MessageRevisionAction
  actorUserId : UInt32
  atUnix : Int64
  replacement : Option String
  revisionNumber : UInt64
  deriving DecidableEq, Repr

namespace MessageRevisionSnapshotEntry

def validate (e : MessageRevisionSnapshotEntry) : Except MessageRevisionError Unit := do
  validateEventId .invalidEventId e.targetEventId
  validateEventId .invalidEventId e.latestRevisionEventId
  validateUserId .invalidUserId e.actorUserId
  validateTimestamp .invalidTimestamp e.atUnix
  validateRevisionNumber e.revisionNumber
  validateReplacement e.action e.replacement

/-- An entry that passes its check, as the snapshot holds it. -/
def intoValue (e : MessageRevisionSnapshotEntry) : Except MessageRevisionError FrameValue := do
  e.validate
  let atUnix ← timestampValue .invalidTimestamp e.atUnix
  pure (.array [.u64 e.targetEventId, .u64 e.latestRevisionEventId,
    .u64 (UInt64.ofNat e.action.code), .u64 e.actorUserId.toUInt64, atUnix,
    optionalStringValue e.replacement, .u64 e.revisionNumber])

def fromValue : FrameValue → Except MessageRevisionError MessageRevisionSnapshotEntry
  | .array [.u64 targetEventId, .u64 latestRevisionEventId, .u64 action, .u64 actorUserId, atUnix,
      replacement, .u64 revisionNumber] => do
    let action ← MessageRevisionAction.tryFrom action
    let actorUserId ← parseUserId .invalidUserId actorUserId
    let atUnix ← parseTimestamp .invalidTimestamp atUnix
    let replacement ← parseReplacement replacement
    let entry : MessageRevisionSnapshotEntry :=
      { targetEventId, latestRevisionEventId, action, actorUserId, atUnix, replacement,
        revisionNumber }
    entry.validate
    pure entry
  | _ => .error .invalidSnapshotShape

end MessageRevisionSnapshotEntry

/-- The latest revision of each target a snapshot speaks of. -/
abbrev MessageRevisionSnapshot := TargetSnapshot MessageRevisionSnapshotEntry

/-- A message has one latest revision, so entries come in the order of their targets. -/
def messageRevisionSnapshot : SnapshotFormat MessageRevisionError MessageRevisionSnapshotEntry where
  bodyTag := "message-revision-snapshot-v1"
  maxTargets := messageRevisionSnapshotMaxTargets
  maxEntries := messageRevisionSnapshotMaxEntries
  errors :=
    { invalidEventId := .invalidEventId
      invalidSnapshotShape := .invalidSnapshotShape
      invalidSnapshotTag := .invalidSnapshotTag
      tooManySnapshotTargets := .tooManySnapshotTargets
      tooManySnapshotEntries := .tooManySnapshotEntries
      nonCanonicalSnapshotTargets := .nonCanonicalSnapshotTargets
      nonCanonicalSnapshotEntries := .nonCanonicalSnapshotEntries
      snapshotEntryOutsideTargets := .snapshotEntryOutsideTargets }
  target := MessageRevisionSnapshotEntry.targetEventId
  validateEntry := MessageRevisionSnapshotEntry.validate
  misplaced a b := decide (b.targetEventId ≤ a.targetEventId)
  writeEntry := MessageRevisionSnapshotEntry.intoValue
  readEntry := MessageRevisionSnapshotEntry.fromValue

def MessageRevisionSnapshot.intoFrameBody :
    MessageRevisionSnapshot → Except MessageRevisionError FrameBody :=
  messageRevisionSnapshot.intoFrameBody

def MessageRevisionSnapshot.fromFrameBody :
    FrameBody → Except MessageRevisionError MessageRevisionSnapshot :=
  messageRevisionSnapshot.fromFrameBody

theorem messageRevisionSnapshot_lawful : messageRevisionSnapshot.Lawful := by
  intro e hvalid
  have hchecks := hvalid
  obtain ⟨_, hchecks⟩ := check_ok.mp hchecks
  obtain ⟨_, hchecks⟩ := check_ok.mp hchecks
  obtain ⟨huser, hchecks⟩ := check_ok.mp hchecks
  obtain ⟨htime, hchecks⟩ := check_ok.mp hchecks
  obtain ⟨_, hreplacement⟩ := check_ok.mp hchecks
  refine ⟨?_, ?_⟩
  · obtain ⟨atUnix, htime⟩ := exists_timestampValue (validateTimestamp_ok.mp htime)
    exact ⟨_, check_ok.mpr ⟨hvalid, bind_ok.mpr ⟨atUnix, htime, rfl⟩⟩⟩
  · intro value h
    obtain ⟨_, h⟩ := check_ok.mp h
    obtain ⟨atUnix, htime, h⟩ := bind_ok.mp h
    cases h
    refine bind_ok.mpr ⟨_, MessageRevisionAction.tryFrom_code _, ?_⟩
    refine bind_ok.mpr ⟨_, parseUserId_toUInt64 (validateUserId_ok.mp huser), ?_⟩
    refine bind_ok.mpr ⟨_, parseTimestamp_value htime, ?_⟩
    refine bind_ok.mpr ⟨_, parseReplacement_value hreplacement, ?_⟩
    exact check_ok.mpr ⟨hvalid, rfl⟩

end Omen.Protocol
