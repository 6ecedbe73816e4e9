import OmenBrowser.Protocol.BodyFields

/- Snapshots of what hangs on room events: the targets asked for, and an entry for each thing
   that hangs on one of them.

   The snapshots of reactions, of message revisions and of pins have one body shape and one
   sequence of checks. What is a member's own is in its `SnapshotFormat`: the tag, the limits,
   the errors, and how an entry is checked, ordered, written and read. -/
namespace Omen.Protocol
open Wire Ints RoundTrip Outcome

/-- `windows(2).any(..)`. -/
def anyWindow {α : Type} (p : α → α → Bool) : List α → Bool
  | a :: b :: rest => p a b || anyWindow p (b :: rest)
  | _ => false

/-- The errors of a format, under the names that all formats share. -/
structure SnapshotErrors (ε : Type) where
  invalidEventId : ε
  invalidSnapshotShape : ε
  invalidSnapshotTag : ε
  tooManySnapshotTargets : ε
  tooManySnapshotEntries : ε
  nonCanonicalSnapshotTargets : ε
  nonCanonicalSnapshotEntries : ε
  snapshotEntryOutsideTargets : ε

/-- What one kind of snapshot has of its own: its tag, its limits and its entries. -/
structure SnapshotFormat (ε entry : Type) where
  bodyTag : String
  maxTargets : Nat
  maxEntries : Nat
  errors : SnapshotErrors ε
  target : entry → UInt64
  validateEntry : entry → Except ε Unit
  /-- Two entries in a row that are not in strict order. -/
  misplaced : entry → entry → Bool
  writeEntry : entry → Except ε FrameValue
  readEntry : FrameValue → Except ε entry

/-- A snapshot speaks of targets, and holds the entries of those it speaks of. -/
structure TargetSnapshot (entry : Type) where
  targetEventIds : List UInt64
  entries : List entry

namespace SnapshotFormat
variable {ε entry : Type}

section
variable (format : SnapshotFormat ε entry)

/-- The targets are in strict order when they are searched for one. -/
def validateAmong (targets : List UInt64) (e : entry) : Except ε Unit := do
  format.validateEntry e
  refuse (targets.contains (format.target e) = false) format.errors.snapshotEntryOutsideTargets

/-- The targets rise, and the entries are ordered and of the targets. -/
def validate (snapshot : TargetSnapshot entry) : Except ε Unit := do
  refuse (snapshot.targetEventIds.length > format.maxTargets) format.errors.tooManySnapshotTargets
  refuse (snapshot.entries.length > format.maxEntries) format.errors.tooManySnapshotEntries
  refuse (snapshot.targetEventIds.contains 0 = true) format.errors.invalidEventId
  refuse (anyWindow (fun a b => decide (b ≤ a)) snapshot.targetEventIds = true)
    format.errors.nonCanonicalSnapshotTargets
  snapshot.entries.forM (format.validateAmong snapshot.targetEventIds)
  refuse (anyWindow format.misplaced snapshot.entries = true)
    format.errors.nonCanonicalSnapshotEntries

/-- The tag, the targets and the entries, if they pass the check. -/
def intoFrameBody (snapshot : TargetSnapshot entry) : Except ε FrameBody := do
  format.validate snapshot
  let entries ← snapshot.entries.mapM format.writeEntry
  pure (.fields [.string format.bodyTag, .array (snapshot.targetEventIds.map .u64),
    .array entries])

def readTargets : List FrameValue → Except ε (List UInt64) :=
  List.mapM (parseTarget format.errors.invalidEventId format.errors.invalidSnapshotShape)

/-- The limits are checked before anything is read; what is read passes the check. -/
def fromFrameBody : FrameBody → Except ε (TargetSnapshot entry)
  | .fields [.string tag, .array targetValues, .array entryValues] => do
    refuse (tag ≠ format.bodyTag) format.errors.invalidSnapshotTag
    refuse (targetValues.length > format.maxTargets) format.errors.tooManySnapshotTargets
    refuse (entryValues.length > format.maxEntries) format.errors.tooManySnapshotEntries
    let targetEventIds ← format.readTargets targetValues
    let entries ← entryValues.mapM format.readEntry
    format.validate { targetEventIds, entries }
    pure { targetEventIds, entries }
  | _ => .error format.errors.invalidSnapshotShape

/-! Round trips. -/

/-- An entry that passes its check can be written, and is read back. -/
def Lawful : Prop :=
  ∀ e, format.validateEntry e = .ok () →
    (∃ value, format.writeEntry e = .ok value) ∧ ReadsBack format.writeEntry format.readEntry e

/-- What a snapshot that passes its check is known by. -/
structure Valid (snapshot : TargetSnapshot entry) : Prop where
  targets : snapshot.targetEventIds.length ≤ format.maxTargets
  entries : snapshot.entries.length ≤ format.maxEntries
  nonzero : ∀ t ∈ snapshot.targetEventIds, t ≠ 0
  entry : ∀ e ∈ snapshot.entries, format.validateEntry e = .ok ()

end

variable {format : SnapshotFormat ε entry}

variable {snapshot : TargetSnapshot entry} {body : FrameBody}

theorem valid_of_validate (h : format.validate snapshot = .ok ()) : format.Valid snapshot := by
  obtain ⟨htargets, h⟩ := refuse_bind_ok.mp h
  obtain ⟨hentries, h⟩ := refuse_bind_ok.mp h
  obtain ⟨hnonzero, h⟩ := refuse_bind_ok.mp h
  obtain ⟨_, h⟩ := refuse_bind_ok.mp h
  obtain ⟨hentry, _⟩ := check_ok.mp h
  constructor
  case targets => exact Nat.le_of_not_gt htargets
  case entries => exact Nat.le_of_not_gt hentries
  case nonzero =>
    rintro t ht rfl
    exact hnonzero (List.contains_iff_mem.mpr ht)
  case entry =>
    intro e he
    exact (check_ok.mp (forM_ok.mp hentry e he)).1

theorem readTargets_map {targets : List UInt64} (h : ∀ t ∈ targets, t ≠ 0) :
    format.readTargets (targets.map .u64) = .ok targets := by
  have hmap : targets.mapM (m := Except ε) (fun t => .ok (.u64 t : FrameValue)) =
      .ok (targets.map .u64) := mapM_of_ok fun _ _ => rfl
  apply mapM_readsBack _ hmap
  intro t ht b hb
  cases hb
  exact parseTarget_u64 (h t ht)

theorem intoFrameBody_ok (h : format.intoFrameBody snapshot = .ok body) :
    ∃ values, format.validate snapshot = .ok () ∧
      snapshot.entries.mapM format.writeEntry = .ok values ∧
      body = .fields [.string format.bodyTag, .array (snapshot.targetEventIds.map .u64),
        .array values] := by
  obtain ⟨hvalid, h⟩ := check_ok.mp h
  obtain ⟨values, hvalues, h⟩ := bind_ok.mp h
  cases h
  exact ⟨values, hvalid, hvalues, rfl⟩

theorem readsBack (hformat : format.Lawful) (snapshot : TargetSnapshot entry) :
    ReadsBack format.intoFrameBody format.fromFrameBody snapshot := by
  intro body h
  obtain ⟨values, hvalidate, hvalues, rfl⟩ := intoFrameBody_ok h
  have hvalid := valid_of_validate hvalidate
  have hentries : values.mapM format.readEntry = .ok snapshot.entries :=
    mapM_readsBack (fun e he => (hformat e (hvalid.entry e he)).2) hvalues
  have hcount := hvalid.entries
  rw [← length_mapM hvalues] at hcount
  have hlength := hvalid.targets
  rw [← List.length_map (f := FrameValue.u64)] at hlength
  refine refuse_bind_ok.mpr ⟨not_not.mpr rfl, refuse_bind_ok.mpr ⟨Nat.not_lt.mpr hlength,
    refuse_bind_ok.mpr ⟨Nat.not_lt.mpr hcount, ?_⟩⟩⟩
  refine bind_ok.mpr ⟨_, readTargets_map hvalid.nonzero, bind_ok.mpr ⟨_, hentries, ?_⟩⟩
  exact check_ok.mpr ⟨hvalidate, rfl⟩

theorem validate_of_fromFrameBody (h : format.fromFrameBody body = .ok snapshot) :
    format.validate snapshot = .ok () := by
  unfold fromFrameBody at h
  split at h
  · obtain ⟨_, h⟩ := refuse_bind_ok.mp h
    obtain ⟨_, h⟩ := refuse_bind_ok.mp h
    obtain ⟨_, h⟩ := refuse_bind_ok.mp h
    obtain ⟨targets, _, h⟩ := bind_ok.mp h
    obtain ⟨entries, _, h⟩ := bind_ok.mp h
    obtain ⟨hvalid, h⟩ := check_ok.mp h
    cases h
    exact hvalid
  · cases h

theorem rewrites (hformat : format.Lawful) (body : FrameBody) :
    Rewrites format.intoFrameBody format.fromFrameBody body := by
  refine rewrites_of_writes ?_ fun snapshot _ => readsBack hformat snapshot
  intro snapshot h
  have hvalidate := validate_of_fromFrameBody h
  obtain ⟨values, hvalues⟩ : ∃ values, snapshot.entries.mapM format.writeEntry = .ok values :=
    mapM_writes fun e he => (hformat e ((valid_of_validate hvalidate).entry e he)).1
  exact ⟨_, check_ok.mpr ⟨hvalidate, bind_ok.mpr ⟨values, hvalues, rfl⟩⟩⟩

end SnapshotFormat
end Omen.Protocol
