import Mathlib.Data.Finset.Card
import OmenBrowser.Client.History
import OmenBrowser.Lib.TableMap
import OmenBrowser.Protocol.ProjectionBodies
import OmenBrowser.Protocol.RevisionBodies

/- What hangs on a client's events: reactions, message revisions and pins (`chat/client.rs`,
   `chat/model.rs`).

   Each of the three is changed by live events, one target at a time, and by snapshots, which
   replace what is known of their targets and make it authoritative. A live event of a revision or of
   a pin is compared with what is known; one of a reaction is not, and neither is a snapshot.

   Correspondence (Rust ↔ Lean):
     `self.reactions.insert`, `.remove`                ↔ `Table.put`, `Table.erase`
     `next.retain(..)` and the loop over the entries   ↔ `replaceTargets`
     `event.into_frame_body()`, whether it succeeds    ↔ `writable`
     `BTreeMap<ServerId, BTreeSet<(RoomId, EventId)>>` ↔ `Finset Target`
   What is left out: the texts a user interface shows, and the audit pages and policies of rooms.
   Ids and times of what hangs on events are natural numbers and integers. -/
namespace Omen.Client
open Wire Sql Ints Omen.Protocol Outcome

abbrev Target := String × UInt32 × EventId

structure ChatReaction where
  serverId : String
  roomId : UInt32
  targetEventId : EventId
  actorUserId : UserId
  token : ReactionToken
  createdAtUnix : Int
  deriving DecidableEq

structure ChatMessageRevision where
  serverId : String
  roomId : UInt32
  targetEventId : EventId
  latestRevisionEventId : EventId
  action : MessageRevisionAction
  actorUserId : UserId
  replacementBody : Option String
  atUnix : Int
  revisionNumber : Nat
  deriving DecidableEq

structure ChatPin where
  serverId : String
  roomId : UInt32
  targetEventId : EventId
  pinEventId : EventId
  actorUserId : UserId
  pinnedAtUnix : Int
  deriving DecidableEq

def ChatReaction.key (r : ChatReaction) : Target × UserId × ReactionToken :=
  ((r.serverId, r.roomId, r.targetEventId), r.actorUserId, r.token)

def ChatMessageRevision.key (r : ChatMessageRevision) : Target :=
  (r.serverId, r.roomId, r.targetEventId)

def ChatPin.key (p : ChatPin) : Target := (p.serverId, p.roomId, p.targetEventId)

structure ChatClient where
  sessions : List (ChatSessionId × ChatSessionView)
  reactions : Table ChatReaction.key
  authoritativeReactionTargets : Finset Target
  messageRevisions : Table ChatMessageRevision.key
  authoritativeMessageRevisionTargets : Finset Target
  pins : Table ChatPin.key
  pinEventCursors : Table (Prod.fst : Target × EventId → Target)
  authoritativePinTargets : Finset Target

namespace ChatClient

def session? (c : ChatClient) (sessionId : ChatSessionId) : Option ChatSessionView :=
  (c.sessions.find? (fun entry => entry.1 == sessionId)).map Prod.snd

end ChatClient

/-! Targets. -/

variable (event : ChatEvent)

def chatEventSupportsReactions : Bool :=
  match event.kind with
  | .message _ | .richMessage .. | .action _ | .notice _ | .upload .. => true
  | .system _ => false

def chatEventSupportsPins : Bool := chatEventSupportsReactions event

def chatEventSupportsMessageRevisions : Bool :=
  match event.kind with
  | .message _ | .richMessage .. => true
  | _ => false

def isTransientLocalEventId (eventId : UInt64) : Bool := decide (u64Max - 1000000 < eventId.toNat)

/-- The session has an event under the id that may have something hang on it. -/
def retainsTarget (supports : ChatEvent → Bool) (session : ChatSessionView) (roomId : UInt32)
    (target : EventId) : Bool :=
  session.events.any (fun event => event.roomId == roomId && event.eventId.toNat == target &&
    !isTransientLocalEventId event.eventId && supports event)

/-- The events of all sessions of a server. -/
def retainedTargets (supports : ChatEvent → Bool) (c : ChatClient) (serverId : String) :
    List (UInt32 × EventId) :=
  (c.sessions.filter (fun entry => entry.2.serverId == serverId)).flatMap (fun entry =>
    (entry.2.events.filter supports).map (fun event => (event.roomId, event.eventId.toNat)))

variable (serverId : String)

/-- The condition of the three `retain`s of a pruning. -/
def stays (retained : List (UInt32 × EventId)) (target : Target) : Bool :=
  target.1 != serverId || retained.contains target.2

variable (roomId : UInt32) (targets : List UInt64)

/-- The targets of a snapshot. -/
def covers (target : Target) : Bool :=
  target.1 == serverId && target.2.1 == roomId && (targets.map UInt64.toNat).contains target.2.2

def snapshotTargets : Finset Target :=
  (targets.map (fun target => (serverId, roomId, target.toNat))).toFinset

/-- The rows of the targets go, and those of the entries are put. -/
def replaceTargets {ρ κ : Type} [DecidableEq κ] {key : ρ → κ} (t : Table key) (gone : κ → Bool)
    (rows : List ρ) : Table key :=
  (t.deleteWhere (fun r => gone (key r))).putAll rows

/-! Limits. -/

def chatReactionMaxTokensPerActorTarget : Nat := 3
def chatReactionMaxRowsPerTarget : Nat := 128
def chatReactionMaxRowsPerRoom : Nat := 4096
def chatReactionMaxBytesPerRoom : Nat := 128 * 1024
def chatReactionMaxRowsPerServer : Nat := 8192
def chatReactionMaxBytesPerServer : Nat := 512 * 1024
def chatReactionMaxRows : Nat := 32768
def chatReactionMaxBytes : Nat := 2 * 1024 * 1024
def chatMessageRevisionMaxRowsPerRoom : Nat := 1024
def chatMessageRevisionMaxBytesPerRoom : Nat := 8 * 1024 * 1024
def chatMessageRevisionMaxRowsPerServer : Nat := 8192
def chatMessageRevisionMaxBytesPerServer : Nat := 32 * 1024 * 1024
def chatMessageRevisionMaxRows : Nat := 32768
def chatMessageRevisionMaxBytes : Nat := 64 * 1024 * 1024
def chatPinMaxRowsPerServer : Nat := 1024
def chatPinMaxRows : Nat := 4096
def chatPinMaxBytes : Nat := 1024 * 1024
def chatMessageRevisionFixedRetainedBytes : Nat := 96
def chatPinFixedRetainedBytes : Nat := 64

/-- `size_of::<ChatReaction>()`: a string, three words and a byte. -/
def chatReactionSize : Nat := 56

def ChatReaction.retainedBytes (r : ChatReaction) : Nat :=
  chatReactionSize + r.serverId.utf8ByteSize + r.token.asStr.utf8ByteSize

def ChatMessageRevision.retainedBytes (r : ChatMessageRevision) : Nat :=
  chatMessageRevisionFixedRetainedBytes + r.serverId.utf8ByteSize +
    (r.replacementBody.map String.utf8ByteSize).getD 0

def ChatPin.retainedBytes (p : ChatPin) : Nat := chatPinFixedRetainedBytes + p.serverId.utf8ByteSize

/-- Of each group of rows there are not too many. -/
def groupsFit {ρ γ : Type} [DecidableEq γ] (group : ρ → γ) (maxRows : Nat) (rows : List ρ) : Bool :=
  rows.all (fun r => decide (rows.countP (fun q => group q == group r) ≤ maxRows))

/-- The rows of each group do not take too much. -/
def groupBytesFit {ρ γ : Type} [DecidableEq γ] (group : ρ → γ) (bytes : ρ → Nat) (maxBytes : Nat)
    (rows : List ρ) : Bool :=
  rows.all (fun r =>
    decide (((rows.filter (fun q => group q == group r)).map bytes).sum ≤ maxBytes))

def chatReactionsFitBounds (rows : List ChatReaction) : Bool :=
  decide (rows.length ≤ chatReactionMaxRows) &&
  decide ((rows.map ChatReaction.retainedBytes).sum ≤ chatReactionMaxBytes) &&
  groupsFit ChatReaction.serverId chatReactionMaxRowsPerServer rows &&
  groupBytesFit ChatReaction.serverId ChatReaction.retainedBytes chatReactionMaxBytesPerServer rows &&
  groupsFit (fun r => (r.serverId, r.roomId)) chatReactionMaxRowsPerRoom rows &&
  groupBytesFit (fun r => (r.serverId, r.roomId)) ChatReaction.retainedBytes
    chatReactionMaxBytesPerRoom rows &&
  groupsFit (fun r => r.key.1) chatReactionMaxRowsPerTarget rows &&
  groupsFit (fun r => (r.key.1, r.actorUserId)) chatReactionMaxTokensPerActorTarget rows

def chatMessageRevisionsFitBounds (rows : List ChatMessageRevision) : Bool :=
  decide (rows.length ≤ chatMessageRevisionMaxRows) &&
  decide ((rows.map ChatMessageRevision.retainedBytes).sum ≤ chatMessageRevisionMaxBytes) &&
  groupsFit ChatMessageRevision.serverId chatMessageRevisionMaxRowsPerServer rows &&
  groupBytesFit ChatMessageRevision.serverId ChatMessageRevision.retainedBytes
    chatMessageRevisionMaxBytesPerServer rows &&
  groupsFit (fun r => (r.serverId, r.roomId)) chatMessageRevisionMaxRowsPerRoom rows &&
  groupBytesFit (fun r => (r.serverId, r.roomId)) ChatMessageRevision.retainedBytes
    chatMessageRevisionMaxBytesPerRoom rows

def chatPinsFitBounds (rows : List ChatPin) : Bool :=
  decide (rows.length ≤ chatPinMaxRows) &&
  decide ((rows.map ChatPin.retainedBytes).sum ≤ chatPinMaxBytes) &&
  groupsFit ChatPin.serverId chatPinMaxRowsPerServer rows

/-! What makes a live event writable. -/

def messageRevisionMaxActorDisplayBytes : Nat := 256

def reactionWritable (e : ReactionEvent) : Bool :=
  e.reactionEventId != 0 && e.targetEventId != 0 && e.actorUserId != 0 && decide (0 ≤ e.atUnix)

variable (e : PinEvent)

def pinWritable : Bool :=
  e.pinEventId != 0 && e.targetEventId != 0 && e.actorUserId != 0 && decide (0 ≤ e.atUnix)

def revisionWritable (e : MessageRevisionEvent) : Bool :=
  e.revisionEventId != 0 && e.targetEventId != 0 && e.actorUserId != 0 && decide (0 ≤ e.atUnix) &&
  decide (1 ≤ e.revisionNumber ∧ e.revisionNumber ≤ messageRevisionMaxNumber) &&
  (validateReplacement e.action e.replacement).toBool &&
  e.actorDisplayName.all (fun name => decide (name.utf8ByteSize ≤ messageRevisionMaxActorDisplayBytes))

/-! Pruning. -/

namespace ChatClient

variable (c : ChatClient)

def pruneReactionStateForServer (serverId : String) : ChatClient :=
  let retained := retainedTargets (fun _ => true) c serverId
  { c with
    reactions := c.reactions.deleteWhere (fun r => !stays serverId retained r.key.1)
    authoritativeReactionTargets :=
      c.authoritativeReactionTargets.filter (fun target => stays serverId retained target) }

def pruneMessageRevisionStateForServer (serverId : String) : ChatClient :=
  let retained := retainedTargets chatEventSupportsMessageRevisions c serverId
  { c with
    messageRevisions := c.messageRevisions.deleteWhere (fun r => !stays serverId retained r.key)
    authoritativeMessageRevisionTargets :=
      c.authoritativeMessageRevisionTargets.filter (fun target => stays serverId retained target) }

def prunePinStateForServer (serverId : String) : ChatClient :=
  let retained := retainedTargets chatEventSupportsPins c serverId
  { c with
    pins := c.pins.deleteWhere (fun p => !stays serverId retained p.key)
    pinEventCursors := c.pinEventCursors.deleteWhere (fun entry => !stays serverId retained entry.1)
    authoritativePinTargets :=
      c.authoritativePinTargets.filter (fun target => stays serverId retained target) }

end ChatClient

/-! Reactions. -/

namespace ChatClient

variable (c : ChatClient) (sessionId : ChatSessionId)

def markReactionsStale : ChatClient :=
  match c.session? sessionId with
  | none => c
  | some session =>
    { c with
      authoritativeReactionTargets :=
        c.authoritativeReactionTargets.filter (fun target => target.1 ≠ session.serverId) }

/-- The row of a live event. -/
def reactionOf (e : ReactionEvent) : ChatReaction :=
  { serverId
    roomId
    targetEventId := e.targetEventId
    actorUserId := e.actorUserId
    token := e.token
    createdAtUnix := e.atUnix }

def nextReactions (t : Table ChatReaction.key) (serverId : String) (roomId : UInt32)
    (e : ReactionEvent) : Table ChatReaction.key :=
  match e.action with
  | .add => t.put (reactionOf serverId roomId e)
  | .remove => t.erase (reactionOf serverId roomId e).key

/-- Whether anything is new, too. -/
def applyReactionEvent (roomId : UInt32) (e : ReactionEvent) :
    Except String (Bool × ChatClient) := do
  refuse (reactionWritable e = false) "reaction event is invalid"
  match c.session? sessionId with
  | none => .error "reaction session is unavailable"
  | some session =>
    refuse (retainsTarget chatEventSupportsReactions session roomId e.targetEventId = false)
      "reaction target is not retained"
    let next := nextReactions c.reactions session.serverId roomId e
    refuse (chatReactionsFitBounds next.rows = false)
      "reaction state exceeds client retention limits"
    let known := (c.reactions.find? (reactionOf session.serverId roomId e).key).isSome
    pure (known != (e.action == .add), { c with reactions := next })

def snapshotReaction (e : ReactionSnapshotEntry) : ChatReaction :=
  { serverId
    roomId
    targetEventId := e.targetEventId.toNat
    actorUserId := e.actorUserId
    token := e.token
    createdAtUnix := e.createdAtUnix.toInt }

def replaceReactionSnapshotWithAuthority (roomId : UInt32) (snapshot : ReactionSnapshot)
    (authoritative : Bool) :
    Except String ChatClient := do
  refuse (snapshot.intoFrameBody.toBool = false) "reaction snapshot is invalid"
  match c.session? sessionId with
  | none => .error "reaction session is unavailable"
  | some session =>
    let targets := snapshot.targetEventIds
    refuse (targets.all (fun target =>
      retainsTarget chatEventSupportsReactions session roomId target.toNat) = false)
      "reaction snapshot target is not retained"
    -- all that is known of these targets goes, the entries take its place
    let next := replaceTargets c.reactions
      (fun key => covers session.serverId roomId targets key.1)
      (snapshot.entries.map (snapshotReaction session.serverId roomId))
    refuse (chatReactionsFitBounds next.rows = false)
      "reaction snapshot exceeds client retention limits"
    let c := { c with reactions := next }
    if authoritative then
      let c := c.pruneReactionStateForServer session.serverId
      pure { c with
        authoritativeReactionTargets :=
          c.authoritativeReactionTargets ∪ snapshotTargets session.serverId roomId targets }
    else pure c

def replaceReactionSnapshot (roomId : UInt32) (snapshot : ReactionSnapshot) :
    Except String ChatClient :=
  c.replaceReactionSnapshotWithAuthority sessionId roomId snapshot true

/-! Message revisions. -/

def markMessageRevisionsStale : ChatClient :=
  match c.session? sessionId with
  | none => c
  | some session =>
    { c with
      authoritativeMessageRevisionTargets :=
        c.authoritativeMessageRevisionTargets.filter (fun target => target.1 ≠ session.serverId) }

def revisionOf (e : MessageRevisionEvent) : ChatMessageRevision :=
  { serverId
    roomId
    targetEventId := e.targetEventId
    latestRevisionEventId := e.revisionEventId
    action := e.action
    actorUserId := e.actorUserId
    replacementBody := e.replacement
    atUnix := e.atUnix
    revisionNumber := e.revisionNumber }

/-- Older than what is known, or behind a tombstone. -/
def revisionIsStale (current revision : ChatMessageRevision) : Bool :=
  decide (revision.latestRevisionEventId ≤ current.latestRevisionEventId) ||
  decide (revision.revisionNumber ≤ current.revisionNumber) || current.action == .tombstone

def applyMessageRevisionEvent (roomId : UInt32) (e : MessageRevisionEvent) :
    Except String (Bool × ChatClient) := do
  refuse (revisionWritable e = false) "message revision event is invalid"
  match c.session? sessionId with
  | none => .error "message revision session is unavailable"
  | some session =>
    refuse
      (retainsTarget chatEventSupportsMessageRevisions session roomId e.targetEventId = false)
      "message revision target is not retained"
    let revision := revisionOf session.serverId roomId e
    let authoritative := insert revision.key c.authoritativeMessageRevisionTargets
    let current := c.messageRevisions.find? revision.key
    -- a repeated event is taken without the check for stale ones
    if current = some revision then
      pure (decide (revision.key ∉ c.authoritativeMessageRevisionTargets),
        { c with authoritativeMessageRevisionTargets := authoritative })
    else
      refuse (current.any (fun current => revisionIsStale current revision) = true)
        "message revision event is stale or conflicts with retained state"
      let next := c.messageRevisions.put revision
      refuse (chatMessageRevisionsFitBounds next.rows = false)
        "message revision state exceeds client retention limits"
      pure (true,
        { c with
          messageRevisions := next
          authoritativeMessageRevisionTargets := authoritative })

def snapshotRevision (e : MessageRevisionSnapshotEntry) : ChatMessageRevision :=
  { serverId
    roomId
    targetEventId := e.targetEventId.toNat
    latestRevisionEventId := e.latestRevisionEventId.toNat
    action := e.action
    actorUserId := e.actorUserId
    replacementBody := e.replacement
    atUnix := e.atUnix.toInt
    revisionNumber := e.revisionNumber.toNat }

def replaceMessageRevisionSnapshotWithAuthority (roomId : UInt32)
    (snapshot : MessageRevisionSnapshot) (authoritative : Bool) :
    Except String ChatClient := do
  refuse (snapshot.intoFrameBody.toBool = false) "message revision snapshot is invalid"
  match c.session? sessionId with
  | none => .error "message revision session is unavailable"
  | some session =>
    let targets := snapshot.targetEventIds
    refuse (targets.all (fun target =>
      retainsTarget chatEventSupportsMessageRevisions session roomId target.toNat) = false)
      "message revision snapshot target is not retained"
    let next := replaceTargets c.messageRevisions (covers session.serverId roomId targets)
      (snapshot.entries.map (snapshotRevision session.serverId roomId))
    refuse (chatMessageRevisionsFitBounds next.rows = false)
      "message revision snapshot exceeds client retention limits"
    let c := { c with messageRevisions := next }
    if authoritative then
      let c := c.pruneMessageRevisionStateForServer session.serverId
      pure { c with
        authoritativeMessageRevisionTargets :=
          c.authoritativeMessageRevisionTargets ∪ snapshotTargets session.serverId roomId targets }
    else pure c

/-- A snapshot that is refused leaves no target authoritative. -/
def replaceMessageRevisionSnapshot (roomId : UInt32) (snapshot : MessageRevisionSnapshot) :
    Except String Unit × ChatClient :=
  match c.replaceMessageRevisionSnapshotWithAuthority sessionId roomId snapshot true with
  | .ok c => (.ok (), c)
  | .error message => (.error message, c.markMessageRevisionsStale sessionId)

end ChatClient

/-! Pins. -/

namespace ChatClient

variable (c : ChatClient) (sessionId : ChatSessionId)

def markPinsStale : ChatClient :=
  match c.session? sessionId with
  | none => c
  | some session =>
    { c with
      authoritativePinTargets :=
        c.authoritativePinTargets.filter (fun target => target.1 ≠ session.serverId)
      pinEventCursors := c.pinEventCursors.deleteWhere (fun entry => entry.1.1 == session.serverId) }

variable (target : Target)

/-- `ensure_pin_authority_capacity`. -/
def pinAuthorityFits : Bool :=
  decide (target ∈ c.authoritativePinTargets) ||
  decide (c.authoritativePinTargets.card < chatPinMaxRows)

def pinOf : ChatPin :=
  { serverId
    roomId
    targetEventId := e.targetEventId
    pinEventId := e.pinEventId
    actorUserId := e.actorUserId
    pinnedAtUnix := e.atUnix }

section
variable (t : Table ChatPin.key) (serverId : String) (roomId : UInt32) (e : PinEvent)

/-- The event under the cursor's id is the one that is known. -/
def pinMatchesCurrent : Bool :=
  let pin := pinOf serverId roomId e
  match e.action with
  | .pin => (t.find? pin.key).any (fun known => known.pinEventId == pin.pinEventId &&
      known.actorUserId == pin.actorUserId && known.pinnedAtUnix == pin.pinnedAtUnix)
  | .unpin => (t.find? pin.key).isNone

def nextPins : Table ChatPin.key :=
  match e.action with
  | .pin => t.put (pinOf serverId roomId e)
  | .unpin => t.erase (pinOf serverId roomId e).key

end

def pinCursor? : Option EventId :=
  (c.pinEventCursors.find? target).map Prod.snd

/-- An event that is newer than the cursor, or has none to be compared with. -/
def advancePin (serverId : String) (roomId : UInt32) (e : PinEvent) :
    Except String (Bool × ChatClient) := do
  let target := (pinOf serverId roomId e).key
  let next := nextPins c.pins serverId roomId e
  refuse (chatPinsFitBounds next.rows = false) "pin state exceeds client retention limits"
  refuse (c.pinAuthorityFits target = false) "pin authority exceeds client retention limits"
  pure (e.action == .pin || (c.pins.find? target).isSome,
    { c with
      pins := next
      pinEventCursors := c.pinEventCursors.put (target, e.pinEventId)
      authoritativePinTargets := insert target c.authoritativePinTargets })

def applyPinEvent (roomId : UInt32) (e : PinEvent) :
    Except String (Bool × ChatClient) := do
  refuse (pinWritable e = false) "pin event is invalid"
  match c.session? sessionId with
  | none => .error "pin session is unavailable"
  | some session =>
    refuse (retainsTarget chatEventSupportsPins session roomId e.targetEventId = false)
      "pin target is not retained"
    let target := (pinOf session.serverId roomId e).key
    match c.pinCursor? target with
    | none => c.advancePin session.serverId roomId e
    | some current =>
      if e.pinEventId < current then .error "pin event is stale"
      -- the event under the cursor: taken if the pin agrees
      else if e.pinEventId = current then do
        refuse (pinMatchesCurrent c.pins session.serverId roomId e = false)
          "pin event conflicts with retained state"
        refuse (c.pinAuthorityFits target = false)
          "pin authority exceeds client retention limits"
        pure (false,
          { c with authoritativePinTargets := insert target c.authoritativePinTargets })
      else c.advancePin session.serverId roomId e

def snapshotPin (e : PinSnapshotEntry) : ChatPin :=
  { serverId
    roomId
    targetEventId := e.targetEventId.toNat
    pinEventId := e.pinEventId.toNat
    actorUserId := e.actorUserId
    pinnedAtUnix := e.pinnedAtUnix.toInt }

/-- Those that are authoritative and are not of the snapshot, and those that are. -/
def snapshotAuthority (serverId : String) (roomId : UInt32) (targets : List UInt64) : Nat :=
  (c.authoritativePinTargets.filter (fun target => covers serverId roomId targets target = false)).card +
    (snapshotTargets serverId roomId targets).card

def replacePinSnapshotWithAuthority (roomId : UInt32) (snapshot : PinSnapshot)
    (authoritative : Bool) : Except String ChatClient := do
  refuse (snapshot.intoFrameBody.toBool = false) "pin snapshot is invalid"
  match c.session? sessionId with
  | none => .error "pin session is unavailable"
  | some session =>
    let targets := snapshot.targetEventIds
    refuse (targets.all (fun target =>
      retainsTarget chatEventSupportsPins session roomId target.toNat) = false)
      "pin snapshot target is not retained"
    let gone := covers session.serverId roomId targets
    let rows := snapshot.entries.map (snapshotPin session.serverId roomId)
    -- all that is known of these targets goes, the entries take its place
    let next := replaceTargets c.pins gone rows
    refuse (chatPinsFitBounds next.rows = false) "pin snapshot exceeds client retention limits"
    refuse (authoritative = true ∧
        chatPinMaxRows < c.snapshotAuthority session.serverId roomId targets)
      "pin authority exceeds client retention limits"
    let c := { c with
      pins := next
      pinEventCursors := replaceTargets c.pinEventCursors gone
        (rows.map (fun row => (row.key, row.pinEventId))) }
    if authoritative then
      let c := c.prunePinStateForServer session.serverId
      pure { c with
        authoritativePinTargets :=
          c.authoritativePinTargets.filter (fun target => gone target = false) ∪
            snapshotTargets session.serverId roomId targets }
    else pure c

/-- A snapshot that is refused leaves no target authoritative. -/
def replacePinSnapshot (roomId : UInt32) (snapshot : PinSnapshot) :
    Except String Unit × ChatClient :=
  match c.replacePinSnapshotWithAuthority sessionId roomId snapshot true with
  | .ok c => (.ok (), c)
  | .error message => (.error message, c.markPinsStale sessionId)

end ChatClient

end Omen.Client
