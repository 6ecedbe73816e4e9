import OmenBrowser.Client.Projections
import OmenBrowser.Lib.Replica

/- What hangs on events as registers.

   A server's changes are writes to registers: one for each reaction (a target, an actor and a
   token), one for the revision of each message and one for the pin of each event. A client's
   tables give the registers it shows. A live event that is taken writes its register, and a
   snapshot that is taken writes all registers of its targets (`Told`); what is refused writes
   none. -/
namespace Omen.Client
open Wire Sql Ints Replica Outcome Omen.Protocol Option Table List ChatClient Finset

/-- A room and an event of it. -/
abbrev RoomTarget := UInt32 × EventId

inductive ProjectionKey where
  | reaction (target : RoomTarget) (actorUserId : UserId) (token : ReactionToken)
  | revision (target : RoomTarget)
  | pin (target : RoomTarget)
  deriving DecidableEq

inductive ProjectionValue where
  | reaction (createdAtUnix : Int)
  | revision (eventId : EventId) (action : MessageRevisionAction) (actorUserId : UserId)
      (replacement : Option String) (atUnix : Int) (number : Nat)
  | pin (eventId : EventId) (actorUserId : UserId) (atUnix : Int)
  deriving DecidableEq

def ChatReaction.value (r : ChatReaction) : ProjectionValue := .reaction r.createdAtUnix

def ChatMessageRevision.value (r : ChatMessageRevision) : ProjectionValue :=
  .revision r.latestRevisionEventId r.action r.actorUserId r.replacementBody r.atUnix r.revisionNumber

def ChatPin.value (p : ChatPin) : ProjectionValue := .pin p.pinEventId p.actorUserId p.pinnedAtUnix

/-- What the client shows of a server. -/
def ChatClient.register (c : ChatClient) (serverId : String) : ProjectionKey → Option ProjectionValue
  | .reaction target actorUserId token =>
    (c.reactions.find? ((serverId, target), actorUserId, token)).map ChatReaction.value
  | .revision target => (c.messageRevisions.find? (serverId, target)).map ChatMessageRevision.value
  | .pin target => (c.pins.find? (serverId, target)).map ChatPin.value

/-- Whether what the client shows of a register is said to be the server's. -/
def ChatClient.authoritative (c : ChatClient) (serverId : String) : ProjectionKey → Prop
  | .reaction target _ _ => (serverId, target) ∈ c.authoritativeReactionTargets
  | .revision target => (serverId, target) ∈ c.authoritativeMessageRevisionTargets
  | .pin target => (serverId, target) ∈ c.authoritativePinTargets

/-! Changes. -/

/-- A change that the server committed, as its live event says it. -/
inductive ProjectionChange where
  | reaction (roomId : UInt32) (e : ReactionEvent)
  | revision (roomId : UInt32) (e : MessageRevisionEvent)
  | pin (roomId : UInt32) (e : PinEvent)

open ProjectionChange

def ProjectionChange.key : ProjectionChange → ProjectionKey
  | .reaction roomId e => .reaction (roomId, e.targetEventId) e.actorUserId e.token
  | .revision roomId e => .revision (roomId, e.targetEventId)
  | .pin roomId e => .pin (roomId, e.targetEventId)

def ProjectionChange.value : ProjectionChange → Option ProjectionValue
  | .reaction _ e =>
    match e.action with
    | .add => some (.reaction e.atUnix)
    | .remove => none
  | .revision _ e =>
    some (.revision e.revisionEventId e.action e.actorUserId e.replacement e.atUnix e.revisionNumber)
  | .pin _ e =>
    match e.action with
    | .pin => some (.pin e.pinEventId e.actorUserId e.atUnix)
    | .unpin => none

def ProjectionChange.write (change : ProjectionChange) : Write ProjectionKey ProjectionValue :=
  ⟨change.key, change.value⟩

/-- The live event of a change, as the client takes it. -/
def ChatClient.applyChange (c : ChatClient) (sessionId : ChatSessionId) :
    ProjectionChange → Except String (Bool × ChatClient)
  | .reaction roomId e => c.applyReactionEvent sessionId roomId e
  | .revision roomId e => c.applyMessageRevisionEvent sessionId roomId e
  | .pin roomId e => c.applyPinEvent sessionId roomId e

/-! Snapshots. -/

inductive ProjectionSnapshot where
  | reactions (snapshot : ReactionSnapshot)
  | messageRevisions (snapshot : MessageRevisionSnapshot)
  | pins (snapshot : PinSnapshot)

/-- The registers of the targets. -/
def ProjectionSnapshot.coversKey (roomId : UInt32) : ProjectionSnapshot → ProjectionKey → Prop
  | .reactions s, .reaction target _ _ => target.1 = roomId ∧ target.2 ∈ s.targetEventIds.map UInt64.toNat
  | .messageRevisions s, .revision target =>
    target.1 = roomId ∧ target.2 ∈ s.targetEventIds.map UInt64.toNat
  | .pins s, .pin target => target.1 = roomId ∧ target.2 ∈ s.targetEventIds.map UInt64.toNat
  | _, _ => False

instance (roomId : UInt32) (snapshot : ProjectionSnapshot) :
    DecidablePred (snapshot.coversKey roomId) := fun key => by
  cases snapshot <;> cases key <;> unfold ProjectionSnapshot.coversKey <;> infer_instance

/-- The registers an entry gives a value. -/
def ProjectionSnapshot.entries (roomId : UInt32) :
    ProjectionSnapshot → List (ProjectionKey × ProjectionValue)
  | .reactions s => s.entries.map (fun e =>
      (.reaction (roomId, e.targetEventId.toNat) e.actorUserId e.token,
        .reaction e.createdAtUnix.toInt))
  | .messageRevisions s => s.entries.map (fun e =>
      (.revision (roomId, e.targetEventId.toNat),
        .revision e.latestRevisionEventId.toNat e.action e.actorUserId e.replacement
          e.atUnix.toInt e.revisionNumber.toNat))
  | .pins s => s.entries.map (fun e =>
      (.pin (roomId, e.targetEventId.toNat),
        .pin e.pinEventId.toNat e.actorUserId e.pinnedAtUnix.toInt))

/-- Whether the snapshot is taken, and the client after it. -/
def ChatClient.applySnapshot (c : ChatClient) (sessionId : ChatSessionId) (roomId : UInt32) :
    ProjectionSnapshot → Bool × ChatClient
  | .reactions s =>
    match c.replaceReactionSnapshot sessionId roomId s with
    | .ok c => (true, c)
    | .error _ => (false, c)
  | .messageRevisions s =>
    let (result, c) := c.replaceMessageRevisionSnapshot sessionId roomId s
    (result.toBool, c)
  | .pins s =>
    let (result, c) := c.replacePinSnapshot sessionId roomId s
    (result.toBool, c)

/-- The entries are those of the registers of the targets at a version, and no others. -/
structure ProjectionSnapshot.TakenAt (log : List (Write ProjectionKey ProjectionValue))
    (version : Nat) (roomId : UInt32) (snapshot : ProjectionSnapshot) : Prop where
  entry : ∀ e ∈ snapshot.entries roomId, valueAt log version e.1 = some e.2
  complete : ∀ k v, snapshot.coversKey roomId k → valueAt log version k = some v →
    (k, v) ∈ snapshot.entries roomId

variable {e : PinEvent} {changed : Bool} {serverId : String} {roomId : UInt32}
  {targets : List UInt64} {s : MessageRevisionSnapshot} {target' : RoomTarget}
  {t : Table ChatPin.key} {snapshot : ProjectionSnapshot}

/-! What a client that takes something does. -/

namespace ChatClient
variable {c c' : ChatClient} {sessionId : ChatSessionId} {roomId : UInt32}

theorem applyReactionEvent_ok {e : ReactionEvent}
    (h : c.applyReactionEvent sessionId roomId e = .ok (changed, c')) :
    ∃ session, c.session? sessionId = some session ∧
      retainsTarget chatEventSupportsReactions session roomId e.targetEventId = true ∧
      c' = { c with reactions := nextReactions c.reactions session.serverId roomId e } := by
  obtain ⟨_, h⟩ := refuse_bind_ok.mp h
  cases hsession : c.session? sessionId with
  | none =>
    rw [hsession] at h
    cases h
  | some session =>
    rw [hsession] at h
    obtain ⟨hretained, h⟩ := refuse_bind_ok.mp h
    obtain ⟨_, h⟩ := refuse_bind_ok.mp h
    cases h
    exact ⟨session, rfl, Bool.not_eq_false _ ▸ hretained, rfl⟩

/-- A revision that is taken is put, or is there already. -/
theorem applyMessageRevisionEvent_ok {e : MessageRevisionEvent}
    (h : c.applyMessageRevisionEvent sessionId roomId e = .ok (changed, c')) :
    ∃ session t, c.session? sessionId = some session ∧
      retainsTarget chatEventSupportsMessageRevisions session roomId e.targetEventId = true ∧
      c' = { c with
        messageRevisions := t
        authoritativeMessageRevisionTargets :=
          insert (session.serverId, roomId, e.targetEventId) c.authoritativeMessageRevisionTargets } ∧
      (t = c.messageRevisions ∧
          c.messageRevisions.find? (session.serverId, roomId, e.targetEventId) =
            some (revisionOf session.serverId roomId e) ∨
        t = c.messageRevisions.put (revisionOf session.serverId roomId e) ∧
          ∀ current, c.messageRevisions.find? (session.serverId, roomId, e.targetEventId) =
            some current → revisionIsStale current (revisionOf session.serverId roomId e) = false) := by
  obtain ⟨_, h⟩ := refuse_bind_ok.mp h
  cases hsession : c.session? sessionId with
  | none =>
    rw [hsession] at h
    cases h
  | some session =>
    rw [hsession] at h
    obtain ⟨hretained, h⟩ := refuse_bind_ok.mp h
    have hretained := Bool.not_eq_false _ ▸ hretained
    dsimp only at h
    split at h
    · next hcurrent =>
      cases h
      exact ⟨session, _, rfl, hretained, rfl, .inl ⟨rfl, hcurrent⟩⟩
    · obtain ⟨hstale, h⟩ := refuse_bind_ok.mp h
      obtain ⟨_, h⟩ := refuse_bind_ok.mp h
      cases h
      refine ⟨session, _, rfl, hretained, rfl, .inr ⟨rfl, fun current hcurrent => ?_⟩⟩
      have hkey : (revisionOf session.serverId roomId e).key =
        (session.serverId, roomId, e.targetEventId) := rfl
      rw [hkey, hcurrent, any_some, Bool.not_eq_true] at hstale
      exact hstale

theorem advancePin_ok (h : c.advancePin serverId roomId e = .ok (changed, c')) :
    c' = { c with
      pins := nextPins c.pins serverId roomId e
      pinEventCursors := c.pinEventCursors.put ((serverId, roomId, e.targetEventId), e.pinEventId)
      authoritativePinTargets :=
        insert (serverId, roomId, e.targetEventId) c.authoritativePinTargets } := by
  obtain ⟨_, h⟩ := refuse_bind_ok.mp h
  obtain ⟨_, h⟩ := refuse_bind_ok.mp h
  cases h
  rfl

/-- A pin event that is taken is newer than the cursor, or is the one under it. -/
theorem applyPinEvent_ok (h : c.applyPinEvent sessionId roomId e = .ok (changed, c')) :
    ∃ session t cursors, c.session? sessionId = some session ∧
      retainsTarget chatEventSupportsPins session roomId e.targetEventId = true ∧
      c' = { c with
        pins := t
        pinEventCursors := cursors
        authoritativePinTargets :=
          insert (session.serverId, roomId, e.targetEventId) c.authoritativePinTargets } ∧
      (t = c.pins ∧ cursors = c.pinEventCursors ∧
          c.pinCursor? (session.serverId, roomId, e.targetEventId) = some e.pinEventId ∧
          pinMatchesCurrent c.pins session.serverId roomId e = true ∨
        t = nextPins c.pins session.serverId roomId e ∧
          cursors = c.pinEventCursors.put
            ((session.serverId, roomId, e.targetEventId), e.pinEventId) ∧
          ∀ current, c.pinCursor? (session.serverId, roomId, e.targetEventId) = some current →
            current < e.pinEventId) := by
  obtain ⟨_, h⟩ := refuse_bind_ok.mp h
  cases hsession : c.session? sessionId with
  | none =>
    rw [hsession] at h
    cases h
  | some session =>
    rw [hsession] at h
    obtain ⟨hretained, h⟩ := refuse_bind_ok.mp h
    have hretained := Bool.not_eq_false _ ▸ hretained
    have hkey : (pinOf session.serverId roomId e).key =
      (session.serverId, roomId, e.targetEventId) := rfl
    rw [hkey] at h
    cases hcursor : c.pinCursor? (session.serverId, roomId, e.targetEventId) with
    | none =>
      simp only [hcursor] at h
      exact ⟨session, _, _, rfl, hretained, advancePin_ok h, .inr ⟨rfl, rfl, by simp [hcursor]⟩⟩
    | some current =>
      simp only [hcursor] at h
      split at h
      · cases h
      · next hnotstale =>
        split at h
        · -- the event under the cursor once more: it has to say the same
          next hsame =>
          obtain ⟨hmatches, h⟩ := refuse_bind_ok.mp h
          obtain ⟨_, h⟩ := refuse_bind_ok.mp h
          cases h
          exact ⟨session, _, _, rfl, hretained, rfl,
            .inl ⟨rfl, rfl, hcursor.trans (congrArg some hsame.symm), Bool.not_eq_false _ ▸ hmatches⟩⟩
        · next hother =>
          refine ⟨session, _, _, rfl, hretained, advancePin_ok h, .inr ⟨rfl, rfl, ?_⟩⟩
          intro current' hcurrent
          rw [← some.inj (hcursor.symm.trans hcurrent)]
          exact Nat.lt_of_le_of_ne (Nat.le_of_not_lt hnotstale) (Ne.symm hother)

end ChatClient

/-! What a client takes. -/

namespace ChatClient
variable {c : ChatClient} {sessionId : ChatSessionId} {session : ChatSessionView} {roomId : UInt32}

theorem exists_applyReactionEvent {e : ReactionEvent} (hwritable : reactionWritable e = true)
    (hsession : c.session? sessionId = some session)
    (hretained : retainsTarget chatEventSupportsReactions session roomId e.targetEventId = true)
    (hbounds : chatReactionsFitBounds (nextReactions c.reactions session.serverId roomId e).rows = true) :
    ∃ changed c', c.applyReactionEvent sessionId roomId e = .ok (changed, c') := by
  unfold applyReactionEvent
  rw [hwritable, hsession]
  dsimp only
  rw [hretained, hbounds]
  exact ⟨_, _, rfl⟩

theorem exists_applyMessageRevisionEvent {e : MessageRevisionEvent}
    (hwritable : revisionWritable e = true) (hsession : c.session? sessionId = some session)
    (hretained :
      retainsTarget chatEventSupportsMessageRevisions session roomId e.targetEventId = true)
    (hbounds : chatMessageRevisionsFitBounds
      (c.messageRevisions.put (revisionOf session.serverId roomId e)).rows = true)
    (hcurrent : ∀ current,
      c.messageRevisions.find? (session.serverId, roomId, e.targetEventId) = some current →
      current = revisionOf session.serverId roomId e ∨
        revisionIsStale current (revisionOf session.serverId roomId e) = false) :
    ∃ changed c', c.applyMessageRevisionEvent sessionId roomId e = .ok (changed, c') := by
  have hkey : (revisionOf session.serverId roomId e).key =
    (session.serverId, roomId, e.targetEventId) := rfl
  unfold applyMessageRevisionEvent
  rw [hwritable, hsession]
  dsimp only
  rw [hretained, hkey]
  split
  · exact ⟨_, _, rfl⟩
  · next hother =>
    have hstale : (c.messageRevisions.find? (session.serverId, roomId, e.targetEventId)).any
        (fun current => revisionIsStale current (revisionOf session.serverId roomId e)) = false := by
      cases hfind : c.messageRevisions.find? (session.serverId, roomId, e.targetEventId) with
      | none => rfl
      | some current =>
        rcases hcurrent current hfind with rfl | hfresh
        · exact absurd hfind hother
        · exact hfresh
    rw [hstale, hbounds]
    exact ⟨_, _, rfl⟩

theorem exists_applyPinEvent (hwritable : pinWritable e = true)
    (hsession : c.session? sessionId = some session)
    (hretained : retainsTarget chatEventSupportsPins session roomId e.targetEventId = true)
    (hbounds : chatPinsFitBounds (nextPins c.pins session.serverId roomId e).rows = true)
    (hauthority : c.pinAuthorityFits (session.serverId, roomId, e.targetEventId) = true)
    (hcursor : ∀ current,
      c.pinCursor? (session.serverId, roomId, e.targetEventId) = some current →
      current < e.pinEventId ∨
        current = e.pinEventId ∧ pinMatchesCurrent c.pins session.serverId roomId e = true) :
    ∃ changed c', c.applyPinEvent sessionId roomId e = .ok (changed, c') := by
  have hkey : (pinOf session.serverId roomId e).key =
    (session.serverId, roomId, e.targetEventId) := rfl
  have hadvance : ∃ changed c', c.advancePin session.serverId roomId e = .ok (changed, c') := by
    unfold advancePin
    dsimp only
    rw [hbounds, hkey, hauthority]
    exact ⟨_, _, rfl⟩
  unfold applyPinEvent
  rw [hwritable, hsession]
  dsimp only
  rw [hretained, hkey]
  cases hfind : c.pinCursor? (session.serverId, roomId, e.targetEventId) with
  | none => exact hadvance
  | some current =>
    rcases hcursor current hfind with hnewer | ⟨hsame, hmatches⟩
    · dsimp only
      rw [if_neg (Nat.lt_asymm hnewer), if_neg (Nat.ne_of_gt hnewer)]
      exact hadvance
    · dsimp only
      rw [hsame, if_neg (Nat.lt_irrefl _), if_pos rfl, hmatches, hauthority]
      exact ⟨_, _, rfl⟩

end ChatClient

/-! Pruning. -/

/-- Everything hangs on an event that is retained: there is nothing to prune. -/
structure Anchored (c : ChatClient) (serverId : String) : Prop where
  reactions : ∀ r ∈ c.reactions.rows,
    stays serverId (retainedTargets (fun _ => true) c serverId) r.key.1 = true
  reactionTargets : ∀ target ∈ c.authoritativeReactionTargets,
    stays serverId (retainedTargets (fun _ => true) c serverId) target = true
  revisions : ∀ r ∈ c.messageRevisions.rows,
    stays serverId (retainedTargets chatEventSupportsMessageRevisions c serverId) r.key = true
  revisionTargets : ∀ target ∈ c.authoritativeMessageRevisionTargets,
    stays serverId (retainedTargets chatEventSupportsMessageRevisions c serverId) target = true
  pins : ∀ p ∈ c.pins.rows,
    stays serverId (retainedTargets chatEventSupportsPins c serverId) p.key = true
  cursors : ∀ entry ∈ c.pinEventCursors.rows,
    stays serverId (retainedTargets chatEventSupportsPins c serverId) entry.1 = true
  pinTargets : ∀ target ∈ c.authoritativePinTargets,
    stays serverId (retainedTargets chatEventSupportsPins c serverId) target = true

theorem deleteWhere_eq_self {ρ κ : Type} {key : ρ → κ} {t : Table key} {p : ρ → Bool}
    (h : ∀ r ∈ t.rows, p r = true) : t.deleteWhere (fun r => !p r) = t := by
  refine ext ?_
  rw [deleteWhere]
  exact filter_eq_self.mpr fun r hr => by rw [Bool.not_not, h r hr]

section Prune
variable {c : ChatClient} {serverId : String}

theorem pruneReactionState_eq (h : Anchored c serverId) :
    c.pruneReactionStateForServer serverId = c := by
  unfold pruneReactionStateForServer
  dsimp only
  rw [deleteWhere_eq_self h.reactions, filter_true_of_mem h.reactionTargets]

theorem pruneMessageRevisionState_eq (h : Anchored c serverId) :
    c.pruneMessageRevisionStateForServer serverId = c := by
  unfold pruneMessageRevisionStateForServer
  dsimp only
  rw [deleteWhere_eq_self h.revisions, filter_true_of_mem h.revisionTargets]

theorem prunePinState_eq (h : Anchored c serverId) : c.prunePinStateForServer serverId = c := by
  unfold prunePinStateForServer
  dsimp only
  rw [deleteWhere_eq_self h.pins, deleteWhere_eq_self h.cursors,
    filter_true_of_mem h.pinTargets]

variable {supports : ChatEvent → Bool}

/-- A target that a session of the server retains stays. -/
theorem stays_of_retains {supports' : ChatEvent → Bool} {sessionId : ChatSessionId}
    {session : ChatSessionView} {target : EventId}
    (hsession : c.session? sessionId = some session)
    (hsupports : ∀ event, supports event = true → supports' event = true)
    (h : retainsTarget supports session roomId target = true) :
    stays session.serverId (retainedTargets supports' c session.serverId)
      (session.serverId, roomId, target) = true := by
  obtain ⟨entry, hentry, rfl⟩ := map_eq_some_iff.mp hsession
  obtain ⟨event, hevent, hmatch⟩ := any_eq_true.mp h
  simp only [Bool.and_eq_true, beq_iff_eq] at hmatch
  obtain ⟨⟨⟨hroom, hid⟩, _⟩, hsupported⟩ := hmatch
  have hmem : (roomId, target) ∈ retainedTargets supports' c entry.2.serverId := by
    refine mem_flatMap.mpr ⟨entry, mem_filter.mpr ⟨mem_of_find?_eq_some hentry, ?_⟩, ?_⟩
    · exact beq_self_eq_true _
    · refine mem_map.mpr ⟨event, mem_filter.mpr ⟨hevent, hsupports event hsupported⟩, ?_⟩
      rw [hroom, hid]
  unfold stays
  rw [contains_iff_mem.mpr hmem, Bool.or_true]

theorem all_stay (supports' : ChatEvent → Bool) {sessionId : ChatSessionId}
    {session : ChatSessionView} (hsession : c.session? sessionId = some session)
    (hsupports : ∀ event, supports event = true → supports' event = true)
    (h : ¬(targets.all fun target => retainsTarget supports session roomId target.toNat) = false) :
    ∀ target ∈ targets, stays session.serverId (retainedTargets supports' c session.serverId)
      (session.serverId, roomId, target.toNat) = true := fun target htarget =>
  stays_of_retains hsession hsupports (all_eq_true.mp (Bool.not_eq_false _ ▸ h) target htarget)

/-- With the targets of a snapshot that stay, all of them stay. -/
theorem stays_union {retained : List (UInt32 × EventId)} {known : Finset Target}
    (hknown : ∀ target ∈ known, stays serverId retained target = true)
    (hnew : ∀ target ∈ targets, stays serverId retained (serverId, roomId, target.toNat) = true) :
    ∀ target ∈ known ∪ snapshotTargets serverId roomId targets,
      stays serverId retained target = true := by
  intro target htarget
  rcases mem_union.mp htarget with hold | hsnapshot
  · exact hknown target hold
  · obtain ⟨id, hid, rfl⟩ := mem_map.mp (mem_toFinset.mp hsnapshot)
    exact hnew id hid

end Prune

/-! Snapshots that are taken. -/

theorem entries_among {ε entry : Type} (format : SnapshotFormat ε entry)
    {snapshot : TargetSnapshot entry} (h : (format.intoFrameBody snapshot).toBool = true) :
    ∀ e ∈ snapshot.entries, format.target e ∈ snapshot.targetEventIds := by
  cases hbody : format.intoFrameBody snapshot with
  | error => rw [hbody] at h; cases h
  | ok body =>
    obtain ⟨hvalid, _⟩ := check_ok.mp hbody
    obtain ⟨_, hvalid⟩ := refuse_bind_ok.mp hvalid
    obtain ⟨_, hvalid⟩ := refuse_bind_ok.mp hvalid
    obtain ⟨_, hvalid⟩ := refuse_bind_ok.mp hvalid
    obtain ⟨_, hvalid⟩ := refuse_bind_ok.mp hvalid
    obtain ⟨hentries, _⟩ := check_ok.mp hvalid
    intro e he
    obtain ⟨_, hamong⟩ := check_ok.mp (forM_ok.mp hentries e he)
    rw [refuse_ok, Bool.not_eq_false] at hamong
    exact contains_iff_mem.mp hamong

theorem forall_replaceTargets {ρ κ : Type} [DecidableEq κ] {key : ρ → κ} {t : Table key}
    {gone : κ → Bool} {rows : List ρ} {p : ρ → Prop} (hrows : ∀ r ∈ rows, p r)
    (hkept : ∀ r ∈ t.rows, p r) : ∀ r ∈ (replaceTargets t gone rows).rows, p r := by
  intro r hr
  rcases mem_putAll hr with hrow | hold
  · exact hrows r hrow
  · exact hkept r (mem_filter.mp hold).1

theorem mem_snapshotTargets {target : Target} : target ∈ snapshotTargets serverId roomId targets ↔
      target.1 = serverId ∧ target.2.1 = roomId ∧ target.2.2 ∈ targets.map UInt64.toNat := by
  rw [snapshotTargets, List.mem_toFinset, List.mem_map]
  constructor
  · rintro ⟨id, hid, rfl⟩
    exact ⟨rfl, rfl, mem_map_of_mem hid⟩
  · obtain ⟨server, room, event⟩ := target
    rintro ⟨rfl, rfl, hevent⟩
    obtain ⟨id, hid, hsame⟩ := mem_map.mp hevent
    exact ⟨id, hid, by rw [hsame]⟩

theorem covers_iff {target : Target} :
    covers serverId roomId targets target = true ↔
      target.1 = serverId ∧ target.2.1 = roomId ∧ target.2.2 ∈ targets.map UInt64.toNat := by
  simp [covers, and_assoc]

namespace ChatClient
variable {c c' : ChatClient} {sessionId : ChatSessionId} {session : ChatSessionView} {roomId : UInt32}

/-- The state after a reaction snapshot. -/
def withReactions (c : ChatClient) (serverId : String) (roomId : UInt32) (s : ReactionSnapshot) :
    ChatClient :=
  { c with
    reactions := replaceTargets c.reactions (fun key => covers serverId roomId s.targetEventIds key.1)
      (s.entries.map (snapshotReaction serverId roomId))
    authoritativeReactionTargets :=
      c.authoritativeReactionTargets ∪ snapshotTargets serverId roomId s.targetEventIds }

variable (hsession : c.session? sessionId = some session)
include hsession

variable (hanchored : Anchored c session.serverId)
include hanchored

theorem replaceReactionSnapshot_ok {s : ReactionSnapshot}
    (h : c.replaceReactionSnapshot sessionId roomId s = .ok c') :
    c' = c.withReactions session.serverId roomId s ∧
      (∀ e ∈ s.entries, e.targetEventId ∈ s.targetEventIds) ∧ Anchored c' session.serverId := by
  obtain ⟨hvalid, h⟩ := refuse_bind_ok.mp h
  have hamong := entries_among reactionSnapshot (Bool.not_eq_false _ ▸ hvalid)
  rw [hsession] at h
  obtain ⟨hretained, h⟩ := refuse_bind_ok.mp h
  obtain ⟨_, h⟩ := refuse_bind_ok.mp h
  have hstays := all_stay (fun _ => true) hsession (fun _ _ => rfl) hretained
  have hreplaced : Anchored { c with
      reactions := replaceTargets c.reactions
        (fun key => covers session.serverId roomId s.targetEventIds key.1)
        (s.entries.map (snapshotReaction session.serverId roomId)) } session.serverId :=
    { hanchored with
      reactions := forall_replaceTargets
        (forall_mem_map.mpr fun e he => hstays _ (hamong e he)) hanchored.reactions }
  simp only [if_true] at h
  rw [pruneReactionState_eq hreplaced] at h
  cases h
  exact ⟨rfl, hamong, { hreplaced with
    reactionTargets := stays_union hanchored.reactionTargets hstays }⟩

/-- The state after a snapshot of message revisions. -/
def withRevisions (c : ChatClient) (serverId : String) (roomId : UInt32)
    (s : MessageRevisionSnapshot) : ChatClient :=
  { c with
    messageRevisions := replaceTargets c.messageRevisions (covers serverId roomId s.targetEventIds)
      (s.entries.map (snapshotRevision serverId roomId))
    authoritativeMessageRevisionTargets :=
      c.authoritativeMessageRevisionTargets ∪ snapshotTargets serverId roomId s.targetEventIds }

theorem replaceMessageRevisionSnapshot_ok
    (h : c.replaceMessageRevisionSnapshotWithAuthority sessionId roomId s true = .ok c') :
    c' = c.withRevisions session.serverId roomId s ∧
      (∀ e ∈ s.entries, e.targetEventId ∈ s.targetEventIds) ∧ Anchored c' session.serverId := by
  obtain ⟨hvalid, h⟩ := refuse_bind_ok.mp h
  have hamong := entries_among messageRevisionSnapshot (Bool.not_eq_false _ ▸ hvalid)
  rw [hsession] at h
  obtain ⟨hretained, h⟩ := refuse_bind_ok.mp h
  obtain ⟨_, h⟩ := refuse_bind_ok.mp h
  have hstays := all_stay chatEventSupportsMessageRevisions hsession (fun _ h => h) hretained
  have hreplaced : Anchored { c with
      messageRevisions := replaceTargets c.messageRevisions
        (covers session.serverId roomId s.targetEventIds)
        (s.entries.map (snapshotRevision session.serverId roomId)) } session.serverId :=
    { hanchored with
      revisions := forall_replaceTargets
        (forall_mem_map.mpr fun e he => hstays _ (hamong e he)) hanchored.revisions }
  simp only [if_true] at h
  rw [pruneMessageRevisionState_eq hreplaced] at h
  cases h
  exact ⟨rfl, hamong, { hreplaced with
    revisionTargets := stays_union hanchored.revisionTargets hstays }⟩

/-- The state after a snapshot of pins. -/
def withPins (c : ChatClient) (serverId : String) (roomId : UInt32) (s : PinSnapshot) : ChatClient :=
  let gone := covers serverId roomId s.targetEventIds
  let rows := s.entries.map (snapshotPin serverId roomId)
  { c with
    pins := replaceTargets c.pins gone rows
    pinEventCursors := replaceTargets c.pinEventCursors gone
      (rows.map (fun row => (row.key, row.pinEventId)))
    authoritativePinTargets :=
      c.authoritativePinTargets.filter (fun target => gone target = false) ∪
        snapshotTargets serverId roomId s.targetEventIds }

theorem replacePinSnapshot_ok {s : PinSnapshot}
    (h : c.replacePinSnapshotWithAuthority sessionId roomId s true = .ok c') :
    c' = c.withPins session.serverId roomId s ∧
      (∀ e ∈ s.entries, e.targetEventId ∈ s.targetEventIds) ∧ Anchored c' session.serverId := by
  obtain ⟨hvalid, h⟩ := refuse_bind_ok.mp h
  have hamong := entries_among pinSnapshot (Bool.not_eq_false _ ▸ hvalid)
  rw [hsession] at h
  obtain ⟨hretained, h⟩ := refuse_bind_ok.mp h
  obtain ⟨_, h⟩ := refuse_bind_ok.mp h
  obtain ⟨_, h⟩ := refuse_bind_ok.mp h
  have hstays := all_stay chatEventSupportsPins hsession (fun _ h => h) hretained
  have hrows : ∀ row ∈ s.entries.map (snapshotPin session.serverId roomId), stays session.serverId
      (retainedTargets chatEventSupportsPins c session.serverId) row.key = true :=
    forall_mem_map.mpr fun e he => hstays _ (hamong e he)
  have hreplaced : Anchored { c with
      pins := (c.withPins session.serverId roomId s).pins
      pinEventCursors := (c.withPins session.serverId roomId s).pinEventCursors }
      session.serverId :=
    { hanchored with
      pins := forall_replaceTargets hrows hanchored.pins
      cursors := forall_replaceTargets (forall_mem_map.mpr hrows) hanchored.cursors }
  simp only [if_true] at h
  rw [prunePinState_eq] at h
  · cases h
    exact ⟨rfl, hamong, { hreplaced with
      pinTargets := stays_union (fun target htarget =>
        hanchored.pinTargets target (mem_filter.mp htarget).1) hstays }⟩
  · exact hreplaced

end ChatClient

/-! Changes that are taken. -/

/-- The change writes its register; a revision and a pin make it authoritative too. -/
structure ChangeTaken (serverId : String) (change : ProjectionChange) (c c' : ChatClient) : Prop where
  sessions : c'.sessions = c.sessions
  register : ∀ k, c'.register serverId k =
    if k = change.key then change.value else c.register serverId k
  authoritative : ∀ k, c'.authoritative serverId k →
    c.authoritative serverId k ∨ k = change.key ∧ ∀ roomId e, change ≠ .reaction roomId e
  cursor : ∀ target, c'.pinCursor? (serverId, target) =
    match change with
    | .pin roomId e =>
      if target = (roomId, e.targetEventId) then some e.pinEventId
      else c.pinCursor? (serverId, target)
    | _ => c.pinCursor? (serverId, target)
  anchored : Anchored c' serverId

variable {target : RoomTarget}

section Changes
variable {c c' : ChatClient} {sessionId : ChatSessionId} {session : ChatSessionView} {roomId : UInt32}
  {changed : Bool}

theorem reaction_taken {e : ReactionEvent} (hsession : c.session? sessionId = some session)
    (hanchored : Anchored c session.serverId)
    (h : c.applyReactionEvent sessionId roomId e = .ok (changed, c')) :
    ChangeTaken session.serverId (.reaction roomId e) c c' := by
  obtain ⟨session', hsession', hretained, rfl⟩ := applyReactionEvent_ok h
  cases hsession.symm.trans hsession'
  have hall : ∀ event, chatEventSupportsReactions event = true → (fun _ => true) event = true :=
    fun _ _ => rfl
  have hstays := stays_of_retains hsession hall hretained
  refine ⟨rfl, fun k => ?_, fun k hk => .inl ?_, fun target => rfl, { hanchored with reactions := ?_ }⟩
  · cases k with
    | revision | pin => exact (if_neg (by rintro ⟨⟩)).symm
    | reaction target actorUserId token =>
      have hkey : ((session.serverId, roomId, e.targetEventId), e.actorUserId, e.token) =
            ((session.serverId, target), actorUserId, token) ↔
          ProjectionKey.reaction target actorUserId token =
            (reaction roomId e).key := by
        simp only [key, Prod.mk.injEq, true_and, ProjectionKey.reaction.injEq]
        exact ⟨fun h => ⟨h.1.symm, h.2.1.symm, h.2.2.symm⟩, fun h => ⟨h.1.symm, h.2.1.symm, h.2.2.symm⟩⟩
      unfold register nextReactions value
      dsimp only
      cases e.action with
      | add =>
        simp only [find?_put, ChatReaction.key, reactionOf, hkey]
        split
        · rfl
        · rfl
      | remove =>
        simp only [find?_erase, ChatReaction.key, reactionOf, hkey]
        split
        · rfl
        · rfl
  · cases k <;> exact hk
  · unfold nextReactions
    split
    · exact forall_put hstays hanchored.reactions
    · exact fun r hr => hanchored.reactions r (mem_erase hr)

theorem serverTarget_iff :
    ((serverId, target) : Target) = (serverId, target') ↔ target' = target := by
  simp [eq_comm]

theorem revision_taken {e : MessageRevisionEvent} (hsession : c.session? sessionId = some session)
    (hanchored : Anchored c session.serverId)
    (h : c.applyMessageRevisionEvent sessionId roomId e = .ok (changed, c')) :
    ChangeTaken session.serverId (.revision roomId e) c c' := by
  obtain ⟨session', t, hsession', hretained, rfl, ht⟩ := applyMessageRevisionEvent_ok h
  cases hsession.symm.trans hsession'
  have hstays := stays_of_retains hsession (fun _ h => h) hretained
  have hfind : ∀ target, t.find? (session.serverId, target) =
      if target = (roomId, e.targetEventId) then
        some (revisionOf session.serverId roomId e)
      else c.messageRevisions.find? (session.serverId, target) := by
    intro target
    -- the revision that is there already, or the event put over it
    rcases ht with ⟨rfl, hknown⟩ | ⟨rfl, _⟩
    · split
      · next hsame => rw [hsame, hknown]
      · rfl
    · rw [find?_put]
      exact if_congr serverTarget_iff rfl rfl
  refine ⟨rfl, fun k => ?_, fun k hk => ?_, fun target => rfl,
    { hanchored with revisions := ?_, revisionTargets := ?_ }⟩
  · cases k with
    | reaction | pin => exact (if_neg (by rintro ⟨⟩)).symm
    | revision target =>
      have hkey : ProjectionKey.revision target = (revision roomId e).key ↔
          target = (roomId, e.targetEventId) := by
        rw [key, ProjectionKey.revision.injEq]
      unfold register
      dsimp only
      rw [hfind target]
      simp only [hkey]
      split
      · rfl
      · rfl
  · cases k with
    | reaction | pin => exact .inl hk
    | revision target =>
      rcases mem_insert.mp hk with hsame | hold
      · refine .inr ⟨?_, by rintro _ _ ⟨⟩⟩
        rw [key, serverTarget_iff.mp hsame]
      · exact .inl hold
  · rcases ht with ⟨rfl, _⟩ | ⟨rfl, _⟩
    · exact hanchored.revisions
    · exact forall_put hstays hanchored.revisions
  · exact (forall_mem_insert _ _ _).mpr ⟨hstays, hanchored.revisionTargets⟩

theorem find?_nextPins :
    (nextPins t serverId roomId e).find? (serverId, target) =
      if target = (roomId, e.targetEventId) then
        (match e.action with
        | .pin => some (pinOf serverId roomId e)
        | .unpin => none)
      else t.find? (serverId, target) := by
  unfold nextPins
  cases e.action with
  | pin =>
    rw [find?_put]
    exact if_congr serverTarget_iff rfl rfl
  | unpin =>
    rw [find?_erase]
    exact if_congr serverTarget_iff rfl rfl

/-- The pin under the cursor is the event's. -/
theorem find?_of_matches (h : pinMatchesCurrent t serverId roomId e = true) :
    (t.find? (serverId, roomId, e.targetEventId)).map ChatPin.value =
      (pin roomId e).value := by
  unfold pinMatchesCurrent at h
  unfold value
  dsimp only at h ⊢
  cases haction : e.action with
  | pin =>
    rw [haction] at h
    obtain ⟨known, hknown, hsame⟩ := (any_eq_true _ _).mp h
    simp only [Bool.and_eq_true, beq_iff_eq] at hsame
    obtain ⟨⟨hid, hactor⟩, hat⟩ := hsame
    have hknown : t.find? (serverId, roomId, e.targetEventId) = some known := hknown
    rw [hknown, map_some, ChatPin.value, hid, hactor, hat]
    rfl
  | unpin =>
    rw [haction, isNone_iff_eq_none] at h
    have hnone : t.find? (serverId, roomId, e.targetEventId) = none := h
    rw [hnone, map_none]

theorem matches_of_value (h : (t.find? (serverId, roomId, e.targetEventId)).map ChatPin.value =
      (pin roomId e).value) :
    pinMatchesCurrent t serverId roomId e = true := by
  unfold value at h
  unfold pinMatchesCurrent
  have hkey : (pinOf serverId roomId e).key = (serverId, roomId, e.targetEventId) := rfl
  dsimp only at h ⊢
  rw [hkey]
  cases haction : e.action with
  | pin =>
    rw [haction] at h
    obtain ⟨known, hknown, hvalue⟩ := map_eq_some_iff.mp h
    obtain ⟨hid, hactor, hat⟩ := ProjectionValue.pin.inj hvalue
    rw [hknown, any_some, hid, hactor, hat]
    simp [pinOf]
  | unpin =>
    rw [haction] at h
    rw [isNone_iff_eq_none]
    exact map_eq_none_iff.mp h

theorem pinCursor?_put {cursors : Table (Prod.fst : Target × EventId → Target)}
    {eventId : EventId} :
    ((cursors.put ((serverId, target'), eventId)).find? (serverId, target)).map Prod.snd =
      if target = target' then some eventId else (cursors.find? (serverId, target)).map Prod.snd := by
  rw [find?_put]
  by_cases hsame : target = target'
  · rw [if_pos (serverTarget_iff.mpr hsame), if_pos hsame, map_some]
  · rw [if_neg (mt serverTarget_iff.mp hsame), if_neg hsame]

theorem pin_taken (hsession : c.session? sessionId = some session)
    (hanchored : Anchored c session.serverId)
    (h : c.applyPinEvent sessionId roomId e = .ok (changed, c')) :
    ChangeTaken session.serverId (.pin roomId e) c c' := by
  obtain ⟨session', t, cursors, hsession', hretained, rfl, ht⟩ := applyPinEvent_ok h
  cases hsession.symm.trans hsession'
  have hstays := stays_of_retains hsession (fun _ h => h) hretained
  have hvalue : ∀ target, (t.find? (session.serverId, target)).map ChatPin.value =
      if target = (roomId, e.targetEventId) then (pin roomId e).value
      else (c.pins.find? (session.serverId, target)).map ChatPin.value := by
    intro target
    -- the pin that is there already, or the event put into the table
    rcases ht with ⟨rfl, _, _, hmatches⟩ | ⟨rfl, _, _⟩
    · split
      · next hsame => rw [hsame, find?_of_matches hmatches]
      · rfl
    · rw [find?_nextPins]
      split
      · unfold value
        dsimp only
        cases e.action with
        | pin | unpin => rfl
      · rfl
  refine ⟨rfl, fun k => ?_, fun k hk => ?_, fun target => ?_,
    { hanchored with pins := ?_, cursors := ?_, pinTargets := ?_ }⟩
  · cases k with
    | reaction | revision => exact (if_neg (by rintro ⟨⟩)).symm
    | pin target =>
      have hkey : ProjectionKey.pin target = (pin roomId e).key ↔
          target = (roomId, e.targetEventId) := by
        rw [key, ProjectionKey.pin.injEq]
      simp only [hkey]
      exact hvalue target
  · cases k with
    | reaction | revision => exact .inl hk
    | pin target =>
      rcases mem_insert.mp hk with hsame | hold
      · refine .inr ⟨?_, by rintro _ _ ⟨⟩⟩
        rw [key, serverTarget_iff.mp hsame]
      · exact .inl hold
  · rcases ht with ⟨_, rfl, hcursor, _⟩ | ⟨_, rfl, _⟩
    · dsimp only
      split
      · next hsame => rw [hsame]; exact hcursor
      · rfl
    · exact pinCursor?_put
  · rcases ht with ⟨rfl, _⟩ | ⟨rfl, _⟩
    · exact hanchored.pins
    · unfold nextPins
      split
      · exact forall_put hstays hanchored.pins
      · exact fun p hp => hanchored.pins p (mem_erase hp)
  · rcases ht with ⟨_, rfl, _⟩ | ⟨_, rfl, _⟩
    · exact hanchored.cursors
    · exact forall_put hstays hanchored.cursors
  · exact (forall_mem_insert _ _ _).mpr ⟨hstays, hanchored.pinTargets⟩

theorem change_taken {change : ProjectionChange} (hsession : c.session? sessionId = some session)
    (hanchored : Anchored c session.serverId)
    (h : c.applyChange sessionId change = .ok (changed, c')) :
    ChangeTaken session.serverId change c c' := by
  cases change with
  | reaction roomId e => exact reaction_taken hsession hanchored h
  | revision roomId e => exact revision_taken hsession hanchored h
  | pin roomId e => exact pin_taken hsession hanchored h

end Changes

/-! Snapshots that are taken. -/

section Replaced
variable {ρ κ ν : Type} [DecidableEq κ] {key : ρ → κ} {t : Table key} {gone : κ → Bool}
  {rows : List ρ} {value : ρ → ν} {k : κ} {known : Option ν}

/-- The rows of a target are those that are put. -/
theorem find?_replaced (hunique : ∀ q ∈ rows, ∀ r ∈ rows, key q = key r → q = r)
    (hcomplete : ∀ v, known = some v → ∃ r ∈ rows, key r = k ∧ value r = v)
    (hknown : ∀ r ∈ rows, key r = k → known = some (value r)) (hgone : gone k = true) :
    ((replaceTargets t gone rows).find? k).map value = known := by
  unfold replaceTargets
  cases hvalue : known with
  | some v =>
    obtain ⟨r, hr, rfl, rfl⟩ := hcomplete v hvalue
    rw [find?_putAll_of_mem hr fun q hq => hunique q hq r hr, map_some]
  | none =>
    have hnot : ∀ r ∈ rows, key r ≠ k := by
      intro r hr hkey
      have hsome := hknown r hr hkey
      rw [hvalue] at hsome
      cases hsome
    rw [find?_putAll_of_not hnot, find?_deleteKeys, if_pos hgone, map_none]

/-- The rows of a snapshot hold what the registers held at its version. -/
theorem find?_snapshot {log : List (Write ProjectionKey ProjectionValue)} {version : Nat}
    {value : ρ → ProjectionValue} (toKey : κ → ProjectionKey)
    (hvalue : ∀ r ∈ rows, valueAt log version (toKey (key r)) = some (value r))
    (hinj : ∀ q r, key q = key r → value q = value r → q = r)
    (hcomplete : ∀ v, valueAt log version (toKey k) = some v → ∃ r ∈ rows, key r = k ∧ value r = v)
    (hgone : gone k = true) :
    ((replaceTargets t gone rows).find? k).map value = valueAt log version (toKey k) := by
  refine find?_replaced (fun q hq r hr hkey => ?_) hcomplete (fun r hr hkey => ?_) hgone
  · refine hinj q r hkey (some.inj ?_)
    rw [← hvalue q hq, ← hvalue r hr, hkey]
  · rw [← hkey, hvalue r hr]

/-- The other rows stay. -/
theorem find?_replaced_other (hrows : ∀ r ∈ rows, gone (key r) = true) (hgone : ¬gone k = true) :
    (replaceTargets t gone rows).find? k = t.find? k := by
  have hnot : ∀ r ∈ rows, key r ≠ k := by
    rintro r hr rfl
    exact hgone (hrows r hr)
  rw [replaceTargets, find?_putAll_of_not hnot, find?_deleteKeys, if_neg hgone]

end Replaced

def ProjectionValue.pinId? : ProjectionValue → Option EventId
  | .pin eventId _ _ => some eventId
  | _ => none

/-- The snapshot writes the registers of its targets, which are authoritative from then on, with
what they hold at the version it was taken at. -/
structure SnapshotTaken (serverId : String) (roomId : UInt32) (snapshot : ProjectionSnapshot)
    (log : List (Write ProjectionKey ProjectionValue)) (version : Nat) (c c' : ChatClient) : Prop where
  sessions : c'.sessions = c.sessions
  covered : ∀ k, snapshot.coversKey roomId k → c'.register serverId k = valueAt log version k
  other : ∀ k, ¬snapshot.coversKey roomId k → c'.register serverId k = c.register serverId k
  authoritative : ∀ k, c'.authoritative serverId k →
    c.authoritative serverId k ∨ snapshot.coversKey roomId k
  cursor : ∀ target, c'.pinCursor? (serverId, target) =
    if snapshot.coversKey roomId (.pin target) then
      (valueAt log version (.pin target)).bind ProjectionValue.pinId?
    else c.pinCursor? (serverId, target)
  anchored : Anchored c' serverId

section Snapshots
variable {c c' : ChatClient} {sessionId : ChatSessionId} {session : ChatSessionView} {roomId : UInt32}
  {log : List (Write ProjectionKey ProjectionValue)} {version : Nat}

theorem covers_room :
    covers serverId roomId targets (serverId, target) = true ↔
      target.1 = roomId ∧ target.2 ∈ targets.map UInt64.toNat := by
  rw [covers_iff]
  exact and_iff_right rfl

theorem covers_snapshotTargets :
    (serverId, target) ∈ snapshotTargets serverId roomId targets ↔
      target.1 = roomId ∧ target.2 ∈ targets.map UInt64.toNat := by
  rw [mem_snapshotTargets]
  exact and_iff_right rfl

variable (hsession : c.session? sessionId = some session)
include hsession

variable (hanchored : Anchored c session.serverId)
include hanchored

theorem reactionSnapshot_taken {s : ReactionSnapshot}
    (htaken : (ProjectionSnapshot.reactions s).TakenAt log version roomId)
    (h : c.replaceReactionSnapshot sessionId roomId s = .ok c') :
    SnapshotTaken session.serverId roomId (.reactions s) log version c c' := by
  obtain ⟨rfl, hamong, hanchored'⟩ := replaceReactionSnapshot_ok hsession hanchored h
  refine ⟨rfl, fun k hk => ?_, fun k hk => ?_, fun k hk => ?_, fun target => ?_, hanchored'⟩
  · cases k with
    | revision | pin => exact hk.elim
    | reaction target actorUserId token =>
      refine find?_snapshot (fun key : Target × UserId × ReactionToken =>
        .reaction key.1.2 key.2.1 key.2.2) ?_ ?_ (fun v hv => ?_) (covers_room.mpr hk)
      · exact forall_mem_map.mpr fun e he => htaken.entry _ (mem_map_of_mem he)
      · rintro ⟨⟩ ⟨⟩ hkey hvalue
        cases hkey
        cases hvalue
        rfl
      · obtain ⟨e, he, hsame⟩ := mem_map.mp (htaken.complete _ v hk hv)
        cases hsame
        exact ⟨_, mem_map_of_mem he, rfl, rfl⟩
  · cases k with
    | revision | pin => rfl
    | reaction target actorUserId token =>
      exact congrArg (Option.map ChatReaction.value) (find?_replaced_other
        (forall_mem_map.mpr fun e he =>
          covers_iff.mpr ⟨rfl, rfl, mem_map_of_mem (hamong e he)⟩) (mt covers_room.mp hk))
  · cases k with
    | revision | pin => exact .inl hk
    | reaction target actorUserId token =>
      exact (mem_union.mp hk).imp_right covers_snapshotTargets.mp
  · exact (if_neg (by rintro ⟨⟩)).symm

theorem revisionSnapshot_taken
    (htaken : (ProjectionSnapshot.messageRevisions s).TakenAt log version roomId)
    (h : c.replaceMessageRevisionSnapshotWithAuthority sessionId roomId s true = .ok c') :
    SnapshotTaken session.serverId roomId (.messageRevisions s) log version c c' := by
  obtain ⟨rfl, hamong, hanchored'⟩ := replaceMessageRevisionSnapshot_ok hsession hanchored h
  refine ⟨rfl, fun k hk => ?_, fun k hk => ?_, fun k hk => ?_, fun target => ?_, hanchored'⟩
  · cases k with
    | reaction | pin => exact hk.elim
    | revision target =>
      refine find?_snapshot (fun key => .revision key.2) ?_ ?_ (fun v hv => ?_)
        (covers_room.mpr hk)
      · exact forall_mem_map.mpr fun e he => htaken.entry _ (mem_map_of_mem he)
      · rintro ⟨⟩ ⟨⟩ hkey hvalue
        cases hkey
        cases hvalue
        rfl
      · obtain ⟨e, he, hsame⟩ := mem_map.mp (htaken.complete _ v hk hv)
        cases hsame
        exact ⟨_, mem_map_of_mem he, rfl, rfl⟩
  · cases k with
    | reaction | pin => rfl
    | revision target =>
      exact congrArg (Option.map ChatMessageRevision.value) (find?_replaced_other
        (forall_mem_map.mpr fun e he =>
          covers_iff.mpr ⟨rfl, rfl, mem_map_of_mem (hamong e he)⟩) (mt covers_room.mp hk))
  · cases k with
    | reaction | pin => exact .inl hk
    | revision target => exact (mem_union.mp hk).imp_right covers_snapshotTargets.mp
  · exact (if_neg (by rintro ⟨⟩)).symm

theorem pinSnapshot_taken {s : PinSnapshot}
    (htaken : (ProjectionSnapshot.pins s).TakenAt log version roomId)
    (h : c.replacePinSnapshotWithAuthority sessionId roomId s true = .ok c') :
    SnapshotTaken session.serverId roomId (.pins s) log version c c' := by
  obtain ⟨rfl, hamong, hanchored'⟩ := replacePinSnapshot_ok hsession hanchored h
  let rows := s.entries.map (snapshotPin session.serverId roomId)
  have hvalue : ∀ p ∈ rows, valueAt log version (.pin p.key.2) = some p.value :=
    forall_mem_map.mpr fun e he => htaken.entry _ (mem_map_of_mem he)
  have hinj : ∀ p q : ChatPin, p.key = q.key → p.value = q.value → p = q := by
    rintro ⟨⟩ ⟨⟩ hkey hvalue
    cases hkey
    cases hvalue
    rfl
  have hcovered : ∀ p ∈ rows, covers session.serverId roomId s.targetEventIds p.key = true :=
    forall_mem_map.mpr fun e he => covers_iff.mpr ⟨rfl, rfl, mem_map_of_mem (hamong e he)⟩
  have hcomplete : ∀ target : RoomTarget,
      (ProjectionSnapshot.pins s).coversKey roomId (.pin target) →
      ∀ v, valueAt log version (.pin target) = some v →
        ∃ p ∈ rows, p.key = (session.serverId, target) ∧ p.value = v := by
    intro target hk v hv
    obtain ⟨e, he, hsame⟩ := mem_map.mp (htaken.complete _ v hk hv)
    cases hsame
    exact ⟨_, mem_map_of_mem he, rfl, rfl⟩
  refine ⟨rfl, fun k hk => ?_, fun k hk => ?_, fun k hk => ?_, fun target => ?_, hanchored'⟩
  · cases k with
    | reaction | revision => exact hk.elim
    | pin target =>
      exact find?_snapshot (fun key => .pin key.2) hvalue hinj (hcomplete target hk)
        (covers_room.mpr hk)
  · cases k with
    | reaction | revision => rfl
    | pin target =>
      exact congrArg (Option.map ChatPin.value)
        (find?_replaced_other hcovered (mt covers_room.mp hk))
  · cases k with
    | reaction | revision => exact .inl hk
    | pin target =>
      exact (Finset.mem_union.mp hk).imp (fun hold => (Finset.mem_filter.mp hold).1)
        covers_snapshotTargets.mp
  · -- the cursors are those of the rows that are put
    split
    · next hk =>
      refine find?_replaced ?_ ?_ ?_ (covers_room.mpr hk)
      · refine forall_mem_map.mpr fun p hp => forall_mem_map.mpr fun q hq hkey => ?_
        have hsame := (hvalue p hp).symm.trans ((congrArg (fun key : Target =>
          valueAt log version (.pin key.2)) hkey).trans (hvalue q hq))
        rw [hinj p q hkey (some.inj hsame)]
      · intro eventId hid
        obtain ⟨v, hv, hpin⟩ := bind_eq_some_iff.mp hid
        obtain ⟨p, hp, hkey, rfl⟩ := hcomplete target hk v hv
        exact ⟨_, mem_map_of_mem hp, hkey, some.inj hpin⟩
      · refine forall_mem_map.mpr fun p hp hkey => ?_
        have hkey : p.key = (session.serverId, target) := hkey
        have hv := hvalue p hp
        rw [hkey] at hv
        rw [hv]
        rfl
    · next hk =>
      exact congrArg (Option.map Prod.snd) (find?_replaced_other
        (forall_mem_map.mpr hcovered) (mt covers_room.mp hk))

theorem snapshot_taken (htaken : snapshot.TakenAt log version roomId)
    (h : (c.applySnapshot sessionId roomId snapshot).1 = true) :
    SnapshotTaken session.serverId roomId snapshot log version c
      (c.applySnapshot sessionId roomId snapshot).2 := by
  cases snapshot with
  | reactions s =>
    unfold applySnapshot at h ⊢
    dsimp only at h ⊢
    split at h
    · next c' hc' => exact reactionSnapshot_taken hsession hanchored htaken hc'
    · cases h
  | messageRevisions s =>
    unfold applySnapshot replaceMessageRevisionSnapshot at h ⊢
    dsimp only at h ⊢
    split at h
    · next c' hc' => exact revisionSnapshot_taken hsession hanchored htaken hc'
    · cases h
  | pins s =>
    unfold applySnapshot replacePinSnapshot at h ⊢
    dsimp only at h ⊢
    split at h
    · next c' hc' => exact pinSnapshot_taken hsession hanchored htaken hc'
    · cases h

end Snapshots

/-! What is refused. -/

/-- What is shown stays. Targets may be no longer authoritative, and cursors may go. -/
structure Loosened (serverId : String) (c c' : ChatClient) : Prop where
  sessions : c'.sessions = c.sessions
  register : ∀ k, c'.register serverId k = c.register serverId k
  authoritative : ∀ k, c'.authoritative serverId k → c.authoritative serverId k
  cursor : ∀ target eventId, c'.pinCursor? (serverId, target) = some eventId →
    c.pinCursor? (serverId, target) = some eventId
  anchored : Anchored c' serverId

section Loosened
variable {c c₁ c₂ : ChatClient} {sessionId : ChatSessionId} {session : ChatSessionView}
  {roomId : UInt32} {serverId : String}

theorem loosened_self (h : Anchored c serverId) : Loosened serverId c c where
  sessions := rfl
  register _ := rfl
  authoritative _ hk := hk
  cursor _ _ hcursor := hcursor
  anchored := h

theorem Loosened.trans (h₁ : Loosened serverId c c₁) (h₂ : Loosened serverId c₁ c₂) :
    Loosened serverId c c₂ where
  sessions := h₂.sessions.trans h₁.sessions
  register k := (h₂.register k).trans (h₁.register k)
  authoritative k hk := h₁.authoritative k (h₂.authoritative k hk)
  cursor target eventId hcursor := h₁.cursor target eventId (h₂.cursor target eventId hcursor)
  anchored := h₂.anchored

variable (hsession : c.session? sessionId = some session)
include hsession

theorem markReactionsStale_loosened
    (h : Anchored c serverId) : Loosened serverId c (c.markReactionsStale sessionId) := by
  unfold markReactionsStale
  rw [hsession]
  refine ⟨rfl, fun k => by cases k <;> rfl, fun k hk => ?_, fun _ _ hcursor => hcursor,
    { h with reactionTargets := fun target htarget => ?_ }⟩
  · cases k with
    | reaction target actorUserId token => exact (mem_filter.mp hk).1
    | revision | pin => exact hk
  · exact h.reactionTargets target (mem_filter.mp htarget).1

theorem markMessageRevisionsStale_loosened
    (h : Anchored c serverId) : Loosened serverId c (c.markMessageRevisionsStale sessionId) := by
  unfold markMessageRevisionsStale
  rw [hsession]
  refine ⟨rfl, fun k => by cases k <;> rfl, fun k hk => ?_, fun _ _ hcursor => hcursor,
    { h with revisionTargets := fun target htarget => ?_ }⟩
  · cases k with
    | reaction | pin => exact hk
    | revision target => exact (mem_filter.mp hk).1
  · exact h.revisionTargets target (mem_filter.mp htarget).1

theorem markPinsStale_loosened
    (h : Anchored c serverId) : Loosened serverId c (c.markPinsStale sessionId) := by
  unfold markPinsStale
  rw [hsession]
  refine ⟨rfl, fun k => by cases k <;> rfl, fun k hk => ?_, fun target eventId hcursor => ?_,
    { h with cursors := fun entry hentry => ?_, pinTargets := fun target htarget => ?_ }⟩
  · cases k with
    | reaction | revision => exact hk
    | pin target => exact (mem_filter.mp hk).1
  · unfold pinCursor? at hcursor ⊢
    obtain ⟨entry, hentry, rfl⟩ := map_eq_some_iff.mp hcursor
    obtain ⟨hmem, hkey⟩ := find?_eq_some.mp hentry
    rw [find?_eq_some.mpr ⟨(mem_filter.mp hmem).1, hkey⟩, map_some]
  · exact h.cursors entry (mem_filter.mp hentry).1
  · exact h.pinTargets target (mem_filter.mp htarget).1

theorem snapshot_refused
    (hanchored : Anchored c session.serverId)
    (h : (c.applySnapshot sessionId roomId snapshot).1 = false) :
    Loosened session.serverId c (c.applySnapshot sessionId roomId snapshot).2 := by
  cases snapshot with
  | reactions s =>
    unfold applySnapshot at h ⊢
    dsimp only at h ⊢
    split at h
    · cases h
    · exact loosened_self hanchored
  | messageRevisions s =>
    unfold applySnapshot replaceMessageRevisionSnapshot at h ⊢
    dsimp only at h ⊢
    split at h
    · cases h
    · exact markMessageRevisionsStale_loosened hsession hanchored
  | pins s =>
    unfold applySnapshot replacePinSnapshot at h ⊢
    dsimp only at h ⊢
    split at h
    · cases h
    · exact markPinsStale_loosened hsession hanchored

end Loosened

end Omen.Client
