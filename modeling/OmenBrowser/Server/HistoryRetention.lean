import OmenBrowser.Server.HistoryLedger

/- Room history retention (`server/src/store/history_retention.rs`).

   A compaction removes the oldest events of a room up to a boundary, in one transaction with
   everything that hangs on them: replies to them lose their reference, the rows of the six
   target tables go, and the ledger is reduced by what was freed. `hook` is called between the
   stages and may fail, which rolls the compaction back. The retention policy is enforced on
   every append by one bounded compaction, and verified after it.

   Correspondence (Rust ↔ Lean):
     `compact_room_history_through_with_hook`   ↔ the body of its transaction, without `commit`
     the loop that shrinks the candidates       ↔ `boundedBatch`
     the stages after it                        ↔ `compactBatch`
     the selection loop of the policy           ↔ `selectCandidates`
   `current_unix_seconds` is read where the source reads it; each reading is an argument. -/
namespace Omen.Server
open Wire Sql Ints Omen.Protocol List Txn RoomEventRow

variable {roomId : RoomId} {e : RoomEventRow} {db db' : Database} {candidates : List Candidate}
  {dependencies : DependencyCounts} {bytes : Nat} {now : Int} {hook : Hook}
  {result c : RoomHistoryCompaction} {policy : RoomHistoryRetentionPolicy}

def maxCompactedEventsPerTransaction : Nat := 64
def maxCompactionDependentRows : Nat := 20000

structure RoomHistoryRetentionPolicy where
  enabled : Bool
  maxAgeDays : Nat
  maxEventsPerRoom : Nat
  maxBytesPerRoom : Nat
  deriving DecidableEq, Repr

/-- `RoomHistoryRetentionPolicy::default`. -/
def RoomHistoryRetentionPolicy.disabled : RoomHistoryRetentionPolicy := ⟨false, 0, 0, 0⟩

structure RoomHistoryCompaction where
  removedEvents : Nat := 0
  removedEventBytes : Nat := 0
  clearedReplyReferences : Nat := 0
  removedReactionState : Nat := 0
  removedReactionAudit : Nat := 0
  removedRevisionState : Nat := 0
  removedRevisionAudit : Nat := 0
  removedPinState : Nat := 0
  removedPinAudit : Nat := 0
  deriving DecidableEq, Repr

structure Candidate where
  eventId : Int
  retainedBytes : Nat

structure AdmissionCandidate where
  eventId : Int
  retainedBytes : Nat
  atUnix : Int

structure DependencyCounts where
  replies : Nat
  reactionState : Nat
  reactionAudit : Nat
  revisionState : Nat
  revisionAudit : Nat
  pinState : Nat
  pinAudit : Nat

def DependencyCounts.total (d : DependencyCounts) : Nat :=
  [d.reactionState, d.reactionAudit, d.revisionState, d.revisionAudit, d.pinState,
    d.pinAudit].foldl saturatingCount d.replies

inductive CompactionBoundary where
  | replyCleanup
  | reactionCleanup
  | revisionCleanup
  | pinCleanup
  | eventDelete
  | ledgerUpdate
  | commit
  deriving DecidableEq, Repr

/-- What is called between the stages of a compaction. -/
abbrev Hook := CompactionBoundary → Except ServerError Unit

def noHook : Hook := fun _ => .ok ()

/-! The statements. -/

/-- `reply_to_event_id IN (..) AND event_id NOT IN (..)`. -/
def isOrphanedReply (roomId : RoomId) (eventIds : List Int) (e : RoomEventRow) : Bool :=
  e.roomId == roomId && e.replyToEventId.any (eventIds.contains ·) && !eventIds.contains e.eventId

/-- `SET reply_to_event_id = NULL`. -/
def RoomEventRow.clearReply (e : RoomEventRow) : RoomEventRow := { e with replyToEventId := none }

section
variable (db : Database) (roomId : RoomId) (eventIds : List Int)

def Database.clearReplies : Database :=
  { db with
    roomEvents := db.roomEvents.updateWhere (isOrphanedReply roomId eventIds)
      clearReply (fun _ => rfl) }

def Database.deleteEvents : Database :=
  { db with
    roomEvents := db.roomEvents.deleteWhere (fun e => isTarget roomId eventIds e.roomId e.eventId) }

def Database.countSurvivingReplies : Nat :=
  db.roomEvents.rows.countP (isOrphanedReply roomId eventIds)

def Database.dependencyCounts : DependencyCounts :=
  { replies := db.countSurvivingReplies roomId eventIds
    reactionState := db.countTargets roomId eventIds .roomReactions
    reactionAudit := db.countTargets roomId eventIds .roomReactionEvents
    revisionState := db.countTargets roomId eventIds .roomMessageRevisionState
    revisionAudit := db.countTargets roomId eventIds .roomMessageRevisionEvents
    pinState := db.countTargets roomId eventIds .roomPins
    pinAudit := db.countTargets roomId eventIds .roomPinEvents }

end

/-- A statement that changes rows, with its row count. -/
def changing (count : Database → Nat) (f : Database → Database) : Txn Database ServerError Nat := do
  let changed ← query count
  execute f
  pure changed

def clearSurvivingReplyReferences (roomId : RoomId) (eventIds : List Int) :
    Txn Database ServerError Nat :=
  changing (·.countSurvivingReplies roomId eventIds) (·.clearReplies roomId eventIds)

def deleteTargetRows (table : TargetTable) (roomId : RoomId) (eventIds : List Int) :
    Txn Database ServerError Nat :=
  changing (·.countTargets roomId eventIds table) (·.deleteTargets roomId eventIds table)

def deleteEvents (roomId : RoomId) (eventIds : List Int) : Txn Database ServerError Nat :=
  changing
    (fun db => db.roomEvents.rows.countP (fun e => isTarget roomId eventIds e.roomId e.eventId))
    (·.deleteEvents roomId eventIds)

def RoomEventRow.candidate (e : RoomEventRow) : Except ServerError Candidate := do
  let retainedBytes ← e.accountedBytes
  pure ⟨e.eventId, retainedBytes⟩

def loadCandidates (roomId : RoomId) (throughEventId : Int) (limit : Nat) :
    Txn Database ServerError (List Candidate) := do
  let rows ← query (fun db : Database =>
    db.eventsWhere roomId (fun e => decide (e.eventId ≤ throughEventId)) limit)
  lift (rows.mapM candidate)

/-- The counters without what a compaction freed. -/
def UsageRow.release (items bytes : Nat) (now : Int) (u : UsageRow) : UsageRow :=
  { u with
    eventCount := u.eventCount - items
    retainedBytes := u.retainedBytes - bytes
    lastCompactedAt := some now }

def updateUsage (roomId : RoomId) (removedEvents removedEventBytes clearedReplyBytes : Nat)
    (now : Int) : Txn Database ServerError Unit :=
  match toI64 removedEvents, (checkedAdd removedEventBytes clearedReplyBytes).bind toI64 with
  | none, _ => fail "compacted event count does not fit SQLite"
  | some _, none => fail "compacted bytes do not fit SQLite"
  | some _, some _ => do
    let removedBytes := removedEventBytes + clearedReplyBytes
    let changed ← updateUsageWhere roomId
      (fun u => u.backfillComplete && decide (removedEvents ≤ u.eventCount) &&
        decide (removedBytes ≤ u.retainedBytes))
      (UsageRow.release removedEvents removedBytes now) (fun _ => rfl)
    require (changed = 1) s!"room {roomId} history usage does not cover the compaction batch"

/-! Compaction. -/

/-- The longest front part of the candidates whose dependent rows can be removed in one
transaction. The caller has a candidate, so the first case is not reached. -/
def boundedBatch (roomId : RoomId) (candidates : List Candidate) :
    Nat → Txn Database ServerError (List Candidate × DependencyCounts)
  | 0 => do
    let dependencies ← query (fun db : Database => db.dependencyCounts roomId [])
    pure ([], dependencies)
  | n + 1 => do
    let batch := candidates.take (n + 1)
    let dependencies ← query (fun db : Database =>
      db.dependencyCounts roomId (batch.map Candidate.eventId))
    if dependencies.total ≤ maxCompactionDependentRows then pure (batch, dependencies)
    else if n = 0 then
      let first := (batch.head?.map Candidate.eventId).getD 0
      let total := dependencies.total
      fail (s!"room {roomId} event {first} has {total} dependent projections; " ++
        s!"compaction limit is {maxCompactionDependentRows}")
    else boundedBatch roomId candidates n

/-- `try_fold` of `checked_add` over the candidates. -/
def removedBytes : List Candidate → Nat → Except ServerError Nat
  | [], total => .ok total
  | c :: candidates, total =>
    match checkedAdd total c.retainedBytes with
    | some total => removedBytes candidates total
    | none => .error (.message "room history compaction bytes overflowed")

def clearedReplyBytes (clearedReplyReferences : Nat) : Except ServerError Nat :=
  match checkedMul clearedReplyReferences historyReplyRetainedBytes with
  | some bytes => .ok bytes
  | none => .error (.message "room history reply-byte accounting overflowed")

/-- Remove the candidates with everything that hangs on them. -/
def compactBatch (roomId : RoomId) (candidates : List Candidate) (dependencies : DependencyCounts)
    (now : Int) (hook : Hook) : Txn Database ServerError RoomHistoryCompaction := do
  let eventIds := candidates.map Candidate.eventId
  -- each deletion has to find as many rows as the preflight counted
  let clearedReplyReferences ← clearSurvivingReplyReferences roomId eventIds
  require (clearedReplyReferences = dependencies.replies)
    s!"room {roomId} reply projections changed during compaction"
  lift (hook .replyCleanup)
  let removedReactionState ← deleteTargetRows .roomReactions roomId eventIds
  let removedReactionAudit ← deleteTargetRows .roomReactionEvents roomId eventIds
  require (removedReactionState = dependencies.reactionState ∧
      removedReactionAudit = dependencies.reactionAudit)
    s!"room {roomId} reaction projections changed during compaction"
  lift (hook .reactionCleanup)
  let removedRevisionState ← deleteTargetRows .roomMessageRevisionState roomId eventIds
  let removedRevisionAudit ← deleteTargetRows .roomMessageRevisionEvents roomId eventIds
  require (removedRevisionState = dependencies.revisionState ∧
      removedRevisionAudit = dependencies.revisionAudit)
    s!"room {roomId} revision projections changed during compaction"
  lift (hook .revisionCleanup)
  let removedPinState ← deleteTargetRows .roomPins roomId eventIds
  let removedPinAudit ← deleteTargetRows .roomPinEvents roomId eventIds
  require (removedPinState = dependencies.pinState ∧ removedPinAudit = dependencies.pinAudit)
    s!"room {roomId} pin projections changed during compaction"
  lift (hook .pinCleanup)
  let removedEvents ← deleteEvents roomId eventIds
  require (removedEvents = candidates.length) s!"room {roomId} history changed during compaction"
  lift (hook .eventDelete)
  let removedEventBytes ← lift (removedBytes candidates 0)
  let replyBytes ← lift (clearedReplyBytes clearedReplyReferences)
  updateUsage roomId removedEvents removedEventBytes replyBytes now
  lift (hook .ledgerUpdate)
  pure { removedEvents, removedEventBytes, clearedReplyReferences, removedReactionState,
         removedReactionAudit, removedRevisionState, removedRevisionAudit, removedPinState,
         removedPinAudit }

def compactRoomHistoryThroughInTransaction (roomId : RoomId) (throughEventId : Int) (limit : Nat)
    (now : Int) (hook : Hook) : Txn Database ServerError RoomHistoryCompaction := do
  let _ ← ensureRoomEventSequence roomId
  let usage ← roomHistoryUsageOn roomId
  require (usage.backfillComplete = true) s!"room {roomId} history usage backfill is incomplete"
  let candidates ← loadCandidates roomId throughEventId limit
  if candidates.isEmpty then pure {}
  else
    let (batch, dependencies) ← boundedBatch roomId candidates candidates.length
    compactBatch roomId batch dependencies now hook

section
variable (roomId : RoomId) (throughEventId : EventId) (maxEvents : Nat) (now : Int)

def compactRoomHistoryThroughWithHook (hook : Hook) : Txn Database ServerError RoomHistoryCompaction := do
  require (throughEventId ≠ 0) "room history compaction requires a nonzero event boundary"
  require (maxEvents ≠ 0) "room history compaction requires a positive event limit"
  match toI64 throughEventId with
  | none => fail "room history compaction boundary does not fit SQLite"
  | some through =>
    let result ← compactRoomHistoryThroughInTransaction roomId through
      (min maxEvents maxCompactedEventsPerTransaction) now hook
    lift (hook .commit)
    pure result

def compactRoomHistoryThrough : Txn Database ServerError RoomHistoryCompaction :=
  compactRoomHistoryThroughWithHook roomId throughEventId maxEvents now noHook

end

/-! The policy. -/

def RoomEventRow.admissionCandidate (e : RoomEventRow) : Except ServerError AdmissionCandidate := do
  let retainedBytes ← e.accountedBytes
  pure ⟨e.eventId, retainedBytes, e.atUnix⟩

def loadAdmissionCandidates (roomId : RoomId) (newestEventId : Int) (limit : Nat) :
    Txn Database ServerError (List AdmissionCandidate) := do
  let rows ← query (fun db : Database =>
    db.eventsWhere roomId (fun e => decide (e.eventId ≠ newestEventId)) limit)
  lift (rows.mapM admissionCandidate)

/-- The candidates from the oldest on, as long as they are expired or the room is over a limit. -/
def selectCandidates (policy : RoomHistoryRetentionPolicy) (cutoff : Int) :
    List AdmissionCandidate → Nat → Nat → List AdmissionCandidate
  | [], _, _ => []
  | c :: candidates, projectedEvents, projectedBytes =>
    let ageExpired := decide (c.atUnix ≤ cutoff)
    let overItems := decide (projectedEvents > policy.maxEventsPerRoom)
    let overBytes := decide (projectedBytes > policy.maxBytesPerRoom) && decide (projectedEvents > 1)
    if !ageExpired && !overItems && !overBytes then []
    else c :: selectCandidates policy cutoff candidates (projectedEvents - 1)
      (projectedBytes - c.retainedBytes)

def verifyRoomHistoryPolicyAfterCompaction (roomId : RoomId) (newestEventId cutoff : Int)
    (policy : RoomHistoryRetentionPolicy) : Txn Database ServerError Unit := do
  let usage ← roomHistoryUsageOn roomId
  let oversizedSingle :=
    usage.eventCount == 1 && decide (usage.retainedBytes > policy.maxBytesPerRoom)
  let expiredRemain ← query (fun db : Database => db.roomEvents.rows.any (fun e =>
    e.roomId == roomId && decide (e.eventId ≠ newestEventId) && decide (e.atUnix ≤ cutoff)))
  require (¬(usage.eventCount > policy.maxEventsPerRoom ∨
      (usage.retainedBytes > policy.maxBytesPerRoom ∧ oversizedSingle = false) ∨
      expiredRemain = true))
    s!"room {roomId} history retention requires more than one bounded compaction batch"

/-- The time at which an event is too old: `now` less the maximum age. -/
def retentionCutoff (policy : RoomHistoryRetentionPolicy) (now : Int) : Except ServerError Int :=
  match (checkedMul policy.maxAgeDays (24 * 60 * 60)).bind toI64 with
  | some maxAgeSeconds => .ok (saturatingSub now maxAgeSeconds)
  | none => .error (.message "room history age limit overflowed")

/-- Compact the selected candidates, and verify. -/
def compactSelected (roomId : RoomId) (newest cutoff : Int) (policy : RoomHistoryRetentionPolicy)
    (compactedAt : Int) (selected : List AdmissionCandidate) :
    Txn Database ServerError RoomHistoryCompaction :=
  match selected.getLast? with
  | none => pure {}
  | some last => do
    let compacted ← compactRoomHistoryThroughInTransaction roomId last.eventId selected.length
      compactedAt noHook
    verifyRoomHistoryPolicyAfterCompaction roomId newest cutoff policy
    pure compacted

def enforceRoomHistoryPolicyInTransaction (roomId : RoomId) (newestEventId : EventId)
    (policy : RoomHistoryRetentionPolicy) (now compactedAt : Int) :
    Txn Database ServerError RoomHistoryCompaction :=
  if !policy.enabled then pure {}
  else do
    require (¬(policy.maxAgeDays = 0 ∨ policy.maxEventsPerRoom = 0 ∨ policy.maxBytesPerRoom = 0))
      "enabled room history retention requires positive age, item, and byte limits"
    let usage ← roomHistoryUsageOn roomId
    require (usage.backfillComplete = true)
      s!"room {roomId} history admission is blocked until usage backfill completes"
    let cutoff ← lift (retentionCutoff policy now)
    match toI64 newestEventId with
    | none => fail "newest event ID does not fit SQLite"
    | some newest =>
      let candidates ← loadAdmissionCandidates roomId newest maxCompactedEventsPerTransaction
      compactSelected roomId newest cutoff policy compactedAt
        (selectCandidates policy cutoff candidates usage.eventCount usage.retainedBytes)

/-! What a compaction does. -/

/-- Everything that hangs on the events is gone, and the events too. -/
def Database.forget (db : Database) (roomId : RoomId) (eventIds : List Int) : Database :=
  (((((((db.clearReplies roomId eventIds).deleteTargets roomId eventIds .roomReactions).deleteTargets
    roomId eventIds .roomReactionEvents).deleteTargets roomId eventIds
    .roomMessageRevisionState).deleteTargets roomId eventIds .roomMessageRevisionEvents).deleteTargets
    roomId eventIds .roomPins).deleteTargets roomId eventIds .roomPinEvents).deleteEvents roomId
    eventIds

theorem roomHistoryUsage_forget (db : Database) (roomId : RoomId) (eventIds : List Int) :
    (db.forget roomId eventIds).roomHistoryUsage = db.roomHistoryUsage := by
  simp only [Database.forget, Database.deleteEvents, Database.deleteTargets, Database.clearReplies]

theorem usage?_forget (db : Database) (roomId : RoomId) (eventIds : List Int) (r : RoomId) :
    (db.forget roomId eventIds).usage? r = db.usage? r := by
  unfold Database.usage?
  rw [roomHistoryUsage_forget]

section
variable (roomId : RoomId) (eventIds : List Int) (e : RoomEventRow)

/-- An event after a compaction: a reply to a removed event has lost its reference. -/
def RoomEventRow.forgetReply : RoomEventRow :=
  if isOrphanedReply roomId eventIds e then e.clearReply else e

@[simp] theorem forgetReply_roomId : (e.forgetReply roomId eventIds).roomId = e.roomId := by
  unfold forgetReply
  split <;> rfl

@[simp] theorem forgetReply_eventId : (e.forgetReply roomId eventIds).eventId = e.eventId := by
  unfold forgetReply
  split <;> rfl

end

theorem history_forget (db : Database) (roomId : RoomId) (eventIds : List Int) (r : RoomId) :
    (db.forget roomId eventIds).history r =
      ((db.history r).filter (fun e => !isTarget roomId eventIds e.roomId e.eventId)).map
        (forgetReply roomId eventIds) := by
  have hnodup : (((db.roomEvents.rows.filter (fun e => e.roomId == r)).filter
      (fun e => !isTarget roomId eventIds e.roomId e.eventId)).map eventId).Nodup :=
    (nodup_eventIds db.roomEvents r).sublist (filter_sublist.map _)
  have hrows : ((db.forget roomId eventIds).roomEvents.rows.filter (fun e => e.roomId == r)) =
      ((db.roomEvents.rows.filter (fun e => e.roomId == r)).filter
        (fun e => !isTarget roomId eventIds e.roomId e.eventId)).map
          (forgetReply roomId eventIds) := by
    show ((db.roomEvents.rows.map (forgetReply roomId eventIds)).filter
      (fun e => !isTarget roomId eventIds e.roomId e.eventId)).filter (fun e => e.roomId == r) = _
    rw [filter_map, filter_map, filter_filter, filter_filter]
    congr 1
    apply filter_congr
    intro e _
    simp [Bool.and_comm]
  unfold Database.history
  rw [hrows, orderBy_map hnodup (forgetReply_eventId roomId eventIds),
    orderBy_filter (nodup_eventIds db.roomEvents r)]

theorem forgetReply_of_ne {eventIds : List Int} (h : e.roomId ≠ roomId) :
    e.forgetReply roomId eventIds = e := by
  unfold forgetReply isOrphanedReply
  simp [h]

/-- The events of another room stay as they are. -/
theorem history_forget_of_ne {eventIds : List Int} {r : RoomId} (h : r ≠ roomId) :
    (db.forget roomId eventIds).history r = db.history r := by
  have hroom : ∀ e ∈ db.history r, e.roomId ≠ roomId := by
    intro e he
    rw [(mem_history.mp he).2]
    exact h
  have hkeep : (db.history r).filter (fun e => !isTarget roomId eventIds e.roomId e.eventId) =
      db.history r := by
    apply filter_eq_self.mpr
    intro e he
    simp [isTarget, hroom e he]
  rw [history_forget, hkeep]
  conv_rhs => rw [← map_id (db.history r)]
  apply map_congr_left
  intro e he
  exact forgetReply_of_ne (hroom e he)

/-- The keys of the oldest `k` events of a room. -/
def Database.oldestIds (db : Database) (roomId : RoomId) (k : Nat) : List Int :=
  ((db.history roomId).take k).map eventId

variable {k limit n : Nat} {β : Type} {through : Int} {x : Unit} {u : UsageRow}

theorem isTarget_of_take (he : e ∈ (db.history roomId).take k) :
    isTarget roomId (db.oldestIds roomId k) e.roomId e.eventId = true := by
  have hroom := (mem_history.mp (mem_of_mem_take he)).2
  have hid : e.eventId ∈ db.oldestIds roomId k := mem_map_of_mem he
  simp [isTarget, hroom, hid]

theorem isTarget_of_drop (he : e ∈ (db.history roomId).drop k) :
    isTarget roomId (db.oldestIds roomId k) e.roomId e.eventId = false := by
  have hid : e.eventId ∉ db.oldestIds roomId k := (ascending_history db roomId).notMem_keys he
  simp [isTarget, hid]

/-- Of the room the rest stays, without references to what is gone. -/
theorem history_forget_oldest (db : Database) (roomId : RoomId) (k : Nat) :
    (db.forget roomId (db.oldestIds roomId k)).history roomId =
      ((db.history roomId).drop k).map
        (forgetReply roomId (db.oldestIds roomId k)) := by
  rw [history_forget, filter_not_eq_drop (fun e he => isTarget_of_take he)
    (fun e he => isTarget_of_drop he)]

/-! The bytes a compaction frees. -/

theorem retainedBytes_forgetReply (roomId : RoomId) (eventIds : List Int) (e : RoomEventRow) :
    e.retainedBytes = (e.forgetReply roomId eventIds).retainedBytes +
      (if isOrphanedReply roomId eventIds e then historyReplyRetainedBytes else 0) := by
  unfold forgetReply
  cases h : isOrphanedReply roomId eventIds e with
  | false => rfl
  | true =>
    have hsome : e.replyToEventId.isSome = true := by
      unfold isOrphanedReply at h
      cases hr : e.replyToEventId with
      | none => simp [hr] at h
      | some reply => rfl
    simp [RoomEventRow.retainedBytes, clearReply, payloadBytes,
      mentionBytes, hsome]

theorem sum_retainedBytes_forgetReply (roomId : RoomId) (eventIds : List Int)
    (events : List RoomEventRow) :
    (events.map RoomEventRow.retainedBytes).sum =
      ((events.map (forgetReply roomId eventIds)).map
        RoomEventRow.retainedBytes).sum +
      historyReplyRetainedBytes * events.countP (isOrphanedReply roomId eventIds) := by
  induction events with
  | nil => rfl
  | cons e events ih =>
    have he := retainedBytes_forgetReply roomId eventIds e
    rw [countP_cons, Nat.mul_add]
    simp only [map_cons, sum_cons, ih]
    cases ho : isOrphanedReply roomId eventIds e with
    | false =>
      simp only [ho, Bool.false_eq_true, if_false, Nat.mul_zero] at he ⊢
      omega
    | true =>
      simp only [ho, if_true, Nat.mul_one] at he ⊢
      omega

/-- Only events that stay can be orphaned. -/
theorem countSurvivingReplies_oldest (db : Database) (roomId : RoomId) (k : Nat) :
    db.countSurvivingReplies roomId (db.oldestIds roomId k) =
      ((db.history roomId).drop k).countP (isOrphanedReply roomId (db.oldestIds roomId k)) := by
  have hroom : db.countSurvivingReplies roomId (db.oldestIds roomId k) =
      (db.history roomId).countP (isOrphanedReply roomId (db.oldestIds roomId k)) := by
    unfold Database.countSurvivingReplies Database.history
    rw [(perm_orderBy _ _).countP_eq, countP_filter]
    apply countP_congr
    intro e _
    simp only [isOrphanedReply, Bool.and_eq_true]
    tauto
  have htake : ((db.history roomId).take k).countP
      (isOrphanedReply roomId (db.oldestIds roomId k)) = 0 := by
    apply countP_eq_zero.mpr
    intro e he
    have hid : e.eventId ∈ db.oldestIds roomId k := mem_map_of_mem he
    simp [isOrphanedReply, hid]
  rw [hroom]
  conv_lhs => rw [← take_append_drop k (db.history roomId)]
  rw [countP_append, htake, Nat.zero_add]

/-! Taking a compaction apart. -/

theorem changing_bind {count : Database → Nat} {f : Database → Database}
    {g : Nat → Txn Database ServerError β} :
    (changing count f >>= g) db = g (count db) (f db) := rfl

theorem candidate_ok {c : Candidate} (h : e.candidate = .ok c) :
    c = ⟨e.eventId, e.retainedBytes⟩ := by
  obtain ⟨bytes, hb, h⟩ := Outcome.bind_ok.mp h
  injection h with h
  rw [← h, (accountedBytes_ok.mp hb).1]

/-- The candidates are the oldest events of the room. -/
theorem loadCandidates_ok (h : loadCandidates roomId through limit db = .ok (candidates, db')) :
    db' = db ∧ ∃ n, n ≤ limit ∧ (∀ e ∈ (db.history roomId).take n, e.eventId ≤ through) ∧
      candidates = ((db.history roomId).take n).map (fun e => ⟨e.eventId, e.retainedBytes⟩) := by
  rw [loadCandidates, query_bind] at h
  obtain ⟨hmap, hdb⟩ := lift_ok.mp h
  obtain ⟨n, hn⟩ := (ascending_history db roomId).filter_front
    (p := fun e => decide (e.eventId ≤ through))
    (fun a b hab hb => decide_eq_true (by have := of_decide_eq_true hb; omega))
  have hrows : db.eventsWhere roomId (fun e => decide (e.eventId ≤ through)) limit =
      (db.history roomId).take (min limit n) := by
    rw [eventsWhere_eq, hn, take_take]
  refine ⟨hdb, min limit n, Nat.min_le_left _ _, ?_, ?_⟩
  · intro e he
    have he' : e ∈ (db.history roomId).filter (fun e => decide (e.eventId ≤ through)) := by
      rw [hn]
      exact take_subset_take_left _ (Nat.min_le_right _ _) he
    exact of_decide_eq_true (mem_filter.mp he').2
  · rw [hrows] at hmap
    exact Outcome.mapM_ok (fun _ _ => candidate_ok) hmap

/-- A batch is a front part of the candidates, with its dependent rows counted. -/
theorem boundedBatch_ok {batch : List Candidate}
    (h : boundedBatch roomId candidates n db = .ok ((batch, dependencies), db')) :
    db' = db ∧ ∃ k, k ≤ n ∧ batch = candidates.take k := by
  induction n with
  | zero =>
    rw [boundedBatch, query_bind] at h
    obtain ⟨hb, hdb⟩ := pure_eq_ok h
    exact ⟨hdb, 0, Nat.le_refl _, (Prod.mk.inj hb).1⟩
  | succ n ih =>
    rw [boundedBatch, query_bind] at h
    split at h
    · obtain ⟨hb, hdb⟩ := pure_eq_ok h
      exact ⟨hdb, n + 1, Nat.le_refl _, (Prod.mk.inj hb).1⟩
    · split at h
      · exact (fail_ok.mp h).elim
      · obtain ⟨hdb, k, hk, hbatch⟩ := ih h
        exact ⟨hdb, k, Nat.le_succ_of_le hk, hbatch⟩

theorem removedBytes_ok {total : Nat} (h : removedBytes candidates total = .ok bytes) :
    bytes = total + (candidates.map Candidate.retainedBytes).sum := by
  induction candidates generalizing total with
  | nil =>
    injection h with h
    simpa using h.symm
  | cons c candidates ih =>
    unfold removedBytes at h
    cases hadd : checkedAdd total c.retainedBytes with
    | none => simp [hadd] at h
    | some next =>
      simp only [hadd] at h
      rw [ih h, (checkedAdd_some.mp hadd).1, map_cons, sum_cons]
      omega

theorem clearedReplyBytes_ok {cleared : Nat} (h : clearedReplyBytes cleared = .ok bytes) :
    bytes = historyReplyRetainedBytes * cleared := by
  unfold clearedReplyBytes at h
  split at h
  · next b hb =>
    injection h with h
    rw [← h, (checkedMul_some.mp hb).1, Nat.mul_comm]
  · cases h

theorem updateUsage_ok {items replyBytes : Nat}
    (h : updateUsage roomId items bytes replyBytes now db = .ok (x, db')) :
    ∃ u, db.usage? roomId = some u ∧ items ≤ u.eventCount ∧ bytes + replyBytes ≤ u.retainedBytes ∧
      UsageSet db db' roomId (u.release items (bytes + replyBytes) now) := by
  unfold updateUsage at h
  cases hitems : toI64 items with
  | none =>
    simp only [hitems] at h
    exact (fail_ok.mp h).elim
  | some i =>
    cases hbytes : (checkedAdd bytes replyBytes).bind toI64 with
    | none =>
      simp only [hitems, hbytes] at h
      exact (fail_ok.mp h).elim
    | some b =>
      simp only [hitems, hbytes] at h
      obtain ⟨changed, db₁, hupdate, h⟩ := bind_ok.mp h
      unfold require at h
      split at h
      · next hone =>
        obtain ⟨_, rfl⟩ := pure_eq_ok h
        obtain ⟨u, hu, hguard, hset⟩ := updateUsageWhere_ok (hone ▸ hupdate)
        simp only [Bool.and_eq_true, decide_eq_true_eq] at hguard
        exact ⟨u, hu, hguard.1.2, hguard.2, hset⟩
      · exact (fail_ok.mp h).elim

/-- The candidates and everything that hangs on them are forgotten, and the ledger is reduced
by them and by the references that were cleared. -/
theorem compactBatch_ok
    (h : compactBatch roomId candidates dependencies now hook db = .ok (result, db')) :
    result.removedEvents = candidates.length ∧
    ∃ u, db.usage? roomId = some u ∧ candidates.length ≤ u.eventCount ∧
      (candidates.map Candidate.retainedBytes).sum + historyReplyRetainedBytes *
        db.countSurvivingReplies roomId (candidates.map Candidate.eventId) ≤ u.retainedBytes ∧
      UsageSet (db.forget roomId (candidates.map Candidate.eventId)) db' roomId
        (u.release candidates.length ((candidates.map Candidate.retainedBytes).sum +
          historyReplyRetainedBytes *
            db.countSurvivingReplies roomId (candidates.map Candidate.eventId)) now) := by
  rw [compactBatch, clearSurvivingReplyReferences, changing_bind] at h
  obtain ⟨_, h⟩ := require_bind_ok.mp h
  obtain ⟨_, _, h⟩ := lift_bind_ok.mp h
  obtain ⟨_, h⟩ := require_bind_ok.mp h
  obtain ⟨_, _, h⟩ := lift_bind_ok.mp h
  obtain ⟨_, h⟩ := require_bind_ok.mp h
  obtain ⟨_, _, h⟩ := lift_bind_ok.mp h
  obtain ⟨_, h⟩ := require_bind_ok.mp h
  obtain ⟨_, _, h⟩ := lift_bind_ok.mp h
  obtain ⟨hcount, h⟩ := require_bind_ok.mp h
  obtain ⟨_, _, h⟩ := lift_bind_ok.mp h
  obtain ⟨bytes, hbytes, h⟩ := lift_bind_ok.mp h
  obtain ⟨replyBytes, hreply, h⟩ := lift_bind_ok.mp h
  obtain ⟨_, db₁, husage, h⟩ := bind_ok.mp h
  obtain ⟨_, _, h⟩ := lift_bind_ok.mp h
  obtain ⟨rfl, rfl⟩ := pure_eq_ok h
  obtain ⟨u, hu, hitems, hle, hset⟩ := updateUsage_ok husage
  -- the statements in a row are one `forget`
  replace hset : UsageSet (db.forget roomId (candidates.map Candidate.eventId)) _ roomId _ := hset
  replace hu : (db.forget roomId (candidates.map Candidate.eventId)).usage? roomId = some u := hu
  rw [usage?_forget] at hu
  rw [removedBytes_ok hbytes, clearedReplyBytes_ok hreply, Nat.zero_add] at hle hset
  rw [hcount] at hitems hset
  exact ⟨hcount, u, hu, hitems, hle, hset⟩

/-- What the oldest `k` events of a room free: their bytes, and the references to them. -/
def Database.freedBytes (db : Database) (roomId : RoomId) (k : Nat) : Nat :=
  (((db.history roomId).take k).map RoomEventRow.retainedBytes).sum +
    historyReplyRetainedBytes * db.countSurvivingReplies roomId (db.oldestIds roomId k)

/-- The oldest `k` events are forgotten and released from a complete ledger `u`. -/
structure Compacts (db db' : Database) (roomId : RoomId) (u : UsageRow) (k : Nat) (now : Int) :
    Prop where
  complete : u.backfillComplete = true
  before : db.usage? roomId = some u
  items : ((db.history roomId).take k).length ≤ u.eventCount
  bytes : db.freedBytes roomId k ≤ u.retainedBytes
  after : UsageSet (db.forget roomId (db.oldestIds roomId k)) db' roomId
    (u.release ((db.history roomId).take k).length (db.freedBytes roomId k) now)

theorem SequenceSet.history (h : SequenceSet db db' roomId n) (r : RoomId) :
    db'.history r = db.history r := by
  rw [h.rest]; rfl

theorem SequenceSet.usage (h : SequenceSet db db' roomId n) (r : RoomId) :
    db'.usage? r = db.usage? r := by
  rw [h.rest]; rfl

theorem UsageSet.history (h : UsageSet db db' roomId u) (r : RoomId) :
    db'.history r = db.history r := by
  rw [h.rest]; rfl

theorem UsageSet.sequence (h : UsageSet db db' roomId u) (r : RoomId) :
    db'.sequence? r = db.sequence? r := by
  rw [h.rest]; rfl

theorem roomHistoryUsageOn_ok {usage : RoomHistoryUsage}
    (h : roomHistoryUsageOn roomId db = .ok (usage, db')) :
    ∃ u, db.usage? roomId = some u ∧ usage = u.toUsage ∧ db' = db := by
  rw [roomHistoryUsageOn, roomHistoryUsageOptionalOn, query_bind] at h
  cases hu : db.roomHistoryUsage.find? roomId with
  | none =>
    simp only [hu, Option.map_none] at h
    exact (fail_ok.mp h).elim
  | some u =>
    simp only [hu, Option.map_some] at h
    obtain ⟨rfl, rfl⟩ := pure_eq_ok h
    exact ⟨u, hu, rfl, rfl⟩

theorem roomHistoryUsageOn_bind_ok {g : RoomHistoryUsage → Txn Database ServerError β}
    {r : β × Database} (h : (roomHistoryUsageOn roomId >>= g) db = .ok r) :
    ∃ u, db.usage? roomId = some u ∧ g u.toUsage db = .ok r := by
  obtain ⟨usage, db₁, husage, hg⟩ := bind_ok.mp h
  obtain ⟨u, hu, rfl, rfl⟩ := roomHistoryUsageOn_ok husage
  exact ⟨u, hu, hg⟩

/-- A compaction seeds the sequence, and then finds nothing to remove or removes the oldest
events up to the boundary. -/
theorem compactInTransaction_ok
    (h : compactRoomHistoryThroughInTransaction roomId through limit now hook db =
      .ok (result, db')) :
    ∃ db₁ last k, ensureRoomEventSequence roomId db = .ok (last, db₁) ∧ k ≤ limit ∧
      (∀ e ∈ (db.history roomId).take k, e.eventId ≤ through) ∧
      result.removedEvents = ((db.history roomId).take k).length ∧
      (k = 0 ∧ db' = db₁ ∨ ∃ u, Compacts db₁ db' roomId u k now) := by
  obtain ⟨last, db₁, hseq, h⟩ := bind_ok.mp h
  obtain ⟨hset, _⟩ := ensureRoomEventSequence_ok hseq
  obtain ⟨u, hu, h⟩ := roomHistoryUsageOn_bind_ok h
  obtain ⟨hcomplete, h⟩ := require_bind_ok.mp h
  obtain ⟨candidates, db₂, hload, h⟩ := bind_ok.mp h
  obtain ⟨rfl, n, hn, hthrough, rfl⟩ := loadCandidates_ok hload
  rw [hset.history] at hthrough
  split at h
  · obtain ⟨rfl, rfl⟩ := pure_eq_ok h
    exact ⟨_, last, 0, hseq, Nat.zero_le _, by simp, by simp, .inl ⟨rfl, rfl⟩⟩
  · obtain ⟨⟨batch, dependencies⟩, db₃, hbatch, h⟩ := bind_ok.mp h
    obtain ⟨rfl, j, _, rfl⟩ := boundedBatch_ok hbatch
    obtain ⟨hremoved, v, hv, hitems, hbytes, hafter⟩ := compactBatch_ok h
    obtain rfl : u = v := Option.some.inj (hu.symm.trans hv)
    -- a front part of a front part
    rw [← map_take, take_take] at hremoved hitems hbytes hafter
    rw [map_map, map_map] at hbytes hafter
    rw [length_map] at hremoved hitems hafter
    refine ⟨_, last, min j n, hseq, ?_, ?_, ?_, .inr ⟨u, ⟨hcomplete, hu, hitems, hbytes, hafter⟩⟩⟩
    · exact Nat.le_trans (Nat.min_le_right _ _) hn
    · intro e he
      exact hthrough e (take_subset_take_left _ (Nat.min_le_right _ _) he)
    · rw [hremoved, hset.history]

theorem compactThrough_cases {through : EventId} {maxEvents : Nat}
    (h : compactRoomHistoryThroughWithHook roomId through maxEvents now hook db =
      .ok (result, db')) :
    ∃ t, through ≠ 0 ∧ maxEvents ≠ 0 ∧ t = (through : Int) ∧
      compactRoomHistoryThroughInTransaction roomId t (min maxEvents
        maxCompactedEventsPerTransaction) now hook db = .ok (result, db') ∧
      hook .commit = .ok () := by
  obtain ⟨hthrough, h⟩ := require_bind_ok.mp h
  obtain ⟨hmax, h⟩ := require_bind_ok.mp h
  cases ht : toI64 through with
  | none =>
    simp only [ht] at h
    exact (fail_ok.mp h).elim
  | some t =>
    simp only [ht] at h
    obtain ⟨_, db₁, hcompact, h⟩ := bind_ok.mp h
    obtain ⟨_, hcommit, h⟩ := lift_bind_ok.mp h
    obtain ⟨rfl, rfl⟩ := pure_eq_ok h
    exact ⟨t, hthrough, hmax, (toI64_some.mp ht).1, hcompact, hcommit⟩

/-! Taking the policy apart. -/

theorem admissionCandidate_ok {c : AdmissionCandidate} (h : e.admissionCandidate = .ok c) :
    c = ⟨e.eventId, e.retainedBytes, e.atUnix⟩ := by
  obtain ⟨bytes, hb, h⟩ := Outcome.bind_ok.mp h
  injection h with h
  rw [← h, (accountedBytes_ok.mp hb).1]

/-- The oldest events of a room other than the newest, as candidates. -/
def Database.admissionCandidates (db : Database) (roomId : RoomId) (newest : Int) :
    List AdmissionCandidate :=
  (((db.history roomId).filter (fun e => decide (e.eventId ≠ newest))).take
    maxCompactedEventsPerTransaction).map (fun e => ⟨e.eventId, e.retainedBytes, e.atUnix⟩)

theorem loadAdmissionCandidates_ok {newest : Int} {candidates : List AdmissionCandidate}
    (h : loadAdmissionCandidates roomId newest maxCompactedEventsPerTransaction db =
      .ok (candidates, db')) :
    db' = db ∧ candidates = db.admissionCandidates roomId newest := by
  rw [loadAdmissionCandidates, query_bind] at h
  obtain ⟨hmap, hdb⟩ := lift_ok.mp h
  rw [eventsWhere_eq] at hmap
  exact ⟨hdb, Outcome.mapM_ok (fun _ _ => admissionCandidate_ok) hmap⟩

/-- What the check after a compaction found. -/
structure Verified (db : Database) (roomId : RoomId) (newest cutoff : Int)
    (policy : RoomHistoryRetentionPolicy) (u : UsageRow) : Prop where
  ledger : db.usage? roomId = some u
  items : u.eventCount ≤ policy.maxEventsPerRoom
  bytes : u.retainedBytes ≤ policy.maxBytesPerRoom ∨ u.eventCount = 1
  age : ∀ e ∈ db.history roomId, e.eventId ≠ newest → cutoff < e.atUnix

theorem verifyAfterCompaction_ok {newest cutoff : Int}
    (h : verifyRoomHistoryPolicyAfterCompaction roomId newest cutoff policy db = .ok (x, db')) :
    db' = db ∧ ∃ u, Verified db roomId newest cutoff policy u := by
  obtain ⟨u, hu, h⟩ := roomHistoryUsageOn_bind_ok h
  rw [query_bind] at h
  unfold require at h
  split at h
  · next hok =>
    obtain ⟨_, rfl⟩ := pure_eq_ok h
    simp only [not_or, Nat.not_lt, not_and] at hok
    obtain ⟨hitems, hbytes, hexpired⟩ := hok
    refine ⟨rfl, u, hu, hitems, ?_, ?_⟩
    · by_cases hb : u.retainedBytes ≤ policy.maxBytesPerRoom
      · exact .inl hb
      · have hsingle := hbytes (Nat.not_le.mp hb)
        simp only [Bool.not_eq_false, Bool.and_eq_true, beq_iff_eq] at hsingle
        exact .inr hsingle.1
    · intro e he hne
      obtain ⟨hm, hr⟩ := mem_history.mp he
      have hfalse := any_eq_false.mp (Bool.not_eq_true _ ▸ hexpired) e hm
      simp only [hr, beq_self_eq_true, Bool.true_and, Bool.and_eq_true, decide_eq_true_eq, not_and,
        Int.not_le] at hfalse
      exact hfalse hne
  · exact (fail_ok.mp h).elim

section
variable {newest : EventId} {compactedAt : Int}
  (h : enforceRoomHistoryPolicyInTransaction roomId newest policy now compactedAt db = .ok (c, db'))
include h

/-- Enforcing the policy does nothing while it is disabled or no candidate is selected from the
oldest on; otherwise it compacts what is selected, and the result is verified. -/
theorem enforcePolicy_cases : (policy.enabled = false ∧ db' = db) ∨
    (policy.enabled = true ∧ policy.maxEventsPerRoom ≠ 0 ∧ ∃ cutoff u,
      retentionCutoff policy now = .ok cutoff ∧ db.usage? roomId = some u ∧
      u.backfillComplete = true ∧ ∃ selected,
        selected = selectCandidates policy cutoff (db.admissionCandidates roomId newest) u.eventCount
          u.retainedBytes ∧
        (selected = [] ∧ db' = db ∨
         ∃ last, selected.getLast? = some last ∧
           compactRoomHistoryThroughInTransaction roomId last.eventId selected.length compactedAt
             noHook db = .ok (c, db') ∧
           ∃ v, Verified db' roomId newest cutoff policy v)) := by
  unfold enforceRoomHistoryPolicyInTransaction at h
  cases henabled : policy.enabled with
  | false =>
    simp only [henabled, Bool.not_false, if_true] at h
    obtain ⟨_, rfl⟩ := pure_eq_ok h
    exact .inl ⟨rfl, rfl⟩
  | true =>
    simp only [henabled, Bool.not_true, Bool.false_eq_true, if_false] at h
    obtain ⟨hlimits, h⟩ := require_bind_ok.mp h
    simp only [not_or] at hlimits
    obtain ⟨u, hu, h⟩ := roomHistoryUsageOn_bind_ok h
    obtain ⟨hcomplete, h⟩ := require_bind_ok.mp h
    obtain ⟨cutoff, hcutoff, h⟩ := lift_bind_ok.mp h
    cases hnewest : toI64 newest with
    | none =>
      simp only [hnewest] at h
      exact (fail_ok.mp h).elim
    | some n =>
      obtain ⟨rfl, _⟩ := toI64_some.mp hnewest
      simp only [hnewest] at h
      obtain ⟨candidates, db₁, hload, h⟩ := bind_ok.mp h
      obtain ⟨rfl, rfl⟩ := loadAdmissionCandidates_ok hload
      obtain ⟨selected, hselected⟩ : ∃ selected, selected = selectCandidates policy cutoff
        (db₁.admissionCandidates roomId newest) u.toUsage.eventCount u.toUsage.retainedBytes :=
        ⟨_, rfl⟩
      refine .inr ⟨rfl, hlimits.2.1, cutoff, u, hcutoff, hu, hcomplete, selected, hselected, ?_⟩
      -- an empty selection ends here, before the check
      rw [← hselected, compactSelected] at h
      cases hlast : selected.getLast? with
      | none =>
        simp only [hlast] at h
        obtain ⟨_, rfl⟩ := pure_eq_ok h
        exact .inl ⟨getLast?_eq_none_iff.mp hlast, rfl⟩
      | some last =>
        simp only [hlast] at h
        obtain ⟨compacted, db₂, hcompact, hrest⟩ := bind_ok.mp h
        obtain ⟨_, db₃, hverify, hpure⟩ := bind_ok.mp hrest
        obtain ⟨rfl, rfl⟩ := pure_eq_ok hpure
        obtain ⟨rfl, v, hv⟩ := verifyAfterCompaction_ok hverify
        exact .inr ⟨last, rfl, hcompact, v, hv⟩

/-- All that enforcing the policy does to the database is one compaction, or nothing. -/
theorem enforcePolicy_compacts :
    db' = db ∨ ∃ through limit, compactRoomHistoryThroughInTransaction roomId through limit
      compactedAt noHook db = .ok (c, db') := by
  rcases enforcePolicy_cases h with ⟨_, hsame⟩ | ⟨_, _, _, _, _, _, _, _, _, hcase⟩
  · exact .inl hsame
  · rcases hcase with ⟨_, hsame⟩ | ⟨_, _, hcompact, _⟩
    · exact .inl hsame
    · exact .inr ⟨_, _, hcompact⟩

end

end Omen.Server
