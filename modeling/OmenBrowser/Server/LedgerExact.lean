import Mathlib.Algebra.Order.BigOperators.Group.List
import OmenBrowser.Server.Events

/- The ledger of a room is exact.

   `RoomInv` says what holds of a room's stored events, its sequence and its ledger: the
   sequence is not below any stored id, the backfill target is not above the sequence, and the
   counters are the count and the bytes of the events the backfill has passed or that came
   after its target. An append adds an event above the target; a backfill step moves the
   position over the events it adds; a compaction only runs on a complete ledger, where all
   events are counted, and takes off what it removes and what clearing references frees. -/
namespace Omen.Server
open Wire Sql Ints Omen.Protocol List Option RoomEventRow

variable {u : UsageRow} {db db' : Database} {n : Nat} {row : RoomEventRow} {roomId : RoomId}
  {now : Int} {eventId : EventId}

/-- The backfill has passed the event, or it came after the target. -/
def UsageRow.covers (u : UsageRow) (e : RoomEventRow) : Bool :=
  decide (e.eventId ≤ (u.backfillThroughEventId : Int)) ||
    decide ((u.backfillTargetEventId : Int) < e.eventId)

theorem covers_iff {e : RoomEventRow} :
    u.covers e = true ↔
      e.eventId ≤ u.backfillThroughEventId ∨ u.backfillTargetEventId < e.eventId := by
  simp [UsageRow.covers]

/-- The counters are those of the covered events. -/
structure UsageRow.Exact (u : UsageRow) (events : List RoomEventRow) : Prop where
  count : u.eventCount = (events.filter u.covers).length
  bytes : u.retainedBytes = ((events.filter u.covers).map RoomEventRow.retainedBytes).sum

structure LedgerInv (events : List RoomEventRow) (sequence : Option Nat) (u : UsageRow) : Prop where
  exact : u.Exact events
  fits : (u.retainedBytes : Int) ≤ i64Max
  through_le : u.backfillThroughEventId ≤ u.backfillTargetEventId
  complete : u.backfillComplete = true → u.backfillThroughEventId = u.backfillTargetEventId
  target_le : ∃ n, sequence = some n ∧ u.backfillTargetEventId ≤ n

structure RoomInv (events : List RoomEventRow) (sequence : Option Nat) (usage : Option UsageRow) :
    Prop where
  positive : ∀ e ∈ events, 0 < e.eventId
  bounded : ∀ n, sequence = some n → ∀ e ∈ events, e.eventId ≤ n
  ledger : ∀ u, usage = some u → LedgerInv events sequence u

/-- What holds of every room of a reachable database. -/
def HistoryInv (db : Database) : Prop :=
  ∀ r, RoomInv (db.history r) (db.sequence? r) (db.usage? r)

/-- A database as a migration leaves it: events may be stored, but there is no ledger yet, and a
sequence that exists is not below a stored id. -/
structure Migrated (db : Database) : Prop where
  positive : ∀ e ∈ db.roomEvents.rows, 0 < e.eventId
  sequences : ∀ q ∈ db.roomEventSequences.rows, ∀ e ∈ db.roomEvents.rows, e.roomId = q.roomId →
    e.eventId ≤ q.lastEventId
  usage : db.roomHistoryUsage.rows = []

theorem Migrated.historyInv (h : Migrated db) : HistoryInv db := by
  intro r
  refine ⟨?_, ?_, ?_⟩
  · intro e he
    exact h.positive e (mem_history.mp he).1
  · intro n hn e he
    obtain ⟨q, hq, rfl⟩ := map_eq_some_iff.mp hn
    obtain ⟨hmem, hkey⟩ := Table.find?_eq_some.mp hq
    obtain ⟨hrow, hroom⟩ := mem_history.mp he
    exact h.sequences q hmem e hrow (hroom.trans hkey.symm)
  · intro u hu
    have hmem := (Table.find?_eq_some.mp hu).1
    rw [h.usage] at hmem
    cases hmem

section Room
variable {events : List RoomEventRow} {sequence : Option Nat} {usage : Option UsageRow}

section
variable (h : LedgerInv events sequence u)
include h

/-- A complete ledger counts everything. -/
theorem LedgerInv.covers_all (hc : u.backfillComplete = true)
    (e : RoomEventRow) : u.covers e = true := by
  have := h.complete hc
  exact covers_iff.mpr (by omega)

/-- What a ledger counts is accounted without overflow. -/
theorem LedgerInv.accounted : (events.filter u.covers).mapM accountedBytes =
      .ok ((events.filter u.covers).map RoomEventRow.retainedBytes) := by
  apply Outcome.mapM_of_ok
  intro e he
  have hle : e.retainedBytes ≤ u.retainedBytes := by
    rw [h.exact.bytes]
    exact single_le_sum (fun _ _ => Nat.zero_le _) _ (mem_map_of_mem he)
  have hfits := h.fits
  unfold i64Max at hfits
  exact accountedBytes_ok.mpr ⟨rfl, by unfold u64Max; omega⟩

theorem LedgerInv.exact_all (hc : u.backfillComplete = true) : u.eventCount = events.length ∧
      u.retainedBytes = (events.map RoomEventRow.retainedBytes).sum := by
  have hall : events.filter u.covers = events :=
    filter_eq_self.mpr fun e _ => h.covers_all hc e
  have hexact := h.exact
  rw [← hall]
  exact ⟨hexact.count, hexact.bytes⟩

end

/-- A sequence that is seeded from the stored ids, or raised. -/
theorem RoomInv.setSequence (h : RoomInv events sequence usage) (last : Nat)
    (hlast : sequence = some last ∨ sequence = none ∧ ∀ e ∈ events, e.eventId ≤ last)
    (hle : last ≤ n) : RoomInv events (some n) usage := by
  refine ⟨h.positive, ?_, ?_⟩
  · intro m hm e he
    cases hm
    rcases hlast with hs | ⟨_, hs⟩
    · have := h.bounded last hs e he
      omega
    · have := hs e he
      omega
  · intro u hu
    have hu := h.ledger u hu
    obtain ⟨m, hm, htarget⟩ := hu.target_le
    refine { hu with target_le := ⟨n, rfl, ?_⟩ }
    rcases hlast with hs | ⟨hs, _⟩
    · obtain rfl : last = m := some.inj (hs.symm.trans hm)
      omega
    · rw [hs] at hm; cases hm

/-- A ledger is created behind all stored events, and has counted none of them. -/
theorem RoomInv.fresh (h : RoomInv events (some n) usage) (roomId : RoomId) :
    RoomInv events (some n) (some (usage.getD (UsageRow.fresh roomId n))) := by
  refine ⟨h.positive, h.bounded, ?_⟩
  intro u hu
  cases hu
  cases husage : usage with
  | some v => exact h.ledger v husage
  | none =>
    have hnone : events.filter (UsageRow.fresh roomId n).covers = [] := by
      apply filter_eq_nil_iff.mpr
      intro e he hcov
      have hpos := h.positive e he
      have hbound := h.bounded n rfl e he
      rcases covers_iff.mp hcov with hthrough | htarget
      · simp only [UsageRow.fresh] at hthrough
        omega
      · simp only [UsageRow.fresh] at htarget
        omega
    simp only [getD_none]
    refine ⟨⟨?_, ?_⟩, ?_, Nat.zero_le _, ?_, n, rfl, Nat.le_refl _⟩
    · rw [hnone]; rfl
    · rw [hnone]; rfl
    · show ((0 : Nat) : Int) ≤ i64Max
      decide
    · intro hc
      exact (beq_iff_eq.mp hc).symm

/-- An event above the target is covered. -/
theorem RoomInv.append {last : Nat} (h : RoomInv events (some last) usage) (hu : usage = some u)
    (hrow : row.eventId = last + 1)
    (hfits : ((u.retainedBytes + row.retainedBytes : Nat) : Int) ≤ i64Max) :
    RoomInv (events ++ [row]) (some (last + 1)) (some (u.record row.retainedBytes)) := by
  have hl := h.ledger u hu
  have htarget : u.backfillTargetEventId ≤ last := by
    obtain ⟨n, hn, hle⟩ := hl.target_le
    rw [some.inj hn]
    exact hle
  refine ⟨?_, ?_, ?_⟩
  · intro e he
    rcases mem_append.mp he with he | he
    · exact h.positive e he
    · rw [mem_singleton.mp he]
      omega
  · intro n hn e he
    cases hn
    rcases mem_append.mp he with he | he
    · have := h.bounded last rfl e he
      omega
    · rw [mem_singleton.mp he]
      omega
  · intro v hv
    cases hv
    -- the new event is above the backfill target, so it is covered
    have hcov : u.covers row = true := covers_iff.mpr (by omega)
    have hfilter : (events ++ [row]).filter u.covers = events.filter u.covers ++ [row] := by
      rw [filter_append, filter_cons_of_pos hcov, filter_nil]
    have hexact := hl.exact
    refine ⟨⟨?_, ?_⟩, hfits, hl.through_le, hl.complete, last + 1, rfl, Nat.le_succ_of_le htarget⟩
    · show u.eventCount + 1 = ((events ++ [row]).filter u.covers).length
      rw [hfilter, length_append, hexact.count, length_singleton]
    · show u.retainedBytes + row.retainedBytes =
        (((events ++ [row]).filter u.covers).map RoomEventRow.retainedBytes).sum
      rw [hfilter, map_append, sum_append, hexact.bytes, map_singleton,
        sum_singleton]

/-- The batch up to the new position is what becomes covered. -/
theorem RoomInv.backfill (h : RoomInv events sequence usage) (hu : usage = some u) {next : Nat}
    {finished : Bool} {rows : List RoomEventRow}
    (hrows : rows = events.filter (inWindow u.backfillThroughEventId next))
    (hge : u.backfillThroughEventId ≤ next) (hle : next ≤ u.backfillTargetEventId)
    (hfin : finished = true → next = u.backfillTargetEventId)
    (hfits : ((u.retainedBytes + (rows.map RoomEventRow.retainedBytes).sum : Nat) : Int) ≤ i64Max) :
    RoomInv events sequence (some (u.backfill rows.length
      (rows.map RoomEventRow.retainedBytes).sum next finished)) := by
  have hl := h.ledger u hu
  -- what is covered now was covered or is in the batch, and never both
  have hperm : (events.filter (UsageRow.covers (u.backfill rows.length
      (rows.map RoomEventRow.retainedBytes).sum next finished))).Perm
      (events.filter u.covers ++ rows) := by
    rw [hrows]
    apply filter_or_perm
    · intro e _
      rw [Bool.eq_iff_iff, Bool.or_eq_true, covers_iff, covers_iff, inWindow_iff]
      simp only [UsageRow.backfill]
      omega
    · intro e _ hcov
      rw [← Bool.not_eq_true, inWindow_iff]
      have := covers_iff.mp hcov
      omega
  refine ⟨h.positive, h.bounded, ?_⟩
  intro v hv
  cases hv
  have hexact := hl.exact
  refine ⟨⟨?_, ?_⟩, hfits, hle, hfin, hl.target_le⟩
  · rw [hperm.length_eq, length_append, ← hexact.count]; rfl
  · rw [(hperm.map _).sum_nat, map_append, sum_append, ← hexact.bytes]; rfl

/-- Of a complete ledger the removed events and the cleared references are taken off. -/
theorem LedgerInv.release (h : LedgerInv events sequence u) (hc : u.backfillComplete = true)
    {k : Nat} {eventIds : List Int} (hitems : (events.take k).length ≤ u.eventCount) {freed : Nat}
    (hfreed : freed = ((events.take k).map RoomEventRow.retainedBytes).sum +
      historyReplyRetainedBytes * (events.drop k).countP (isOrphanedReply roomId eventIds)) :
    LedgerInv ((events.drop k).map (forgetReply roomId eventIds)) sequence
      (u.release (events.take k).length freed now) := by
  obtain ⟨hcount, hbytes⟩ := h.exact_all hc
  have hall : ∀ l : List RoomEventRow,
      l.filter (UsageRow.covers (u.release (events.take k).length freed now)) = l :=
    fun l => filter_eq_self.mpr fun e _ => h.covers_all hc e
  have hlen : events.length = (events.take k).length + (events.drop k).length := by
    rw [← length_append, take_append_drop]
  have hsum : (events.map RoomEventRow.retainedBytes).sum =
      ((events.take k).map RoomEventRow.retainedBytes).sum +
        ((events.drop k).map RoomEventRow.retainedBytes).sum := by
    rw [← sum_append, ← map_append, take_append_drop]
  -- what is left is smaller by the references that were cleared
  have hcleared := sum_retainedBytes_forgetReply roomId eventIds (events.drop k)
  have hfits := h.fits
  refine ⟨⟨?_, ?_⟩, ?_, h.through_le, h.complete, h.target_le⟩
  · rw [hall, length_map]
    show u.eventCount - (events.take k).length = (events.drop k).length
    omega
  · rw [hall]
    show u.retainedBytes - freed = _
    omega
  · show ((u.retainedBytes - freed : Nat) : Int) ≤ i64Max
    omega

end Room

/-! Every step keeps it. -/

/-- What the invariant says of a room depends on these three only. -/
theorem HistoryInv.of_room (h : HistoryInv db)
    (hroom : RoomInv (db'.history roomId) (db'.sequence? roomId) (db'.usage? roomId))
    (hhistory : ∀ r, r ≠ roomId → db'.history r = db.history r)
    (hsequence : ∀ r, r ≠ roomId → db'.sequence? r = db.sequence? r)
    (husage : ∀ r, r ≠ roomId → db'.usage? r = db.usage? r) : HistoryInv db' := by
  intro r
  by_cases hr : r = roomId
  · rw [hr]
    exact hroom
  · rw [hhistory r hr, hsequence r hr, husage r hr]
    exact h r

/-- What a sequence continues from is not below a stored id. -/
theorem seed_bound {last : Nat} (h : db.sequence? roomId = some last ∨
      db.sequence? roomId = none ∧ (last : Int) = db.maxEventId roomId) :
    db.sequence? roomId = some last ∨
      db.sequence? roomId = none ∧ ∀ e ∈ db.history roomId, e.eventId ≤ last := by
  refine h.imp_right fun ⟨hnone, hmax⟩ => ⟨hnone, ?_⟩
  intro e he
  rw [hmax]
  exact le_maxEventId he

theorem HistoryInv.ensureSequence (h : HistoryInv db)
    (hs : ensureRoomEventSequence roomId db = .ok (n, db')) : HistoryInv db' := by
  obtain ⟨hset, hlast⟩ := ensureRoomEventSequence_ok hs
  refine h.of_room ?_ (fun r _ => hset.history r) hset.others fun r _ => hset.usage r
  rw [hset.history, hset.room, hset.usage]
  exact (h roomId).setSequence n (seed_bound hlast) (Nat.le_refl n)

theorem HistoryInv.setUsage (h : HistoryInv db) (hset : UsageSet db db' roomId u)
    (hroom : RoomInv (db.history roomId) (db.sequence? roomId) (some u)) : HistoryInv db' := by
  refine h.of_room ?_ (fun r _ => hset.history r) (fun r _ => hset.sequence r) hset.others
  rw [hset.history, hset.sequence, hset.room]
  exact hroom

section
variable (h : HistoryInv db)
  (hs : advanceRoomHistoryUsageBackfill roomId historyUsageBackfillBatch db = .ok (n, db'))
include h hs

theorem HistoryInv.advanceBackfill : HistoryInv db' := by
  obtain ⟨u, hu, hcase⟩ :=
    advanceBackfill_ok hs fun u hu => ((h roomId).ledger u hu).through_le
  rcases hcase with ⟨_, rfl⟩ | ⟨_, rows, next, finished, hrows, hge, hle, hfin, hfits, hset⟩
  · exact h
  · exact h.setUsage hset ((h roomId).backfill hu hrows hge hle hfin hfits)

/-- A backfill step writes the ledger of its room, and nothing else. -/
theorem advanceBackfill_sets : db' = db ∨ ∃ u, UsageSet db db' roomId u := by
  obtain ⟨u, _, hcase⟩ := advanceBackfill_ok hs fun u hu => ((h roomId).ledger u hu).through_le
  rcases hcase with ⟨_, hsame⟩ | ⟨_, _, _, _, _, _, _, _, _, hset⟩
  · exact .inl hsame
  · exact .inr ⟨_, hset⟩

end

theorem sequence?_forget (db : Database) (roomId : RoomId) (eventIds : List Int) (r : RoomId) :
    (db.forget roomId eventIds).sequence? r = db.sequence? r := by
  unfold Database.sequence?
  simp only [Database.forget, Database.deleteEvents, Database.deleteTargets, Database.clearReplies]

theorem HistoryInv.compacts (h : HistoryInv db) {k : Nat} (hs : Compacts db db' roomId u k now) :
    HistoryInv db' := by
  have hset := hs.after
  have hinv := h roomId
  have hhistory : ∀ r, r ≠ roomId → db'.history r = db.history r := by
    intro r hr
    rw [hset.history, history_forget_of_ne hr]
  have hsequence : ∀ r, db'.sequence? r = db.sequence? r := by
    intro r
    rw [hset.sequence, sequence?_forget]
  have husage : ∀ r, r ≠ roomId → db'.usage? r = db.usage? r := by
    intro r hr
    rw [hset.others r hr, usage?_forget]
  refine h.of_room ?_ hhistory (fun r _ => hsequence r) husage
  rw [hset.history, history_forget_oldest, hsequence, hset.room]
  have hmem : ∀ e ∈ ((db.history roomId).drop k).map (forgetReply roomId
      (db.oldestIds roomId k)), ∃ e' ∈ db.history roomId, e'.eventId = e.eventId := by
    intro e he
    obtain ⟨e', he', rfl⟩ := mem_map.mp he
    exact ⟨e', mem_of_mem_drop he', (forgetReply_eventId _ _ _).symm⟩
  refine ⟨?_, ?_, ?_⟩
  · intro e he
    obtain ⟨e', he', hid⟩ := hmem e he
    rw [← hid]
    exact hinv.positive e' he'
  · intro n hn e he
    obtain ⟨e', he', hid⟩ := hmem e he
    rw [← hid]
    exact hinv.bounded n hn e' he'
  · intro v hv
    cases hv
    apply (hinv.ledger u hs.before).release hs.complete hs.items
    rw [Database.freedBytes, countSurvivingReplies_oldest]

theorem HistoryInv.compact (h : HistoryInv db) {through : Int} {limit : Nat} {hook : Hook}
    {result : RoomHistoryCompaction}
    (hs : compactRoomHistoryThroughInTransaction roomId through limit now hook db =
      .ok (result, db'))
    : HistoryInv db' := by
  obtain ⟨db₁, last, k, hseq, _, _, _, hcase⟩ := compactInTransaction_ok hs
  have h₁ := h.ensureSequence hseq
  rcases hcase with ⟨_, rfl⟩ | ⟨u, hcompacts⟩
  · exact h₁
  · exact h₁.compacts hcompacts

theorem HistoryInv.enforce (h : HistoryInv db) {newest : EventId}
    {policy : RoomHistoryRetentionPolicy} {compactedAt : Int} {c : RoomHistoryCompaction}
    (hs : enforceRoomHistoryPolicyInTransaction roomId newest policy now compactedAt db =
      .ok (c, db'))
    : HistoryInv db' := by
  rcases enforcePolicy_compacts hs with rfl | ⟨_, _, hcompact⟩
  · exact h
  · exact h.compact hcompact

/-- A recorded event leaves the other rooms as they were. -/
theorem Recorded.history_of_ne (h : Recorded db db' row eventId) {r : RoomId} (hr : r ≠ row.roomId) :
    db'.history r = db.history r := by
  unfold Database.history
  rw [h.stored, filter_cons_of_neg (by simpa using Ne.symm hr)]

/-- A recorded event comes last in its room. -/
theorem Recorded.history (h : Recorded db db' row eventId) (hinv : HistoryInv db) :
    db'.history row.roomId = db.history row.roomId ++ [row] := by
  obtain ⟨db₁, hnext⟩ := h.next
  obtain ⟨_, _, last, hlast, hseq⟩ := nextEventId_ok hnext
  unfold Database.history
  rw [h.stored, filter_cons, if_pos (beq_self_eq_true row.roomId)]
  apply orderBy_cons_max (nodup_eventIds db.roomEvents row.roomId)
  intro q hq
  have hq' : q ∈ db.history row.roomId := mem_orderBy.mpr hq
  have hle : q.eventId ≤ last := by
    rcases seed_bound hseq with hs | ⟨_, hbound⟩
    · exact (hinv row.roomId).bounded last hs q hq'
    · exact hbound q hq'
  have hid : (eventId : Int) = last + 1 := by rw [hlast]; rfl
  rw [h.id]
  omega

theorem HistoryInv.recorded (h : HistoryInv db) (hs : Recorded db db' row eventId) :
    HistoryInv db' := by
  obtain ⟨db₁, hnext⟩ := hs.next
  obtain ⟨_, _, last, hlast, hseq⟩ := nextEventId_ok hnext
  refine h.of_room ?_ (fun r hr => hs.history_of_ne hr) hs.sequences hs.usages
  have hfits := hs.fits
  rw [hs.history h, hs.sequence, hs.usage]
  rw [hlast, Nat.add_sub_cancel] at hfits ⊢
  have hbase : RoomInv (db.history row.roomId) (some last) (db.usage? row.roomId) :=
    (h row.roomId).setSequence last (seed_bound hseq) (Nat.le_refl last)
  refine (hbase.fresh row.roomId).append rfl ?_ hfits
  rw [hs.id, hlast]
  rfl

theorem HistoryInv.append (h : HistoryInv db) {actorUserId : Option UserId}
    {kind : ServerRoomEventKind} {metadata : Option RichMessageEventMetadata}
    {retention : RoomHistoryRetentionPolicy} {clock : Clock} {event : ServerRoomEvent}
    (hs : appendEventWithMetadataInTransaction roomId actorUserId kind metadata retention clock db =
      .ok (event, db'))
    : HistoryInv db' := by
  obtain ⟨_, _, _, _, _, _, _, hrecorded, hadvance, henforce⟩ := append_cases hs
  exact ((h.recorded hrecorded).advanceBackfill hadvance).enforce henforce

theorem HistoryInv.seeded {db₁ db₂ : Database} (h : HistoryInv db) {n : EventId}
    (hseq : ensureRoomEventSequence roomId db = .ok (n, db₁)) {x : Unit}
    (hseed : ensureRoomHistoryUsage roomId n db₁ = .ok (x, db₂)) : HistoryInv db₂ := by
  have h₁ := h.ensureSequence hseq
  apply h₁.setUsage (ensureRoomHistoryUsage_ok hseed)
  have hroom := h₁ roomId
  rw [(ensureRoomEventSequence_ok hseq).1.room] at hroom ⊢
  exact hroom.fresh roomId

theorem HistoryInv.advance (h : HistoryInv db) {usage : RoomHistoryUsage}
    (hs : advanceRoomHistoryUsage roomId db = .ok (usage, db')) : HistoryInv db' := by
  obtain ⟨n, db₁, db₂, m, hseq, hseed, hadvance⟩ := advance_cases hs
  exact (h.seeded hseq hseed).advanceBackfill hadvance

/-- One step of the store. -/
theorem historyStep_inv (s : OmenchatStore) (i : HistoryInput) (h : HistoryInv s.database) :
    HistoryInv (historyStep s i).2.database := by
  cases i with
  | append roomId actorUserId kind metadata clock =>
    exact Txn.atomically_preserves (fun _ _ hs => h.append hs) h
  | advance roomId => exact Txn.atomically_preserves (fun _ _ hs => h.advance hs) h
  | compact roomId through maxEvents now =>
    refine Txn.atomically_preserves ?_ h
    intro result db' hs
    obtain ⟨_, _, _, _, hcompact, _⟩ := compactThrough_cases hs
    exact h.compact hcompact
  | fault | restart => exact h

theorem historyRun_inv {s : OmenchatStore} (h : Migrated s.database) (inputs : List HistoryInput) :
    HistoryInv (Machine.run historyStep s inputs).2.database :=
  Machine.run_invariant (I := fun s => HistoryInv s.database) (fun s i hs _ => historyStep_inv s i hs)
    s inputs (Machine.meets_true s inputs) h.historyInv

/-- In every state a store reaches, the counters of a room's ledger are the number of the room's
stored events that the backfill has passed or that came after its target, and the sum of what
`room_event_retained_bytes` gives for them; once the backfill is complete these are all stored
events of the room. -/
theorem historyLedger_exact (s : OmenchatStore) (h : Migrated s.database)
    (inputs : List HistoryInput) (roomId : RoomId) (u : UsageRow)
    (hu : (Machine.run historyStep s inputs).2.database.usage? roomId = some u) :
    ∃ sizes, (((Machine.run historyStep s inputs).2.database.history roomId).filter u.covers).mapM
        accountedBytes = .ok sizes ∧
      u.eventCount = sizes.length ∧ u.retainedBytes = sizes.sum ∧
      (u.backfillComplete = true →
        ((Machine.run historyStep s inputs).2.database.history roomId).filter u.covers =
          (Machine.run historyStep s inputs).2.database.history roomId) := by
  have hl := ((historyRun_inv h inputs) roomId).ledger u hu
  refine ⟨_, hl.accounted, ?_, hl.exact.bytes, ?_⟩
  · rw [length_map]
    exact hl.exact.count
  · intro hc
    exact filter_eq_self.mpr fun e _ => hl.covers_all hc e

/-- A database with one event and no ledger yet. -/
def legacyDatabase : Database :=
  { Database.empty with
    rooms := ⟨[⟨1⟩], nodup_singleton _⟩
    roomEvents := ⟨[eventRow 1 5 none (.message "a") 10 none none], nodup_singleton _⟩ }

theorem legacyDatabase_migrated : Migrated legacyDatabase := by
  refine ⟨?_, ?_, rfl⟩
  · intro e he
    rw [mem_singleton.mp he]
    decide
  · intro q hq
    cases hq

def legacyRun : Database :=
  (Machine.run historyStep ⟨legacyDatabase, .disabled⟩
    [.append 1 none (.message "bc") none ⟨20, 20, 20⟩]).2.database

/-- The stored event is counted by the backfill, the appended one on arrival. -/
theorem historyLedger_exact_legacy :
    ∃ sizes, ((legacyRun.history 1).filter (UsageRow.covers ⟨1, 2, 131, 5, 5, true, none⟩)).mapM
        accountedBytes = .ok sizes ∧
      2 = sizes.length ∧ 131 = sizes.sum ∧
      (true = true → (legacyRun.history 1).filter
        (UsageRow.covers ⟨1, 2, 131, 5, 5, true, none⟩) = legacyRun.history 1) :=
  historyLedger_exact ⟨legacyDatabase, .disabled⟩ legacyDatabase_migrated
    [.append 1 none (.message "bc") none ⟨20, 20, 20⟩] 1 ⟨1, 2, 131, 5, 5, true, none⟩ rfl

end Omen.Server
