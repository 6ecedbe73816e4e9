import OmenBrowser.Server.Database

/- The event sequence and the usage ledger of a room (`server/src/store.rs`).

   Event ids come from `room_event_sequences`, seeded from the stored events the first time
   a room is written. The ledger `room_history_usage` counts the room's events and their
   bytes. It is created when the room already has events, so its counters first cover only
   the events after its target; a backfill in bounded batches adds the older ones, oldest
   first, up to `backfill_through_event_id`.

   Correspondence (Rust ↔ Lean):
     `SELECT .. FROM room_events WHERE room_id = ? .. LIMIT ?`  ↔ `Database.eventsWhere`
     the row count an `UPDATE room_history_usage` returns       ↔ `updateUsageWhere`
     the byte loop of the backfill                              ↔ `backfillBytes`
   The columns are natural numbers where the schema has `CHECK(.. >= 0)`, so the checks for
   negative values after a read have no counterpart. -/
namespace Omen.Server
open Wire Sql Ints Omen.Protocol List Txn RoomEventRow Database

variable {db db' : Database} {roomId : RoomId} {e : RoomEventRow} {bytes : Nat}
  {rows : List RoomEventRow}

def historyUsageBackfillBatch : Nat := 256
def historyEventFixedRetainedBytes : Nat := 64
def historyReplyRetainedBytes : Nat := 8

structure RoomHistoryUsage where
  eventCount : Nat
  retainedBytes : Nat
  backfillThroughEventId : EventId
  backfillTargetEventId : EventId
  backfillComplete : Bool
  deriving DecidableEq, Repr

section
variable (db : Database) (roomId : RoomId)

/-- `SELECT .. FROM room_events WHERE room_id = ?1 AND p ORDER BY event_id LIMIT ?`. -/
def Database.eventsWhere (p : RoomEventRow → Bool) (limit : Nat) : List RoomEventRow :=
  (orderBy (byKey eventId)
    (db.roomEvents.rows.filter (fun e => p e && e.roomId == roomId))).take limit

/-! The sequence. -/

/-- `SELECT COALESCE(MAX(event_id), 0) FROM room_events WHERE room_id = ?1`. -/
def Database.maxEventId : Int :=
  (((db.roomEvents.rows.filter (fun e => e.roomId == roomId)).map eventId).max?).getD 0

/-- `INSERT INTO room_event_sequences .. ON CONFLICT(room_id) DO NOTHING`; the `CHECK` comes
before the conflict. -/
def Database.seedSequence : Except Sql.Error Database :=
  if db.maxEventId roomId < 0 then .error .constraintFailed
  else .ok { db with
    roomEventSequences :=
      db.roomEventSequences.insertOrIgnore ⟨roomId, (db.maxEventId roomId).toNat⟩ }

end

def ensureRoomEventSequence (roomId : RoomId) : Txn Database ServerError EventId := do
  sql (fun db => db.seedSequence roomId)
  match ← query (fun db : Database => db.roomEventSequences.find? roomId) with
  | some q => pure q.lastEventId
  | none => abort (.sqlite .noRows)

/-- `UPDATE room_event_sequences SET last_event_id = last_event_id + 1`. -/
def Database.advanceSequence (db : Database) (roomId : RoomId) : Database :=
  { db with
    roomEventSequences := db.roomEventSequences.updateWhere (fun q => q.roomId == roomId)
      (fun q => { q with lastEventId := q.lastEventId + 1 }) (fun _ => rfl) }

def nextEventId (roomId : RoomId) : Txn Database ServerError EventId := do
  let _ ← ensureRoomEventSequence roomId
  match ← query (fun db : Database => db.roomEventSequences.find? roomId) with
  | some q =>
    if (q.lastEventId : Int) < i64Max then
      execute (fun db => db.advanceSequence roomId)
      pure (q.lastEventId + 1)
    else fail s!"room {roomId} event identifier space is exhausted"
  | none => fail s!"room {roomId} event identifier space is exhausted"

/-! The bytes of an event. -/

def roomEventRetainedBytes (payloadBytes : Nat) (hasReply : Bool) (mentionBytes : Nat) :
    Except ServerError Nat :=
  match ((checkedAdd historyEventFixedRetainedBytes payloadBytes).bind
      (checkedAdd · mentionBytes)).bind
      (checkedAdd · (if hasReply then historyReplyRetainedBytes else 0)) with
  | some bytes => .ok bytes
  | none => .error (.message "room event retained-byte accounting overflowed")

/-- `COALESCE(length(payload), 0)`. -/
def RoomEventRow.payloadBytes (e : RoomEventRow) : Nat := (e.payload.map length).getD 0

/-- `COALESCE(length(mention_user_ids), 0)`. -/
def RoomEventRow.mentionBytes (e : RoomEventRow) : Nat := (e.mentionUserIds.map length).getD 0

/-- `room_event_retained_bytes` of a stored event. -/
def RoomEventRow.accountedBytes (e : RoomEventRow) : Except ServerError Nat :=
  roomEventRetainedBytes e.payloadBytes e.replyToEventId.isSome e.mentionBytes

/-! The ledger. -/

/-- A ledger that has counted nothing; it is complete if there is nothing to count. -/
def UsageRow.fresh (roomId : RoomId) (target : EventId) : UsageRow :=
  { roomId
    eventCount := 0
    retainedBytes := 0
    backfillThroughEventId := 0
    backfillTargetEventId := target
    backfillComplete := target == 0
    lastCompactedAt := none }

/-- `INSERT INTO room_history_usage .. ON CONFLICT(room_id) DO NOTHING`. -/
def Database.seedUsage (db : Database) (roomId : RoomId) (target : EventId) : Database :=
  { db with
    roomHistoryUsage := db.roomHistoryUsage.insertOrIgnore (UsageRow.fresh roomId target) }

def ensureRoomHistoryUsage (roomId : RoomId) (backfillTargetEventId : EventId) :
    Txn Database ServerError Unit :=
  match toI64 backfillTargetEventId with
  | some _ => execute (fun db => db.seedUsage roomId backfillTargetEventId)
  | none => fail "room history backfill target does not fit SQLite"

/-- `UPDATE room_history_usage SET .. WHERE room_id = ?1 AND guard`, with its row count. -/
def updateUsageWhere (roomId : RoomId) (guard : UsageRow → Bool) (f : UsageRow → UsageRow)
    (hf : ∀ u, (f u).roomId = u.roomId) : Txn Database ServerError Nat := do
  let changed ← query (fun db : Database =>
    db.roomHistoryUsage.rows.countP (fun u => u.roomId == roomId && guard u))
  execute (fun db => { db with
    roomHistoryUsage := db.roomHistoryUsage.updateWhere
      (fun u => u.roomId == roomId && guard u) f hf })
  pure changed

/-- The counters with one more event of `bytes`. -/
def UsageRow.record (bytes : Nat) (u : UsageRow) : UsageRow :=
  { u with eventCount := u.eventCount + 1, retainedBytes := u.retainedBytes + bytes }

def recordNewRoomHistoryEvent (roomId : RoomId) (retainedBytes : Nat) :
    Txn Database ServerError Unit :=
  match toI64 retainedBytes with
  | none => fail "room event retained bytes do not fit SQLite"
  | some bytes => do
    let changed ← updateUsageWhere roomId
      (fun u => decide ((u.eventCount : Int) < i64Max) &&
        decide ((u.retainedBytes : Int) ≤ i64Max - bytes))
      (UsageRow.record retainedBytes) (fun _ => rfl)
    require (changed = 1) s!"room {roomId} history usage accounting is unavailable or exhausted"

def backfillBytes : List RoomEventRow → Nat → Except ServerError Nat
  | [], addedBytes => .ok addedBytes
  | e :: rows, addedBytes => do
    let bytes ← e.accountedBytes
    match checkedAdd addedBytes bytes with
    | some addedBytes => backfillBytes rows addedBytes
    | none => .error (.message "room history backfill byte accounting overflowed")

/-- The counters with a batch added, and the backfill moved past it. -/
def UsageRow.backfill (items bytes : Nat) (through : EventId) (complete : Bool) (u : UsageRow) :
    UsageRow :=
  { u with
    eventCount := u.eventCount + items
    retainedBytes := u.retainedBytes + bytes
    backfillThroughEventId := through
    backfillComplete := complete }

/-- `event_id > ?2 AND event_id <= ?3`. -/
def inWindow (through target : EventId) (e : RoomEventRow) : Bool :=
  decide ((through : Int) < e.eventId) && decide (e.eventId ≤ (target : Int))

/-- One batch, once the ledger is known to be `u` and incomplete. -/
def backfillBatch (roomId : RoomId) (u : UsageRow) (boundedLimit : Nat) :
    Txn Database ServerError Nat := do
  let through := u.backfillThroughEventId
  let target := u.backfillTargetEventId
  let rows ← query (fun db : Database =>
    db.eventsWhere roomId (inWindow through target) boundedLimit)
  let addedBytes ← lift (backfillBytes rows 0)
  match toI64 rows.length, toI64 addedBytes with
  | none, _ => fail "room history backfill count does not fit SQLite"
  | some _, none => fail "room history backfill bytes do not fit SQLite"
  | some items, some bytes =>
    let lastSeen := (rows.getLast?.map eventId).getD target
    -- fewer rows than asked for, or the last one is the target
    let finished := decide (rows.length < boundedLimit) || decide ((target : Int) ≤ lastSeen)
    let nextThrough := if finished then target else lastSeen.toNat
    -- the update names the ledger it was computed from
    let changed ← updateUsageWhere roomId
      (fun u => u.backfillThroughEventId == through && u.backfillTargetEventId == target &&
        !u.backfillComplete && decide ((u.eventCount : Int) ≤ i64Max - items) &&
        decide ((u.retainedBytes : Int) ≤ i64Max - bytes))
      (UsageRow.backfill rows.length addedBytes nextThrough finished) (fun _ => rfl)
    require (changed = 1)
      s!"room {roomId} history backfill state changed or accounting is exhausted"
    pure rows.length

def advanceRoomHistoryUsageBackfill (roomId : RoomId) (limit : Nat) :
    Txn Database ServerError Nat := do
  match ← query (fun db : Database => db.roomHistoryUsage.find? roomId) with
  | none => abort (.sqlite .noRows)
  | some u =>
    if u.backfillComplete || limit == 0 then pure 0
    else backfillBatch roomId u (min limit historyUsageBackfillBatch)

def UsageRow.toUsage (u : UsageRow) : RoomHistoryUsage :=
  { eventCount := u.eventCount
    retainedBytes := u.retainedBytes
    backfillThroughEventId := u.backfillThroughEventId
    backfillTargetEventId := u.backfillTargetEventId
    backfillComplete := u.backfillComplete }

def roomHistoryUsageOptionalOn (roomId : RoomId) :
    Txn Database ServerError (Option RoomHistoryUsage) :=
  query (fun db : Database => (db.roomHistoryUsage.find? roomId).map UsageRow.toUsage)

def roomHistoryUsageOn (roomId : RoomId) : Txn Database ServerError RoomHistoryUsage := do
  match ← roomHistoryUsageOptionalOn roomId with
  | some usage => pure usage
  | none => fail s!"room {roomId} history usage ledger is unavailable"

/-! The stored events. -/

theorem mem_history : e ∈ db.history roomId ↔ e ∈ db.roomEvents.rows ∧ e.roomId = roomId := by
  simp [history, mem_orderBy]

/-- Within a room the event id is a key. -/
theorem nodup_eventIds (t : Table key) (roomId : RoomId) :
    ((t.rows.filter (fun e => e.roomId == roomId)).map eventId).Nodup := by
  refine (nodup_map_iff_inj_on (t.nodup_rows.filter _)).mpr ?_
  intro a ha b hb hid
  obtain ⟨ha, hra⟩ := mem_filter.mp ha
  obtain ⟨hb, hrb⟩ := mem_filter.mp hb
  apply t.eq_of_key ha hb
  simp only [key, hid, beq_iff_eq.mp hra, beq_iff_eq.mp hrb]

theorem ascending_history (db : Database) (roomId : RoomId) :
    Ascending eventId (db.history roomId) :=
  ascending_orderBy (nodup_eventIds db.roomEvents roomId)

theorem eventsWhere_eq (db : Database) (roomId : RoomId) (p : RoomEventRow → Bool) (limit : Nat) :
    db.eventsWhere roomId p limit = ((db.history roomId).filter p).take limit := by
  unfold eventsWhere history
  rw [← orderBy_filter (nodup_eventIds db.roomEvents roomId), filter_filter]

theorem le_maxEventId (he : e ∈ db.history roomId) : e.eventId ≤ db.maxEventId roomId := by
  obtain ⟨hm, hr⟩ := mem_history.mp he
  have hid : e.eventId ∈ (db.roomEvents.rows.filter (fun e => e.roomId == roomId)).map
      eventId :=
    mem_map_of_mem (mem_filter.mpr ⟨hm, beq_iff_eq.mpr hr⟩)
  unfold maxEventId
  cases hmax : ((db.roomEvents.rows.filter (fun e => e.roomId == roomId)).map
      eventId).max? with
  | none => rw [max?_eq_none_iff.mp hmax] at hid; cases hid
  | some m => exact (max?_eq_some_iff.mp hmax).2 _ hid

/-! What the parts of the ledger do. -/

/-- The last event id given out in a room, if its sequence is seeded. -/
def Database.sequence? (db : Database) (roomId : RoomId) : Option Nat :=
  (db.roomEventSequences.find? roomId).map SequenceRow.lastEventId

/-- The sequence of the room is at `n` now, and nothing else has changed. -/
structure SequenceSet (db db' : Database) (roomId : RoomId) (n : Nat) : Prop where
  rest : db' = { db with roomEventSequences := db'.roomEventSequences }
  room : db'.sequence? roomId = some n
  others : ∀ r, r ≠ roomId → db'.sequence? r = db.sequence? r

variable {n : EventId} {x : Unit} {next through : Nat}

theorem ensureRoomEventSequence_ok (h : ensureRoomEventSequence roomId db = .ok (n, db')) :
    SequenceSet db db' roomId n ∧
      (db.sequence? roomId = some n ∨
        db.sequence? roomId = none ∧ (n : Int) = db.maxEventId roomId) := by
  obtain ⟨db₁, hseed, h⟩ := sql_bind_ok.mp h
  unfold seedSequence at hseed
  split at hseed
  · cases hseed
  · next hmax =>
    cases hseed
    rw [query_bind] at h
    have hfind := Table.find?_insertOrIgnore db.roomEventSequences
      ⟨roomId, (db.maxEventId roomId).toNat⟩
    simp only [hfind, if_pos] at h
    obtain ⟨rfl, rfl⟩ := pure_eq_ok h
    refine ⟨⟨rfl, ?_, ?_⟩, ?_⟩
    · simp only [sequence?, hfind, if_pos, Option.map_some]
    · intro r hr
      simp only [sequence?, hfind, if_neg (Ne.symm hr)]
    · cases hq : db.roomEventSequences.find? roomId with
      | some q => exact .inl (by simp [sequence?, hq])
      | none =>
        refine .inr ⟨by simp [sequence?, hq], ?_⟩
        simp only [Option.getD_none]
        omega

theorem nextEventId_ok (h : nextEventId roomId db = .ok (n, db')) :
    SequenceSet db db' roomId n ∧ (n : Int) ≤ i64Max ∧
      ∃ last, n = last + 1 ∧ (db.sequence? roomId = some last ∨
        db.sequence? roomId = none ∧ (last : Int) = db.maxEventId roomId) := by
  obtain ⟨last, db₁, hseq, h⟩ := bind_ok.mp h
  obtain ⟨⟨hrest, hroom, hothers⟩, hlast⟩ := ensureRoomEventSequence_ok hseq
  rw [query_bind] at h
  obtain ⟨q, hq, rfl⟩ := Option.map_eq_some_iff.mp hroom
  simp only [hq] at h
  split at h
  · next hlt =>
    rw [execute_bind] at h
    obtain ⟨rfl, rfl⟩ := pure_eq_ok h
    have hkey := (Table.find?_eq_some.mp hq).2
    refine ⟨⟨?_, ?_, ?_⟩, by omega, q.lastEventId, rfl, hlast⟩
    · rw [advanceSequence, hrest]
    · simp [sequence?, advanceSequence, Table.find?_updateWhere, hq, hkey]
    · intro r hr
      rw [← hothers r hr]
      simp only [sequence?, advanceSequence, Table.find?_updateWhere]
      cases hf : db₁.roomEventSequences.find? r with
      | none => rfl
      | some p =>
        have hp : p.roomId = r := (Table.find?_eq_some.mp hf).2
        simp [hp, hr]
  · exact (fail_ok.mp h).elim

/-- The bytes an event is accounted with. -/
def RoomEventRow.retainedBytes (e : RoomEventRow) : Nat :=
  historyEventFixedRetainedBytes + e.payloadBytes + e.mentionBytes +
    (if e.replyToEventId.isSome then historyReplyRetainedBytes else 0)

theorem accountedBytes_ok :
    e.accountedBytes = .ok bytes ↔ bytes = e.retainedBytes ∧ e.retainedBytes ≤ u64Max := by
  unfold accountedBytes roomEventRetainedBytes RoomEventRow.retainedBytes
  constructor
  · intro h
    split at h
    · next b hb =>
      obtain ⟨x, hx, hb⟩ := Option.bind_eq_some_iff.mp hb
      obtain ⟨y, hy, hx⟩ := Option.bind_eq_some_iff.mp hx
      obtain ⟨rfl, _⟩ := checkedAdd_some.mp hy
      obtain ⟨rfl, _⟩ := checkedAdd_some.mp hx
      obtain ⟨rfl, hle⟩ := checkedAdd_some.mp hb
      injection h with h
      exact ⟨h.symm, hle⟩
    · cases h
  · rintro ⟨rfl, hle⟩
    -- no prefix of the sum overflows if the whole does not
    have h₁ : checkedAdd historyEventFixedRetainedBytes e.payloadBytes =
        some (historyEventFixedRetainedBytes + e.payloadBytes) :=
      checkedAdd_some.mpr ⟨rfl, by omega⟩
    have h₂ : checkedAdd (historyEventFixedRetainedBytes + e.payloadBytes) e.mentionBytes =
        some (historyEventFixedRetainedBytes + e.payloadBytes + e.mentionBytes) :=
      checkedAdd_some.mpr ⟨rfl, by omega⟩
    rw [h₁, Option.bind_some, h₂, Option.bind_some, checkedAdd_some.mpr ⟨rfl, hle⟩]

theorem backfillBytes_ok {added : Nat} (h : backfillBytes rows added = .ok bytes) :
    bytes = added + (rows.map RoomEventRow.retainedBytes).sum := by
  induction rows generalizing added with
  | nil =>
    injection h with h
    simpa using h.symm
  | cons e rows ih =>
    obtain ⟨b, hb, h⟩ := Outcome.bind_ok.mp h
    obtain ⟨rfl, _⟩ := accountedBytes_ok.mp hb
    cases hadd : checkedAdd added e.retainedBytes with
    | none => simp [hadd] at h
    | some next =>
      simp only [hadd] at h
      rw [ih h, (checkedAdd_some.mp hadd).1, map_cons, sum_cons]
      omega

/-- The ledger of a room. -/
def Database.usage? (db : Database) (roomId : RoomId) : Option UsageRow :=
  db.roomHistoryUsage.find? roomId

/-- The ledger of the room is `u` now, and nothing else has changed. -/
structure UsageSet (db db' : Database) (roomId : RoomId) (u : UsageRow) : Prop where
  rest : db' = { db with roomHistoryUsage := db'.roomHistoryUsage }
  room : db'.usage? roomId = some u
  others : ∀ r, r ≠ roomId → db'.usage? r = db.usage? r

theorem ensureRoomHistoryUsage_ok {target : EventId}
    (h : ensureRoomHistoryUsage roomId target db = .ok (x, db')) :
    UsageSet db db' roomId ((db.usage? roomId).getD (UsageRow.fresh roomId target)) := by
  unfold ensureRoomHistoryUsage at h
  cases htarget : toI64 target with
  | some i =>
    simp only [htarget] at h
    cases execute_ok.mp h
    have hfind := Table.find?_insertOrIgnore db.roomHistoryUsage (UsageRow.fresh roomId target)
    refine ⟨rfl, ?_, ?_⟩
    · exact (hfind roomId).trans (if_pos rfl)
    · intro r hr
      exact (hfind r).trans (if_neg (Ne.symm hr))
  | none =>
    simp only [htarget] at h
    exact (fail_ok.mp h).elim

theorem updateUsageWhere_ok {guard : UsageRow → Bool} {f : UsageRow → UsageRow}
    {hf : ∀ u, (f u).roomId = u.roomId} (h : updateUsageWhere roomId guard f hf db = .ok (1, db')) :
    ∃ u, db.usage? roomId = some u ∧ guard u = true ∧ UsageSet db db' roomId (f u) := by
  rw [updateUsageWhere, query_bind, execute_bind] at h
  obtain ⟨hcount, rfl⟩ := pure_eq_ok h
  obtain ⟨u, hu, hp⟩ := countP_pos_iff.mp (by rw [← hcount]; exact Nat.one_pos)
  obtain ⟨hroom, hguard⟩ := (Bool.and_eq_true _ _).mp hp
  have hfind : db.usage? roomId = some u := Table.find?_eq_some.mpr ⟨hu, beq_iff_eq.mp hroom⟩
  have hupdate := Table.find?_updateWhere db.roomHistoryUsage
    (fun u => u.roomId == roomId && guard u) f hf
  refine ⟨u, hfind, hguard, rfl, ?_, ?_⟩
  · rw [usage?] at hfind
    rw [usage?, hupdate, hfind, Option.map_some, if_pos hp]
  · intro r hr
    rw [usage?, hupdate]
    unfold usage?
    cases hother : db.roomHistoryUsage.find? r with
    | none => rfl
    | some v =>
      have hv : v.roomId = r := (Table.find?_eq_some.mp hother).2
      simp [hv, hr]

theorem recordNewRoomHistoryEvent_ok
    (h : recordNewRoomHistoryEvent roomId bytes db = .ok (x, db')) :
    ∃ u, db.usage? roomId = some u ∧ ((u.retainedBytes + bytes : Nat) : Int) ≤ i64Max ∧
      UsageSet db db' roomId (u.record bytes) := by
  unfold recordNewRoomHistoryEvent at h
  cases hb : toI64 bytes with
  | none =>
    simp only [hb] at h
    exact (fail_ok.mp h).elim
  | some b =>
    simp only [hb] at h
    obtain ⟨changed, db₁, hupdate, h⟩ := bind_ok.mp h
    unfold require at h
    split at h
    · next hone =>
      obtain ⟨_, rfl⟩ := pure_eq_ok h
      obtain ⟨u, hu, hguard, hset⟩ := updateUsageWhere_ok (hone ▸ hupdate)
      simp only [Bool.and_eq_true, decide_eq_true_eq, (toI64_some.mp hb).1] at hguard
      exact ⟨u, hu, by omega, hset⟩
    · exact (fail_ok.mp h).elim

theorem inWindow_iff :
    inWindow through next e = true ↔ (through : Int) < e.eventId ∧ e.eventId ≤ next := by
  simp [inWindow]

/-- A batch of the oldest events of the window is all events up to some position, which is the
target once the batch was not full or reached it. -/
theorem batch_eq_window {events : List RoomEventRow} (h : Ascending eventId events) {target : Nat}
    (limit : Nat) (hpos : 0 < limit) (hle : through ≤ target)
    (hrows : rows = (events.filter (inWindow through target)).take limit) {lastSeen : Int}
    (hlast : lastSeen = (rows.getLast?.map eventId).getD target) {finished : Bool}
    (hfin : finished = (decide (rows.length < limit) || decide ((target : Int) ≤ lastSeen)))
    (hnext : next = if finished then target else lastSeen.toNat) :
    through ≤ next ∧ next ≤ target ∧ (finished = true → next = target) ∧
      rows = events.filter (inWindow through next) := by
  have hwin : Ascending eventId (events.filter (inWindow through target)) := h.filter _
  have hmem : ∀ x ∈ rows, inWindow through target x = true := by
    intro x hx
    rw [hrows] at hx
    exact (mem_filter.mp (mem_of_mem_take hx)).2
  cases hx : rows.getLast? with
  | none =>
    -- nothing was left to count
    have hnil : rows = [] := getLast?_eq_none_iff.mp hx
    have htrue : finished = true := by rw [hfin, hnil]; simp [hpos]
    have hzero : (events.filter (inWindow through target)).length = 0 := by
      have := congrArg length hrows
      rw [hnil, length_take, length_nil] at this
      omega
    rw [htrue, if_pos rfl] at hnext
    subst hnext
    exact ⟨hle, Nat.le_refl _, fun _ => rfl, by rw [hnil, length_eq_zero_iff.mp hzero]⟩
  | some x =>
    have hxw := inWindow_iff.mp (hmem x (mem_of_getLast? hx))
    have hseen : lastSeen = x.eventId := by rw [hlast, hx]; rfl
    have hfull : rows = (events.filter (inWindow through target)).filter
        (fun r => r.eventId ≤ x.eventId) := by
      rw [hwin.filter_le_last (hrows ▸ hx), hrows]
    cases hf : finished with
    | true =>
      rw [hf, if_pos rfl] at hnext
      subst hnext
      refine ⟨hle, Nat.le_refl _, fun _ => rfl, ?_⟩
      rw [hf] at hfin
      simp only [Bool.true_eq, Bool.or_eq_true, decide_eq_true_eq] at hfin
      rcases hfin with hshort | hreach
      · rw [hrows, length_take] at hshort
        rw [hrows, take_of_length_le (by omega)]
      · rw [hfull]
        apply filter_eq_self.mpr
        intro r hr
        have := (inWindow_iff.mp (mem_filter.mp hr).2).2
        exact decide_eq_true (by omega)
    | false =>
      rw [hf, if_neg Bool.false_ne_true] at hnext
      rw [hf] at hfin
      refine ⟨by omega, by omega, fun hc => absurd hc Bool.false_ne_true, ?_⟩
      rw [hfull, filter_filter]
      apply filter_congr
      intro r _
      rw [Bool.eq_iff_iff, Bool.and_eq_true, decide_eq_true_eq, inWindow_iff, inWindow_iff]
      omega

/-- A backfill step: the ledger is complete, or the events up to a later position are added. -/
theorem advanceBackfill_ok {n : Nat}
    (h : advanceRoomHistoryUsageBackfill roomId historyUsageBackfillBatch db = .ok (n, db'))
    (hle : ∀ u, db.usage? roomId = some u → u.backfillThroughEventId ≤ u.backfillTargetEventId) :
    ∃ u, db.usage? roomId = some u ∧
      ((u.backfillComplete = true ∧ db' = db) ∨
       (u.backfillComplete = false ∧ ∃ rows next finished,
          rows = (db.history roomId).filter (inWindow u.backfillThroughEventId next) ∧
          u.backfillThroughEventId ≤ next ∧ next ≤ u.backfillTargetEventId ∧
          (finished = true → next = u.backfillTargetEventId) ∧
          ((u.retainedBytes + (rows.map RoomEventRow.retainedBytes).sum : Nat) : Int) ≤ i64Max ∧
          UsageSet db db' roomId (u.backfill rows.length
            (rows.map RoomEventRow.retainedBytes).sum next finished))) := by
  rw [advanceRoomHistoryUsageBackfill, query_bind] at h
  cases hu : db.roomHistoryUsage.find? roomId with
  | none =>
    simp only [hu] at h
    exact (abort_ok.mp h).elim
  | some u =>
    simp only [hu] at h
    refine ⟨u, hu, ?_⟩
    cases hc : u.backfillComplete with
    | true =>
      simp only [hc, Bool.true_or, if_true] at h
      obtain ⟨_, rfl⟩ := pure_eq_ok h
      exact .inl ⟨rfl, rfl⟩
    | false =>
      -- a batch: its bytes and its update are what the window up to the new position says
      have hlimit : (historyUsageBackfillBatch == 0) = false := rfl
      simp only [hc, hlimit, Bool.or_false, Bool.false_eq_true, if_false] at h
      rw [backfillBatch, query_bind] at h
      obtain ⟨added, hadded, h⟩ := lift_bind_ok.mp h
      cases hitems : toI64 (db.eventsWhere roomId
          (inWindow u.backfillThroughEventId u.backfillTargetEventId)
          (min historyUsageBackfillBatch historyUsageBackfillBatch)).length with
      | none =>
        simp only [hitems] at h
        exact (fail_ok.mp h).elim
      | some items =>
      cases hbytes : toI64 added with
      | none =>
        simp only [hitems, hbytes] at h
        exact (fail_ok.mp h).elim
      | some bytes =>
        simp only [hitems, hbytes] at h
        obtain ⟨changed, db₁, hupdate, h⟩ := bind_ok.mp h
        obtain ⟨hone, h⟩ := require_bind_ok.mp h
        obtain ⟨_, rfl⟩ := pure_eq_ok h
        obtain ⟨v, hv, hguard, hset⟩ := updateUsageWhere_ok (hone ▸ hupdate)
        obtain rfl : u = v := Option.some.inj (hu.symm.trans hv)
        obtain ⟨h₁, h₂, h₃, hrows⟩ := batch_eq_window (ascending_history db roomId)
          (min historyUsageBackfillBatch historyUsageBackfillBatch) (by decide) (hle u hu)
          (eventsWhere_eq db roomId _ _) rfl rfl rfl
        have hsum := backfillBytes_ok hadded
        rw [Nat.zero_add] at hsum
        simp only [Bool.and_eq_true, decide_eq_true_eq, (toI64_some.mp hbytes).1] at hguard
        exact .inr ⟨rfl, _, _, _, hrows, h₁, h₂, h₃, by rw [← hsum]; omega, by rw [← hsum]; exact hset⟩

end Omen.Server
