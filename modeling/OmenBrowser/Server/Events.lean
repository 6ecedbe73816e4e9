import OmenBrowser.Server.HistoryRetention

/- Appending room events, and the history of a store (`server/src/store.rs`).

   An append allocates the next event id, writes the event, counts it in the room's ledger,
   moves the backfill of the ledger on by one batch and enforces the retention policy, all in
   one transaction. `historyStep` is the store as the server drives it: appends, backfill
   batches, compactions, transactions that are lost, and restarts, which may change the
   configured policy and nothing in the database.

   Correspondence (Rust ↔ Lean):
     `CHECK`s of `room_events`                        ↔ `RoomEventRow.meetsChecks`
     the three readings of `current_unix_seconds`     ↔ `Clock`
     `Transaction::new_unchecked` .. `commit`         ↔ `Txn.atomically` -/
namespace Omen.Server
open Wire Sql Ints Omen.Protocol Txn

variable {db db' : Database} {roomId : RoomId} {actorUserId : Option UserId}
  {kind : ServerRoomEventKind} {metadata : Option RichMessageEventMetadata}
  {event : ServerRoomEvent}

inductive ServerRoomEventKind where
  | message (body : String)
  | action (body : String)
  | notice (body : String)
  | system (body : String)
  | upload (resourceId filename : String) (bytes : Nat)
  deriving DecidableEq, Repr

structure ServerRoomEvent where
  roomId : RoomId
  eventId : EventId
  kind : ServerRoomEventKind
  actorUserId : Option UserId
  actorDisplayName : Option String
  atUnix : Int
  metadata : Option RichMessageEventMetadata

/-- The readings of the clock an append makes: for the event, for the policy, and for the
ledger of a compaction. -/
structure Clock where
  appended : Int
  enforced : Int
  compacted : Int

/-! Encodings. -/

/-- `filename.replace('\u{1f}', "_")`. -/
def replaceSeparator (filename : String) : String :=
  filename.map (fun c => if c = '\x1f' then '_' else c)

def encodeEventKind : ServerRoomEventKind → Int × Bytes
  | .message body => (1, utf8 body)
  | .action body => (2, utf8 body)
  | .notice body => (3, utf8 body)
  | .system body => (4, utf8 body)
  | .upload resourceId filename bytes =>
    (5, utf8 (resourceId ++ "\x1f" ++ replaceSeparator filename ++ "\x1f" ++ toString bytes))

/-- `None` for no mention, else the ids as four big-endian bytes each. -/
def encodeMentions (mentioned : List UserId) : Option Bytes :=
  if mentioned.isEmpty then none else some (mentioned.flatMap (fun userId => be 4 userId.toNat))

def encodeStoredEventMetadata :
    Option RichMessageEventMetadata → Except ServerError (Option Int × Option Bytes)
  | none => .ok (none, none)
  | some metadata =>
    match metadata.validate with
    | .error error =>
      let text := error.text
      .error (.message s!"room event reply/mention metadata is invalid: {text}")
    | .ok () =>
      match metadata.replyToEventId with
      | none => .ok (none, encodeMentions metadata.mentionedUserIds)
      | some eventId =>
        match toI64 eventId with
        | some reply => .ok (some reply, encodeMentions metadata.mentionedUserIds)
        | none => .error (.message "room event reply identifier exceeds SQLite integer range")

/-! The append. -/

/-- The `CHECK`s on a reply and on mentions. -/
def RoomEventRow.meetsChecks (e : RoomEventRow) : Bool :=
  e.replyToEventId.all (fun reply => decide (0 < reply)) &&
  e.mentionUserIds.all (fun ids => decide (4 ≤ ids.length) && decide (ids.length ≤ 64) &&
    ids.length % 4 == 0)

/-- `INSERT INTO room_events`. -/
def Database.insertEvent (db : Database) (e : RoomEventRow) : Except Sql.Error Database :=
  if e.meetsChecks then (db.roomEvents.insert e).map (fun t => { db with roomEvents := t })
  else .error .constraintFailed

/-- `SELECT display_name FROM users WHERE user_id = ?1`. -/
def Database.displayName (db : Database) (userId : UserId) : Option String :=
  (db.users.table.find? userId.toNat).map UserRow.displayName

def isMessage : ServerRoomEventKind → Bool
  | .message _ => true
  | _ => false

/-- The row an append writes. -/
def eventRow (roomId : RoomId) (eventId : EventId) (actorUserId : Option UserId)
    (kind : ServerRoomEventKind) (atUnix : Int) (replyToEventId : Option Int)
    (mentionUserIds : Option Bytes) : RoomEventRow :=
  { roomId
    eventId
    eventKind := (encodeEventKind kind).1
    actorUserId := actorUserId.map (fun userId => (userId.toNat : Int))
    targetUserId := none
    atUnix
    payload := some (encodeEventKind kind).2
    replyToEventId
    mentionUserIds
    deleted := false }

section
variable (roomId : RoomId) (actorUserId : Option UserId) (kind : ServerRoomEventKind)

def appendEventWithMetadataInTransaction (metadata : Option RichMessageEventMetadata)
    (retention : RoomHistoryRetentionPolicy) (clock : Clock) :
    Txn Database ServerError ServerRoomEvent := do
  require (¬(metadata.isSome = true ∧ isMessage kind = false))
    "reply and mention metadata is valid only for room messages"
  let (replyToEventId, mentionUserIds) ← lift (encodeStoredEventMetadata metadata)
  let eventId ← nextEventId roomId
  let row := eventRow roomId eventId actorUserId kind clock.appended replyToEventId mentionUserIds
  let retainedBytes ← lift row.accountedBytes
  sql (fun db => db.insertEvent row)
  -- the new row is counted, then older ones, then the room is compacted
  ensureRoomHistoryUsage roomId (eventId - 1)
  recordNewRoomHistoryEvent roomId retainedBytes
  let _ ← advanceRoomHistoryUsageBackfill roomId historyUsageBackfillBatch
  let _ ← enforceRoomHistoryPolicyInTransaction roomId eventId retention clock.enforced
    clock.compacted
  let actorDisplayName ← query (fun db : Database => actorUserId.bind db.displayName)
  pure
    { roomId
      eventId
      kind
      actorUserId
      actorDisplayName
      atUnix := clock.appended
      metadata }

def appendEventInTransaction (retention : RoomHistoryRetentionPolicy) (clock : Clock) :
    Txn Database ServerError ServerRoomEvent :=
  appendEventWithMetadataInTransaction roomId actorUserId kind none retention clock

end

def advanceRoomHistoryUsage (roomId : RoomId) : Txn Database ServerError RoomHistoryUsage := do
  let room ← query (fun db : Database => db.rooms.find? roomId)
  require (room.isSome = true) s!"room {roomId} was not found"
  let highWater ← ensureRoomEventSequence roomId
  ensureRoomHistoryUsage roomId highWater
  let _ ← advanceRoomHistoryUsageBackfill roomId historyUsageBackfillBatch
  roomHistoryUsageOn roomId

/-! The store. -/

structure OmenchatStore where
  database : Database
  historyRetention : RoomHistoryRetentionPolicy

inductive HistoryInput where
  | append (roomId : RoomId) (actorUserId : Option UserId) (kind : ServerRoomEventKind)
      (metadata : Option RichMessageEventMetadata) (clock : Clock)
  | advance (roomId : RoomId)
  | compact (roomId : RoomId) (throughEventId : EventId) (maxEvents : Nat) (now : Int)
  | fault
  | restart (retention : RoomHistoryRetentionPolicy)

inductive HistoryOutput where
  | appended (event : ServerRoomEvent)
  | advanced (usage : RoomHistoryUsage)
  | compacted (compaction : RoomHistoryCompaction)
  | failed (error : ServerError)
  | idle

/-- Run a body as a transaction of the store. -/
def OmenchatStore.transact {α : Type} (s : OmenchatStore) (body : Txn Database ServerError α)
    (output : α → HistoryOutput) : HistoryOutput × OmenchatStore :=
  let result := atomically body s.database
  (match result.1 with
    | .ok a => output a
    | .error e => .failed e,
   { s with database := result.2 })

def historyStep (s : OmenchatStore) : HistoryInput → HistoryOutput × OmenchatStore
  | .append roomId actorUserId kind metadata clock =>
    s.transact (appendEventWithMetadataInTransaction roomId actorUserId kind metadata
      s.historyRetention clock) .appended
  | .advance roomId => s.transact (advanceRoomHistoryUsage roomId) .advanced
  | .compact roomId throughEventId maxEvents now =>
    s.transact (compactRoomHistoryThrough roomId throughEventId maxEvents now) .compacted
  -- the transaction under way is lost
  | .fault => (.idle, s)
  | .restart retention => (.idle, { s with historyRetention := retention })

/-! Taking an append apart. -/

/-- The event is written and counted in the room's ledger. -/
structure Recorded (db db' : Database) (row : RoomEventRow) (eventId : EventId) : Prop where
  next : ∃ db₁, nextEventId row.roomId db = .ok (eventId, db₁)
  id : row.eventId = eventId
  fresh : ∀ e ∈ db.roomEvents.rows, e.key ≠ row.key
  stored : db'.roomEvents.rows = row :: db.roomEvents.rows
  sequence : db'.sequence? row.roomId = some eventId
  sequences : ∀ r, r ≠ row.roomId → db'.sequence? r = db.sequence? r
  usage : db'.usage? row.roomId = some (((db.usage? row.roomId).getD
    (UsageRow.fresh row.roomId (eventId - 1))).record row.retainedBytes)
  usages : ∀ r, r ≠ row.roomId → db'.usage? r = db.usage? r
  fits : ((((db.usage? row.roomId).getD (UsageRow.fresh row.roomId (eventId - 1))).retainedBytes +
    row.retainedBytes : Nat) : Int) ≤ i64Max
  rest : db' = { db with
    roomEvents := db'.roomEvents
    roomEventSequences := db'.roomEventSequences
    roomHistoryUsage := db'.roomHistoryUsage }

theorem insertEvent_ok {row : RoomEventRow} (h : db.insertEvent row = .ok db') :
    db' = { db with roomEvents := db'.roomEvents } ∧
      db'.roomEvents.rows = row :: db.roomEvents.rows ∧
      ∀ e ∈ db.roomEvents.rows, e.key ≠ row.key := by
  unfold Database.insertEvent at h
  split at h
  · obtain ⟨t, ht, rfl⟩ := Outcome.map_ok.mp h
    exact ⟨rfl, Table.insert_ok.mp ht⟩
  · cases h

/-- An append records its event, moves the backfill on, and enforces the policy. -/
theorem append_cases {retention : RoomHistoryRetentionPolicy} {clock : Clock}
    (h : appendEventWithMetadataInTransaction roomId actorUserId kind metadata retention clock db =
      .ok (event, db')) :
    ∃ reply mentions db₁ db₂ n c, encodeStoredEventMetadata metadata = .ok (reply, mentions) ∧
      Recorded db db₁ (eventRow roomId event.eventId actorUserId kind clock.appended reply mentions)
        event.eventId ∧
      advanceRoomHistoryUsageBackfill roomId historyUsageBackfillBatch db₁ = .ok (n, db₂) ∧
      enforceRoomHistoryPolicyInTransaction roomId event.eventId retention clock.enforced
        clock.compacted db₂ = .ok (c, db') := by
  obtain ⟨_, h⟩ := require_bind_ok.mp h
  obtain ⟨⟨reply, mentions⟩, hmeta, h⟩ := lift_bind_ok.mp h
  obtain ⟨eventId, db₁, hnext, h⟩ := bind_ok.mp h
  obtain ⟨bytes, hbytes, h⟩ := lift_bind_ok.mp h
  obtain ⟨db₂, hinsert, h⟩ := sql_bind_ok.mp h
  obtain ⟨_, db₃, hseed, h⟩ := bind_ok.mp h
  obtain ⟨_, db₄, hrecord, h⟩ := bind_ok.mp h
  obtain ⟨n, db₅, hadvance, h⟩ := bind_ok.mp h
  obtain ⟨c, db₆, henforce, h⟩ := bind_ok.mp h
  rw [query_bind] at h
  obtain ⟨rfl, rfl⟩ := pure_eq_ok h
  refine ⟨reply, mentions, db₄, db₅, n, c, hmeta, ?_, hadvance, henforce⟩
  -- each of the four writes changes one table
  obtain ⟨⟨hrest₁, hroom₁, hothers₁⟩, _, _⟩ := nextEventId_ok hnext
  obtain ⟨hrest₂, hrows, hfresh⟩ := insertEvent_ok hinsert
  obtain ⟨hrest₃, hroom₃, hothers₃⟩ := ensureRoomHistoryUsage_ok hseed
  obtain ⟨u, hu, hfits, hrest₄, hroom₄, hothers₄⟩ := recordNewRoomHistoryEvent_ok hrecord
  obtain ⟨rfl, _⟩ := accountedBytes_ok.mp hbytes
  have husage : ∀ r, db₂.usage? r = db.usage? r := by
    intro r
    rw [hrest₂, hrest₁]; rfl
  have hsequence : ∀ r, db₄.sequence? r = db₁.sequence? r := by
    intro r
    rw [hrest₄, hrest₃, hrest₂]; rfl
  have hevents : db₁.roomEvents = db.roomEvents := by rw [hrest₁]
  obtain rfl := Option.some.inj (hroom₃.symm.trans hu)
  rw [husage] at hfits hroom₄
  rw [hevents] at hrows hfresh
  constructor
  case next => exact ⟨db₁, hnext⟩
  case id => rfl
  case fresh => exact hfresh
  case stored => rw [hrest₄, hrest₃]; exact hrows
  case sequence => exact (hsequence roomId).trans hroom₁
  case sequences => exact fun r hr => (hsequence r).trans (hothers₁ r hr)
  case usage => exact hroom₄
  case usages =>
    intro r hr
    rw [hothers₄ r hr, hothers₃ r hr, husage]
  case fits => exact hfits
  case rest => rw [hrest₄, hrest₃, hrest₂, hrest₁]

/-- A backfill batch on request seeds what is missing first. -/
theorem advance_cases {usage : RoomHistoryUsage}
    (h : advanceRoomHistoryUsage roomId db = .ok (usage, db')) :
    ∃ n db₁ db₂ m, ensureRoomEventSequence roomId db = .ok (n, db₁) ∧
      ensureRoomHistoryUsage roomId n db₁ = .ok ((), db₂) ∧
      advanceRoomHistoryUsageBackfill roomId historyUsageBackfillBatch db₂ = .ok (m, db') := by
  rw [advanceRoomHistoryUsage, query_bind] at h
  obtain ⟨_, h⟩ := require_bind_ok.mp h
  obtain ⟨n, db₁, hseq, h⟩ := bind_ok.mp h
  obtain ⟨_, db₂, hseed, h⟩ := bind_ok.mp h
  obtain ⟨m, db₃, hadvance, h⟩ := bind_ok.mp h
  obtain ⟨_, _, _, rfl⟩ := roomHistoryUsageOn_ok h
  exact ⟨n, db₁, db₂, m, hseq, hseed, hadvance⟩

/-- An append that answers with an event has run to its end. -/
theorem historyStep_appended {s : OmenchatStore} {clock : Clock}
    (h : (historyStep s (.append roomId actorUserId kind metadata clock)).1 = .appended event) :
    appendEventWithMetadataInTransaction roomId actorUserId kind metadata s.historyRetention clock
      s.database =
      .ok (event, (historyStep s (.append roomId actorUserId kind metadata clock)).2.database) := by
  apply atomically_ok.mp
  simp only [historyStep, OmenchatStore.transact] at h
  split at h
  · next a ha =>
    injection h with h
    rw [ha, h]
  · cases h

end Omen.Server
