import OmenBrowser.Protocol.ModerationAudit
import OmenBrowser.Server.AuditLog
import OmenBrowser.Server.Users

/- The moderation audit of the store (`server/src/store/moderation_audit.rs`).

   An append prunes a batch of records past their age, deletes the oldest records one at a time
   until the new one fits (the room's oldest where the room is full, else the oldest of all),
   and adds a record under the next id. One append deletes at most 64 records; where that is not
   enough it adds nothing. A page is read from the newest record, or from below the id of the
   last record of the page before.

   Correspondence (Rust/SQL ↔ Lean):
     `moderation_audit_events`                    ↔ `ModerationAuditStore.events`
     its row of `sqlite_sequence`                 ↔ `ModerationAuditStore.sequence`
     `ORDER BY audit_id DESC`                     ↔ the order of `ModerationAuditRow.newestFirst`
     the `while` of `append_moderation_audit_at`  ↔ `makeRoom`, with the deletions that are left
   The `CHECK`s of the table keep the columns within the types of `ModerationAuditRow`. -/
namespace Omen.Server
open Wire Sql Ints Omen.Protocol Outcome Txn

variable {s s' : ModerationAuditStore}

def maxModerationAuditRowsPerRoom : Int := 2048
def maxModerationAuditRowsGlobal : Int := 8192
def maxModerationAuditBytesGlobal : Int := 4 * 1024 * 1024
def moderationAuditRetentionAgeSeconds : Int := 365 * 24 * 60 * 60
def maxModerationAuditPrunedPerMutation : Nat := 64

inductive ModerationAuditAdmission where
  | stored (auditId : Int)
  | saturated
  deriving DecidableEq, Repr

/-! The table. -/

structure ModerationAuditRow where
  auditId : Int
  roomId : UInt32
  actorUserId : UserId
  actorDisplayName : String
  targetUserId : UserId
  targetDisplayName : String
  actionKind : ModerationAuditAction
  resultRoleBits : Option UInt64
  resultStatusBits : Option UInt32
  committedAt : Int64
  retainedBytes : Nat
  deriving DecidableEq

namespace ModerationAuditRow

variable (r : ModerationAuditRow)

/-- The record a row is read as. -/
def record (auditId : UInt64) : ModerationAuditRecord :=
  { auditId
    roomId := r.roomId
    actorUserId := r.actorUserId
    actorDisplayNameAtAction := r.actorDisplayName
    targetUserId := some r.targetUserId
    targetDisplayNameAtAction := some r.targetDisplayName
    action := r.actionKind
    committedAtUnix := r.committedAt
    resultRoleBits := r.resultRoleBits
    resultStatusBits := r.resultStatusBits }

/-- `record_from_row`. -/
def toRecord : Except ServerError ModerationAuditRecord :=
  if 0 ≤ r.auditId then .ok (r.record (UInt64.ofNat r.auditId.toNat))
  else .error (.sqlite .invalidColumnType)

def newestFirst : Int := -r.auditId

/-- `ORDER BY committed_at, audit_id`. -/
def compareAge (a b : ModerationAuditRow) : Ordering :=
  (compare a.committedAt.toInt b.committedAt.toInt).then (compare a.auditId b.auditId)

/-- The `CHECK`s on ids, names, sizes, times and results. -/
def meetsChecks : Bool :=
  r.roomId != 0 && r.actorUserId != 0 && r.targetUserId != 0 &&
  decide (1 ≤ r.actorDisplayName.utf8ByteSize) && decide (r.actorDisplayName.utf8ByteSize ≤ 256) &&
  decide (1 ≤ r.targetDisplayName.utf8ByteSize) && decide (r.targetDisplayName.utf8ByteSize ≤ 256) &&
  decide (0 ≤ r.committedAt) &&
  decide (r.retainedBytes =
    64 + r.actorDisplayName.utf8ByteSize + r.targetDisplayName.utf8ByteSize) &&
  (r.record 1).hasResultOfAction &&
  r.resultRoleBits.all (fun bits => bits == 0 || bits == 1 || bits == 3 || bits == 7) &&
  r.resultStatusBits.all (fun bits => decide (bits ≤ 3)) &&
  (r.record 1).bitsFitAction

end ModerationAuditRow

structure ModerationAuditStore where
  events : Table ModerationAuditRow.auditId
  sequence : Int

def ModerationAuditStore.empty : ModerationAuditStore := ⟨Table.empty, 0⟩

/-! Capacity. -/

def roomAuditRows (roomId : UInt32) (t : Table ModerationAuditRow.auditId) : Int :=
  t.rows.countP (fun r => r.roomId == roomId)

def hasAuditCapacity (roomId : UInt32) (retainedBytes : Nat) (t : Table ModerationAuditRow.auditId) :
    Except ServerError Bool := do
  let whole ← rowUsage ModerationAuditRow.retainedBytes t.rows
  pure (decide (roomAuditRows roomId t < maxModerationAuditRowsPerRoom) &&
    decide (whole.1 < maxModerationAuditRowsGlobal) &&
    (checkedAddI64 whole.2 retainedBytes).any (fun bytes =>
      decide (bytes ≤ maxModerationAuditBytesGlobal)))

/-- The record `delete_oldest_for_capacity` deletes. -/
def oldestForCapacity (roomId : UInt32) (t : Table ModerationAuditRow.auditId) :
    Option ModerationAuditRow :=
  if roomAuditRows roomId t ≥ maxModerationAuditRowsPerRoom then
    first? (byKey ModerationAuditRow.auditId) (t.rows.filter (fun r => r.roomId == roomId))
  else first? (byKey ModerationAuditRow.auditId) t.rows

/-- Delete records until there is room for one more: whether there is, and what is left. -/
def makeRoom (roomId : UInt32) (retainedBytes : Nat) :
    Nat → Table ModerationAuditRow.auditId →
      Except ServerError (Bool × Table ModerationAuditRow.auditId)
  | 0, t => (hasAuditCapacity roomId retainedBytes t).map (fun fits => (fits, t))
  | left + 1, t => do
    let fits ← hasAuditCapacity roomId retainedBytes t
    if fits then pure (true, t)
    else
      match oldestForCapacity roomId t with
      | none => pure (false, t)
      | some oldest => makeRoom roomId retainedBytes left (t.deleteRows [oldest])

/-! The append. -/

/-- `retained_bytes`; the sum of two names within their bound does not overflow. -/
def auditRetainedBytes (actorDisplayName targetDisplayName : String) : Except ServerError Nat := do
  refuse (actorDisplayName = "" ∨ targetDisplayName = "" ∨
      actorDisplayName.utf8ByteSize > moderationAuditDisplayNameMaxBytes ∨
      targetDisplayName.utf8ByteSize > moderationAuditDisplayNameMaxBytes)
    (.message "moderation audit display name is outside protocol bounds")
  pure (moderationAuditRetainedRowOverheadBytes + actorDisplayName.utf8ByteSize +
    targetDisplayName.utf8ByteSize)

/-- What an append is asked to record. -/
structure AuditedAction where
  roomId : UInt32
  actor : ServerUser
  target : ServerUser
  action : ModerationAuditAction
  resultRoleBits : Option UInt64
  resultStatusBits : Option UInt32

variable (a : AuditedAction) (now : Int64)

/-- The row of an action under an id. -/
def AuditedAction.row (retainedBytes : Nat) (auditId : Int) : ModerationAuditRow :=
  { auditId
    roomId := a.roomId
    actorUserId := a.actor.userId
    actorDisplayName := a.actor.displayName
    targetUserId := a.target.userId
    targetDisplayName := a.target.displayName
    actionKind := a.action
    resultRoleBits := a.resultRoleBits
    resultStatusBits := a.resultStatusBits
    committedAt := now
    retainedBytes }

def AuditedAction.validateRecordShape : Except ServerError Unit :=
  match ((a.row now 0 1).record 1).intoFrameValue with
  | .ok _ => .ok ()
  | .error error =>
    let text := error.text
    .error (.message s!"invalid moderation audit record: {text}")

/-- `sqlite_u64`. -/
def sqliteRoleBits (bits : Option UInt64) : Except ServerError Unit :=
  refuse (bits.any (fun bits => (toI64 bits.toNat).isNone) = true)
    (.message "moderation audit role bits do not fit SQLite")

namespace ModerationAuditStore

/-- The id `AUTOINCREMENT` gives next: larger than any the table has or had. -/
def nextAuditId (s : ModerationAuditStore) : Int :=
  max s.sequence (maxOrZero (s.events.rows.map ModerationAuditRow.auditId)) + 1

/-- `INSERT INTO moderation_audit_events`; fails when the ids are used up. -/
def insert (s : ModerationAuditStore) (row : Int → ModerationAuditRow) :
    Except Sql.Error (Int × ModerationAuditStore) :=
  let id := s.nextAuditId
  if id > i64Max then .error .databaseFull
  else if !(row id).meetsChecks then .error .constraintFailed
  else (s.events.insert (row id)).map (fun t => (id, { events := t, sequence := id }))

/-- The records past their age that one append prunes. -/
def expiredBatch (s : ModerationAuditStore) (now : Int64) : List ModerationAuditRow :=
  s.events.batch ModerationAuditRow.compareAge
    (fun r => decide (r.committedAt.toInt <
      saturatingSub now.toInt moderationAuditRetentionAgeSeconds))
    maxModerationAuditPrunedPerMutation

end ModerationAuditStore

def appendModerationAuditAt :
    Txn ModerationAuditStore ServerError ModerationAuditAdmission := do
  let retainedBytes ← lift (auditRetainedBytes a.actor.displayName a.target.displayName)
  lift (a.validateRecordShape now)
  let expired ← query (fun s : ModerationAuditStore => s.expiredBatch now)
  execute (fun s => { s with events := s.events.deleteRows expired })
  let fits ← statement (fun s => (makeRoom a.roomId retainedBytes
    (maxModerationAuditPrunedPerMutation - expired.length) s.events).map
    (fun r => (r.1, { s with events := r.2 })))
  if fits then do
    lift (sqliteRoleBits a.resultRoleBits)
    let auditId ← statement (fun s => (s.insert (a.row now retainedBytes)).mapError .sqlite)
    require (0 < auditId) "moderation audit identifier space is exhausted"
    pure (.stored auditId)
  else pure .saturated

/-! Pages. -/

/-- The rows of a page: below the cursor, newest first. -/
def auditPageRows (t : Table ModerationAuditRow.auditId) (roomId : UInt32) (cursor : Int)
    (limit : Nat) : List ModerationAuditRow :=
  (orderBy (byKey ModerationAuditRow.newestFirst)
    (t.rows.filter (fun r => r.roomId == roomId && decide (r.auditId < cursor)))).take limit

/-- `sqlite_id` of the cursor, or the largest id. -/
def auditCursor : Option UInt64 → Except ServerError Int
  | none => .ok i64Max
  | some auditId =>
    match toI64 auditId.toNat with
    | some cursor => .ok cursor
    | none => .error (.message "moderation audit id does not fit SQLite")

def checkPage (page : ModerationAuditPage) (roomId : UInt32) : Except ServerError Unit := do
  (page.intoFrameValues.map (fun _ => ())).mapError (fun error =>
    let text := error.text
    .message s!"stored moderation audit page is invalid: {text}")
  (page.validateRoom roomId).mapError (fun error =>
    let text := error.text
    .message s!"stored moderation audit room mismatch: {text}")

def moderationAuditPage (s : ModerationAuditStore) (roomId : UInt32) (beforeAuditId : Option UInt64)
    (limit : UInt16) : Except ServerError ModerationAuditPage := do
  refuse (roomId = 0) (.message "moderation audit room id must be nonzero")
  refuse (limit.toNat = 0 ∨ limit.toNat > moderationAuditPageMaxEntries)
    (.message s!"moderation audit page limit must be between 1 and {moderationAuditPageMaxEntries}")
  refuse (beforeAuditId = some 0) (.message "moderation audit cursor must be nonzero")
  let cursor ← auditCursor beforeAuditId
  let records ← (auditPageRows s.events roomId cursor limit.toNat).mapM ModerationAuditRow.toRecord
  checkPage { records } roomId
  pure { records }

/-! Taking an append apart. -/

section
variable {roomId : UInt32} {bytes : Nat} {t t' : Table ModerationAuditRow.auditId}

/-- There is room for one more record. -/
structure AuditCapacity (roomId : UInt32) (bytes : Nat) (t : Table ModerationAuditRow.auditId) :
    Prop where
  room : roomAuditRows roomId t < maxModerationAuditRowsPerRoom
  rows : (t.rows.length : Int) < maxModerationAuditRowsGlobal
  bytes : ((t.rows.map ModerationAuditRow.retainedBytes).sum : Int) + bytes ≤
    maxModerationAuditBytesGlobal

theorem hasAuditCapacity_ok (h : hasAuditCapacity roomId bytes t = .ok true) :
    AuditCapacity roomId bytes t := by
  obtain ⟨whole, hwhole, h⟩ := bind_ok.mp h
  obtain ⟨_, rfl⟩ := AuditLog.rowUsage_ok.mp hwhole
  have hchecks := Except.ok.inj h
  simp only [Bool.and_eq_true, decide_eq_true_eq] at hchecks
  obtain ⟨⟨hroom, hrows⟩, hbytes⟩ := hchecks
  obtain ⟨sum, hsum, hle⟩ := Option.any_eq_true _ _ |>.mp hbytes
  obtain rfl := checkedAddI64_some hsum
  exact ⟨hroom, hrows, of_decide_eq_true hle⟩

theorem makeRoom_ok {left : Nat} {fits : Bool}
    (h : makeRoom roomId bytes left t = .ok (fits, t')) :
    t'.rows.Sublist t.rows ∧ (fits = true → AuditCapacity roomId bytes t') := by
  induction left generalizing t with
  | zero =>
    obtain ⟨fits', hfits, he⟩ := map_ok.mp h
    cases he
    refine ⟨List.Sublist.refl _, ?_⟩
    rintro rfl
    exact hasAuditCapacity_ok hfits
  | succ left ih =>
    obtain ⟨fits', hfits, h⟩ := bind_ok.mp h
    cases fits' with
    | true =>
      cases h
      exact ⟨List.Sublist.refl _, fun _ => hasAuditCapacity_ok hfits⟩
    | false =>
      cases ho : oldestForCapacity roomId t with
      | none =>
        rw [ho] at h
        cases h
        exact ⟨List.Sublist.refl _, fun hfits => by cases hfits⟩
      | some oldest =>
        rw [ho] at h
        obtain ⟨hsub, hcapacity⟩ := ih h
        exact ⟨hsub.trans (Table.deleteRows_sublist t _), hcapacity⟩

end

/-- What an append does: it deletes records, and adds one under the next id if it fits. -/
inductive Appends (a : AuditedAction) (now : Int64) (s : ModerationAuditStore) :
    ModerationAuditAdmission → ModerationAuditStore → Prop where
  | saturated (t : Table ModerationAuditRow.auditId) (kept : t.rows.Sublist s.events.rows) :
    Appends a now s .saturated { s with events := t }
  | stored (t t' : Table ModerationAuditRow.auditId) (id : Int) (row : ModerationAuditRow)
      (kept : t.rows.Sublist s.events.rows)
      (next : id = ModerationAuditStore.nextAuditId { s with events := t })
      (range : id ≤ i64Max)
      (rowId : row.auditId = id)
      (checked : row.meetsChecks = true)
      (capacity : AuditCapacity row.roomId row.retainedBytes t)
      (added : t'.rows = row :: t.rows) :
    Appends a now s (.stored id) { events := t', sequence := id }

theorem insert_audit_ok {row : Int → ModerationAuditRow} {id : Int}
    (h : s.insert row = .ok (id, s')) :
    id = s.nextAuditId ∧ id ≤ i64Max ∧ (row id).meetsChecks = true ∧
      s'.events.rows = row id :: s.events.rows ∧ s'.sequence = id := by
  simp only [ModerationAuditStore.insert] at h
  split at h
  · cases h
  · next hrange =>
    split at h
    · cases h
    · next hchecks =>
      obtain ⟨t, ht, he⟩ := map_ok.mp h
      cases he
      refine ⟨rfl, by omega, by simpa using hchecks, (Table.insert_ok.mp ht).1, rfl⟩

theorem append_audit_cases {a : AuditedAction} {now : Int64} {admission : ModerationAuditAdmission}
    (h : appendModerationAuditAt a now s = .ok (admission, s')) : Appends a now s admission s' := by
  obtain ⟨bytes, _, h⟩ := lift_bind_ok.mp h
  obtain ⟨_, _, h⟩ := lift_bind_ok.mp h
  rw [query_bind, execute_bind] at h
  obtain ⟨fits, s₁, hfits, h⟩ := bind_ok.mp h
  obtain ⟨⟨fits', t⟩, hmade, he⟩ := map_ok.mp hfits
  cases he
  obtain ⟨hsub, hcapacity⟩ := makeRoom_ok hmade
  have hkept : t.rows.Sublist s.events.rows := hsub.trans (Table.deleteRows_sublist _ _)
  cases fits' with
  | false =>
    obtain ⟨rfl, rfl⟩ := pure_eq_ok h
    exact .saturated t hkept
  | true =>
    obtain ⟨_, _, h⟩ := lift_bind_ok.mp h
    obtain ⟨id, s₂, hinsert, h⟩ := bind_ok.mp h
    obtain ⟨hnext, hrange, hchecks, hrows, hsequence⟩ := insert_audit_ok (mapError_ok.mp hinsert)
    obtain ⟨_, h⟩ := require_bind_ok.mp h
    obtain ⟨rfl, rfl⟩ := pure_eq_ok h
    obtain ⟨t', sequence⟩ := s'
    obtain rfl := hsequence
    exact .stored t t' _ _ hkept hnext hrange rfl hchecks (hcapacity rfl) hrows

end Omen.Server
