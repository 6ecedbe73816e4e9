import OmenBrowser.Lib.Pruning
import OmenBrowser.Server.MessageRevisions

/- The audit tables of reactions, message revisions and pins.

   The three stores prune their audit tables with the same statements: rows past the retention
   age go first, at most `maxPrunedPerMutation` for one request, and what is left of that number
   may go to make room for the row the request will add. `AuditLog` is what the stores differ in.
   Rows that are not free to go (the audit rows of active pins) are left out of both.

   Correspondence (Rust ↔ Lean):
     `prune_expired_audit_rows`, `prune_expired_pin_audit`     ↔ `pruneExpired`
     `ensure_audit_capacity`, `ensure_pin_audit_capacity`      ↔ `ensureCapacity`
     `audit_usage`, `pin_audit_usage`                          ↔ `usage`
     the `pruned` they count                                   ↔ the last argument of
                                                                 `ensureCapacity`, what is left -/
namespace Omen.Server
open Wire Sql Ints Omen.Protocol Txn Table List

variable {rows : List ρ} {prunable : ρ → Bool}

/-- An audit table: where it is, the columns it is pruned by, and its limits. -/
structure AuditLog {ρ κ : Type} (key : ρ → κ) where
  table : Database → Table key
  put : Table key → Database → Database
  roomId : ρ → RoomId
  eventId : ρ → Int
  atUnix : ρ → Int
  retainedBytes : ρ → Nat
  retentionAgeSeconds : Int
  maxPrunedPerMutation : Nat
  maxRowsPerRoom : Int
  maxBytesPerRoom : Int
  maxRowsGlobal : Int
  maxBytesGlobal : Int
  table_put : ∀ t db, table (put t db) = t
  put_table : ∀ db, put (table db) db = db
  put_put : ∀ t u db, put t (put u db) = put t db
  limits : (0 ≤ maxRowsPerRoom ∧ maxRowsPerRoom < i64Max) ∧
    (0 ≤ maxBytesPerRoom ∧ maxBytesPerRoom < i64Max) ∧
    (0 ≤ maxRowsGlobal ∧ maxRowsGlobal < i64Max) ∧ (0 ≤ maxBytesGlobal ∧ maxBytesGlobal < i64Max)

namespace AuditLog
variable {ρ κ : Type} {key : ρ → κ} (log : AuditLog key)

/-- `ORDER BY at, room_id` and the id of the row. -/
def byAge (a b : ρ) : Ordering :=
  (compare (log.atUnix a) (log.atUnix b)).then ((compare (log.roomId a) (log.roomId b)).then
    (compare (log.eventId a) (log.eventId b)))

/-- `ORDER BY CASE WHEN room_id = ?1 THEN 0 ELSE 1 END` first. -/
def byRoomThenAge (roomId : RoomId) (a b : ρ) : Ordering :=
  (compare (if log.roomId a = roomId then 0 else 1)
    (if log.roomId b = roomId then 0 else 1)).then (log.byAge a b)

/-- The row is past the retention age. -/
def expired (now : Int) (r : ρ) : Bool :=
  decide (log.atUnix r < saturatingSub now log.retentionAgeSeconds)

def usage (roomId : Option RoomId) : Txn Database ServerError (Int × Int) := do
  let rows ← query (fun db => (log.table db).rows.filter
    (fun r => roomId.all (log.roomId r == ·)))
  lift (rowUsage log.retainedBytes rows)

def pruneExpired [DecidableEq κ] (free : Database → ρ → Bool) (now : Int) : Txn Database ServerError Nat := do
  let victims ← query (fun db => (log.table db).batch log.byAge
    (fun r => log.expired now r && free db r) log.maxPrunedPerMutation)
  execute (fun db => log.put ((log.table db).deleteRows victims) db)
  pure victims.length

def hasCapacity (roomId : RoomId) (incomingBytes : Int) : Txn Database ServerError Bool := do
  let room ← log.usage (some roomId)
  let whole ← log.usage none
  pure (decide (saturatingAdd room.1 1 ≤ log.maxRowsPerRoom) &&
    decide (saturatingAdd room.2 incomingBytes ≤ log.maxBytesPerRoom) &&
    decide (saturatingAdd whole.1 1 ≤ log.maxRowsGlobal) &&
    decide (saturatingAdd whole.2 incomingBytes ≤ log.maxBytesGlobal))

/-- Each turn that finds no room deletes one row, the oldest of the room before the oldest of the
others, until nothing may be pruned any more. -/
def ensureCapacity [DecidableEq κ] (free : Database → ρ → Bool) (roomId : RoomId)
    (incomingBytes : Int) : Nat → Txn Database ServerError Bool
  | 0 => log.hasCapacity roomId incomingBytes
  | left + 1 => do
    if ← log.hasCapacity roomId incomingBytes then pure true
    else
      let victim ← query (fun db =>
        first? (log.byRoomThenAge roomId) ((log.table db).rows.filter (free db)))
      match victim with
      | none => pure false
      | some r =>
        execute (fun db => log.put ((log.table db).deleteRows [r]) db)
        ensureCapacity free roomId incomingBytes left

/-! The same on the rows alone. -/

def bytes (rows : List ρ) : Nat := (rows.map log.retainedBytes).sum

def ofRoom (roomId : RoomId) (r : ρ) : Bool := log.roomId r == roomId

/-- One more row of `incomingBytes` in the room is within the limits. -/
def fits (roomId : RoomId) (incomingBytes : Int) (t : Table key) : Bool :=
  decide ((t.rows.countP (log.ofRoom roomId) : Int) + 1 ≤ log.maxRowsPerRoom ∧
    (log.bytes (t.rows.filter (log.ofRoom roomId)) : Int) + incomingBytes ≤ log.maxBytesPerRoom ∧
    (t.rows.length : Int) + 1 ≤ log.maxRowsGlobal ∧
    (log.bytes t.rows : Int) + incomingBytes ≤ log.maxBytesGlobal)

/-- The rows past the retention age that one request prunes. -/
def stale (free : ρ → Bool) (now : Int) (t : Table key) : List ρ :=
  t.batch log.byAge (fun r => log.expired now r && free r) log.maxPrunedPerMutation

/-- What is left without them. -/
def pruned [DecidableEq κ] (free : ρ → Bool) (now : Int) (t : Table key) : Table key :=
  t.deleteRows (log.stale free now t)

/-- What a request may still prune after them. -/
def budget (free : ρ → Bool) (now : Int) (t : Table key) : Nat :=
  log.maxPrunedPerMutation - (log.stale free now t).length

/-- Whether there is room for the request's row, and what is left to make it. -/
def madeRoom [DecidableEq κ] (free : ρ → Bool) (roomId : RoomId) (incomingBytes : Int) (left : Nat)
    (t : Table key) : Bool × Table key :=
  evict (log.fits roomId incomingBytes) free (log.byRoomThenAge roomId) left t

/-! What the statements do. -/

section
variable {log} {free : Database → ρ → Bool} {roomId : RoomId} {incomingBytes now : Int}
  {left : Nat} {db db' : Database} {b : Bool}

theorem saturatingAdd_le_iff {a b limit : Int} (h : 0 ≤ limit ∧ limit < i64Max) :
    saturatingAdd a b ≤ limit ↔ a + b ≤ limit := by
  unfold saturatingAdd i64Min
  omega

theorem rowUsage_ok {rows : List ρ} {f : ρ → Nat} {u : Int × Int} :
    rowUsage f rows = .ok u ↔
      ((rows.map f).sum : Int) ≤ i64Max ∧ u = ((rows.length : Int), ((rows.map f).sum : Int)) := by
  unfold rowUsage
  by_cases h : ((rows.map f).sum : Int) > i64Max
  · rw [if_pos h]
    refine ⟨?_, ?_⟩
    · intro he
      cases he
    · intro he
      omega
  · rw [if_neg h, Except.ok.injEq]
    refine ⟨?_, ?_⟩
    · intro he
      exact ⟨by omega, he.symm⟩
    · intro he
      exact he.2.symm

theorem usage_ok {room : Option RoomId} {u : Int × Int} :
    log.usage room db = .ok (u, db') ↔
      (log.bytes ((log.table db).rows.filter (fun r => room.all (log.roomId r == ·))) : Int) ≤ i64Max ∧
      u = ((((log.table db).rows.filter (fun r => room.all (log.roomId r == ·))).length : Int),
        (log.bytes ((log.table db).rows.filter (fun r => room.all (log.roomId r == ·))) : Int)) ∧
      db' = db := by
  rw [usage, query_bind, lift_ok, rowUsage_ok, and_assoc]
  rfl

theorem bytes_sublist (log : AuditLog key) {rows rows' : List ρ} (h : rows'.Sublist rows) :
    log.bytes rows' ≤ log.bytes rows :=
  (h.map log.retainedBytes).sum_le_sum fun _ _ => Nat.zero_le _

theorem hasCapacity_ok :
    log.hasCapacity roomId incomingBytes db = .ok (b, db') ↔
      (log.bytes (log.table db).rows : Int) ≤ i64Max ∧
      b = log.fits roomId incomingBytes (log.table db) ∧ db' = db := by
  have hall : (log.table db).rows.filter
      (fun r => (none : Option RoomId).all (log.roomId r == ·)) = (log.table db).rows := by
    simp
  have hfits : (decide (saturatingAdd
      ((log.table db).rows.filter (log.ofRoom roomId)).length 1 ≤ log.maxRowsPerRoom) &&
      decide (saturatingAdd (log.bytes ((log.table db).rows.filter (log.ofRoom roomId)))
        incomingBytes ≤ log.maxBytesPerRoom) &&
      decide (saturatingAdd (log.table db).rows.length 1 ≤ log.maxRowsGlobal) &&
      decide (saturatingAdd (log.bytes (log.table db).rows) incomingBytes ≤ log.maxBytesGlobal)) =
      log.fits roomId incomingBytes (log.table db) := by
    -- no limit is near `i64::MAX`, so saturation does not change a comparison
    obtain ⟨h₁, h₂, h₃, h₄⟩ := log.limits
    simp only [saturatingAdd_le_iff h₁, saturatingAdd_le_iff h₂, saturatingAdd_le_iff h₃,
      saturatingAdd_le_iff h₄, fits, ← countP_eq_length_filter, Bool.decide_and,
      Bool.and_assoc]
  constructor
  · intro h
    obtain ⟨room, db₁, hroom, h⟩ := bind_ok.mp h
    obtain ⟨_, rfl, rfl⟩ := usage_ok.mp hroom
    obtain ⟨whole, db₂, hwhole, h⟩ := bind_ok.mp h
    obtain ⟨hbytes, rfl, rfl⟩ := usage_ok.mp hwhole
    rw [hall] at hbytes h
    obtain ⟨rfl, rfl⟩ := pure_eq_ok h
    exact ⟨hbytes, hfits, rfl⟩
  · intro ⟨hbytes, hb, hdb⟩
    subst hb hdb
    have hroom : (log.bytes ((log.table db').rows.filter
        (fun r => (some roomId).all (log.roomId r == ·))) : Int) ≤ i64Max := by
      have hle : log.bytes ((log.table db').rows.filter
          (fun r => (some roomId).all (log.roomId r == ·))) ≤ log.bytes (log.table db').rows :=
        bytes_sublist log filter_sublist
      omega
    refine bind_ok.mpr ⟨_, db', usage_ok.mpr ⟨hroom, rfl, rfl⟩, ?_⟩
    refine bind_ok.mpr ⟨_, db', usage_ok.mpr ⟨by rw [hall]; exact hbytes, rfl, rfl⟩, ?_⟩
    rw [hall]
    exact pure_ok.mpr (Prod.ext hfits.symm rfl)

variable [DecidableEq κ]

theorem pruneExpired_eq :
    log.pruneExpired free now db =
      .ok ((log.stale (free db) now (log.table db)).length,
        log.put (log.pruned (free db) now (log.table db)) db) := rfl

/-- The loop does to the database what `madeRoom` does to its rows. -/
theorem ensureCapacity_ok (hfree : ∀ t db, free (log.put t db) = free db) :
    log.ensureCapacity free roomId incomingBytes left db = .ok (b, db') ↔
      (log.bytes (log.table db).rows : Int) ≤ i64Max ∧
      b = (log.madeRoom (free db) roomId incomingBytes left (log.table db)).1 ∧
      db' = log.put (log.madeRoom (free db) roomId incomingBytes left (log.table db)).2 db := by
  -- on what may still be pruned; the sum of the bytes may be past `i64`, and then every round fails
  induction left generalizing db with
  | zero =>
    show log.hasCapacity roomId incomingBytes db = _ ↔ _
    rw [hasCapacity_ok]
    simp only [madeRoom, evict, log.put_table]
  | succ left ih =>
    unfold ensureCapacity
    by_cases hbytes : (log.bytes (log.table db).rows : Int) ≤ i64Max
    · rw [bind_run (hasCapacity_ok.mpr ⟨hbytes, rfl, rfl⟩)]
      cases hfits : log.fits roomId incomingBytes (log.table db) with
      | true =>
        simp only [if_true, madeRoom, evict_of_fits hfits, log.put_table, hbytes, true_and]
        rw [pure_ok, Prod.mk.injEq]
      | false =>
        simp only [Bool.false_eq_true, if_false, query_bind, madeRoom, hbytes, true_and]
        cases hv : first? (log.byRoomThenAge roomId) ((log.table db).rows.filter (free db)) with
        | none =>
          simp only [evict, hfits, hv, Bool.false_eq_true, if_false, log.put_table]
          rw [pure_ok, Prod.mk.injEq]
        | some r =>
          have hless : (log.bytes ((log.table db).deleteRows [r]).rows : Int) ≤ i64Max := by
            have := bytes_sublist log ((log.table db).deleteRows_sublist [r])
            omega
          simp only [execute_bind, evict_step hfits hv]
          rw [ih, log.table_put, hfree, madeRoom, log.put_put]
          simp only [hless, true_and]
    · simp only [hbytes, false_and, iff_false]
      intro h
      obtain ⟨_, _, hcap, _⟩ := bind_ok.mp h
      exact hbytes (hasCapacity_ok.mp hcap).1

end

/-! Rows of bounded width: the row limits decide. -/

/-- The table is within its row limits, and a row retains at most `width` bytes. -/
structure Within (width : Nat) (t : Table key) : Prop where
  narrow : (width : Int) * log.maxRowsPerRoom ≤ log.maxBytesPerRoom ∧
    (width : Int) * log.maxRowsGlobal ≤ log.maxBytesGlobal
  room : ∀ roomId, (t.rows.countP (log.ofRoom roomId) : Int) ≤ log.maxRowsPerRoom
  whole : (t.rows.length : Int) ≤ log.maxRowsGlobal
  wide : ∀ r ∈ t.rows, log.retainedBytes r ≤ width

section
variable {log} {width : Nat} {t t' : Table key} {roomId : RoomId} {incomingBytes now : Int}
  {left : Nat} {free : ρ → Bool} {r v : ρ}

theorem bytes_le {rows : List ρ} (h : ∀ r ∈ rows, log.retainedBytes r ≤ width) :
    log.bytes rows ≤ rows.length * width := by
  have hsum := sum_le_card_nsmul (rows.map log.retainedBytes) width (by simpa using h)
  simpa [bytes] using hsum

theorem within_empty (hnarrow : (width : Int) * log.maxRowsPerRoom ≤ log.maxBytesPerRoom ∧
    (width : Int) * log.maxRowsGlobal ≤ log.maxBytesGlobal) :
    log.Within width (empty : Table key) := by
  refine ⟨hnarrow, fun roomId => log.limits.1.1, log.limits.2.2.1.1, ?_⟩
  intro r hr
  cases hr

theorem Within.sublist (h : log.Within width t) (hsub : t'.rows.Sublist t.rows) :
    log.Within width t' := by
  refine ⟨h.narrow, ?_, ?_, ?_⟩
  · intro room
    exact countP_le_of_sublist hsub (h.room room)
  · exact length_le_of_sublist hsub h.whole
  · intro r hr
    exact h.wide r (hsub.subset hr)

/-- The byte limits are met as long as the row limits are. -/
theorem Within.fits_iff (h : log.Within width t) (hin : incomingBytes ≤ width) :
    log.fits roomId incomingBytes t = true ↔
      (t.rows.countP (log.ofRoom roomId) : Int) + 1 ≤ log.maxRowsPerRoom ∧
        (t.rows.length : Int) + 1 ≤ log.maxRowsGlobal := by
  have hscale : ∀ {n : Nat} {rows bytes : Int}, (n : Int) + 1 ≤ rows → (width : Int) * rows ≤ bytes →
      (n * width : Int) + incomingBytes ≤ bytes := by
    intro n rows bytes hn hb
    calc (n * width : Int) + incomingBytes
        ≤ n * width + width := by omega
      _ = width * (n + 1) := by ring
      _ ≤ width * rows := Int.mul_le_mul_of_nonneg_left hn (Int.natCast_nonneg width)
      _ ≤ bytes := hb
  simp only [fits, decide_eq_true_eq]
  refine ⟨fun hf => ⟨hf.1, hf.2.2.1⟩, fun hf => ⟨hf.1, ?_, hf.2, ?_⟩⟩
  · have hb : log.bytes (t.rows.filter (log.ofRoom roomId)) ≤
        (t.rows.filter (log.ofRoom roomId)).length * width :=
      bytes_le fun r hr => h.wide r (mem_of_mem_filter hr)
    rw [← countP_eq_length_filter] at hb
    have := hscale hf.1 h.narrow.1
    omega
  · have hb : log.bytes t.rows ≤ t.rows.length * width := bytes_le h.wide
    have := hscale hf.2 h.narrow.2
    omega

/-- A row that fits keeps the table within its limits. -/
theorem Within.insert (h : log.Within width t) (hrows : t'.rows = r :: t.rows)
    (hfits : log.fits (log.roomId r) incomingBytes t = true) (hwide : log.retainedBytes r ≤ width) :
    log.Within width t' := by
  simp only [fits, decide_eq_true_eq] at hfits
  refine ⟨h.narrow, fun room => ?_, ?_, ?_⟩
  · rw [hrows]
    refine countP_cons_le (h.room room) fun hroom => ?_
    obtain rfl : log.roomId r = room := beq_iff_eq.mp hroom
    exact hfits.1
  · rw [hrows, length_cons]
    omega
  · intro q hq
    rw [hrows] at hq
    rcases mem_cons.mp hq with rfl | hq
    · exact hwide
    · exact h.wide q hq

/-- A room that is full has a row. -/
theorem exists_of_full (hpos : 0 < log.maxRowsPerRoom)
    (hfull : (t.rows.countP (log.ofRoom roomId) : Int) = log.maxRowsPerRoom) :
    ∃ r ∈ t.rows, log.roomId r = roomId := by
  have hcount : 0 < t.rows.countP (log.ofRoom roomId) := by omega
  obtain ⟨r, hr, hof⟩ := countP_pos_iff.mp hcount
  exact ⟨r, hr, beq_iff_eq.mp hof⟩

instance : Std.TransCmp log.byAge :=
  inferInstanceAs (Std.TransCmp (compareLex (compareOn log.atUnix)
    (compareLex (compareOn log.roomId) (compareOn log.eventId))))

instance (roomId : RoomId) : Std.TransCmp (log.byRoomThenAge roomId) :=
  inferInstanceAs (Std.TransCmp (compareLex
    (compareOn fun a => if log.roomId a = roomId then 0 else 1) log.byAge))

/-- The rows of the request's room go first. -/
theorem roomId_first (h : first? (log.byRoomThenAge roomId) (t.rows.filter free) = some v)
    (hr : r ∈ t.rows) (hfree : free r = true) (hroom : log.roomId r = roomId) :
    log.roomId v = roomId := by
  have hle := first?_isLE h (mem_filter.mpr ⟨hr, hfree⟩)
  by_contra hne
  rw [byRoomThenAge, if_neg hne, if_pos hroom] at hle
  have : Ordering.gt.isLE = true := hle
  cases this

theorem stale_mem (h : r ∈ log.stale free now t) :
    r ∈ t.rows ∧ log.expired now r = true ∧ free r = true := by
  obtain ⟨hr, hp⟩ := mem_of_mem_batch h
  exact ⟨hr, Bool.and_eq_true_iff.mp hp⟩

theorem lt_budget_iff {n : Nat} : n < log.budget free now t ↔
    t.rows.countP (fun r => log.expired now r && free r) + n < log.maxPrunedPerMutation := by
  rw [budget, stale, length_batch]
  omega

theorem budget_pos_iff : 0 < log.budget free now t ↔
    t.rows.countP (fun r => log.expired now r && free r) < log.maxPrunedPerMutation :=
  lt_budget_iff

variable [DecidableEq κ]

/-- One row makes room, where the room has a row to give if it is full. -/
theorem Within.madeRoom_one (h : log.Within width t) (hin : incomingBytes ≤ width)
    (hfits : log.fits roomId incomingBytes t = false)
    (hv : first? (log.byRoomThenAge roomId) (t.rows.filter free) = some v)
    (hroom : (t.rows.countP (log.ofRoom roomId) : Int) = log.maxRowsPerRoom →
      ∃ r ∈ t.rows, free r = true ∧ log.roomId r = roomId) :
    log.madeRoom free roomId incomingBytes (left + 1) t = (true, t.deleteRows [v]) := by
  have hmem : ∀ q ∈ [v], q ∈ t.rows := by
    intro q hq
    rw [mem_singleton.mp hq]
    exact (mem_of_first? hv).1
  have hcount := countP_deleteRows hmem (nodup_singleton v)
  have hlength := hcount fun _ => true
  simp only [countP_true, length_singleton] at hlength
  have hless : log.Within width (t.deleteRows [v]) := h.sublist (t.deleteRows_sublist [v])
  have hone : log.fits roomId incomingBytes (t.deleteRows [v]) = true := by
    refine (hless.fits_iff hin).mpr ⟨?_, ?_⟩
    · have hle := h.room roomId
      have hsplit := hcount (log.ofRoom roomId)
      by_cases hfull : (t.rows.countP (log.ofRoom roomId) : Int) = log.maxRowsPerRoom
      · obtain ⟨r, hr, hfree, hr'⟩ := hroom hfull
        have hv' : log.ofRoom roomId v = true := beq_iff_eq.mpr (roomId_first hv hr hfree hr')
        rw [countP_singleton, if_pos hv'] at hsplit
        omega
      · omega
    · have := h.whole
      omega
  rw [madeRoom, evict_step hfits hv, evict_of_fits hone]

/-- A table within its limits gives one row at most, the first, and none if it fits. -/
theorem Within.mem_madeRoom (h : log.Within width t) (hin : incomingBytes ≤ width)
    (hroom : (t.rows.countP (log.ofRoom roomId) : Int) = log.maxRowsPerRoom →
      ∃ r ∈ t.rows, free r = true ∧ log.roomId r = roomId)
    (hr : r ∈ t.rows) (hfirst : 0 < left → log.fits roomId incomingBytes t = false →
      first? (log.byRoomThenAge roomId) (t.rows.filter free) ≠ some r) :
    r ∈ (log.madeRoom free roomId incomingBytes left t).2.rows := by
  cases left with
  | zero => exact hr
  | succ left =>
    cases hfits : log.fits roomId incomingBytes t with
    | true =>
      rw [madeRoom, evict_of_fits hfits]
      exact hr
    | false =>
      cases hv : first? (log.byRoomThenAge roomId) (t.rows.filter free) with
      | none =>
        simp only [madeRoom, evict, hfits, hv, Bool.false_eq_true, if_false]
        exact hr
      | some v =>
        rw [h.madeRoom_one hin hfits hv hroom]
        refine (mem_deleteRows ?_).mpr ⟨hr, ?_⟩
        · intro q hq
          rw [mem_singleton.mp hq]
          exact (mem_of_first? hv).1
        · intro hq
          rw [← mem_singleton.mp hq] at hv
          exact hfirst (Nat.succ_pos left) hfits hv

/-! What a request takes from the audit. -/

/-- The request deletes rows within the retention age: too few rows are past it to spend the whole
number one request may prune, there is no room without them, and some other row is free to go. -/
def Spends (free : ρ → Bool) (roomId : RoomId) (incomingBytes now : Int) (t : Table key) : Prop :=
  t.rows.countP (fun r => log.expired now r && free r) < log.maxPrunedPerMutation ∧
  log.fits roomId incomingBytes (t.deleteWhere (fun r => log.expired now r && free r)) = false ∧
  ∃ r ∈ t.rows, free r = true ∧ log.expired now r = false

/-- The same for a request that may delete one row more to make room than it prunes for age, the row
it releases. That row does not count if it is past the age and goes first. -/
def SpendsReleasing (prunable free : ρ → Bool) (roomId : RoomId) (incomingBytes now : Int)
    (t : Table key) : Prop :=
  t.rows.countP (fun r => log.expired now r && prunable r) < log.maxPrunedPerMutation ∧
  log.fits roomId incomingBytes (t.deleteWhere (fun r => log.expired now r && prunable r)) = false ∧
  ∃ v, first? (log.byRoomThenAge roomId)
      ((t.deleteWhere (fun r => log.expired now r && prunable r)).rows.filter free) = some v ∧
    (log.expired now v = false ∨
      t.rows.countP (fun r => log.expired now r && prunable r) + 1 < log.maxPrunedPerMutation ∧
      log.fits roomId incomingBytes
        ((t.deleteWhere (fun r => log.expired now r && prunable r)).deleteRows [v]) = false ∧
      ∃ r ∈ (t.deleteWhere (fun r => log.expired now r && prunable r)).rows, r ≠ v ∧ free r = true)

theorem mem_pruned : r ∈ (log.pruned free now t).rows ↔ r ∈ t.rows ∧ r ∉ log.stale free now t :=
  mem_deleteRows fun _ hv => (stale_mem hv).1

/-- Rows within the retention age are not pruned for their age. -/
theorem mem_pruned_of_fresh (hr : r ∈ t.rows) (hfresh : log.expired now r = false) :
    r ∈ (log.pruned free now t).rows := by
  refine mem_pruned.mpr ⟨hr, fun hstale => ?_⟩
  rw [(stale_mem hstale).2.1] at hfresh
  cases hfresh

/-- What is pruned for its age is past it. -/
theorem expired_of_pruned (hr : r ∈ t.rows) (hgone : r ∉ (log.pruned free now t).rows) :
    log.expired now r = true := by
  by_contra hfresh
  exact hgone (mem_pruned_of_fresh hr (Bool.not_eq_true _ ▸ hfresh))

theorem length_le_pruned :
    t.rows.length ≤ (log.pruned free now t).rows.length + log.maxPrunedPerMutation := by
  have hstale : (log.stale free now t).length ≤ log.maxPrunedPerMutation := by
    rw [stale, length_batch]
    exact Nat.min_le_left _ _
  have hsplit := (perm_deleteRows (fun _ hv => (stale_mem hv).1)
    (nodup_batch t log.byAge (fun r => log.expired now r && free r)
      log.maxPrunedPerMutation)).length_eq
  rw [length_append] at hsplit
  calc t.rows.length
      = (log.stale free now t).length + (log.pruned free now t).rows.length := hsplit
    _ ≤ (log.pruned free now t).rows.length + log.maxPrunedPerMutation := by omega

/-- With something left to prune, all rows past the age are gone. -/
theorem pruned_eq (h : 0 < log.budget free now t) :
    log.pruned free now t = t.deleteWhere (fun r => log.expired now r && free r) := by
  have hlt : (log.stale free now t).length < log.maxPrunedPerMutation := by
    unfold budget at h
    omega
  apply ext
  apply filter_congr
  intro r hr
  congr 1
  rw [Bool.eq_iff_iff, contains_iff_mem, mem_map]
  constructor
  · intro ⟨q, hq, hk⟩
    obtain rfl := eq_of_key (stale_mem hq).1 hr hk
    exact (mem_of_mem_batch hq).2
  · intro hp
    exact ⟨r, mem_batch_of_lt hlt hr hp, rfl⟩

theorem mem_pruned_iff (hleft : 0 < log.budget free now t) :
    r ∈ (log.pruned free now t).rows ↔ r ∈ t.rows ∧ (log.expired now r && free r) = false := by
  rw [pruned_eq hleft, mem_deleteWhere]

/-- What keeps the rows within the age after pruning keeps all of them. -/
theorem keeps_pruned_iff {t' : Table key} :
    (∀ r ∈ t.rows, log.expired now r = false → r ∈ t'.rows) ↔
      ∀ r ∈ (log.pruned free now t).rows, log.expired now r = false → r ∈ t'.rows :=
  ⟨fun h r hr => h r (mem_pruned.mp hr).1,
    fun h r hr hfresh => h r (mem_pruned_of_fresh hr hfresh) hfresh⟩

/-- A request that has nothing left to prune keeps the rows within the age. -/
theorem keeps_of_budget {prunable : ρ → Bool} (hleft : ¬0 < log.budget prunable now t) :
    ∀ r ∈ t.rows, log.expired now r = false → r ∈ (log.madeRoom free roomId incomingBytes
      (log.budget prunable now t) (log.pruned prunable now t)).2.rows := by
  intro r hr hfresh
  rw [Nat.eq_zero_of_not_pos hleft]
  exact mem_pruned_of_fresh hr hfresh

/-- A request that may delete what it prunes for age keeps the rows within the age exactly when
it does not spend them. -/
theorem keeps_iff_not_spends :
    (∀ r ∈ t.rows, log.expired now r = false → r ∈ (log.madeRoom free roomId incomingBytes
      (log.budget free now t) (log.pruned free now t)).2.rows) ↔
      ¬log.Spends free roomId incomingBytes now t := by
  by_cases hleft : 0 < log.budget free now t
  · have hold : ∀ r ∈ (log.pruned free now t).rows, free r = true → log.expired now r = false := by
      intro r hr hfree
      have hkept := ((mem_pruned_iff hleft).mp hr).2
      rwa [hfree, Bool.and_true] at hkept
    refine keeps_pruned_iff.trans ((evict_keeps_iff hold).trans (not_congr ?_))
    rw [budget_pos_iff, Spends, ← pruned_eq hleft]
    refine and_congr_right fun _ => and_congr_right fun _ => ?_
    constructor
    · intro ⟨r, hr, hfree⟩
      exact ⟨r, (mem_pruned.mp hr).1, hfree, hold r hr hfree⟩
    · intro ⟨r, hr, hfree, hfresh⟩
      exact ⟨r, mem_pruned_of_fresh hr hfresh, hfree⟩
  · refine iff_of_true (keeps_of_budget hleft) fun ⟨hlt, _⟩ => ?_
    exact hleft (budget_pos_iff.mpr hlt)

/-- The same where one more row may go to make room than is pruned for its age. -/
theorem keeps_iff_not_spendsReleasing {prunable : ρ → Bool}
    (hone : ∀ r ∈ t.rows, free r = true → prunable r = false →
      ∀ q ∈ t.rows, free q = true → prunable q = false → q = r) :
    (∀ r ∈ t.rows, log.expired now r = false → r ∈ (log.madeRoom free roomId incomingBytes
      (log.budget prunable now t) (log.pruned prunable now t)).2.rows) ↔
      ¬log.SpendsReleasing prunable free roomId incomingBytes now t := by
  by_cases hleft : 0 < log.budget prunable now t
  · have hreleased : ∀ r ∈ (log.pruned prunable now t).rows, log.expired now r = true →
        prunable r = false := by
      intro r hr hexpired
      have hkept := ((mem_pruned_iff hleft).mp hr).2
      rwa [hexpired, Bool.true_and] at hkept
    refine keeps_pruned_iff.trans ((evict_keeps_iff_first ?_).trans (not_congr ?_))
    · intro r hr hfree hexpired q hq hqfree hqexpired
      exact hone r (mem_pruned.mp hr).1 hfree (hreleased r hr hexpired) q (mem_pruned.mp hq).1 hqfree
        (hreleased q hq hqexpired)
    · rw [budget_pos_iff, SpendsReleasing, ← pruned_eq hleft, lt_budget_iff]
  · refine iff_of_true (keeps_of_budget hleft) fun ⟨hlt, _⟩ => ?_
    exact hleft (budget_pos_iff.mpr hlt)

end
end AuditLog

/-! The audit of message revisions. -/

def revisionAudit : AuditLog RevisionEventRow.key where
  table := Database.roomMessageRevisionEvents
  put t db := { db with roomMessageRevisionEvents := t }
  roomId := RevisionEventRow.roomId
  eventId := RevisionEventRow.revisionEventId
  atUnix := RevisionEventRow.atUnix
  retainedBytes := RevisionEventRow.retainedBytes
  retentionAgeSeconds := auditRetentionAgeSeconds
  maxPrunedPerMutation := maxAuditPrunedPerMutation
  maxRowsPerRoom := maxAuditRowsPerRoom
  maxBytesPerRoom := maxAuditBytesPerRoom
  maxRowsGlobal := maxAuditRowsGlobal
  maxBytesGlobal := maxAuditBytesGlobal
  table_put _ _ := rfl
  put_table := Eq.refl
  put_put _ _ _ := rfl
  limits := by decide

theorem deleteAudit_eq (db : Database) (victims : List RevisionEventRow) :
    db.deleteAudit victims =
      revisionAudit.put ((revisionAudit.table db).deleteRows victims) db := by
  have hrows : db.roomMessageRevisionEvents.deleteWhere
      (fun r => (victims.map RevisionEventRow.key).contains r.key) =
      db.roomMessageRevisionEvents.deleteRows victims := by
    rw [deleteRows_eq]
    apply ext
    apply filter_congr
    intro r _
    simp only [contains_eq_mem]
    exact congrArg _ (decide_eq_decide.mpr Iff.rfl)
  unfold Database.deleteAudit
  rw [hrows]
  rfl

theorem pruneExpiredAuditRows_eq (now : Int) :
    pruneExpiredAuditRows now = revisionAudit.pruneExpired (fun _ _ => true) now := by
  unfold AuditLog.pruneExpired pruneExpiredAuditRows
  simp only [Bool.and_true, deleteAudit_eq]
  rfl

theorem auditHasCapacity_eq (roomId : RoomId) (incomingBytes : Int) :
    auditHasCapacity roomId incomingBytes = revisionAudit.hasCapacity roomId incomingBytes := rfl

theorem ensureAuditCapacity_eq (roomId : RoomId) (incomingBytes : Int) (left : Nat) :
    ensureAuditCapacity roomId incomingBytes left =
      revisionAudit.ensureCapacity (fun _ _ => true) roomId incomingBytes left := by
  induction left with
  | zero => rfl
  | succ left ih =>
    unfold ensureAuditCapacity AuditLog.ensureCapacity
    rw [ih, auditHasCapacity_eq]
    simp only [filter_true, deleteAudit_eq]
    congr 1
    funext fits
    congr 1
    congr 1
    funext victim
    cases victim with
    | none | some => rfl

end Omen.Server
