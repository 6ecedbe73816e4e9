import OmenBrowser.Server.Events

/- What a compaction removes, and what it leaves alone.

   A `Row` is a row of any table, with the room it belongs to and the event of that room it
   refers to: a reply its parent, a row of a target table its target. A compaction that ends
   well removes the oldest events of one room; no row that is left refers to one of them, all
   rows of other rooms are untouched, and every reference that held before holds after. One
   that fails at any stage leaves the database as it was. -/
namespace Omen.Server
open Wire Sql Ints Omen.Protocol List

variable {e : RoomEventRow} {u : UsageRow} {n : Nat} {id : Int}

/-- A row of any table. -/
inductive Row where
  | user (r : UserRow)
  | room (r : RoomRow)
  | member (r : RoomMemberRow)
  | event (r : RoomEventRow)
  | sequence (r : SequenceRow)
  | usage (r : UsageRow)
  | reaction (r : ReactionRow)
  | reactionEvent (r : ReactionEventRow)
  | revisionState (r : RevisionStateRow)
  | revisionEvent (r : RevisionEventRow)
  | pin (r : PinRow)
  | pinEvent (r : PinEventRow)

/-- The row is in the database. -/
def Database.Holds (db : Database) : Row → Prop
  | .user r => r ∈ db.users.rows
  | .room r => r ∈ db.rooms.rows
  | .member r => r ∈ db.roomMembers.rows
  | .event r => r ∈ db.roomEvents.rows
  | .sequence r => r ∈ db.roomEventSequences.rows
  | .usage r => r ∈ db.roomHistoryUsage.rows
  | .reaction r => r ∈ db.roomReactions.rows
  | .reactionEvent r => r ∈ db.roomReactionEvents.rows
  | .revisionState r => r ∈ db.roomMessageRevisionState.rows
  | .revisionEvent r => r ∈ db.roomMessageRevisionEvents.rows
  | .pin r => r ∈ db.roomPins.rows
  | .pinEvent r => r ∈ db.roomPinEvents.rows

def Row.roomId : Row → Option RoomId
  | .user _ => none
  | .room r => some r.roomId
  | .member r => some r.roomId
  | .event r => some r.roomId
  | .sequence r => some r.roomId
  | .usage r => some r.roomId
  | .reaction r => some r.roomId
  | .reactionEvent r => some r.roomId
  | .revisionState r => some r.roomId
  | .revisionEvent r => some r.roomId
  | .pin r => some r.roomId
  | .pinEvent r => some r.roomId

/-- The event of its room a row refers to. -/
def Row.refersTo : Row → Option Int
  | .event r => r.replyToEventId
  | .reaction r => some r.targetEventId
  | .reactionEvent r => some r.targetEventId
  | .revisionState r => some r.targetEventId
  | .revisionEvent r => some r.targetEventId
  | .pin r => some r.targetEventId
  | .pinEvent r => some r.targetEventId
  | _ => none

/-- Whatever a row refers to is stored in its room. -/
def ReferentialIntegrity (db : Database) : Prop :=
  ∀ row roomId id, db.Holds row → row.roomId = some roomId → row.refersTo = some id →
    ∃ e ∈ db.history roomId, e.eventId = id

/-- The events `removed` are gone, and nothing else. -/
structure Framed (db db' : Database) (roomId : RoomId) (removed : List Int) : Prop where
  oldest : removed = db.oldestIds roomId removed.length
  survivors : db'.history roomId =
    ((db.history roomId).drop removed.length).map (RoomEventRow.forgetReply roomId removed)
  unreferenced : ∀ row id, db'.Holds row → row.roomId = some roomId → row.refersTo = some id →
    id ∉ removed
  others : ∀ row, row.roomId ≠ some roomId → (db'.Holds row ↔ db.Holds row)
  hanging : ∀ row id, row.refersTo = some id → id ∉ removed → (∀ e, row ≠ .event e) →
    (db'.Holds row ↔ db.Holds row)
  integrity : ReferentialIntegrity db'

section
variable {db db' : Database} {roomId : RoomId} {row : Row}

theorem holds_event_iff : db.Holds (.event e) ↔ e ∈ db.history e.roomId :=
  ⟨fun h => mem_history.mpr ⟨h, rfl⟩, fun h => (mem_history.mp h).1⟩

theorem holds_sequence_iff {q : SequenceRow} :
    db.Holds (.sequence q) ↔ db.sequence? q.roomId = some q.lastEventId := by
  unfold Database.sequence?
  constructor
  · intro h
    have hfind : db.roomEventSequences.find? q.roomId = some q := Table.find?_eq_some.mpr ⟨h, rfl⟩
    rw [hfind]; rfl
  · intro h
    obtain ⟨p, hp, hlast⟩ := Option.map_eq_some_iff.mp h
    obtain ⟨hmem, hkey⟩ := Table.find?_eq_some.mp hp
    cases p; cases q
    simp only at hlast hkey
    rw [← hlast, ← hkey]
    exact hmem

theorem holds_usage_iff : db.Holds (.usage u) ↔ db.usage? u.roomId = some u :=
  ⟨fun h => Table.find?_eq_some.mpr ⟨h, rfl⟩, fun h => (Table.find?_eq_some.mp h).1⟩

/-- Seeding a sequence touches one row. -/
theorem SequenceSet.holds (h : SequenceSet db db' roomId n)
    (hrow : ∀ q, row = .sequence q → q.roomId ≠ roomId) : db'.Holds row ↔ db.Holds row := by
  cases row with
  | sequence q => rw [holds_sequence_iff, holds_sequence_iff, h.others q.roomId (hrow q rfl)]
  | _ => rw [h.rest]; exact Iff.rfl

/-- So does setting a ledger. -/
theorem UsageSet.holds (h : UsageSet db db' roomId u)
    (hrow : ∀ v, row = .usage v → v.roomId ≠ roomId) : db'.Holds row ↔ db.Holds row := by
  cases row with
  | usage v => rw [holds_usage_iff, holds_usage_iff, h.others v.roomId (hrow v rfl)]
  | _ => rw [h.rest]; exact Iff.rfl

theorem isTarget_eq_false {eventIds : List Int} {r : RoomId} :
    isTarget roomId eventIds r id = false ↔ (r = roomId → id ∉ eventIds) := by
  simp [isTarget]

/-- Of the rows other than events those are left that do not refer to a forgotten event. -/
theorem holds_forget {eventIds : List Int} (hrow : ∀ e, row ≠ .event e) :
    (db.forget roomId eventIds).Holds row ↔
      db.Holds row ∧ ∀ id, row.roomId = some roomId → row.refersTo = some id → id ∉ eventIds := by
  cases row with
  | event e => exact absurd rfl (hrow e)
  | _ =>
    simp [Database.Holds, Row.refersTo, Row.roomId, Database.forget, Database.deleteEvents,
      Database.deleteTargets, Database.clearReplies, isTarget_eq_false]

theorem refersTo_tables (h : row.refersTo = some id) :
    (∀ q, row ≠ .sequence q) ∧ ∀ u, row ≠ .usage u := by
  refine ⟨?_, ?_⟩
  · rintro q rfl
    cases h
  · rintro u rfl
    cases h

/-- An event that is left does not refer to a removed one, and has kept the reference it has. -/
theorem forgetReply_refers {removed : List Int} (hroom : e.roomId = roomId)
    (hkept : e.eventId ∉ removed) (h : (e.forgetReply roomId removed).replyToEventId = some id) :
    id ∉ removed ∧ e.replyToEventId = some id := by
  unfold RoomEventRow.forgetReply at h
  split at h
  · cases h
  · next horphan =>
    refine ⟨?_, h⟩
    simpa [isOrphanedReply, hroom, h, hkept] using horphan

theorem forgetReply_nil (roomId : RoomId) (e : RoomEventRow) : e.forgetReply roomId [] = e := by
  unfold RoomEventRow.forgetReply isOrphanedReply
  cases e.replyToEventId <;> simp

/-- Nothing was to be removed. -/
theorem Framed.nothing (h : SequenceSet db db' roomId n) (hri : ReferentialIntegrity db) :
    Framed db db' roomId [] := by
  refine ⟨rfl, ?_, fun _ _ _ _ _ => not_mem_nil, ?_, ?_, ?_⟩
  · rw [h.history]
    conv_lhs => rw [← map_id (db.history roomId)]
    exact map_congr_left fun e _ => (forgetReply_nil roomId e).symm
  · intro row hrow
    apply h.holds
    rintro q rfl hq
    exact hrow (congrArg some hq)
  · intro row id hid _ _
    exact h.holds fun q hq => absurd hq ((refersTo_tables hid).1 q)
  · intro row r id hold hroom hid
    rw [h.history]
    apply hri row r id _ hroom hid
    exact (h.holds fun q hq => absurd hq ((refersTo_tables hid).1 q)).mp hold

theorem SequenceSet.oldestIds (h : SequenceSet db db' roomId n) (k : Nat) :
    db'.oldestIds roomId k = db.oldestIds roomId k := by
  unfold Database.oldestIds
  rw [h.history]

theorem oldestIds_length (db : Database) (roomId : RoomId) (k : Nat) :
    db.oldestIds roomId k = db.oldestIds roomId (db.oldestIds roomId k).length := by
  unfold Database.oldestIds
  rw [length_map, length_take, map_take, map_take, take_eq_take_min,
    length_map, Nat.min_comm]

theorem drop_oldestIds (db : Database) (roomId : RoomId) (k : Nat) :
    (db.history roomId).drop (db.oldestIds roomId k).length = (db.history roomId).drop k := by
  unfold Database.oldestIds
  rw [length_map, length_take]
  rcases Nat.le_total k (db.history roomId).length with hle | hle
  · rw [Nat.min_eq_left hle]
  · rw [Nat.min_eq_right hle, drop_length, drop_eq_nil_of_le hle]

/-- The room's sequence is seeded, and its oldest `k` events are removed. -/
structure Removes (db db' : Database) (roomId : RoomId) (k : Nat) : Prop where
  survivors : db'.history roomId = ((db.history roomId).drop k).map
    (RoomEventRow.forgetReply roomId (db.oldestIds roomId k))
  others : ∀ r, r ≠ roomId → db'.history r = db.history r
  rows : ∀ row, (∀ e, row ≠ .event e) → (∀ q, row = .sequence q → q.roomId ≠ roomId) →
    (∀ v, row = .usage v → v.roomId ≠ roomId) →
    (db'.Holds row ↔ db.Holds row ∧ ∀ id, row.roomId = some roomId → row.refersTo = some id →
      id ∉ db.oldestIds roomId k)

theorem Compacts.removes {db₁ : Database} {k : Nat} {now : Int} (hset : SequenceSet db db₁ roomId n)
    (hc : Compacts db₁ db' roomId u k now) : Removes db db' roomId k := by
  have hids := hset.oldestIds k
  have hafter := hc.after
  rw [hids] at hafter
  refine ⟨?_, ?_, ?_⟩
  · rw [hafter.history, ← hids, history_forget_oldest, hset.history, hids]
  · intro r hr
    rw [hafter.history, history_forget_of_ne hr, hset.history]
  · intro row hevent hseq husage
    rw [hafter.holds husage, holds_forget hevent, hset.holds hseq]

namespace Removes
variable {k : Nat}

variable (h : Removes db db' roomId k)
include h

/-- A row that refers to an event is in a table of its own. -/
theorem refersTo_iff (hid : row.refersTo = some id)
    (hevent : ∀ e, row ≠ .event e) :
    db'.Holds row ↔ db.Holds row ∧ (row.roomId = some roomId → id ∉ db.oldestIds roomId k) := by
  obtain ⟨hseq, husage⟩ := refersTo_tables hid
  rw [h.rows row hevent (fun q hq => absurd hq (hseq q)) (fun v hv => absurd hv (husage v))]
  refine and_congr_right fun _ => ⟨fun hfree hroom => hfree id hroom hid, fun hfree id' hroom hid' => ?_⟩
  rw [← Option.some.inj (hid.symm.trans hid')]
  exact hfree hroom

/-- A row that is left and refers to an event was there before, and the event is not removed. -/
theorem refers (hold : db'.Holds row)
    (hroom : row.roomId = some roomId) (hid : row.refersTo = some id) :
    id ∉ db.oldestIds roomId k ∧
      ∃ row', db.Holds row' ∧ row'.roomId = some roomId ∧ row'.refersTo = some id := by
  by_cases hevent : ∃ e, row = .event e
  · obtain ⟨e, rfl⟩ := hevent
    have he : e.roomId = roomId := Option.some.inj hroom
    rw [holds_event_iff, he, h.survivors] at hold
    obtain ⟨e₀, he₀, rfl⟩ := mem_map.mp hold
    have hmem := mem_history.mp (mem_of_mem_drop he₀)
    obtain ⟨hfree, hkept⟩ := forgetReply_refers hmem.2
      ((ascending_history db roomId).notMem_keys he₀) hid
    exact ⟨hfree, .event e₀, hmem.1, congrArg some hmem.2, hkept⟩
  · obtain ⟨hbefore, hfree⟩ := (h.refersTo_iff hid fun e he => hevent ⟨e, he⟩).mp hold
    exact ⟨hfree hroom, row, hbefore, hroom, hid⟩

/-- The rows of other rooms, and those of no room, are what they were. -/
theorem others_iff (hrow : row.roomId ≠ some roomId) :
    db'.Holds row ↔ db.Holds row := by
  by_cases hevent : ∃ e, row = .event e
  · obtain ⟨e, rfl⟩ := hevent
    rw [holds_event_iff, holds_event_iff, h.others e.roomId fun he => hrow (congrArg some he)]
  · rw [h.rows row fun e he => hevent ⟨e, he⟩]
    · exact ⟨fun hrow => hrow.1, fun hold => ⟨hold, fun id hroom => absurd hroom hrow⟩⟩
    · rintro q rfl hq
      exact hrow (congrArg some hq)
    · rintro v rfl hv
      exact hrow (congrArg some hv)

/-- An event that is not removed is left. -/
theorem kept (he : e ∈ db.history roomId)
    (hfree : e.eventId ∉ db.oldestIds roomId k) :
    ∃ e' ∈ db'.history roomId, e'.eventId = e.eventId := by
  rw [← take_append_drop k (db.history roomId)] at he
  rcases mem_append.mp he with he | he
  · exact absurd (mem_map_of_mem he) hfree
  · refine ⟨_, ?_, forgetReply_eventId roomId (db.oldestIds roomId k) e⟩
    rw [h.survivors]
    exact mem_map_of_mem he

theorem integrity (hri : ReferentialIntegrity db) :
    ReferentialIntegrity db' := by
  intro row r id hold hroom hid
  by_cases hr : r = roomId
  · subst hr
    obtain ⟨hfree, row', hold', hroom', hid'⟩ := h.refers hold hroom hid
    obtain ⟨e, he, rfl⟩ := hri row' r id hold' hroom' hid'
    exact h.kept he hfree
  · have hother : row.roomId ≠ some roomId := by
      rw [hroom]
      exact fun hsame => hr (Option.some.inj hsame)
    rw [h.others r hr]
    exact hri row r id ((h.others_iff hother).mp hold) hroom hid

theorem framed (hri : ReferentialIntegrity db) :
    Framed db db' roomId (db.oldestIds roomId k) := by
  refine ⟨oldestIds_length db roomId k, ?_, ?_, fun row hrow => h.others_iff hrow, ?_,
    h.integrity hri⟩
  · rw [drop_oldestIds]
    exact h.survivors
  · intro row id hold hroom hid
    exact (h.refers hold hroom hid).1
  · intro row id hid hfree hevent
    rw [h.refersTo_iff hid hevent]
    exact ⟨fun hold => hold.1, fun hold => ⟨hold, fun _ => hfree⟩⟩

end Removes

end

/-- A compaction that ends well removes a front part of the room's events, at most as many as
asked for and none above the boundary, together with every reference to them and nothing else;
one that fails, wherever it does, leaves the database as it was. -/
theorem compaction_framed (db : Database) (hri : ReferentialIntegrity db) (roomId : RoomId)
    (through : EventId) (maxEvents : Nat) (now : Int) (hook : Hook) :
    (∀ result, (Txn.atomically (compactRoomHistoryThroughWithHook roomId through maxEvents now hook)
        db).1 = .ok result →
      ∃ removed : List Int, removed.length = result.removedEvents ∧ removed.length ≤ maxEvents ∧
        (∀ id ∈ removed, id ≤ (through : Int)) ∧
        Framed db (Txn.atomically (compactRoomHistoryThroughWithHook roomId through maxEvents now
          hook) db).2 roomId removed) ∧
    (∀ e, (Txn.atomically (compactRoomHistoryThroughWithHook roomId through maxEvents now hook)
        db).1 = .error e →
      (Txn.atomically (compactRoomHistoryThroughWithHook roomId through maxEvents now hook) db).2 =
        db) := by
  refine ⟨?_, fun e he => Txn.atomically_error he⟩
  intro result hresult
  obtain ⟨t, _, _, rfl, hcompact, _⟩ := compactThrough_cases (Txn.atomically_ok.mp hresult)
  obtain ⟨db₁, last, k, hseq, hk, hthrough, hremoved, hcase⟩ := compactInTransaction_ok hcompact
  obtain ⟨hset, _⟩ := ensureRoomEventSequence_ok hseq
  -- no event was found up to the boundary, or the oldest `k` were removed
  rcases hcase with ⟨rfl, hdb⟩ | ⟨u, hcompacts⟩
  · refine ⟨[], ?_, Nat.zero_le _, fun id hid => absurd hid not_mem_nil, ?_⟩
    · rw [hremoved]; rfl
    · rw [hdb]
      exact Framed.nothing hset hri
  · refine ⟨db.oldestIds roomId k, ?_, ?_, ?_, (hcompacts.removes hset).framed hri⟩
    · rw [hremoved, Database.oldestIds, length_map]
    · rw [Database.oldestIds, length_map, length_take]
      omega
    · intro id hid
      obtain ⟨e, he, rfl⟩ := mem_map.mp hid
      exact hthrough e he

/-- Two rooms with an event 1 each; in the first it has a reply, a reaction and a pin. -/
def threadDatabase : Database :=
  { Database.empty with
    roomEvents := ⟨[eventRow 1 1 none (.message "original") 1 none none,
      eventRow 1 2 none (.message "reply") 2 (some 1) none,
      eventRow 2 1 none (.message "elsewhere") 3 none none], by decide⟩
    roomHistoryUsage := ⟨[⟨1, 2, 149, 0, 0, true, none⟩], nodup_singleton _⟩
    roomReactions := ⟨[⟨1, 1, 7, "heart", 1⟩, ⟨2, 1, 7, "heart", 1⟩], by decide⟩
    roomPins := ⟨[⟨1, 1, 1, 7, 1, 32⟩], nodup_singleton _⟩ }

/-- The only events its rows refer to are the first ones of the two rooms. -/
theorem threadDatabase_integrity : ReferentialIntegrity threadDatabase := by
  have hstored : ∀ r : RoomId, r = 1 ∨ r = 2 →
      ∃ e ∈ threadDatabase.history r, e.eventId = 1 := by
    rintro r (rfl | rfl)
    · exact ⟨_, mem_history.mpr ⟨mem_cons_self, rfl⟩, rfl⟩
    · exact ⟨_, mem_history.mpr ⟨.tail _ (.tail _ mem_cons_self), rfl⟩, rfl⟩
  intro row r id hold hroom hid
  cases row with
  | event e =>
    simp only [Database.Holds, threadDatabase, mem_cons, not_mem_nil, or_false] at hold
    rcases hold with rfl | rfl | rfl
    · cases hid
    · cases hid; cases hroom
      exact hstored 1 (.inl rfl)
    · cases hid
  | reaction q =>
    simp only [Database.Holds, threadDatabase, mem_cons, not_mem_nil, or_false] at hold
    rcases hold with rfl | rfl
    · cases hid; cases hroom
      exact hstored 1 (.inl rfl)
    · cases hid; cases hroom
      exact hstored 2 (.inr rfl)
  | pin p =>
    simp only [Database.Holds, threadDatabase, mem_singleton] at hold
    cases hold; cases hid; cases hroom
    exact hstored 1 (.inl rfl)
  | reactionEvent q | revisionState q | revisionEvent q | pinEvent q =>
    exact absurd hold not_mem_nil
  | user q | room q | member q | sequence q | usage q => cases hid

/-- Compacting the first event takes its reaction and its pin with it; the reply stays. -/
theorem compaction_framed_thread :
    ReferentialIntegrity threadDatabase ∧
    ∃ removed : List Int, removed.length = 1 ∧ removed.length ≤ 64 ∧
      (∀ id ∈ removed, id ≤ ((1 : EventId) : Int)) ∧
      Framed threadDatabase (Txn.atomically (compactRoomHistoryThroughWithHook 1 1 64 9 noHook)
        threadDatabase).2 1 removed :=
  ⟨threadDatabase_integrity,
   (compaction_framed threadDatabase threadDatabase_integrity 1 1 64 9 noHook).1
     { removedEvents := 1, removedEventBytes := 72, clearedReplyReferences := 1,
       removedReactionState := 1, removedPinState := 1 } (by rfl)⟩

end Omen.Server
