import OmenBrowser.Server.LedgerExact

/- Event ids are never given out twice.

   Once a room's sequence is seeded it only grows, and it is seeded before anything of the
   room is written or removed; until then every id the room ever stored is still stored, and
   the seed is not below it. `Spent` is this of one id: it is kept by every step, and an
   append gives out an id above every spent one. -/
namespace Omen.Server
open Wire Sql Ints Omen.Protocol

variable {r : RoomId} {actorUserId : Option UserId} {kind : ServerRoomEventKind}
  {metadata : Option RichMessageEventMetadata} {retention : RoomHistoryRetentionPolicy}
  {event : ServerRoomEvent}

variable (s : OmenchatStore)

/-- An event with this id was stored in the room at some point of the run. -/
def EverStored (inputs : List HistoryInput) (roomId : RoomId) (id : Int) : Prop :=
  ∃ before after, inputs = before ++ after ∧
    ∃ e ∈ (Machine.run historyStep s before).2.database.history roomId, e.eventId = id

/-- The sequence has passed the id, or it is not seeded yet and the id is still stored. -/
def Spent (db : Database) (roomId : RoomId) (id : Int) : Prop :=
  (∃ n, db.sequence? roomId = some n ∧ id ≤ n) ∨
    (db.sequence? roomId = none ∧ ∃ e ∈ db.history roomId, e.eventId = id)

section
variable {db db' : Database} {roomId : RoomId} {id : Int}

theorem spent_of_stored (h : HistoryInv db) {e : RoomEventRow} (he : e ∈ db.history roomId) :
    Spent db roomId e.eventId := by
  cases hs : db.sequence? roomId with
  | some n => exact .inl ⟨n, hs, (h roomId).bounded n hs e he⟩
  | none => exact .inr ⟨hs, e, he, rfl⟩

variable (h : Spent db roomId id)
include h

/-- A spent id is not above what the sequence continues from. -/
theorem Spent.le_last {last : Nat}
    (hlast : db.sequence? roomId = some last ∨
      db.sequence? roomId = none ∧ (last : Int) = db.maxEventId roomId) : id ≤ last := by
  rcases h with ⟨n, hn, hle⟩ | ⟨hnone, e, he, rfl⟩
  · rcases hlast with hs | ⟨hs, _⟩
    · obtain rfl : n = last := Option.some.inj (hn.symm.trans hs)
      exact hle
    · rw [hs] at hn; cases hn
  · rcases hlast with hs | ⟨_, hmax⟩
    · rw [hs] at hnone; cases hnone
    · rw [hmax]
      exact le_maxEventId he

theorem Spent.of_same (hs : db'.sequence? roomId = db.sequence? roomId)
    (hh : db'.history roomId = db.history roomId) : Spent db' roomId id := by
  unfold Spent
  rw [hs, hh]
  exact h

theorem Spent.ensureSequence {n : EventId}
    (hs : ensureRoomEventSequence r db = .ok (n, db')) : Spent db' roomId id := by
  obtain ⟨hset, hlast⟩ := ensureRoomEventSequence_ok hs
  by_cases hr : roomId = r
  · subst hr
    exact .inl ⟨n, hset.room, h.le_last hlast⟩
  · exact h.of_same (hset.others roomId hr) (hset.history roomId)

theorem Spent.recorded {row : RoomEventRow} {eventId : EventId}
    (hs : Recorded db db' row eventId) : Spent db' roomId id := by
  by_cases hr : roomId = row.roomId
  · subst hr
    obtain ⟨_, hnext⟩ := hs.next
    obtain ⟨_, _, last, hlast, hseq⟩ := nextEventId_ok hnext
    have hle := h.le_last hseq
    have hid : (eventId : Int) = last + 1 := by rw [hlast]; rfl
    exact .inl ⟨eventId, hs.sequence, by omega⟩
  · exact h.of_same (hs.sequences roomId hr) (hs.history_of_ne hr)

theorem Spent.setUsage {u : UsageRow} (hs : UsageSet db db' r u) :
    Spent db' roomId id :=
  h.of_same (hs.sequence roomId) (hs.history roomId)

theorem Spent.advanceBackfill (hinv : HistoryInv db) {n : Nat}
    (hs : advanceRoomHistoryUsageBackfill r historyUsageBackfillBatch db = .ok (n, db')) :
    Spent db' roomId id := by
  rcases advanceBackfill_sets hinv hs with rfl | ⟨_, hset⟩
  · exact h
  · exact h.setUsage hset

/-- A compaction seeds the sequence before it removes events. -/
theorem Spent.compact {through : Int} {limit : Nat} {now : Int}
    {hook : Hook} {result : RoomHistoryCompaction}
    (hs : compactRoomHistoryThroughInTransaction r through limit now hook db = .ok (result, db')) :
    Spent db' roomId id := by
  obtain ⟨db₁, last, k, hseq, _, _, _, hcase⟩ := compactInTransaction_ok hs
  have h₁ := h.ensureSequence hseq
  rcases hcase with ⟨_, rfl⟩ | ⟨u, hcompacts⟩
  · exact h₁
  · have hset := hcompacts.after
    have hsequence : db'.sequence? roomId = db₁.sequence? roomId := by
      rw [hset.sequence, sequence?_forget]
    by_cases hr : roomId = r
    · subst hr
      obtain ⟨hseqset, _⟩ := ensureRoomEventSequence_ok hseq
      exact .inl ⟨last, hsequence.trans hseqset.room, h₁.le_last (.inl hseqset.room)⟩
    · exact h₁.of_same hsequence (by rw [hset.history, history_forget_of_ne hr])

theorem Spent.enforce {newest : EventId}
    {policy : RoomHistoryRetentionPolicy} {now compactedAt : Int} {c : RoomHistoryCompaction}
    (hs : enforceRoomHistoryPolicyInTransaction r newest policy now compactedAt db = .ok (c, db')) :
    Spent db' roomId id := by
  rcases enforcePolicy_compacts hs with rfl | ⟨_, _, hcompact⟩
  · exact h
  · exact h.compact hcompact

theorem Spent.append (hinv : HistoryInv db) {clock : Clock}
    (hs : appendEventWithMetadataInTransaction r actorUserId kind metadata retention clock db =
      .ok (event, db'))
    : Spent db' roomId id := by
  obtain ⟨_, _, _, _, _, _, _, hrecorded, hadvance, henforce⟩ := append_cases hs
  exact ((h.recorded hrecorded).advanceBackfill (hinv.recorded hrecorded) hadvance).enforce henforce

theorem Spent.advance (hinv : HistoryInv db) {usage : RoomHistoryUsage}
    (hs : advanceRoomHistoryUsage r db = .ok (usage, db')) : Spent db' roomId id := by
  obtain ⟨n, db₁, db₂, m, hseq, hseed, hadvance⟩ := advance_cases hs
  have h₁ := h.ensureSequence hseq
  have h₂ := h₁.setUsage (ensureRoomHistoryUsage_ok hseed)
  exact h₂.advanceBackfill (hinv.seeded hseq hseed) hadvance

/-- An append gives out an id above every spent one. -/
theorem Spent.lt_appended {clock : Clock}
    (hs : appendEventWithMetadataInTransaction roomId actorUserId kind metadata retention clock db =
      .ok (event, db'))
    : id < event.eventId := by
  obtain ⟨_, _, _, _, _, _, _, hrecorded, _, _⟩ := append_cases hs
  obtain ⟨_, hnext⟩ := hrecorded.next
  obtain ⟨_, _, last, hlast, hseq⟩ := nextEventId_ok hnext
  have hle := h.le_last hseq
  have hid : (event.eventId : Int) = last + 1 := by rw [hlast]; rfl
  omega

end

theorem historyStep_spent (i : HistoryInput) (hinv : HistoryInv s.database) {roomId : RoomId}
    {id : Int} (h : Spent s.database roomId id) : Spent (historyStep s i).2.database roomId id := by
  cases i with
  | append r actorUserId kind metadata clock =>
    exact Txn.atomically_preserves (I := fun db => Spent db roomId id)
      (fun _ _ hs => h.append hinv hs) h
  | advance r =>
    exact Txn.atomically_preserves (I := fun db => Spent db roomId id)
      (fun _ _ hs => h.advance hinv hs) h
  | compact r through maxEvents now =>
    refine Txn.atomically_preserves (I := fun db => Spent db roomId id) ?_ h
    intro result db' hs
    obtain ⟨t, _, _, _, hcompact, _⟩ := compactThrough_cases hs
    exact h.compact hcompact
  | fault | restart => exact h

/-- The id of an appended event is above every id the room ever stored, whatever has been
compacted since. -/
theorem appended_eventId_fresh (s : OmenchatStore) (h : Migrated s.database)
    (inputs : List HistoryInput) (roomId : RoomId) (actorUserId : Option UserId)
    (kind : ServerRoomEventKind) (metadata : Option RichMessageEventMetadata) (clock : Clock)
    (event : ServerRoomEvent)
    (happend : (historyStep (Machine.run historyStep s inputs).2
      (.append roomId actorUserId kind metadata clock)).1 = .appended event) :
    ∀ id, EverStored s inputs roomId id → id < event.eventId := by
  intro id ⟨before, after, hinputs, e, he, hid⟩
  have hbefore := historyRun_inv h before
  have hspent : Spent (Machine.run historyStep s before).2.database roomId id :=
    hid ▸ spent_of_stored hbefore he
  -- what was spent then is spent now
  have hafter : HistoryInv (Machine.run historyStep s inputs).2.database ∧
      Spent (Machine.run historyStep s inputs).2.database roomId id := by
    rw [hinputs, Machine.run_append]
    exact Machine.run_invariant
      (I := fun s => HistoryInv s.database ∧ Spent s.database roomId id)
      (fun s i hs _ => ⟨historyStep_inv s i hs.1, historyStep_spent s i hs.1 hs.2⟩) _ after
      (Machine.meets_true _ _) ⟨hbefore, hspent⟩
  exact hafter.2.lt_appended (historyStep_appended happend)

/-- Both events are compacted away; the next one still gets a new id. -/
def emptiedRoom : List HistoryInput :=
  [.advance 1, .append 1 none (.message "b") none ⟨20, 20, 20⟩, .compact 1 6 64 30]

theorem appended_eventId_fresh_emptied :
    EverStored ⟨legacyDatabase, .disabled⟩ emptiedRoom 1 6 ∧ (6 : Int) < (7 : EventId) := by
  have hstored : EverStored ⟨legacyDatabase, .disabled⟩ emptiedRoom 1 6 :=
    ⟨[.advance 1, .append 1 none (.message "b") none ⟨20, 20, 20⟩], [.compact 1 6 64 30], rfl,
      eventRow 1 6 none (.message "b") 20 none none, mem_history.mpr ⟨List.mem_cons_self, rfl⟩, rfl⟩
  exact ⟨hstored, appended_eventId_fresh ⟨legacyDatabase, .disabled⟩ legacyDatabase_migrated
    emptiedRoom 1 none (.message "c") none ⟨40, 40, 40⟩
    ⟨1, 7, .message "c", none, none, 40, none⟩ rfl 6 hstored⟩

end Omen.Server
