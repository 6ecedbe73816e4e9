import OmenBrowser.Server.CompactionFrame
import OmenBrowser.Server.EventIds

/- How the events of a room move on.

   Every step of the store appends events behind those of a room, removes a front part of them, and
   clears the replies of those that are left to those that are removed. The rest of the server writes
   other tables. So an event that is stored is the one that was appended under its id, and one that
   was removed stays away. -/
namespace Omen.Server
open Wire Sql Ints Omen.Protocol List RoomEventRow

variable {db db' : Database} {roomId : RoomId}
  {db₁ : Database} {r : RoomId} {actorUserId : Option UserId} {kind : ServerRoomEventKind}
  {metadata : Option RichMessageEventMetadata} {retention : RoomHistoryRetentionPolicy}
  {event : ServerRoomEvent}

/-- The row is one that an append writes. -/
def RoomEventRow.Written (a : RoomEventRow) : Prop :=
  ∃ (eventId : EventId) (actorUserId : Option UserId) (kind : ServerRoomEventKind) (atUnix : Int)
    (metadata : Option RichMessageEventMetadata) (reply : Option Int) (mentions : Option Bytes),
    encodeStoredEventMetadata metadata = .ok (reply, mentions) ∧
      ¬(metadata.isSome = true ∧ isMessage kind = false) ∧ (eventId : Int) ≤ i64Max ∧
      a = eventRow a.roomId eventId actorUserId kind atUnix reply mentions

/-- `added` is appended, with ids above every spent one, and the first `k` events are removed. -/
structure Moves (db db' : Database) (roomId : RoomId) (added : List RoomEventRow) (k : Nat) : Prop where
  written : ∀ a ∈ added, a.Written
  fresh : ∀ a ∈ added, ∀ id, Spent db roomId id → id < a.eventId
  ascending : Ascending eventId (db.history roomId ++ added)
  history : db'.history roomId = ((db.history roomId ++ added).drop k).map
    (forgetReply roomId (((db.history roomId ++ added).take k).map eventId))

/-- The events of the room move on. -/
def MovesOn (db db' : Database) (roomId : RoomId) : Prop := ∃ added k, Moves db db' roomId added k

/-- Nothing is removed. -/
theorem Moves.of_append {added : List RoomEventRow} (hwritten : ∀ a ∈ added, a.Written)
    (hadded : ∀ a ∈ added, ∀ id, Spent db roomId id → id < a.eventId)
    (h : db'.history roomId = db.history roomId ++ added) : Moves db db' roomId added 0 := by
  refine ⟨hwritten, hadded, h ▸ ascending_history db' roomId, ?_⟩
  rw [h, drop_zero, take_zero, map_nil]
  conv_lhs => rw [← map_id (db.history roomId ++ added)]
  exact map_congr_left fun e _ => (forgetReply_nil roomId e).symm

theorem MovesOn.of_same (h : db'.history roomId = db.history roomId) : MovesOn db db' roomId := by
  refine ⟨[], 0, Moves.of_append (forall_mem_nil _) (forall_mem_nil _) ?_⟩
  rw [h, append_nil]

variable {id now : Int} {clock : Clock} {row : RoomEventRow}

/-- Behind what was appended, a compaction removes a front part. -/
theorem movesOn_of_compact (added : List RoomEventRow) {through : Int} {limit : Nat} {hook : Hook}
    {result : RoomHistoryCompaction} (hwritten : ∀ a ∈ added, a.Written)
    (hadded : ∀ a ∈ added, ∀ id, Spent db roomId id → id < a.eventId)
    (hsame : db₁.history roomId = db.history roomId ++ added)
    (h : compactRoomHistoryThroughInTransaction r through limit now hook db₁ = .ok (result, db')) :
    MovesOn db db' roomId := by
  obtain ⟨db₂, last, k, hseq, _, _, _, hcase⟩ := compactInTransaction_ok h
  obtain ⟨hset, _⟩ := ensureRoomEventSequence_ok hseq
  rcases hcase with ⟨_, rfl⟩ | ⟨u, hcompacts⟩
  · exact ⟨added, 0, Moves.of_append hwritten hadded ((hset.history roomId).trans hsame)⟩
  · have hremoves := hcompacts.removes hset
    by_cases hr : roomId = r
    · subst hr
      refine ⟨added, k, hwritten, hadded, hsame ▸ ascending_history db₁ roomId, ?_⟩
      rw [hremoves.survivors, Database.oldestIds, hsame, map_take]
    · exact ⟨added, 0, Moves.of_append hwritten hadded ((hremoves.others roomId hr).trans hsame)⟩

theorem movesOn_of_enforce (added : List RoomEventRow) {newest : EventId}
    {policy : RoomHistoryRetentionPolicy} {compactedAt : Int} {c : RoomHistoryCompaction}
    (hwritten : ∀ a ∈ added, a.Written)
    (hadded : ∀ a ∈ added, ∀ id, Spent db roomId id → id < a.eventId)
    (hsame : db₁.history roomId = db.history roomId ++ added)
    (h : enforceRoomHistoryPolicyInTransaction r newest policy now compactedAt db₁ = .ok (c, db')) :
    MovesOn db db' roomId := by
  rcases enforcePolicy_compacts h with rfl | ⟨_, _, hcompact⟩
  · exact ⟨added, 0, Moves.of_append hwritten hadded hsame⟩
  · exact movesOn_of_compact added hwritten hadded hsame hcompact

theorem advanceBackfill_history (hinv : HistoryInv db) {n : Nat}
    (h : advanceRoomHistoryUsageBackfill r historyUsageBackfillBatch db = .ok (n, db')) :
    db'.history roomId = db.history roomId := by
  rcases advanceBackfill_sets hinv h with rfl | ⟨_, hset⟩
  · rfl
  · exact hset.history roomId

theorem written_of_append {reply : Option Int} {mentions : Option Bytes}
    (h : appendEventWithMetadataInTransaction roomId actorUserId kind metadata retention clock db =
      .ok (event, db'))
    (hencode : encodeStoredEventMetadata metadata = .ok (reply, mentions))
    (hrecorded : Recorded db db₁
      (eventRow roomId event.eventId actorUserId kind clock.appended reply mentions) event.eventId) :
    (eventRow roomId event.eventId actorUserId kind clock.appended reply mentions).Written := by
  obtain ⟨hmessage, _⟩ := require_bind_ok.mp h
  obtain ⟨_, hnext⟩ := hrecorded.next
  exact ⟨event.eventId, actorUserId, kind, clock.appended, metadata, reply, mentions, hencode, hmessage,
    (nextEventId_ok hnext).2.1, rfl⟩

theorem movesOn_of_append (hinv : HistoryInv db)
    (h : appendEventWithMetadataInTransaction r actorUserId kind metadata retention clock db =
      .ok (event, db'))
    : MovesOn db db' roomId := by
  obtain ⟨reply, mentions, db₁, db₂, _, _, hencode, hrecorded, hadvance, henforce⟩ := append_cases h
  have hback : db₂.history roomId = db₁.history roomId :=
    advanceBackfill_history (hinv.recorded hrecorded) hadvance
  by_cases hr : roomId = r
  · subst hr
    refine movesOn_of_enforce _ ?_ ?_ (hback.trans (hrecorded.history hinv)) henforce
    · intro a ha
      obtain rfl := mem_singleton.mp ha
      exact written_of_append h hencode hrecorded
    · intro a ha
      obtain rfl := mem_singleton.mp ha
      exact fun id hspent => hspent.lt_appended h
  · refine movesOn_of_enforce [] (forall_mem_nil _) (forall_mem_nil _) ?_ henforce
    rw [hback, hrecorded.history_of_ne hr, append_nil]

variable (s : OmenchatStore)

theorem historyStep_movesOn (i : HistoryInput) (hinv : HistoryInv s.database) (roomId : RoomId) :
    MovesOn s.database (historyStep s i).2.database roomId := by
  have hsame : MovesOn s.database s.database roomId := MovesOn.of_same rfl
  cases i with
  | append r actorUserId kind metadata clock =>
    exact Txn.atomically_preserves (I := fun db => MovesOn s.database db roomId)
      (fun _ _ h => movesOn_of_append hinv h) hsame
  | advance r =>
    refine Txn.atomically_preserves (I := fun db => MovesOn s.database db roomId) (fun _ _ h => ?_) hsame
    obtain ⟨n, db₁, db₂, m, hseq, hseed, hadvance⟩ := advance_cases h
    have hinv₂ := hinv.seeded hseq hseed
    refine MovesOn.of_same ?_
    rw [advanceBackfill_history hinv₂ hadvance, (ensureRoomHistoryUsage_ok hseed).history,
      (ensureRoomEventSequence_ok hseq).1.history]
  | compact r through maxEvents now =>
    refine Txn.atomically_preserves (I := fun db => MovesOn s.database db roomId) (fun _ _ h => ?_) hsame
    obtain ⟨t, _, _, _, hcompact, _⟩ := compactThrough_cases h
    exact movesOn_of_compact [] (forall_mem_nil _) (forall_mem_nil _)
      (append_nil _).symm hcompact
  | fault | restart => exact hsame

/-! The store in the server. -/

/-- A step of the history, or of the rest of the server, which writes other tables. -/
inductive StoreInput where
  | history (input : HistoryInput)
  | elsewhere (others : Database)

/-- The other tables are those of `others`. -/
def Database.besides (db others : Database) : Database :=
  { others with
    roomEvents := db.roomEvents
    roomEventSequences := db.roomEventSequences
    roomHistoryUsage := db.roomHistoryUsage }

def storeStep : StoreInput → HistoryOutput × OmenchatStore
  | .history input => historyStep s input
  | .elsewhere others => (.idle, { s with database := s.database.besides others })

variable (i : StoreInput)

theorem storeStep_inv (h : HistoryInv s.database) : HistoryInv (storeStep s i).2.database := by
  cases i with
  | history input => exact historyStep_inv s input h
  | elsewhere others => exact h

theorem storeStep_spent (hinv : HistoryInv s.database) (h : Spent s.database roomId id) :
    Spent (storeStep s i).2.database roomId id := by
  cases i with
  | history input => exact historyStep_spent s input hinv h
  | elsewhere others => exact h

theorem storeStep_movesOn (hinv : HistoryInv s.database) (roomId : RoomId) :
    MovesOn s.database (storeStep s i).2.database roomId := by
  cases i with
  | history input => exact historyStep_movesOn s input hinv roomId
  | elsewhere others => exact MovesOn.of_same rfl

/-! One event over a run. -/

/-- An event with this id was there, and is not there any more. -/
def Forgotten (db : Database) (roomId : RoomId) (id : Int) : Prop :=
  Spent db roomId id ∧ ∀ e ∈ db.history roomId, e.eventId ≠ id

/-- What is stored under the id of the row is the row, or the row without its reply to an event that
is not there any more. -/
def Stands (db : Database) (roomId : RoomId) (row : RoomEventRow) : Prop :=
  Spent db roomId row.eventId ∧ ∀ e ∈ db.history roomId, e.eventId = row.eventId →
    e = row ∨ (e = row.clearReply ∧ ∃ target, row.replyToEventId = some target ∧
      Forgotten db roomId target)

variable {added : List RoomEventRow} {k : Nat}

/-- Under a spent id the room has what it had. -/
theorem Moves.of_spent (h : Moves db db' roomId added k) {e' : RoomEventRow}
    (he' : e' ∈ db'.history roomId) (hspent : Spent db roomId e'.eventId) :
    ∃ e ∈ db.history roomId, e' = e.forgetReply roomId
      (((db.history roomId ++ added).take k).map eventId) := by
  rw [h.history] at he'
  obtain ⟨e, he, rfl⟩ := mem_map.mp he'
  rw [forgetReply_eventId] at hspent
  rcases mem_append.mp (mem_of_mem_drop he) with he | he
  · exact ⟨e, he, rfl⟩
  · exact absurd (h.fresh e he _ hspent) (Int.lt_irrefl _)

theorem Forgotten.moves (h : Forgotten db roomId id) (hmoves : Moves db db' roomId added k)
    (hspent : Spent db' roomId id) : Forgotten db' roomId id := by
  refine ⟨hspent, fun e' he' hid => ?_⟩
  obtain ⟨e, he, rfl⟩ := hmoves.of_spent he' (hid ▸ h.1)
  exact h.2 e he ((forgetReply_eventId _ _ _).symm.trans hid)

theorem Stands.moves (h : Stands db roomId row) (hinv : HistoryInv db)
    (hmoves : Moves db db' roomId added k)
    (hspent : ∀ id, Spent db roomId id → Spent db' roomId id) : Stands db' roomId row := by
  refine ⟨hspent _ h.1, fun e' he' hid => ?_⟩
  have hdropped := he'
  rw [hmoves.history] at hdropped
  obtain ⟨e, he, rfl⟩ := mem_map.mp hdropped
  rw [forgetReply_eventId] at hid
  have hold : e ∈ db.history roomId := by
    rcases mem_append.mp (mem_of_mem_drop he) with he | he
    · exact he
    · exact absurd (hmoves.fresh e he _ (hid ▸ h.1)) (Int.lt_irrefl _)
  rcases h.2 e hold hid with rfl | ⟨rfl, target, htarget, hforgotten⟩
  · unfold forgetReply
    split
    · next horphan =>
      -- the target is one of those that are removed
      obtain ⟨⟨_, hreply⟩, _⟩ : (e.roomId = roomId ∧ ∃ target, e.replyToEventId = some target ∧
          target ∈ ((db.history roomId ++ added).take k).map eventId) ∧
          e.eventId ∉ ((db.history roomId ++ added).take k).map eventId := by
        simpa [isOrphanedReply, Option.any_eq_true] using horphan
      obtain ⟨target, htarget, hremoved⟩ := hreply
      obtain ⟨q, hq, rfl⟩ := mem_map.mp hremoved
      have hlt : q.eventId < e.eventId := hmoves.ascending.take_lt_drop hq he
      have hqold : q ∈ db.history roomId := by
        rcases mem_append.mp (mem_of_mem_take hq) with hq | hq
        · exact hq
        · exact absurd (hmoves.fresh q hq _ h.1) (Int.not_lt.mpr (Int.le_of_lt hlt))
      refine .inr ⟨rfl, q.eventId, htarget, hspent _ (spent_of_stored hinv hqold), fun p hp hpid => ?_⟩
      rw [hmoves.history] at hp
      obtain ⟨left, hleft, rfl⟩ := mem_map.mp hp
      rw [forgetReply_eventId] at hpid
      exact absurd hpid (Int.ne_of_gt (hmoves.ascending.take_lt_drop hq hleft))
    · exact .inl rfl
  · have hcleared : row.clearReply.forgetReply roomId
        (((db.history roomId ++ added).take k).map eventId) = row.clearReply := by
      simp [forgetReply, isOrphanedReply, clearReply]
    exact .inr ⟨hcleared, target, htarget, hforgotten.moves hmoves (hspent _ hforgotten.1)⟩

/-- An event stands through every run. -/
theorem storeRun_stands {s : OmenchatStore} (inputs : List StoreInput)
    (hinv : HistoryInv s.database) (h : Stands s.database roomId row) :
    Stands (Machine.run storeStep s inputs).2.database roomId row := by
  refine (Machine.run_invariant
    (I := fun s => HistoryInv s.database ∧ Stands s.database roomId row) (fun s i hs _ => ?_) s inputs
    (Machine.meets_true s inputs) ⟨hinv, h⟩).2
  obtain ⟨added, k, hmoves⟩ := storeStep_movesOn s i hs.1 roomId
  exact ⟨storeStep_inv s i hs.1, hs.2.moves hs.1 hmoves fun _ hspent => storeStep_spent s i hs.1 hspent⟩

theorem storeRun_inv {s : OmenchatStore} (h : HistoryInv s.database) (inputs : List StoreInput) :
    HistoryInv (Machine.run storeStep s inputs).2.database :=
  Machine.run_invariant (I := fun s => HistoryInv s.database) (fun s i hs _ => storeStep_inv s i hs)
    s inputs (Machine.meets_true s inputs) h

end Omen.Server
