import OmenBrowser.Server.HistoryReading

/- Paging through the history of a room (`server/src/session.rs`, `handle_history_before`).

   A client asks for the events before an id and goes on from the oldest one it got, while the store
   takes any other steps in between. What was stored below the first cursor is returned in pages that
   leave nothing out: a page is the last events below its cursor, and what is appended later is above
   every cursor that follows. A request without a cursor is answered with the events below the
   greatest id that can be given out, and so without that one.

   Correspondence (Rust ↔ Lean):
     `load_live_history_before`, its request      ↔ `pagingBody` -/
namespace Omen.Server
open Wire Sql Ints Outcome Omen.Protocol List RoomEventRow

variable {id bound : Int} {start : Database} {ids : List Int} {s : OmenchatStore}
  {values : List FrameValue} {first : FrameBody}

section Handler
variable (humanBytes : HumanBytes) (historyBatchSize : Nat)

/-! A client that pages. -/

/-- The store, the values that were received, the oldest first, the pages that were answered, and
whether the last one was empty. -/
structure Paging where
  store : OmenchatStore
  received : List FrameValue
  pages : Nat
  ended : Bool

inductive PagingInput where
  | store (input : StoreInput)
  | request (user : ServerUser) (seq : UInt32)

/-- Before the oldest event that was received. -/
def pagingBody (first : FrameBody) (received : List FrameValue) : FrameBody :=
  match (received.filterMap valueEventId).min? with
  | none => first
  | some eventId => .fields [.u64 eventId]

def pagingStep (roomId : UInt32) (first : FrameBody) (p : Paging) : PagingInput → Paging
  | .store input => { p with store := (storeStep p.store input).2 }
  | .request user seq =>
    if p.ended then p
    else
      match historyBefore humanBytes historyBatchSize p.store.database user seq roomId
          (pagingBody first p.received) with
      | .ok (.found []) => { p with pages := p.pages + 1, ended := true }
      | .ok (.found values) => { p with received := values ++ p.received, pages := p.pages + 1 }
      -- not a member, or the store failed
      | _ => p

def pagingRun (roomId : UInt32) (first : FrameBody) (p : Paging) (inputs : List PagingInput) : Paging :=
  inputs.foldl (pagingStep humanBytes historyBatchSize roomId first) p

/-- The client has nothing yet. -/
def Paging.begin (s : OmenchatStore) : Paging := ⟨s, [], 0, false⟩

end Handler

/-! Pages. -/

/-- The events that are returned, in their order. -/
def Database.undeleted (db : Database) (roomId : RoomId) : List RoomEventRow :=
  (db.history roomId).filter (fun e => !e.deleted)

variable {db db' : Database} {roomId : RoomId} {humanBytes : HumanBytes}

variable {e row : RoomEventRow} {ended : Bool}

theorem mem_undeleted : e ∈ db.undeleted roomId ↔ e ∈ db.history roomId ∧ e.deleted = false := by
  rw [Database.undeleted, mem_filter, Bool.not_eq_true']

theorem ascending_undeleted (db : Database) (roomId : RoomId) :
    Ascending eventId (db.undeleted roomId) :=
  (ascending_history db roomId).filter _

/-- The rows of a condition, the last first. -/
theorem batch_reverse (db : Database) (roomId : RoomId) (q : RoomEventRow → Bool) (n : Nat) :
    (db.roomEvents.batch (fun a b => compare b.eventId a.eventId)
      (fun e => e.roomId == roomId && q e) n).reverse =
      ((db.history roomId).filter q).drop (((db.history roomId).filter q).length - n) := by
  have hsplit : db.roomEvents.rows.filter (fun e => e.roomId == roomId && q e) =
      (db.roomEvents.rows.filter (fun e => e.roomId == roomId)).filter q := by
    rw [filter_filter]
    refine filter_congr fun e _ => ?_
    rw [Bool.and_comm]
  have hnodup := nodup_eventIds db.roomEvents roomId
  have hkept : ((db.roomEvents.rows.filter (fun e => e.roomId == roomId && q e)).map
      eventId).Nodup := by
    rw [hsplit]
    exact hnodup.sublist (filter_sublist.map _)
  have hhistory : orderBy (byKey eventId)
      (db.roomEvents.rows.filter (fun e => e.roomId == roomId && q e)) =
      (db.history roomId).filter q := by
    rw [hsplit, orderBy_filter hnodup]
    rfl
  rw [Table.batch, orderBy_descending hkept, hhistory, take_reverse, reverse_reverse]

variable (hread : ∀ e ∈ db.history roomId, e.Readable)
include hread

/-- The events that are read, where all can be. -/
theorem queryEvents_eq {q : RoomEventRow → Bool} {n : Nat} :
    queryEvents db (fun e => e.roomId == roomId && q e) n =
      .ok ((((db.history roomId).filter q).drop (((db.history roomId).filter q).length - n)).map
        (asRead db)) := by
  have hrows : ∀ e ∈ db.roomEvents.batch (fun a b => compare b.eventId a.eventId)
      (fun e => e.roomId == roomId && q e) n, e.read db = .ok (e.asRead db) := by
    intro e he
    rw [← mem_reverse, batch_reverse] at he
    have hmem := mem_of_mem_filter (mem_of_mem_drop he)
    exact ((hread e hmem).eventToValue (fun _ => "") db).1
  unfold queryEvents
  rw [mapM_of_ok hrows, ← batch_reverse, map_reverse]
  rfl

/-- Events that can be read are read and sent. -/
theorem eventsBefore_eq (before n : Nat) :
    db.eventsBefore roomId before n =
      .ok ((page eventId before n (db.undeleted roomId)).map (asRead db)) := by
  have hassoc : (fun e : RoomEventRow =>
      e.roomId == roomId && decide (e.eventId < (before : Int)) && !e.deleted) =
      fun e => e.roomId == roomId && (decide (e.eventId < (before : Int)) && !e.deleted) := by
    funext e
    exact Bool.and_assoc _ _ _
  unfold Database.eventsBefore
  rw [hassoc, queryEvents_eq hread, page, Database.undeleted, filter_filter]

theorem latestEvents_eq (n : Nat) :
    db.latestEvents roomId n =
      .ok (((db.undeleted roomId).drop ((db.undeleted roomId).length - n)).map
        (asRead db)) :=
  queryEvents_eq hread

omit hread

/-- The ids of the values of a page are those of its rows. -/
theorem values_of_rows (humanBytes : HumanBytes) (db : Database) {rows : List RoomEventRow}
    (h : ∀ e ∈ rows, e.Readable) :
    ∃ values, (rows.map (asRead db)).mapM (eventToValue humanBytes) = .ok values ∧
      values.map valueEventId = rows.map (fun e => some (UInt64.ofNat e.eventId.toNat)) := by
  induction rows with
  | nil => exact ⟨[], rfl, rfl⟩
  | cons e rows ih =>
    obtain ⟨values, hvalues, hids⟩ := ih fun r hr => h r (mem_cons_of_mem e hr)
    obtain ⟨value, hvalue⟩ := ((h e mem_cons_self).eventToValue humanBytes db).2
    refine ⟨value :: values, ?_, ?_⟩
    · rw [map_cons, mapM_cons, hvalue, hvalues]
      rfl
    · rw [map_cons, map_cons, hids, eventToValue_id hvalue]
      rfl

/-! What a client collects. -/

/-- The id as a frame has it. -/
def frameId (id : Int) : UInt64 := UInt64.ofNat id.toNat

theorem frameId_toNat (hpos : 0 < id) (hfits : id ≤ i64Max) : ((frameId id).toNat : Int) = id := by
  have hlt : id.toNat < 2 ^ 64 := by
    simp only [i64Max] at hfits
    omega
  rw [frameId, UInt64.toNat_ofNat_of_lt' hlt]
  omega

/-- The ids are those of events of the room, and none of the events that were stored at the start is
left out between the first of them and the bound, or below the bound if this is the end. -/
structure Collects (start : Database) (roomId : RoomId) (bound : Int) (db : Database)
    (ids : List Int) (ended : Bool) : Prop where
  inv : HistoryInv db
  readable : ∀ e ∈ db.history roomId, e.Readable
  old : ∀ id, Spent start roomId id → Spent db roomId id
  stands : ∀ row ∈ start.history roomId, Stands db roomId row
  ascending : Ascending (fun id => id) ids
  spent : ∀ id ∈ ids, Spent db roomId id ∧ 0 < id ∧ id ≤ i64Max
  covers : ∀ e ∈ db.undeleted roomId, Spent start roomId e.eventId → e.eventId < bound →
    ended = true ∨ ids.head?.getD bound ≤ e.eventId → e.eventId ∈ ids

theorem forgetReply_deleted (roomId : RoomId) (removed : List Int) (e : RoomEventRow) :
    (e.forgetReply roomId removed).deleted = e.deleted := by
  unfold forgetReply
  split
  · rfl
  · rfl

/-- Every id that was collected is below what comes behind it. -/
theorem Collects.head_le (h : Collects start roomId bound db ids ended) (hid : id ∈ ids) :
    ids.head?.getD bound ≤ id := by
  cases ids with
  | nil => cases hid
  | cons first rest =>
    rcases mem_cons.mp hid with rfl | hrest
    · exact Int.le_refl _
    · exact Int.le_of_lt ((pairwise_cons.mp h.ascending).1 id hrest)

section
variable (hinv : HistoryInv s.database) (h : ∀ e ∈ s.database.history roomId, e.Readable)
include hinv h

/-- A step of the store leaves every event readable. -/
theorem storeStep_readable (input : StoreInput) :
    ∀ e ∈ (Server.storeStep s input).2.database.history roomId, e.Readable := by
  obtain ⟨added, k, hmoves⟩ := storeStep_movesOn s input hinv roomId
  intro e' he'
  rw [hmoves.history] at he'
  obtain ⟨e, he, rfl⟩ := mem_map.mp he'
  rcases mem_append.mp (mem_of_mem_drop he) with he | he
  · exact (h e he).forgetReply _ _
  · exact (hmoves.written e he).readable.forgetReply _ _

theorem storeRun_readable (inputs : List StoreInput) :
    ∀ e ∈ (Machine.run Server.storeStep s inputs).2.database.history roomId, e.Readable :=
  (Machine.run_invariant
    (I := fun s => HistoryInv s.database ∧ ∀ e ∈ s.database.history roomId, e.Readable)
    (fun s i hs _ => ⟨storeStep_inv s i hs.1, storeStep_readable hs.1 hs.2 i⟩) s inputs
    (Machine.meets_true s inputs) ⟨hinv, h⟩).2

end

/-- A step of the store leaves what was collected. -/
theorem Collects.storeStep (h : Collects start roomId bound s.database ids ended)
    (input : StoreInput) :
    Collects start roomId bound (Server.storeStep s input).2.database ids ended := by
  obtain ⟨added, k, hmoves⟩ := storeStep_movesOn s input h.inv roomId
  have hspent : ∀ id, Spent s.database roomId id →
      Spent (Server.storeStep s input).2.database roomId id :=
    fun _ hspent => storeStep_spent s input h.inv hspent
  constructor
  case inv => exact storeStep_inv s input h.inv
  case readable => exact storeStep_readable h.inv h.readable input
  case old => exact fun id hid => hspent id (h.old id hid)
  case stands => exact fun row hrow => (h.stands row hrow).moves h.inv hmoves hspent
  case ascending => exact h.ascending
  case spent =>
    intro id hid
    obtain ⟨hs, hrange⟩ := h.spent id hid
    exact ⟨hspent id hs, hrange⟩
  case covers =>
    intro e' he' hold hlt hreached
    obtain ⟨he', hdeleted⟩ := mem_undeleted.mp he'
    -- under an old id there is what there was
    obtain ⟨e, he, rfl⟩ := hmoves.of_spent he' (h.old _ hold)
    rw [forgetReply_eventId] at hold hlt hreached ⊢
    rw [forgetReply_deleted] at hdeleted
    exact h.covers e (mem_undeleted.mpr ⟨he, hdeleted⟩) hold hlt hreached

theorem stands_of_stored (hinv : HistoryInv db) (hrow : row ∈ db.history roomId) :
    Stands db roomId row := by
  refine ⟨spent_of_stored hinv hrow, fun e he hid => .inl ?_⟩
  exact inj_on_of_nodup_map (ascending_history db roomId).nodup he hrow hid

/-- An event that is still stored is deleted if it was. -/
theorem Stands.deleted (h : Stands db roomId row) (he : e ∈ db.history roomId)
    (hid : e.eventId = row.eventId) : e.deleted = row.deleted := by
  rcases h.2 e he hid with rfl | ⟨rfl, _⟩
  · rfl
  · rfl

/-- A page below the first id that was collected is put in front. -/
theorem Collects.page (h : Collects start roomId bound db ids false) {n : Nat} (hn : 0 < n) :
    Collects start roomId bound db
      ((page eventId (ids.head?.getD bound) n (db.undeleted roomId)).map
        eventId ++ ids)
      (page eventId (ids.head?.getD bound) n (db.undeleted roomId)).isEmpty := by
  have hasc := ascending_undeleted db roomId
  constructor
  case inv => exact h.inv
  case readable => exact h.readable
  case old => exact h.old
  case stands => exact h.stands
  case ascending =>
    refine pairwise_append.mpr ⟨pairwise_map.mpr hasc.page, h.ascending, ?_⟩
    intro a ha b hb
    obtain ⟨e, he, rfl⟩ := mem_map.mp ha
    exact Int.lt_of_lt_of_le (mem_of_mem_page he).2 (h.head_le hb)
  case spent =>
    intro id hid
    rcases mem_append.mp hid with hid | hid
    · obtain ⟨e, he, rfl⟩ := mem_map.mp hid
      have hmem := (mem_undeleted.mp (mem_of_mem_page he).1).1
      exact ⟨spent_of_stored h.inv hmem, (h.inv roomId).positive e hmem, (h.readable e hmem).fits⟩
    · exact h.spent id hid
  case covers =>
    intro e he hold hlt hreached
    -- collected before, or between the ends of the new page
    by_cases hcursor : ids.head?.getD bound ≤ e.eventId
    · exact mem_append_right _ (h.covers e he hold hlt (.inr hcursor))
    · have hbelow := Int.not_le.mp hcursor
      cases hpage : Sql.page eventId (ids.head?.getD bound) n (db.undeleted roomId) with
      | nil => exact absurd ((page_eq_nil hn).mp hpage e he) hcursor
      | cons x rest =>
        rw [hpage] at hreached
        have hx : x ∈ Sql.page eventId (ids.head?.getD bound) n (db.undeleted roomId) := by
          rw [hpage]
          exact mem_cons_self
        have hle : x.eventId ≤ e.eventId := by
          rcases hreached with hempty | hle
          · cases hempty
          · exact hle
        have hmem := hasc.mem_page hx he hbelow hle
        rw [hpage] at hmem
        exact mem_append_left _ (mem_map_of_mem hmem)

/-! The cursor. -/

/-- The first id is the least. -/
theorem min?_frameIds (hasc : Ascending (fun id => id) (id :: ids))
    (hrange : ∀ i ∈ id :: ids, 0 < i ∧ i ≤ i64Max) :
    ((id :: ids).map frameId).min? = some (frameId id) := by
  rw [min?_eq_some_iff]
  refine ⟨mem_map_of_mem mem_cons_self, ?_⟩
  intro b hb
  obtain ⟨i, hi, rfl⟩ := mem_map.mp hb
  have hle : id ≤ i := by
    rcases mem_cons.mp hi with rfl | hrest
    · exact Int.le_refl _
    · exact Int.le_of_lt ((pairwise_cons.mp hasc).1 i hrest)
  have hleft := frameId_toNat (hrange id mem_cons_self).1 (hrange id mem_cons_self).2
  have hright := frameId_toNat (hrange i hi).1 (hrange i hi).2
  rw [UInt64.le_iff_toNat_le]
  omega

theorem historyCursor_u64 (hpos : 0 < id) (hfits : id ≤ i64Max) :
    (historyCursor (.fields [.u64 (frameId id)]) : Int) = id := by
  have hid := frameId_toNat hpos hfits
  have hbody : bodyU64 (.fields [.u64 (frameId id)]) = some (frameId id) := rfl
  rw [historyCursor, hbody, Option.elim_some]
  omega

/-- What a run of paging has collected. -/
structure Paging.Collected (start : Database) (roomId : RoomId) (first : FrameBody) (p : Paging)
    (ids : List Int) : Prop where
  received : p.received.map valueEventId = ids.map (fun id => some (frameId id))
  collects : Collects start roomId (historyCursor first) p.store.database ids p.ended
  begun : 0 < p.pages → ids ≠ [] ∨ p.ended = true

section Steps
variable {start : Database} {room : UInt32} {first : FrameBody} {p : Paging} {ids : List Int} {n : Nat}

theorem Paging.Collected.cursor (h : p.Collected start roomId first ids) :
    (historyCursor (pagingBody first p.received) : Int) = ids.head?.getD (historyCursor first) := by
  have hids : p.received.filterMap valueEventId = ids.map frameId := by
    have hmap := congrArg (filterMap id) h.received
    rw [filterMap_map, filterMap_map] at hmap
    rw [← filterMap_eq_map]
    exact hmap
  unfold pagingBody
  rw [hids]
  cases ids with
  | nil => rfl
  | cons id ids =>
    have hrange : ∀ i ∈ id :: ids, 0 < i ∧ i ≤ i64Max := fun i hi => (h.collects.spent i hi).2
    rw [min?_frameIds h.collects.ascending hrange]
    exact historyCursor_u64 (hrange id mem_cons_self).1 (hrange id mem_cons_self).2

/-- The page a request is answered with. -/
def Paging.nextPage (p : Paging) (roomId : RoomId) (first : FrameBody) (n : Nat) : List RoomEventRow :=
  page eventId (historyCursor (pagingBody first p.received)) n
    (p.store.database.undeleted roomId)

/-- The user is a member of the room. -/
def Database.isMember (db : Database) (roomId : RoomId) (userId : UserId) : Prop :=
  (db.roomMembers.find? (roomId, (userId.toNat : Int))).isSome = true

variable {user : ServerUser}

/-- A member is answered with a page. -/
theorem historyBefore_member (humanBytes : HumanBytes) (n : Nat)
    (hread : ∀ e ∈ db.history room.toNat, e.Readable)
    (hmember : db.isMember room.toNat user.userId) (seq : UInt32) (body : FrameBody) :
    ∃ values, historyBefore humanBytes n db user seq room body = .ok (.found values) ∧
      values.map valueEventId =
        (page eventId (historyCursor body) n (db.undeleted room.toNat)).map
          (fun e => some (frameId e.eventId)) := by
  have hrows : ∀ e ∈ page eventId (historyCursor body) n (db.undeleted room.toNat),
      e.Readable := fun e he => hread e (mem_undeleted.mp (mem_of_mem_page he).1).1
  obtain ⟨values, hvalues, hids⟩ := values_of_rows humanBytes db hrows
  refine ⟨values, ?_, hids⟩
  unfold historyBefore
  have hnone : ¬(db.roomMembers.find? (room.toNat, (user.userId.toNat : Int))).isNone = true := by
    rw [Option.isNone_iff_eq_none]
    exact Option.isSome_iff_ne_none.mp hmember
  rw [if_neg hnone, eventsBefore_eq hread]
  exact bind_ok.mpr ⟨_, rfl, bind_ok.mpr ⟨values, hvalues, rfl⟩⟩

theorem pagingStep_ended (hended : p.ended = true) (user : ServerUser) (seq : UInt32) :
    pagingStep humanBytes n room first p (.request user seq) = p := by
  simp only [pagingStep, hended, if_true]

theorem pagingStep_stranger (user : ServerUser) (seq : UInt32)
    (h : ¬p.store.database.isMember room.toNat user.userId) :
    pagingStep humanBytes n room first p (.request user seq) = p := by
  have hnone : (p.store.database.roomMembers.find?
      (room.toNat, (user.userId.toNat : Int))).isNone = true := by
    rw [Option.isNone_iff_eq_none]
    exact Option.not_isSome_iff_eq_none.mp h
  simp only [pagingStep, historyBefore, hnone, if_true]
  exact ite_self _

/-- A member who has not come to the end gets the next page. -/
theorem pagingStep_member (humanBytes : HumanBytes) (n : Nat)
    (h : p.Collected start room.toNat first ids) (hended : p.ended = false)
    (hmember : p.store.database.isMember room.toNat user.userId) (seq : UInt32) :
    ∃ values,
      values.map valueEventId = (p.nextPage room.toNat first n).map (fun e => some (frameId e.eventId)) ∧
      pagingStep humanBytes n room first p (.request user seq) =
        { p with
          received := values ++ p.received
          pages := p.pages + 1
          ended := (p.nextPage room.toNat first n).isEmpty } := by
  obtain ⟨values, hfound, hids⟩ := historyBefore_member humanBytes n
    h.collects.readable hmember seq (pagingBody first p.received)
  refine ⟨values, hids, ?_⟩
  have hempty : (p.nextPage room.toNat first n).isEmpty = values.isEmpty := by
    rw [← isEmpty_map (f := fun e => some (frameId e.eventId)), Paging.nextPage, ← hids,
      isEmpty_map]
  rw [hempty]
  simp only [pagingStep, hended, hfound, Bool.false_eq_true, if_false]
  cases values with
  | nil => rfl
  | cons value values => simp

/-- What is still below the cursor. -/
def Paging.left (p : Paging) (roomId : RoomId) (first : FrameBody) : Nat :=
  ((p.store.database.undeleted roomId).filter
    (fun e => decide (e.eventId < (historyCursor (pagingBody first p.received) : Int)))).length

/-- Behind a page. -/
def Paging.paged (p : Paging) (roomId : RoomId) (first : FrameBody) (n : Nat)
    (values : List FrameValue) : Paging :=
  { p with
    received := values ++ p.received
    pages := p.pages + 1
    ended := (p.nextPage roomId first n).isEmpty }

theorem Paging.Collected.paged (h : p.Collected start roomId first ids) (hended : p.ended = false)
    (hn : 0 < n) (hids : values.map valueEventId =
      (p.nextPage roomId first n).map (fun e => some (frameId e.eventId))) :
    (p.paged roomId first n values).Collected start roomId first
      ((p.nextPage roomId first n).map eventId ++ ids) := by
  have hpage := (hended ▸ h.collects).page hn
  rw [← h.cursor] at hpage
  constructor
  case received =>
    show (values ++ p.received).map valueEventId = _
    rw [map_append, map_append, h.received, hids, map_map]
    rfl
  case collects => exact hpage
  case begun =>
    intro _
    cases hrows : p.nextPage roomId first n with
    | nil => exact .inr (isEmpty_iff.mpr hrows)
    | cons x rest => exact .inl (cons_ne_nil _ _)

theorem Paging.Collected.step (h : p.Collected start room.toNat first ids) (hn : 0 < n)
    (input : PagingInput) :
    ∃ ids', (pagingStep humanBytes n room first p input).Collected start room.toNat first ids' := by
  cases input with
  | store input => exact ⟨ids, h.received, h.collects.storeStep input, h.begun⟩
  | request user seq =>
    cases hended : p.ended with
    | true =>
      rw [pagingStep_ended hended]
      exact ⟨ids, h⟩
    | false =>
      by_cases hmember : p.store.database.isMember room.toNat user.userId
      · obtain ⟨values, hids, hstep⟩ := pagingStep_member humanBytes n h hended hmember seq
        rw [hstep]
        exact ⟨_, h.paged hended hn hids⟩
      · rw [pagingStep_stranger user seq hmember]
        exact ⟨ids, h⟩

/-! The end. -/

theorem Paging.left_eq (p : Paging) (roomId : RoomId) (first : FrameBody) :
    p.left roomId first = (p.store.database.history roomId).countP (fun e =>
      !e.deleted && decide (e.eventId < (historyCursor (pagingBody first p.received) : Int))) := by
  rw [Paging.left, Database.undeleted, filter_filter, countP_eq_length_filter]
  refine congrArg length (filter_congr fun e _ => ?_)
  rw [Bool.and_comm]

/-- What is appended is above the cursor. -/
theorem Paging.Collected.left_le (h : p.Collected start roomId first ids) (hne : ids ≠ [])
    (input : StoreInput) :
    Paging.left { p with store := (storeStep p.store input).2 } roomId first ≤ p.left roomId first := by
  obtain ⟨added, k, hmoves⟩ := storeStep_movesOn p.store input h.collects.inv roomId
  rw [Paging.left_eq, Paging.left_eq]
  show ((storeStep p.store input).2.database.history roomId).countP (fun e =>
    !e.deleted && decide (e.eventId < (historyCursor (pagingBody first p.received) : Int))) ≤ _
  have hnone : added.countP (fun e => !e.deleted &&
      decide (e.eventId < (historyCursor (pagingBody first p.received) : Int))) = 0 := by
    rw [countP_eq_zero]
    intro e he
    cases ids with
    | nil => exact absurd rfl hne
    | cons id ids =>
      have hfresh := hmoves.fresh e he id (h.collects.spent id mem_cons_self).1
      rw [h.cursor, head?_cons, Option.getD_some, Bool.and_eq_true, decide_eq_true_eq]
      omega
  have hsame : (fun e => !e.deleted &&
      decide (e.eventId < (historyCursor (pagingBody first p.received) : Int))) ∘
      forgetReply roomId
        (((p.store.database.history roomId ++ added).take k).map eventId) =
      fun e => !e.deleted &&
        decide (e.eventId < (historyCursor (pagingBody first p.received) : Int)) := by
    funext e
    rw [Function.comp_apply, forgetReply_deleted, forgetReply_eventId]
  rw [hmoves.history, countP_map, hsame]
  calc ((p.store.database.history roomId ++ added).drop k).countP _
      ≤ (p.store.database.history roomId ++ added).countP _ :=
        (drop_sublist k _).countP_le
    _ = (p.store.database.history roomId).countP _ + added.countP _ := countP_append
    _ = (p.store.database.history roomId).countP _ := by rw [hnone, Nat.add_zero]

/-- The pages that were answered and those that may still be. -/
def Paging.potential (p : Paging) (roomId : RoomId) (first : FrameBody) : Nat :=
  p.pages + if p.ended then 0 else p.left roomId first + 1

theorem Paging.Collected.potential_paged (h : p.Collected start roomId first ids)
    (hended : p.ended = false) (hn : 0 < n) (hids : values.map valueEventId =
      (p.nextPage roomId first n).map (fun e => some (frameId e.eventId))) :
    (p.paged roomId first n values).potential roomId first ≤ p.potential roomId first := by
  cases hrows : p.nextPage roomId first n with
  | nil =>
    simp only [Paging.potential, Paging.paged, hrows, hended, isEmpty_nil, if_true,
      Bool.false_eq_true, if_false]
    omega
  | cons x rest =>
    have hx : x ∈ p.nextPage roomId first n := by
      rw [hrows]
      exact mem_cons_self
    obtain ⟨hmem, hlt⟩ := mem_of_mem_page hx
    have hcursor := (h.paged hended hn hids).cursor
    rw [hrows, map_cons, cons_append, head?_cons, Option.getD_some] at hcursor
    -- the next cursor is the first row of this page
    have hleft : (p.paged roomId first n values).left roomId first < p.left roomId first := by
      unfold Paging.left
      rw [hcursor]
      exact length_below_lt hmem hlt
    have hopen : (p.paged roomId first n values).ended = false := by
      simp only [Paging.paged, hrows, isEmpty_cons]
    have hpages : (p.paged roomId first n values).pages = p.pages + 1 := rfl
    simp only [Paging.potential, hopen, hended, hpages, Bool.false_eq_true, if_false]
    omega

theorem Paging.Collected.potential_le (h : p.Collected start room.toNat first ids) (hn : 0 < n)
    (hbegun : 0 < p.pages) (input : PagingInput) :
    (pagingStep humanBytes n room first p input).potential room.toNat first ≤
      p.potential room.toNat first := by
  cases input with
  | store input =>
    cases hended : p.ended with
    | true => simp only [Paging.potential, pagingStep, hended, if_true, Nat.le_refl]
    | false =>
      have hne : ids ≠ [] := by
        rcases h.begun hbegun with hne | hend
        · exact hne
        · rw [hended] at hend
          cases hend
      have hle := h.left_le hne input
      simp only [Paging.potential, pagingStep, hended, Bool.false_eq_true, if_false]
      rw [hended] at hle
      omega
  | request user seq =>
    cases hended : p.ended with
    | true => rw [pagingStep_ended hended]
    | false =>
      by_cases hmember : p.store.database.isMember room.toNat user.userId
      · obtain ⟨values, hids, hstep⟩ := pagingStep_member humanBytes n h hended hmember seq
        rw [hstep]
        exact h.potential_paged hended hn hids
      · rw [pagingStep_stranger user seq hmember]

end Steps

/-! Runs. -/

section Runs
variable {start : Database} {room : UInt32} {first : FrameBody} {p : Paging} {n : Nat}

theorem pagingRun_collected (humanBytes : HumanBytes) (hn : 0 < n) (inputs : List PagingInput)
    (h : ∃ ids, p.Collected start room.toNat first ids) :
    ∃ ids, (pagingRun humanBytes n room first p inputs).Collected start room.toNat first ids := by
  induction inputs generalizing p with
  | nil => exact h
  | cons input inputs ih =>
    obtain ⟨ids, hids⟩ := h
    exact ih (hids.step hn input)

theorem pagingStep_pages_le (input : PagingInput) :
    p.pages ≤ (pagingStep humanBytes n room first p input).pages := by
  cases input with
  | store input => exact Nat.le_refl _
  | request user seq =>
    unfold pagingStep
    simp only
    split
    · exact Nat.le_refl _
    · split
      · exact Nat.le_succ _
      · exact Nat.le_succ _
      · exact Nat.le_refl _

theorem pagingRun_potential (humanBytes : HumanBytes) (hn : 0 < n) (inputs : List PagingInput)
    (h : ∃ ids, p.Collected start room.toNat first ids) (hbegun : 0 < p.pages) :
    (pagingRun humanBytes n room first p inputs).potential room.toNat first ≤
      p.potential room.toNat first := by
  induction inputs generalizing p with
  | nil => exact Nat.le_refl _
  | cons input inputs ih =>
    obtain ⟨ids, hids⟩ := h
    have hbegun' : 0 < (pagingStep humanBytes n room first p input).pages :=
      Nat.lt_of_lt_of_le hbegun (pagingStep_pages_le input)
    calc (pagingRun humanBytes n room first p (input :: inputs)).potential room.toNat first
        ≤ (pagingStep humanBytes n room first p input).potential room.toNat first :=
          ih (hids.step hn input) hbegun'
      _ ≤ p.potential room.toNat first := hids.potential_le hn hbegun input

/-- Before anything is collected. -/
theorem collected_begin (hinv : HistoryInv s.database)
    (hread : ∀ e ∈ s.database.history room.toNat, e.Readable) :
    (Paging.begin s).Collected s.database room.toNat first [] := by
  constructor
  case received => rfl
  case begun => exact fun h => absurd h (Nat.lt_irrefl 0)
  case collects =>
    constructor
    case inv => exact hinv
    case readable => exact hread
    case old => exact fun _ h => h
    case stands => exact fun row hrow => stands_of_stored hinv hrow
    case ascending => exact List.Pairwise.nil
    case spent => exact nofun
    case covers =>
      intro e _ _ hlt hreached
      rcases hreached with hend | hle
      · cases hend
      · exact absurd hle (Int.not_le.mpr hlt)

end Runs

/-- The values are in the order of their ids, and when the paging has ended every event that was there
at the start and still is was returned once. -/
structure Paging.Complete (start : Database) (roomId : RoomId) (p : Paging) : Prop where
  ordered : ∃ ids : List UInt64, p.received.map valueEventId = ids.map some ∧ ids.Pairwise (· < ·)
  complete : p.ended = true → ∀ e ∈ start.undeleted roomId,
    (∃ e' ∈ p.store.database.history roomId, e'.eventId = e.eventId) →
    p.received.countP (fun value => valueEventId value == some (frameId e.eventId)) = 1

/-- A member's request is answered with a page until the paging has ended, which it has before there
are more pages than events. -/
structure Paging.Ends (humanBytes : HumanBytes) (n : Nat) (room : UInt32) (first : FrameBody)
    (p : Paging) : Prop where
  answered : p.ended = false → ∀ user : ServerUser, p.store.database.isMember room.toNat user.userId →
    ∀ seq, (pagingStep humanBytes n room first p (.request user seq)).pages = p.pages + 1
  ends : 0 < p.pages → ∀ inputs,
    p.pages + (p.store.database.undeleted room.toNat).length <
      (pagingRun humanBytes n room first p inputs).pages →
    (pagingRun humanBytes n room first p inputs).ended = true
  bounded : 0 < p.pages → ∀ inputs, (pagingRun humanBytes n room first p inputs).pages ≤
    p.pages + (p.store.database.undeleted room.toNat).length + 1

theorem frameId_lt {a b : Int} (ha : 0 < a ∧ a ≤ i64Max) (hb : 0 < b ∧ b ≤ i64Max) (hlt : a < b) :
    frameId a < frameId b := by
  have hleft := frameId_toNat ha.1 ha.2
  have hright := frameId_toNat hb.1 hb.2
  rw [UInt64.lt_iff_toNat_lt]
  omega

theorem Paging.Collected.complete {p : Paging} (h : p.Collected start roomId first ids)
    (hinv : HistoryInv start)
    (hbelow : ∀ e ∈ start.undeleted roomId, e.eventId < historyCursor first) :
    p.Complete start roomId := by
  have hrange : ∀ id ∈ ids, 0 < id ∧ id ≤ i64Max := fun id hid => (h.collects.spent id hid).2
  have hsorted : (ids.map frameId).Pairwise (· < ·) := by
    refine pairwise_map.mpr (h.collects.ascending.imp_of_mem ?_)
    intro a b ha hb hlt
    exact frameId_lt (hrange a ha) (hrange b hb) hlt
  constructor
  case ordered => exact ⟨ids.map frameId, by rw [h.received, map_map]; rfl, hsorted⟩
  case complete =>
    rintro hended e he ⟨e', he', hid⟩
    obtain ⟨hstored, hdeleted⟩ := mem_undeleted.mp he
    have hleft : e' ∈ p.store.database.undeleted roomId :=
      mem_undeleted.mpr ⟨he', ((h.collects.stands e hstored).deleted he' hid).trans hdeleted⟩
    have hmem : e.eventId ∈ ids := by
      rw [← hid]
      refine h.collects.covers e' hleft ?_ ?_ (.inl hended)
      · rw [hid]
        exact spent_of_stored hinv hstored
      · rw [hid]
        exact hbelow e he
    have hcount : p.received.countP (fun value => valueEventId value == some (frameId e.eventId)) =
        (ids.map frameId).count (frameId e.eventId) := by
      have hsome : (p.received.map valueEventId).countP (fun id => id == some (frameId e.eventId)) =
          (ids.map frameId).countP (fun id => id == frameId e.eventId) := by
        rw [h.received, countP_map, countP_map]
        refine countP_congr fun id _ => ?_
        simp
      rw [countP_map] at hsome
      exact hsome
    rw [hcount]
    exact count_eq_one_of_mem (hsorted.imp fun hlt => UInt64.ne_of_lt hlt)
      (mem_map_of_mem hmem)

theorem Paging.Collected.ends {room : UInt32} {p : Paging} {n : Nat}
    (h : p.Collected start room.toNat first ids) (humanBytes : HumanBytes) (hn : 0 < n) :
    p.Ends humanBytes n room first := by
  have hleft : p.potential room.toNat first ≤
      p.pages + ((p.store.database.undeleted room.toNat).length + 1) := by
    unfold Paging.potential
    split
    · omega
    · have := length_filter_le (fun e =>
        decide (e.eventId < (historyCursor (pagingBody first p.received) : Int)))
        (p.store.database.undeleted room.toNat)
      unfold Paging.left
      omega
  constructor
  case answered =>
    intro hended user hmember seq
    obtain ⟨values, _, hstep⟩ := pagingStep_member humanBytes n h hended hmember seq
    rw [hstep]
  case ends =>
    intro hbegun inputs hlt
    have hrun := pagingRun_potential humanBytes hn inputs ⟨ids, h⟩ hbegun
    by_contra hopen
    rw [Paging.potential, if_neg hopen] at hrun
    omega
  case bounded =>
    intro hbegun inputs
    have hrun := pagingRun_potential humanBytes hn inputs ⟨ids, h⟩ hbegun
    have hpages : (pagingRun humanBytes n room first p inputs).pages ≤
        (pagingRun humanBytes n room first p inputs).potential room.toNat first :=
      Nat.le_add_right _ _
    omega

/-- A body without a cursor, or with one that is not below any id. -/
def FromNewest (first : FrameBody) : Prop :=
  ∀ cursor, bodyU64 first = some cursor → i64Max ≤ cursor.toNat

theorem historyCursor_newest (h : FromNewest first) : (historyCursor first : Int) = i64Max := by
  unfold historyCursor
  cases hbody : bodyU64 first with
  | none => simp [i64Max]
  | some cursor =>
    have hle := h cursor hbody
    simp only [Option.elim_some]
    simp only [i64Max] at hle ⊢
    omega

/-- The room has a member. -/
def Database.withMember (db : Database) : Database :=
  { db with roomMembers := ⟨[⟨1, 1⟩], nodup_singleton _⟩ }

def pager : ServerUser := ⟨1, [7], "pager", 0, 0, none, 0, none⟩

theorem legacyDatabase_readable : ∀ e ∈ legacyDatabase.withMember.roomEvents.rows, e.Readable := by
  intro e he
  obtain rfl := mem_singleton.mp he
  exact RoomEventRow.Written.readable
    ⟨5, none, .message "a", 10, none, none, none, rfl, by decide, by decide, rfl⟩

/-- A room whose next event id is the greatest there is. -/
def lastDatabase : Database :=
  { legacyDatabase.withMember with
    roomEvents := ⟨[eventRow 1 9223372036854775806 none (.message "a") 10 none none],
      nodup_singleton _⟩ }

def lastAppend : List StoreInput := [.history (.append 1 none (.message "b") none ⟨20, 20, 20⟩)]

end Omen.Server
