import OmenBrowser.Server.ModerationAudit
import OmenBrowser.Server.ProjectionIds

/- Reading the moderation audit page by page, while records are added and pruned.

   The ids of records only grow (`AuditInv.spent`), so what is added behind a reader's back is
   above everything it has seen, and what is pruned is gone from below or above. A reader that
   follows the cursors has therefore seen, of the records that were there when it began and are
   there still, those at or above its cursor (`Reader.Follows`). The one record it cannot see is
   one with the largest id there is: the first page is read from strictly below that id. -/
namespace Omen.Server
open Wire Sql Ints Omen.Protocol Outcome List Machine Table ModerationAuditRow Option

variable {r : ModerationAuditRow} {record : ModerationAuditRecord} {page : ModerationAuditPage}
  {roomId : UInt32}

/-! The store between appends. -/

structure AuditInv (s : ModerationAuditStore) : Prop where
  nonneg : 0 ≤ s.sequence
  range : s.sequence ≤ i64Max
  checked : ∀ r ∈ s.events.rows, r.meetsChecks = true
  positive : ∀ r ∈ s.events.rows, 0 < r.auditId
  spent : ∀ r ∈ s.events.rows, r.auditId ≤ s.sequence
  perRoom : ∀ roomId, roomAuditRows roomId s.events ≤ maxModerationAuditRowsPerRoom
  global : (s.events.rows.length : Int) ≤ maxModerationAuditRowsGlobal
  bytes : ((s.events.rows.map ModerationAuditRow.retainedBytes).sum : Int) ≤
    maxModerationAuditBytesGlobal

theorem auditInv_empty : AuditInv ModerationAuditStore.empty := by
  constructor
  case nonneg => exact Int.le_refl 0
  case range => decide
  case checked => intro r hr; cases hr
  case positive => intro r hr; cases hr
  case spent => intro r hr; cases hr
  case perRoom => intro roomId; exact Int.natCast_nonneg 2048
  case global => decide
  case bytes => decide

section
variable {s s' : ModerationAuditStore} {a : AuditedAction} {now : Int64}
  {admission : ModerationAuditAdmission}

theorem AuditInv.of_sublist (h : AuditInv s) {t : Table auditId}
    (hsub : t.rows.Sublist s.events.rows) : AuditInv { s with events := t } where
  nonneg := h.nonneg
  range := h.range
  checked := fun r hr => h.checked r (hsub.subset hr)
  positive := fun r hr => h.positive r (hsub.subset hr)
  spent := fun r hr => h.spent r (hsub.subset hr)
  perRoom := fun roomId => countP_le_of_sublist hsub (h.perRoom roomId)
  global := length_le_of_sublist hsub h.global
  bytes := sum_le_of_sublist ModerationAuditRow.retainedBytes hsub h.bytes

/-- The next id is one more than the last one given. -/
theorem AuditInv.nextAuditId (h : AuditInv s) : s.nextAuditId = s.sequence + 1 := by
  have hle : maxOrZero (s.events.rows.map auditId) ≤ s.sequence := by
    by_cases hmax : 0 < maxOrZero (s.events.rows.map auditId)
    · obtain ⟨r, hr, hid⟩ := mem_map.mp (maxOrZero_mem hmax)
      rw [← hid]
      exact h.spent r hr
    · have := h.nonneg
      omega
  rw [ModerationAuditStore.nextAuditId, max_eq_left hle]

section
variable (h : Appends a now s admission s') (hs : AuditInv s)
include h hs

theorem Appends.inv : AuditInv s' := by
  cases h with
  | saturated t hkept => exact hs.of_sublist hkept
  | stored t t' id row hkept hnext hrange hid hchecked hcapacity hadded =>
    have ht := hs.of_sublist hkept
    rw [ht.nextAuditId] at hnext
    have hnonneg := hs.nonneg
    simp only at hnext
    constructor
    case nonneg => simp only; omega
    case range => exact hrange
    case checked =>
      simp only [hadded]
      exact forall_mem_cons.mpr ⟨hchecked, ht.checked⟩
    case positive =>
      simp only [hadded]
      exact forall_mem_cons.mpr ⟨by omega, ht.positive⟩
    case spent =>
      simp only [hadded]
      refine forall_mem_cons.mpr ⟨by omega, fun r hr => ?_⟩
      have := ht.spent r hr
      simp only at this
      omega
    case perRoom =>
      intro roomId
      unfold roomAuditRows
      simp only [hadded]
      refine countP_cons_le (ht.perRoom roomId) fun hroom => ?_
      have hroom : row.roomId = roomId := beq_iff_eq.mp hroom
      exact hroom ▸ hcapacity.room
    case global =>
      simp only [hadded, length_cons, Nat.cast_add, Nat.cast_one]
      exact hcapacity.rows
    case bytes =>
      simp only [hadded, map_cons, sum_cons, Nat.cast_add]
      have := hcapacity.bytes
      omega

/-- A record that is there after an append and was not added by it was there before. -/
theorem Appends.old (hr : r ∈ s'.events.rows)
    (hold : r.auditId ≤ s.sequence) : r ∈ s.events.rows := by
  cases h with
  | saturated t hkept => exact hkept.subset hr
  | stored t t' id row hkept hnext _ hid _ _ hadded =>
    rw [(hs.of_sublist hkept).nextAuditId] at hnext
    simp only [hadded] at hr
    rcases mem_cons.mp hr with rfl | hr
    · simp only at hnext
      omega
    · exact hkept.subset hr

theorem Appends.sequence_le : s.sequence ≤ s'.sequence := by
  cases h with
  | saturated t hkept => exact Int.le_refl _
  | stored t t' id row hkept hnext _ _ _ _ _ =>
    rw [(hs.of_sublist hkept).nextAuditId] at hnext
    simp only at hnext ⊢
    omega

end

end

/-! Pages. -/

/-- The record a row of a sound table is read as. -/
def ModerationAuditRow.asRecord (r : ModerationAuditRow) : ModerationAuditRecord :=
  r.record (UInt64.ofNat r.auditId.toNat)

section
variable {r : ModerationAuditRow}

theorem toRecord_eq (h : 0 ≤ r.auditId) : r.toRecord = .ok r.asRecord := if_pos h

theorem toRecord_ok (h : r.toRecord = .ok record) : record = r.asRecord := by
  unfold toRecord at h
  split at h
  · exact (Except.ok.inj h).symm
  · cases h

/-- Ids of a table fit the ids of records. -/
theorem asRecord_auditId (h : 0 ≤ r.auditId) (hrange : r.auditId ≤ i64Max) :
    (r.asRecord.auditId.toNat : Int) = r.auditId := by
  have hlt : r.auditId.toNat < 2 ^ 64 := by unfold i64Max at hrange; omega
  show ((UInt64.ofNat r.auditId.toNat).toNat : Int) = r.auditId
  rw [UInt64.toNat_ofNat_of_lt' hlt]
  omega

theorem status_known {bits : UInt32} (h : bits ≤ 3) :
    bits &&& ~~~moderationAuditStatusBitsMask = 0 := by
  have hle : bits.toNat ≤ 3 := UInt32.le_iff_toNat_le.mp h
  have hcases : bits = 0 ∨ bits = 1 ∨ bits = 2 ∨ bits = 3 := by
    have hfour : bits.toNat = 0 ∨ bits.toNat = 1 ∨ bits.toNat = 2 ∨ bits.toNat = 3 := by omega
    rcases hfour with h | h | h | h
    · exact .inl (UInt32.toNat_inj.mp h)
    · exact .inr (.inl (UInt32.toNat_inj.mp h))
    · exact .inr (.inr (.inl (UInt32.toNat_inj.mp h)))
    · exact .inr (.inr (.inr (UInt32.toNat_inj.mp h)))
  rcases hcases with rfl | rfl | rfl | rfl <;> decide

theorem name_ne_empty {name : String} (h : 1 ≤ name.utf8ByteSize) : name ≠ "" := by
  rintro rfl
  cases h

/-- The `CHECK`s of the table are the checks of a record. -/
theorem asRecord_validate (hchecks : r.meetsChecks = true) (hpos : 0 < r.auditId)
    (hrange : r.auditId ≤ i64Max) : r.asRecord.validate = .ok () := by
  simp only [meetsChecks, Bool.and_eq_true, decide_eq_true_eq, bne_iff_ne] at hchecks
  obtain ⟨⟨⟨⟨⟨⟨⟨⟨⟨⟨⟨⟨hroom, hactor⟩, htarget⟩, hname⟩, hname'⟩, htname⟩, htname'⟩, htime⟩, _⟩,
    hresult⟩, hrole⟩, hstatus⟩, hfit⟩ := hchecks
  have hid : r.asRecord.auditId ≠ 0 := by
    intro hzero
    have := asRecord_auditId hpos.le hrange
    rw [hzero] at this
    simp at this
    omega
  refine check_ok.mpr ⟨validateEventId_ok.mpr hid, check_ok.mpr ⟨validateUserId_ok.mpr hroom, ?_⟩⟩
  refine check_ok.mpr ⟨validateUserId_ok.mpr hactor, check_ok.mpr ⟨?_, ?_⟩⟩
  · refine refuse_ok.mpr ?_
    rintro (hempty | hlong)
    · exact name_ne_empty hname hempty
    · exact Nat.not_lt.mpr hname' hlong
  refine check_ok.mpr ⟨check_ok.mpr ⟨validateUserId_ok.mpr htarget, refuse_ok.mpr ?_⟩, ?_⟩
  · rintro (hempty | hlong)
    · exact name_ne_empty htname hempty
    · exact Nat.not_lt.mpr htname' hlong
  refine check_ok.mpr ⟨validateTimestamp_ok.mpr htime, refuse_bind_ok.mpr ⟨?_, ?_⟩⟩
  · exact fun hno => Bool.noConfusion (hresult.symm.trans hno)
  refine refuse_bind_ok.mpr ⟨?_, refuse_bind_ok.mpr ⟨?_, refuse_ok.mpr ?_⟩⟩
  · intro hunknown
    obtain ⟨bits, hbits, hbad⟩ := any_eq_true _ _ |>.mp hunknown
    have hknown := (all_eq_true _ _).mp hrole bits hbits
    simp only [Bool.or_eq_true, beq_iff_eq] at hknown
    rcases hknown with ((rfl | rfl) | rfl) | rfl <;> exact Bool.noConfusion hbad
  · intro hunknown
    obtain ⟨bits, hbits, hbad⟩ := any_eq_true _ _ |>.mp hunknown
    have hknown := (all_eq_true _ _).mp hstatus bits hbits
    rw [bne_iff_ne] at hbad
    exact hbad (status_known (of_decide_eq_true hknown))
  · exact fun hno => Bool.noConfusion (hfit.symm.trans hno)

end

section
variable {s : ModerationAuditStore} {roomId : UInt32} {before : Option UInt64} {limit : UInt16}
  {cursor : Int} {r : ModerationAuditRow}

theorem mem_auditPageRows {n : Nat} (h : r ∈ auditPageRows s.events roomId cursor n) :
    r ∈ s.events.rows ∧ r.roomId = roomId ∧ r.auditId < cursor := by
  obtain ⟨hr, hp⟩ := mem_filter.mp (mem_orderBy.mp (mem_of_mem_take h))
  rw [Bool.and_eq_true, beq_iff_eq, decide_eq_true_eq] at hp
  exact ⟨hr, hp⟩

/-- The rows below the cursor, newest first. -/
theorem newestFirst_rows (s : ModerationAuditStore) (p : ModerationAuditRow → Bool) :
    Ascending newestFirst
      (orderBy (byKey newestFirst) (s.events.rows.filter p)) := by
  apply ascending_orderBy
  have hids : ((s.events.rows.filter p).map auditId).Nodup :=
    s.events.unique.sublist (filter_sublist.map _)
  rw [show newestFirst = (fun id => -id) ∘ auditId from rfl,
    ← List.map_map]
  exact hids.map neg_injective

/-- The rows of a page are newest first. -/
theorem auditPageRows_descending (s : ModerationAuditStore) (roomId : UInt32) (cursor : Int)
    (n : Nat) :
    (auditPageRows s.events roomId cursor n).Pairwise (fun a b => b.auditId < a.auditId) := by
  refine ((newestFirst_rows s _).take n).imp ?_
  intro a b hlt
  unfold newestFirst at hlt
  omega

/-- A page reaches down to its last row, and a page that is not full reaches all the way. -/
theorem mem_auditPageRows_of_reached {n : Nat} (hr : r ∈ s.events.rows) (hroom : r.roomId = roomId)
    (hbelow : r.auditId < cursor)
    (hreached : (auditPageRows s.events roomId cursor n).length < n ∨
      ∃ last, (auditPageRows s.events roomId cursor n).getLast? = some last ∧
        last.auditId ≤ r.auditId) :
    r ∈ auditPageRows s.events roomId cursor n := by
  have hmem : r ∈ orderBy (byKey newestFirst) (s.events.rows.filter
      (fun r => r.roomId == roomId && decide (r.auditId < cursor))) := by
    refine mem_orderBy.mpr (mem_filter.mpr ⟨hr, ?_⟩)
    rw [Bool.and_eq_true, beq_iff_eq, decide_eq_true_eq]
    exact ⟨hroom, hbelow⟩
  rcases hreached with hshort | ⟨last, hlast, hle⟩
  · unfold auditPageRows at hshort ⊢
    rw [length_take] at hshort
    rw [take_of_length_le (by omega)]
    exact hmem
  · have hfront := (newestFirst_rows s _).filter_le_last hlast
    unfold auditPageRows
    rw [← hfront]
    refine mem_filter.mpr ⟨hmem, decide_eq_true ?_⟩
    unfold newestFirst
    omega

theorem moderationAuditPage_records (h : moderationAuditPage s roomId before limit = .ok page) :
    ∃ cursor, auditCursor before = .ok cursor ∧
      page.records =
        (auditPageRows s.events roomId cursor limit.toNat).map asRecord := by
  obtain ⟨_, h⟩ := refuse_bind_ok.mp h
  obtain ⟨_, h⟩ := refuse_bind_ok.mp h
  obtain ⟨_, h⟩ := refuse_bind_ok.mp h
  obtain ⟨cursor, hcursor, h⟩ := bind_ok.mp h
  obtain ⟨records, hrecords, h⟩ := bind_ok.mp h
  obtain ⟨_, h⟩ := check_ok.mp h
  cases h
  exact ⟨cursor, hcursor, mapM_ok (fun _ _ => toRecord_ok) hrecords⟩

theorem anyWindow_eq_false {α : Type} {p : α → α → Bool} {l : List α}
    (h : l.Pairwise (fun a b => p a b = false)) : anyWindow p l = false := by
  induction l with
  | nil => rfl
  | cons a l ih =>
    obtain ⟨ha, hl⟩ := pairwise_cons.mp h
    cases l with
    | nil => rfl
    | cons b rest =>
      rw [anyWindow, ha b mem_cons_self, Bool.false_or]
      exact ih hl

/-- Names are at most 256 bytes, so a page of 256 records is within its bytes. -/
theorem validateRecords_of_bounded {records : List ModerationAuditRecord} {retained : Nat}
    (hvalid : ∀ r ∈ records, r.validate = .ok ())
    (hbytes : ∀ r ∈ records, r.retainedBytes ≤ 576)
    (hfits : retained + 576 * records.length ≤ moderationAuditPageMaxRetainedBytes) :
    ModerationAuditPage.validateRecords retained records = .ok () := by
  induction records generalizing retained with
  | nil => rfl
  | cons r rest ih =>
    have hr := hbytes r mem_cons_self
    rw [length_cons] at hfits
    refine check_ok.mpr ⟨hvalid r mem_cons_self, refuse_bind_ok.mpr ⟨by omega, ?_⟩⟩
    exact ih (fun q hq => hvalid q (mem_cons_of_mem r hq))
      (fun q hq => hbytes q (mem_cons_of_mem r hq)) (by omega)

theorem asRecord_retainedBytes (hchecks : r.meetsChecks = true) :
    r.asRecord.retainedBytes ≤ 576 := by
  simp only [meetsChecks, Bool.and_eq_true, decide_eq_true_eq] at hchecks
  show 64 + r.actorDisplayName.utf8ByteSize + r.targetDisplayName.utf8ByteSize ≤ 576
  omega

/-- Every page of a sound store passes the checks on pages. -/
theorem pageRows_validate (hs : AuditInv s) {n : Nat} (hn : n ≤ moderationAuditPageMaxEntries) :
    ModerationAuditPage.validate { records :=
      (auditPageRows s.events roomId cursor n).map asRecord } = .ok () := by
  have hlength : (auditPageRows s.events roomId cursor n).length ≤ 256 :=
    (length_take_le n _).trans hn
  have hrows : ∀ r ∈ auditPageRows s.events roomId cursor n, r.meetsChecks = true ∧
      0 < r.auditId ∧ r.auditId ≤ i64Max := by
    intro r hr
    obtain ⟨hmem, _⟩ := mem_auditPageRows hr
    exact ⟨hs.checked r hmem, hs.positive r hmem, (hs.spent r hmem).trans hs.range⟩
  refine refuse_bind_ok.mpr ⟨?_, check_ok.mpr ⟨validateRecords_of_bounded ?_ ?_ ?_, ?_⟩⟩
  · simp only [length_map]
    exact Nat.not_lt.mpr hlength
  · intro record hrecord
    obtain ⟨r, hr, rfl⟩ := mem_map.mp hrecord
    obtain ⟨hchecks, hpos, hrange⟩ := hrows r hr
    exact asRecord_validate hchecks hpos hrange
  · intro record hrecord
    obtain ⟨r, hr, rfl⟩ := mem_map.mp hrecord
    exact asRecord_retainedBytes (hrows r hr).1
  · rw [length_map, moderationAuditPageMaxRetainedBytes]
    omega
  · refine refuse_ok.mpr (Bool.not_eq_true _ ▸ anyWindow_eq_false (pairwise_map.mpr ?_))
    refine (auditPageRows_descending s roomId cursor n).imp_of_mem ?_
    intro a b ha hb hlt
    have ha := asRecord_auditId (hrows a ha).2.1.le (hrows a ha).2.2
    have hb := asRecord_auditId (hrows b hb).2.1.le (hrows b hb).2.2
    rw [decide_eq_false_iff_not, UInt64.le_iff_toNat_le]
    omega

/-- A request within its bounds is answered. -/
theorem moderationAuditPage_answers (hs : AuditInv s) (hroom : roomId ≠ 0)
    (hlimit : 1 ≤ limit.toNat ∧ limit.toNat ≤ moderationAuditPageMaxEntries)
    (hbefore : before ≠ some 0) (hcursor : auditCursor before = .ok cursor) :
    moderationAuditPage s roomId before limit = .ok { records :=
      (auditPageRows s.events roomId cursor limit.toNat).map asRecord } := by
  have hrows : ∀ r ∈ auditPageRows s.events roomId cursor limit.toNat,
      r.toRecord = .ok r.asRecord := by
    intro r hr
    exact toRecord_eq (hs.positive r (mem_auditPageRows hr).1).le
  have hvalid : ModerationAuditPage.validate { records :=
      (auditPageRows s.events roomId cursor limit.toNat).map asRecord } =
      .ok () := pageRows_validate hs hlimit.2
  obtain ⟨values, hvalues⟩ := ModerationAuditPage.exists_intoFrameValues hvalid
  refine refuse_bind_ok.mpr ⟨hroom, refuse_bind_ok.mpr ⟨by omega, refuse_bind_ok.mpr ⟨hbefore, ?_⟩⟩⟩
  refine bind_ok.mpr ⟨cursor, hcursor, bind_ok.mpr ⟨_, mapM_of_ok hrows, check_ok.mpr ⟨?_, rfl⟩⟩⟩
  refine check_ok.mpr ⟨mapError_ok.mpr (map_ok.mpr ⟨values, hvalues, rfl⟩), mapError_ok.mpr ?_⟩
  refine check_ok.mpr ⟨validateUserId_ok.mpr hroom, refuse_ok.mpr ?_⟩
  intro hother
  obtain ⟨record, hrecord, hne⟩ := any_eq_true.mp hother
  obtain ⟨r, hr, rfl⟩ := mem_map.mp hrecord
  exact bne_iff_ne.mp hne (mem_auditPageRows hr).2.1

end

/-! A reader of pages, and the store it reads. -/

/-- One reader: where it is, what it was given, and the store as it was when it began. -/
structure Reader where
  roomId : UInt32
  began : ModerationAuditStore
  cursor : Option UInt64
  returned : List ModerationAuditRecord
  ended : Bool

structure AuditServer where
  store : ModerationAuditStore
  reader : Option Reader

inductive AuditInput where
  | append (action : AuditedAction) (now : Int64)
  /-- The transaction of a mutation is rolled back with the append in it. -/
  | lost
  | begin (roomId : UInt32)
  | next (limit : UInt16)

inductive AuditOutput where
  | admission (admission : ModerationAuditAdmission)
  | page (page : ModerationAuditPage)
  | failed (error : ServerError)
  | idle

def Reader.start (roomId : UInt32) (store : ModerationAuditStore) : Reader :=
  { roomId
    began := store
    cursor := none
    returned := []
    ended := false }

/-- The reader after a page: its cursor is the last record's id, and a page that is not full is
the last one. -/
def Reader.turn (reader : Reader) (limit : UInt16) (page : ModerationAuditPage) : Reader :=
  { reader with
    cursor := (page.records.getLast?.map ModerationAuditRecord.auditId).or reader.cursor
    returned := reader.returned ++ page.records
    ended := reader.ended || decide (page.records.length < limit.toNat) }

def auditStep (s : AuditServer) : AuditInput → AuditOutput × AuditServer
  | .append action now =>
    let result := Txn.atomically (appendModerationAuditAt action now) s.store
    (match result.1 with
      | .ok admission => .admission admission
      | .error e => .failed e,
     { s with store := result.2 })
  | .lost => (.idle, s)
  | .begin roomId =>
    (.idle, { s with reader := some (Reader.start roomId s.store) })
  | .next limit =>
    match s.reader with
    | none => (.idle, s)
    | some reader =>
      match moderationAuditPage s.store reader.roomId reader.cursor limit with
      | .error e => (.failed e, s)
      | .ok page => (.page page, { s with reader := some (reader.turn limit page) })

def AuditServer.fresh : AuditServer := ⟨ModerationAuditStore.empty, none⟩

/-- The append is not given the largest id there is. -/
def BelowLastId (s : AuditServer) : AuditInput → Prop
  | .append _ _ => s.store.sequence + 1 < i64Max
  | _ => True

/-- The reader has come past the row: it is at or above the cursor, or the reader has ended. -/
def Reader.Passed (reader : Reader) (r : ModerationAuditRow) : Prop :=
  reader.ended = true ∨ ∃ c, reader.cursor = some c ∧ (c.toNat : Int) ≤ r.auditId

/-- What the reader has been given so far, against the store as it is now. -/
structure Reader.Follows (reader : Reader) (store : ModerationAuditStore) : Prop where
  descending : reader.returned.Pairwise (fun a b => b.auditId < a.auditId)
  inRoom : ∀ record ∈ reader.returned, record.roomId = reader.roomId
  began : reader.began.sequence ≤ store.sequence
  spent : ∀ r ∈ reader.began.events.rows, r.auditId ≤ reader.began.sequence
  cursor : ∀ c, reader.cursor = some c → c ≠ 0 ∧ (c.toNat : Int) ≤ i64Max
  floor : ∀ record ∈ reader.returned, ∃ c, reader.cursor = some c ∧ c ≤ record.auditId
  seen : ∀ r ∈ store.events.rows, r.roomId = reader.roomId → r.auditId ≤ reader.began.sequence →
    reader.Passed r → r.asRecord ∈ reader.returned

structure AuditServer.Inv (s : AuditServer) : Prop where
  store : AuditInv s.store
  below : s.store.sequence < i64Max
  reader : ∀ reader, s.reader = some reader → reader.Follows s.store

section
variable {store store' : ModerationAuditStore} {reader : Reader}

theorem Reader.Follows.append (h : reader.Follows store) (hs : AuditInv store) {a : AuditedAction}
    {now : Int64} {admission : ModerationAuditAdmission}
    (happends : Appends a now store admission store') : reader.Follows store' where
  descending := h.descending
  inRoom := h.inRoom
  began := h.began.trans (happends.sequence_le hs)
  spent := h.spent
  cursor := h.cursor
  floor := h.floor
  seen := by
    intro r hr hroom hold hpassed
    exact h.seen r (happends.old hs hr (hold.trans h.began)) hroom hold hpassed

theorem auditCursor_ok {before : Option UInt64} {cursor : Int}
    (h : auditCursor before = .ok cursor) :
    (before = none ∧ cursor = i64Max) ∨ ∃ c, before = some c ∧ cursor = c.toNat := by
  cases before with
  | none => exact .inl ⟨rfl, (Except.ok.inj h).symm⟩
  | some c =>
    simp only [auditCursor] at h
    split at h
    · next cursor' hc =>
      cases h
      exact .inr ⟨c, rfl, (toI64_some.mp hc).1⟩
    · cases h

section
variable {cursor : Int} {limit : UInt16} {rows : List ModerationAuditRow}

/-- The reader turns a page whose rows are `rows`. -/
structure Turns (reader : Reader) (store : ModerationAuditStore) (limit : UInt16) (cursor : Int)
    (rows : List ModerationAuditRow) : Prop where
  page : auditPageRows store.events reader.roomId cursor limit.toNat = rows
  from_none : reader.cursor = none → cursor = i64Max
  from_some : ∀ c, reader.cursor = some c → cursor = c.toNat
  ids : ∀ r ∈ rows, 0 < r.auditId ∧ r.auditId ≤ i64Max ∧
    (r.asRecord.auditId.toNat : Int) = r.auditId

theorem turns (hs : AuditInv store)
    (hpage : moderationAuditPage store reader.roomId reader.cursor limit = .ok page) :
    ∃ cursor rows, Turns reader store limit cursor rows ∧
      page = { records := rows.map asRecord } := by
  obtain ⟨cursor, hcursor, hrecords⟩ := moderationAuditPage_records hpage
  refine ⟨cursor, _, ⟨rfl, ?_, ?_, ?_⟩, by rw [← hrecords]⟩
  · intro hnone
    rcases auditCursor_ok hcursor with ⟨_, hmax⟩ | ⟨c, hsome, _⟩
    · exact hmax
    · rw [hnone] at hsome; cases hsome
  · intro c hc
    rcases auditCursor_ok hcursor with ⟨hnone, _⟩ | ⟨c', hsome, hval⟩
    · rw [hc] at hnone; cases hnone
    · rw [hc] at hsome
      cases hsome
      exact hval
  · intro r hr
    obtain ⟨hin, _, _⟩ := mem_auditPageRows hr
    have hpos := hs.positive r hin
    have hle := (hs.spent r hin).trans hs.range
    exact ⟨hpos, hle, asRecord_auditId hpos.le hle⟩

/-- Where the cursor is after the page. -/
theorem cursor_turned :
    (reader.turn limit { records := rows.map asRecord }).cursor =
      (rows.getLast?.map (fun r => r.asRecord.auditId)).or reader.cursor := by
  show ((rows.map _).getLast?.map _).or _ = _
  rw [getLast?_map, Option.map_map]
  rfl

variable (ht : Turns reader store limit cursor rows)
include ht

/-- The records of the page are below the cursor it was read from. -/
theorem Turns.below (h : reader.Follows store)
    (hrecord : record ∈ reader.returned) (hr : r ∈ rows) : r.asRecord.auditId < record.auditId := by
  obtain ⟨c, hc, hle⟩ := h.floor record hrecord
  have hlt := (mem_auditPageRows (ht.page ▸ hr)).2.2
  have hid := (ht.ids r hr).2.2
  rw [ht.from_some c hc] at hlt
  rw [UInt64.lt_iff_toNat_lt]
  have := UInt64.le_iff_toNat_le.mp hle
  omega

theorem Turns.descending (h : reader.Follows store) :
    (reader.returned ++ rows.map asRecord).Pairwise
      (fun a b => b.auditId < a.auditId) := by
  refine pairwise_append.mpr ⟨h.descending, pairwise_map.mpr ?_, ?_⟩
  · rw [← ht.page]
    refine (auditPageRows_descending store _ _ _).imp_of_mem ?_
    intro a b ha hb hlt
    have ha := (ht.ids a (ht.page ▸ ha)).2.2
    have hb := (ht.ids b (ht.page ▸ hb)).2.2
    rw [UInt64.lt_iff_toNat_lt]
    omega
  · intro record hrecord record' hrecord'
    obtain ⟨r, hr, rfl⟩ := mem_map.mp hrecord'
    exact ht.below h hrecord hr

theorem Turns.floor (h : reader.Follows store)
    (hrecord : record ∈ reader.returned ++ rows.map asRecord) :
    ∃ c, (rows.getLast?.map (fun r => r.asRecord.auditId)).or reader.cursor = some c ∧
      c ≤ record.auditId := by
  cases hlast : rows.getLast? with
  | none =>
    rw [getLast?_eq_none_iff] at hlast
    subst hlast
    rw [map_nil, append_nil] at hrecord
    exact h.floor record hrecord
  | some last =>
    refine ⟨last.asRecord.auditId, rfl, ?_⟩
    have hmem : last ∈ rows := mem_of_getLast? hlast
    rcases mem_append.mp hrecord with hrecord | hrecord
    · exact UInt64.le_of_lt (ht.below h hrecord hmem)
    · obtain ⟨front, rfl⟩ := getLast?_eq_some_iff.mp hlast
      have hdesc := (pairwise_append.mp (ht.descending h)).2.1
      rw [map_append] at hdesc hrecord
      rcases mem_append.mp hrecord with hrecord | hrecord
      · exact UInt64.le_of_lt
          ((pairwise_append.mp hdesc).2.2 record hrecord _ mem_cons_self)
      · rw [map_singleton, mem_singleton] at hrecord
        rw [hrecord]
        exact UInt64.le_refl _

/-- What the reader has come past with this page, it had come past before, or is on the page. -/
theorem Turns.seen (hs : AuditInv store)
    (hbelow : store.sequence < i64Max) (hr : r ∈ store.events.rows)
    (hroom : r.roomId = reader.roomId)
    (hpassed : (reader.turn limit { records := rows.map asRecord }).Passed r) :
    reader.Passed r ∨ r ∈ rows := by
  by_cases hlt : r.auditId < cursor
  · by_cases hshort : rows.length < limit.toNat
    · refine .inr (ht.page ▸ mem_auditPageRows_of_reached hr hroom hlt (.inl ?_))
      rw [ht.page]
      exact hshort
    · rcases hpassed with hended | ⟨c, hc, hle⟩
      · have hold : reader.ended = true := by
          simpa [Reader.turn, hshort] using hended
        exact .inl (.inl hold)
      · rw [cursor_turned] at hc
        cases hlast : rows.getLast? with
        | none =>
          rw [hlast] at hc
          exact .inl (.inr ⟨c, hc, hle⟩)
        | some last =>
          rw [hlast] at hc
          have hid := (ht.ids last (mem_of_getLast? hlast)).2.2
          obtain rfl : last.asRecord.auditId = c := some.inj hc
          refine .inr (ht.page ▸ mem_auditPageRows_of_reached hr hroom hlt (.inr ⟨last, ?_, ?_⟩))
          · rw [ht.page]
            exact hlast
          · omega
  · -- the row was above the page: the reader had started, since every id is below the last one
    cases hc : reader.cursor with
    | none =>
      have := hs.spent r hr
      rw [ht.from_none hc] at hlt
      omega
    | some c =>
      rw [ht.from_some c hc] at hlt
      exact .inl (.inr ⟨c, hc, by omega⟩)

end

theorem Reader.Follows.turn (h : reader.Follows store) (hs : AuditInv store)
    (hbelow : store.sequence < i64Max) {limit : UInt16}
    (hpage : moderationAuditPage store reader.roomId reader.cursor limit = .ok page) :
    (reader.turn limit page).Follows store := by
  obtain ⟨cursor, rows, ht, rfl⟩ := turns hs hpage
  constructor
  case descending => exact ht.descending h
  case inRoom =>
    intro record hrecord
    rcases mem_append.mp hrecord with hrecord | hrecord
    · exact h.inRoom record hrecord
    · obtain ⟨r, hr, rfl⟩ := mem_map.mp hrecord
      exact (mem_auditPageRows (ht.page ▸ hr)).2.1
  case began => exact h.began
  case spent => exact h.spent
  case cursor =>
    intro c hc
    rw [cursor_turned] at hc
    cases hlast : rows.getLast? with
    | none =>
      rw [hlast] at hc
      exact h.cursor c hc
    | some last =>
      rw [hlast] at hc
      obtain rfl : last.asRecord.auditId = c := some.inj hc
      obtain ⟨hpos, hle, hid⟩ := ht.ids last (mem_of_getLast? hlast)
      refine ⟨fun hzero => ?_, by omega⟩
      rw [hzero, UInt64.toNat_zero] at hid
      omega
  case floor =>
    intro record hrecord
    rw [cursor_turned]
    exact ht.floor h hrecord
  case seen =>
    intro r hr hroom hold hpassed
    rcases ht.seen hs hbelow hr hroom hpassed with hbefore | hrow
    · exact mem_append_left _ (h.seen r hr hroom hold hbefore)
    · exact mem_append_right _ (mem_map_of_mem hrow)

end

/-! Whole runs. -/

/-- What paging promises: the records that were returned are of the room and in strictly
descending order, so none came twice; a record that was there at the beginning and is there still
was returned once the reader came past it; and the stored records are within their bounds. -/
structure AuditServer.Sound (s : AuditServer) : Prop where
  perRoom : ∀ roomId, roomAuditRows roomId s.store.events ≤ maxModerationAuditRowsPerRoom
  global : (s.store.events.rows.length : Int) ≤ maxModerationAuditRowsGlobal
  bytes : ((s.store.events.rows.map ModerationAuditRow.retainedBytes).sum : Int) ≤
    maxModerationAuditBytesGlobal
  descending : ∀ reader, s.reader = some reader →
    reader.returned.Pairwise (fun a b => b.auditId < a.auditId)
  inRoom : ∀ reader, s.reader = some reader →
    ∀ record ∈ reader.returned, record.roomId = reader.roomId
  once : ∀ reader, s.reader = some reader → ∀ r ∈ reader.began.events.rows,
    r ∈ s.store.events.rows → r.roomId = reader.roomId → reader.Passed r →
    reader.returned.count r.asRecord = 1
  answered : ∀ reader, s.reader = some reader → reader.roomId ≠ 0 → ∀ limit : UInt16,
    1 ≤ limit.toNat ∧ limit.toNat ≤ moderationAuditPageMaxEntries →
    ∃ page, (auditStep s (.next limit)).1 = .page page

section
variable {s : AuditServer}

theorem AuditServer.Inv.sound (h : s.Inv) : s.Sound where
  perRoom := h.store.perRoom
  global := h.store.global
  bytes := h.store.bytes
  descending := fun reader hreader => (h.reader reader hreader).descending
  inRoom := fun reader hreader => (h.reader reader hreader).inRoom
  once := by
    intro reader hreader r hbegan hr hroom hpassed
    have hfollows := h.reader reader hreader
    have hmem := hfollows.seen r hr hroom (hfollows.spent r hbegan) hpassed
    refine count_eq_one_of_mem ?_ hmem
    refine hfollows.descending.imp ?_
    rintro a b hlt rfl
    exact UInt64.lt_irrefl _ hlt
  answered := by
    intro reader hreader hroom limit hlimit
    have hcursor : ∃ cursor, auditCursor reader.cursor = .ok cursor ∧ reader.cursor ≠ some 0 := by
      cases hc : reader.cursor with
      | none => exact ⟨i64Max, rfl, fun hzero => by cases hzero⟩
      | some c =>
        obtain ⟨hnonzero, hle⟩ := (h.reader reader hreader).cursor c hc
        refine ⟨c.toNat, ?_, fun hzero => hnonzero (some.inj hzero)⟩
        simp only [auditCursor, toI64, if_pos hle]
    obtain ⟨cursor, hcursor, hnonzero⟩ := hcursor
    obtain ⟨page, hpage⟩ : ∃ page,
        moderationAuditPage s.store reader.roomId reader.cursor limit = .ok page :=
      ⟨_, moderationAuditPage_answers h.store hroom hlimit hnonzero hcursor⟩
    exact ⟨page, by simp only [auditStep, hreader, hpage]⟩

theorem AuditServer.Inv.step (h : s.Inv) {i : AuditInput} (hi : BelowLastId s i) :
    (auditStep s i).2.Inv := by
  cases i with
  | append a now =>
    have hbelow : s.store.sequence + 1 < i64Max := hi
    simp only [auditStep]
    cases happend : (Txn.atomically (appendModerationAuditAt a now) s.store).1 with
    | error e =>
      rw [Txn.atomically_error happend]
      exact h
    | ok admission =>
      -- a new row stands above all pages that were read
      have happends := append_audit_cases (Txn.atomically_ok.mp happend)
      generalize (Txn.atomically (appendModerationAuditAt a now) s.store).2 = store at happends
      refine ⟨happends.inv h.store, ?_, fun reader hreader => ?_⟩
      · cases happends with
        | saturated t _ => exact h.below
        | stored t t' id row hkept hnext _ _ _ _ _ =>
          rw [(h.store.of_sublist hkept).nextAuditId] at hnext
          simp only at hnext ⊢
          omega
      · exact (h.reader reader hreader).append h.store happends
  | lost => exact h
  | begin roomId =>
    refine ⟨h.store, h.below, ?_⟩
    rintro reader hreader
    cases hreader
    constructor
    case descending => exact List.Pairwise.nil
    case inRoom => intro record hrecord; cases hrecord
    case began => exact Int.le_refl _
    case spent => exact h.store.spent
    case cursor => intro c hc; cases hc
    case floor => intro record hrecord; cases hrecord
    case seen =>
      rintro r _ _ _ (hended | ⟨c, hc, _⟩)
      · cases hended
      · cases hc
  | next limit =>
    simp only [auditStep]
    cases hreader : s.reader with
    | none => exact h
    | some reader =>
      simp only
      cases hpage : moderationAuditPage s.store reader.roomId reader.cursor limit with
      | error e => exact h
      | ok page =>
        refine ⟨h.store, h.below, ?_⟩
        rintro reader' hreader'
        cases hreader'
        exact (h.reader reader hreader).turn h.store h.below hpage

end

theorem AuditServer.inv_fresh : AuditServer.fresh.Inv :=
  ⟨auditInv_empty, by decide, fun reader hreader => by cases hreader⟩

/-- Over every run of appends and pages in which no append is given the largest id there is. -/
theorem audit_paging_runs (inputs : List AuditInput)
    (h : Machine.Meets auditStep BelowLastId AuditServer.fresh inputs) :
    (run auditStep AuditServer.fresh inputs).2.Sound := by
  have hinv : (run auditStep AuditServer.fresh inputs).2.Inv :=
    run_invariant (fun s i hs hi => hs.step hi) AuditServer.fresh inputs h
      AuditServer.inv_fresh
  exact hinv.sound

def auditedUser (userId : UserId) (displayName : String) : ServerUser :=
  { userId
    identityHash := []
    displayName
    roleBits := 0
    statusBits := 0
    lxmfDestination := none
    profileRevision := 0
    nicknameColourRgb := none }

/-- A moderator kicks a user from the lobby. -/
def lobbyKick : AuditedAction :=
  { roomId := 1
    actor := auditedUser 1 "alice"
    target := auditedUser 2 "bob"
    action := .kick
    resultRoleBits := none
    resultStatusBits := none }

theorem audit_paging_runs_kick :
    Machine.Meets auditStep BelowLastId AuditServer.fresh
      [.append lobbyKick 0, .begin 1, .next 10] ∧
    (run auditStep AuditServer.fresh [.append lobbyKick 0, .begin 1, .next 10]).2.Sound := by
  have hmeets : Machine.Meets auditStep BelowLastId AuditServer.fresh
      [.append lobbyKick 0, .begin 1, .next 10] := by
    refine ⟨?_, trivial, trivial, trivial⟩
    show (0 : Int) + 1 < i64Max
    decide
  exact ⟨hmeets, audit_paging_runs _ hmeets⟩

/-! The record that is never read. -/

/-- The store after `n` kicks at one time. -/
structure Flooded (n : Int) (s : ModerationAuditStore) : Prop where
  inv : AuditInv s
  sequence : s.sequence = n
  rows : ∀ r ∈ s.events.rows, r.roomId = 1 ∧ r.committedAt = 0 ∧ r.retainedBytes = 72
  newest : 0 < n → ∃ r ∈ s.events.rows, r.auditId = n

section
variable {s : ModerationAuditStore} {n : Int} {t : Table auditId}

theorem hasAuditCapacity_eq {bytes : Nat} {usage : Int × Int}
    (h : rowUsage ModerationAuditRow.retainedBytes t.rows = .ok usage) :
    hasAuditCapacity roomId bytes t =
      .ok (decide (roomAuditRows roomId t < maxModerationAuditRowsPerRoom) &&
        decide (usage.1 < maxModerationAuditRowsGlobal) &&
        (checkedAddI64 usage.2 bytes).any (fun bytes =>
          decide (bytes ≤ maxModerationAuditBytesGlobal))) := by
  rw [hasAuditCapacity, h]
  rfl

variable (hrows : ∀ r ∈ t.rows, r.roomId = 1 ∧ r.committedAt = 0 ∧ r.retainedBytes = 72)
include hrows

/-- A full table of kicks has too many rows, and nothing else. -/
theorem hasAuditCapacity_kicks
    (hlength : t.rows.length ≤ 2048) :
    hasAuditCapacity 1 72 t = .ok (decide (t.rows.length < 2048)) := by
  have hsum : (t.rows.map ModerationAuditRow.retainedBytes).sum = 72 * t.rows.length := by
    rw [map_congr_left fun r hr => (hrows r hr).2.2, map_const', sum_replicate]
    simp [Nat.mul_comm]
  have hroom : roomAuditRows 1 t = t.rows.length := by
    unfold roomAuditRows
    rw [countP_eq_length.mpr fun r hr => beq_iff_eq.mpr (hrows r hr).1]
  have husage : rowUsage ModerationAuditRow.retainedBytes t.rows =
      .ok ((t.rows.length : Int), ((72 * t.rows.length : Nat) : Int)) := by
    refine AuditLog.rowUsage_ok.mpr ⟨?_, by rw [hsum]⟩
    rw [hsum, i64Max]
    omega
  have hadd : checkedAddI64 ((72 * t.rows.length : Nat) : Int) ((72 : Nat) : Int) =
      some (((72 * t.rows.length : Nat) : Int) + ((72 : Nat) : Int)) := by
    unfold checkedAddI64 i64Min i64Max
    rw [if_pos (by omega)]
  have hchecks : (decide ((t.rows.length : Int) < maxModerationAuditRowsPerRoom) &&
      decide ((t.rows.length : Int) < maxModerationAuditRowsGlobal) &&
      decide (((72 * t.rows.length : Nat) : Int) + ((72 : Nat) : Int) ≤
        maxModerationAuditBytesGlobal)) = decide (t.rows.length < 2048) := by
    rw [Bool.eq_iff_iff]
    simp only [Bool.and_eq_true, decide_eq_true_eq]
    unfold maxModerationAuditRowsPerRoom maxModerationAuditRowsGlobal maxModerationAuditBytesGlobal
    omega
  rw [hasAuditCapacity_eq husage, hroom, hadd, any_some, hchecks]

/-- One deletion makes room for one more kick. -/
theorem makeRoom_kicks
    (hlength : t.rows.length ≤ 2048) : ∃ t', makeRoom 1 72 64 t = .ok (true, t') ∧
      t'.rows.Sublist t.rows := by
  have hcapacity := hasAuditCapacity_kicks hrows hlength
  by_cases hfull : t.rows.length < 2048
  · rw [decide_eq_true hfull] at hcapacity
    exact ⟨t, bind_ok.mpr ⟨true, hcapacity, rfl⟩, List.Sublist.refl _⟩
  · rw [decide_eq_false hfull] at hcapacity
    have hroom : roomAuditRows 1 t ≥ maxModerationAuditRowsPerRoom := by
      unfold roomAuditRows maxModerationAuditRowsPerRoom
      rw [countP_eq_length.mpr fun r hr => beq_iff_eq.mpr (hrows r hr).1]
      omega
    obtain ⟨r, hr⟩ : ∃ r, r ∈ t.rows := exists_mem_of_length_pos (by omega)
    obtain ⟨oldest, holdest⟩ := exists_first? (byKey auditId) hr
      (p := fun r => r.roomId == 1) (beq_iff_eq.mpr (hrows r hr).1)
    have hmem := (mem_of_first? holdest).1
    have hone : t.rows.length = 1 + (t.deleteRows [oldest]).rows.length := by
      have hsome : ∀ v ∈ [oldest], v ∈ t.rows := by simpa using hmem
      have hperm := perm_deleteRows hsome (nodup_singleton _)
      rw [hperm.length_eq, length_append, length_singleton]
    have hsub := deleteRows_sublist t [oldest]
    have hagain := hasAuditCapacity_kicks (fun r hr => hrows r (hsub.subset hr)) (by omega)
    rw [decide_eq_true (by omega)] at hagain
    refine ⟨t.deleteRows [oldest], bind_ok.mpr ⟨false, hcapacity, ?_⟩, hsub⟩
    have hold : oldestForCapacity 1 t = some oldest := (if_pos hroom).trans holdest
    simp only [Bool.false_eq_true, if_false, hold]
    exact bind_ok.mpr ⟨true, hagain, rfl⟩

omit hrows

/-- Kicks at one time do not age. -/
theorem expiredBatch_kicks
    (hrows : ∀ r ∈ s.events.rows, r.roomId = 1 ∧ r.committedAt = 0 ∧ r.retainedBytes = 72) :
    s.expiredBatch 0 = [] := by
  rw [← length_eq_zero_iff, ModerationAuditStore.expiredBatch, length_batch,
    countP_eq_zero.mpr, Nat.min_zero]
  intro r hr
  rw [(hrows r hr).2.1]
  decide

theorem append_kick (h : Flooded n s) (hn : n + 1 ≤ i64Max) :
    ∃ s', appendModerationAuditAt lobbyKick 0 s = .ok (.stored (n + 1), s') ∧
      Flooded (n + 1) s' := by
  have hlength : s.events.rows.length ≤ 2048 := by
    have hroom := h.inv.perRoom 1
    unfold roomAuditRows maxModerationAuditRowsPerRoom at hroom
    rw [countP_eq_length.mpr fun r hr => beq_iff_eq.mpr (h.rows r hr).1] at hroom
    omega
  -- the oldest rows go, and the sequence goes on
  obtain ⟨t, hmade, hsub⟩ := makeRoom_kicks h.rows hlength
  have ht := h.inv.of_sublist hsub
  have hnext : ModerationAuditStore.nextAuditId { s with events := t } = n + 1 := by
    rw [ht.nextAuditId, ← h.sequence]
  have hnonneg := h.inv.nonneg
  rw [h.sequence] at hnonneg
  have hfresh : ∀ q ∈ t.rows, q.auditId ≠ (lobbyKick.row 0 72 (n + 1)).auditId := by
    intro q hq
    have hspent := ht.spent q hq
    simp only [h.sequence] at hspent
    show q.auditId ≠ n + 1
    omega
  obtain ⟨t', hinsert⟩ := exists_insert hfresh
  have hinserted : ModerationAuditStore.insert { s with events := t } (lobbyKick.row 0 72) =
      .ok (n + 1, { events := t', sequence := n + 1 }) := by
    have hchecks : (lobbyKick.row 0 72 (n + 1)).meetsChecks = true := rfl
    simp only [ModerationAuditStore.insert, hnext, if_neg (not_lt.mpr hn), hchecks, hinsert]
    rfl
  have hrun : appendModerationAuditAt lobbyKick 0 s =
      .ok (.stored (n + 1), { events := t', sequence := n + 1 }) := by
    refine Txn.lift_bind_ok.mpr ⟨72, rfl, Txn.lift_bind_ok.mpr ⟨(), rfl, ?_⟩⟩
    rw [Txn.query_bind, Txn.execute_bind, expiredBatch_kicks h.rows]
    have hkeep : s.events.deleteRows [] = s.events :=
      ext (filter_eq_self.mpr fun _ _ => rfl)
    refine Txn.bind_ok.mpr ⟨true, { s with events := t }, ?_, ?_⟩
    · exact map_ok.mpr ⟨(true, t), by rw [hkeep]; exact hmade, rfl⟩
    · refine Txn.lift_bind_ok.mpr ⟨(), rfl, Txn.bind_ok.mpr
        ⟨n + 1, { events := t', sequence := n + 1 }, ?_, ?_⟩⟩
      · exact mapError_ok.mpr hinserted
      · exact require_bind_ok.mpr ⟨by omega, rfl⟩
  refine ⟨_, hrun, (append_audit_cases hrun).inv h.inv, rfl, ?_, ?_⟩
  · simp only [(insert_ok.mp hinsert).1]
    exact forall_mem_cons.mpr ⟨⟨rfl, rfl, rfl⟩, fun r hr => h.rows r (hsub.subset hr)⟩
  · intro _
    refine ⟨lobbyKick.row 0 72 (n + 1), ?_, rfl⟩
    simp only [(insert_ok.mp hinsert).1, mem_cons_self]

theorem flooded_run (n : Nat) (hn : (n : Int) ≤ i64Max) :
    Flooded n (run auditStep AuditServer.fresh
      (replicate n (.append lobbyKick 0))).2.store := by
  induction n with
  | zero =>
    refine ⟨auditInv_empty, rfl, ?_, fun h => absurd h (Int.lt_irrefl 0)⟩
    intro r hr
    cases hr
  | succ n ih =>
    have hflooded := ih (by omega)
    rw [replicate_succ', run_append]
    obtain ⟨s', hrun, hnext⟩ := append_kick hflooded (by omega)
    simp only [run, auditStep, Txn.atomically, hrun]
    exact_mod_cast hnext

end

/-- A run that kicks until the ids are used up, and then reads the audit. -/
def lastIdRun : List AuditInput :=
  replicate i64Max.toNat (.append lobbyKick 0) ++ [.begin 1, .next 256]

section
variable {s : AuditServer} {rows : List ModerationAuditRow} {limit : UInt16}

/-- A reader that begins and turns one page. -/
theorem run_begin_next (hpage : moderationAuditPage s.store roomId none limit = .ok page) :
    (run auditStep s [.begin roomId, .next limit]).2 =
      { s with reader := some ((Reader.start roomId s.store).turn limit page) } := by
  simp only [run, auditStep, Reader.start, hpage]

/-- A first page that is not empty reaches every row above it, and an empty one ends the reading. -/
theorem passed_of_first_page (hlimit : 0 < limit.toNat)
    (hbelow : ∀ q ∈ rows, (q.asRecord.auditId.toNat : Int) ≤ r.auditId) :
    ((Reader.start roomId s.store).turn limit
      { records := rows.map asRecord }).Passed r := by
  cases hlast : rows.getLast? with
  | none =>
    obtain rfl := getLast?_eq_none_iff.mp hlast
    exact .inl (decide_eq_true hlimit)
  | some last =>
    refine .inr ⟨last.asRecord.auditId, ?_, hbelow last (mem_of_getLast? hlast)⟩
    rw [cursor_turned, hlast]
    rfl

/-- The record with the largest id is there when the reader begins and is there still, the reader
has come past it, and it was not returned. -/
theorem last_id_unread (hs : AuditInv s.store) (hr : r ∈ s.store.events.rows) (hroom : r.roomId = 1)
    (hid : r.auditId = i64Max)
    (hlimit : 1 ≤ limit.toNat ∧ limit.toNat ≤ moderationAuditPageMaxEntries) :
    ¬(run auditStep s [.begin 1, .next limit]).2.Sound := by
  have hpage : moderationAuditPage s.store 1 none limit =
      .ok { records :=
        (auditPageRows s.store.events 1 i64Max limit.toNat).map asRecord } :=
    moderationAuditPage_answers hs (by decide) hlimit (by decide) rfl
  have hbelow : ∀ q ∈ auditPageRows s.store.events 1 i64Max limit.toNat, q.auditId < i64Max ∧
      (q.asRecord.auditId.toNat : Int) = q.auditId := by
    intro q hq
    obtain ⟨hmem, _, hlt⟩ := mem_auditPageRows hq
    exact ⟨hlt, asRecord_auditId (hs.positive q hmem).le hlt.le⟩
  rw [run_begin_next hpage]
  generalize auditPageRows s.store.events 1 i64Max limit.toNat = rows at hbelow
  intro hsound
  have hpassed : ((Reader.start 1 s.store).turn limit
      { records := rows.map asRecord }).Passed r :=
    passed_of_first_page hlimit.1 fun q hq => by
      rw [(hbelow q hq).2, hid]
      exact (hbelow q hq).1.le
  have hcount := hsound.once _ rfl r hr hr hroom hpassed
  have hmem : r.asRecord ∈ rows.map asRecord := by
    apply count_pos_iff.mp
    exact Nat.lt_of_lt_of_eq Nat.one_pos hcount.symm
  obtain ⟨q, hq, hsame⟩ := mem_map.mp hmem
  obtain ⟨hlt, heq⟩ := hbelow q hq
  have hrid := asRecord_auditId (r := r) (hs.positive r hr).le hid.le
  rw [hsame, hrid, hid] at heq
  rw [← heq] at hlt
  exact Int.lt_irrefl _ hlt

end

theorem lastIdRun_not_sound :
    ¬(run auditStep AuditServer.fresh lastIdRun).2.Sound := by
  have hflooded := flooded_run i64Max.toNat (by decide)
  rw [lastIdRun, run_append]
  generalize (run auditStep AuditServer.fresh
    (replicate i64Max.toNat (.append lobbyKick 0))).2 = s at hflooded
  obtain ⟨r, hr, hid⟩ := hflooded.newest (by decide)
  exact last_id_unread hflooded.inv hr (hflooded.rows r hr).1 hid (by decide)

end Omen.Server
