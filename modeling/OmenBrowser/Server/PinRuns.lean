import OmenBrowser.Server.PinInvariant

/- Runs of pins.

   A well-formed request to pin or unpin is answered, whatever was done before, as long as the ids
   are not used up: it meets every constraint of the two tables. So a run of pins can be followed
   by what it shows, the pinned events and the rooms and times of the audit rows (`PinView`).

   In runs that leave room to unpin the store is sound. The last part is a run that does not: 64
   old audit rows of one room and a full audit of another, whose pins cannot be removed. -/
namespace Omen.Server
open Wire Sql Ints Omen.Protocol List Machine Table AuditLog

/-! Requests are answered. -/

section
variable {history : List (ProjectionInput × ProjectionOutput)} {s : ProjectionStore}
  {t : SequencedDatabase} {db : Database} {roomId : RoomId} {actorUserId : UserId}
  {request : PinRequest} {now : Int}

/-- The id that comes next is that of the sequence. -/
theorem nextPinEventId_eq (hpos : 0 ≤ t.pinSequence)
    (h : ∀ a ∈ t.database.roomPinEvents.rows, a.pinEventId ≤ t.pinSequence) :
    t.nextPinEventId = t.pinSequence + 1 := by
  have hle : maxOrZero (t.database.roomPinEvents.rows.map PinEventRow.pinEventId) ≤
      t.pinSequence := by
    by_cases hmax : 0 < maxOrZero (t.database.roomPinEvents.rows.map PinEventRow.pinEventId)
    · obtain ⟨a, ha, hid⟩ := mem_map.mp (maxOrZero_mem hmax)
      rw [← hid]
      exact h a ha
    · omega
  rw [SequencedDatabase.nextPinEventId, Int.max_eq_left hle]

theorem activePinAddHasCapacity_answers (db : Database) (roomId : RoomId)
    (h : PinBounds db.roomPins) : ∃ b, activePinAddHasCapacity roomId db = .ok (b, db) := by
  have hbytes := h.bytes
  have husage : rowUsage PinRow.retainedBytes db.roomPins.rows =
      .ok ((db.roomPins.rows.length : Int), ((db.roomPins.rows.map PinRow.retainedBytes).sum : Int)) := by
    refine rowUsage_ok.mpr ⟨?_, rfl⟩
    unfold i64Max
    unfold maxActivePinBytesGlobal at hbytes
    omega
  exact ⟨_, Txn.lift_bind_ok.mpr ⟨_, husage, rfl⟩⟩

theorem pinHasRoom_answers (action : PinAction) (roomId : RoomId) (db : Database)
    (h : PinBounds db.roomPins) : ∃ b, pinHasRoom action roomId db = .ok (b, db) := by
  cases action with
  | pin => exact activePinAddHasCapacity_answers db roomId h
  | unpin => exact ⟨true, rfl⟩

theorem ensurePinAuditCapacity_answers (roomId : RoomId) (releasable : Option Int) (left : Nat)
    (db : Database) (h : pinAudit.Within pinAuditRetainedBytes db.roomPinEvents) :
    ∃ b kept, kept.rows.Sublist db.roomPinEvents.rows ∧
      ensurePinAuditCapacity roomId releasable left db =
        .ok (b, pinAudit.put kept db) := by
  have hbytes : (pinAudit.bytes db.roomPinEvents.rows : Int) ≤ i64Max := by
    have hle := bytes_le h.wide
    have hrows := h.whole
    unfold i64Max
    simp only [pinAudit, maxPinAuditRowsGlobal, pinAuditRetainedBytes] at hle hrows ⊢
    omega
  exact ⟨_, _, evict_sublist,
    (ensureCapacity_ok fun _ _ => rfl).mpr ⟨hbytes, rfl, rfl⟩⟩

theorem changePin_answers {action : PinAction} {row : PinRow} (hchecks : row.meetsChecks = true)
    (hids : ∀ p ∈ db.roomPins.rows, p.pinEventId ≠ row.pinEventId)
    (hchanges : pinChanges action (db.pin? row.roomId row.targetEventId) = true) :
    Txn.Ends (changePin action row) db := by
  cases action with
  | pin =>
    have hnone := Table.find?_eq_none.mp (Option.isNone_iff_eq_none.mp hchanges)
    have hunique : db.roomPins.rows.any (fun p => p.pinEventId == row.pinEventId) = false := by
      rw [any_eq_false]
      intro p hp hsame
      exact hids p hp (beq_iff_eq.mp hsame)
    obtain ⟨pins, hinsert⟩ := Table.exists_insert (t := db.roomPins) (r := row) hnone
    have hpin : db.insertPin row = .ok { db with roomPins := pins } := by
      unfold Database.insertPin
      rw [hchecks, hunique, hinsert]
      rfl
    refine ⟨((), { db with roomPins := pins }), ?_⟩
    show (Except.mapError ServerError.sqlite (db.insertPin row)).map (fun db => ((), db)) = _
    rw [hpin]
    rfl
  | unpin =>
    obtain ⟨p, hp⟩ := Option.isSome_iff_exists.mp hchanges
    obtain ⟨hmem, hkey⟩ := pin?_eq_some.mp hp
    have hone : db.roomPins.rows.countP (fun p => p.key == (row.roomId, row.targetEventId)) = 1 := by
      rw [← hkey]
      exact countP_key hmem
    exact .bind rfl ⟨_, require_run hone _⟩

/-- The statements of a request that is admitted meet every constraint. -/
theorem recordPin_answers {target : Int} (hactor : 0 < actorUserId.toNat) (htarget : 0 < target)
    (hnow : 0 ≤ now) (hpos : 0 ≤ t.pinSequence) (hmax : t.pinSequence < i64Max)
    (hevents : ∀ a ∈ t.database.roomPinEvents.rows, a.pinEventId ≤ t.pinSequence)
    (hpins : ∀ p ∈ t.database.roomPins.rows, p.pinEventId ≤ t.pinSequence)
    (hchanges : pinChanges request.action (t.database.pin? roomId target) = true) :
    Txn.Ends (recordPin roomId actorUserId request target now) t := by
  have hid := nextPinEventId_eq hpos hevents
  have hchecks : (pinEventRow roomId target actorUserId request.action now
      t.nextPinEventId).meetsChecks = true := by
    unfold PinEventRow.meetsChecks pinEventRow
    simp only [Bool.and_eq_true, decide_eq_true_eq]
    refine ⟨⟨⟨htarget, by omega⟩, ?_⟩, hnow⟩
    cases request.action <;> decide
  obtain ⟨events, hinsert⟩ : ∃ events, t.database.roomPinEvents.insert
      (pinEventRow roomId target actorUserId request.action now t.nextPinEventId) = .ok events := by
    apply exists_insert
    intro a ha hsame
    have hle := hevents a ha
    have : a.pinEventId = t.nextPinEventId := hsame
    omega
  have hevent : t.insertPinEvent (pinEventRow roomId target actorUserId request.action now) =
      .ok (t.nextPinEventId, ⟨{ t.database with roomPinEvents := events }, t.nextPinEventId⟩) := by
    unfold SequencedDatabase.insertPinEvent
    rw [if_neg (by omega), hchecks, hinsert]
    rfl
  have hrow : (pinRow roomId target actorUserId now t.nextPinEventId).meetsChecks = true := by
    unfold PinRow.meetsChecks pinRow
    simp only [Bool.and_eq_true, decide_eq_true_eq]
    exact ⟨⟨⟨htarget, by omega⟩, by omega⟩, hnow⟩
  have hfresh : ∀ p ∈ t.database.roomPins.rows, p.pinEventId ≠ t.nextPinEventId := by
    intro p hp hsame
    have hle := hpins p hp
    omega
  obtain ⟨r, hpin⟩ : Txn.Ends (changePin request.action (pinRow roomId target actorUserId now
      t.nextPinEventId)) { t.database with roomPinEvents := events } :=
    changePin_answers hrow hfresh hchanges
  have hid_pos : 0 < t.nextPinEventId := by omega
  refine .bind (Outcome.mapError_ok.mpr hevent) (.bind (require_run hid_pos _) ?_)
  exact .bind (Txn.zoom_ok.mpr ⟨r.2, hpin, rfl⟩) (.pure _ _)

/-- In a state that a run reaches, a well-formed request does not fail as long as the ids are not
used up. -/
theorem pin_answers (h : PinsKept history s) (roomId : RoomId) (request : PinRequest)
    (hactor : 0 < actorUserId.toNat) (htarget : 0 < request.targetEventId)
    (hsmall : (request.targetEventId : Int) ≤ i64Max) (hnow : 0 ≤ now)
    (hpos : 0 ≤ s.tables.pinSequence) (hmax : s.tables.pinSequence < i64Max) :
    Txn.Ends (applyPinMutationAt roomId actorUserId request now) s.tables := by
  have hne : actorUserId ≠ 0 := by
    rintro rfl
    cases hactor
  have hfit : toI64 request.targetEventId = some (request.targetEventId : Int) := if_pos hsmall
  -- each check may end the request, and none fails
  unfold applyPinMutationAt
  rw [if_neg hne]
  simp only [hfit]
  refine .bind rfl (.bind rfl ?_)
  split
  · exact .pure _ _
  · refine .bind (Txn.zoom_ok.mpr ⟨_, pruneExpired_eq, rfl⟩) ?_
    split
    · exact .pure _ _
    · next hchanges =>
      have hpins : ∀ p ∈ s.database.roomPins.rows, p.pinEventId ≤ s.tables.pinSequence := by
        intro p hp
        obtain ⟨a, ha, hpa⟩ := h.audited p hp
        rw [← hpa.id]
        exact h.sequenced a ha
      have hsub := deleteRows_sublist s.database.roomPinEvents
        (pinAudit.stale s.database.isPrunable now s.database.roomPinEvents)
      obtain ⟨fits, hactive⟩ := pinHasRoom_answers request.action roomId
        (pinAudit.put (prunedPinAudit s.database now) s.database) h.bounds
      refine .bind (Txn.zoom_ok.mpr ⟨_, hactive, rfl⟩) ?_
      split
      · exact .pure _ _
      · obtain ⟨room, kept, hkept, hroom⟩ := ensurePinAuditCapacity_answers roomId
          (releasedBy s.database roomId request)
          (pinAudit.budget s.database.isPrunable now s.database.roomPinEvents)
          (pinAudit.put (prunedPinAudit s.database now) s.database) (h.within.sublist hsub)
        refine .bind (Txn.zoom_ok.mpr ⟨_, hroom, rfl⟩) ?_
        split
        · exact .pure _ _
        · have hadmitted : pinChanges request.action
              (s.database.pin? roomId request.targetEventId) = true := by simpa using hchanges
          have hevents : ∀ a ∈ kept.rows, a.pinEventId ≤ s.tables.pinSequence :=
            fun a ha => h.sequenced a (hsub.subset (hkept.subset ha))
          obtain ⟨r, hrecord⟩ := recordPin_answers (t := ⟨pinAudit.put kept s.database, _⟩) hactor
            (Int.natCast_pos.mpr htarget) hnow hpos hmax hevents hpins
            hadmitted
          exact .bind hrecord (.pure _ _)

end

/-! What a run of pins shows. -/

/-- The stored events, the pinned ones, and the room and time of each audit row, in a store whose
messages are not revised. -/
structure PinView (s : ProjectionStore) (events : Table RoomEventRow.key)
    (pinned log : List (RoomId × Int)) : Prop where
  kept : ∃ history, PinsKept history s
  events : s.database.roomEvents = events
  unrevised : s.database.roomMessageRevisionState = empty
  pins : s.database.roomPins.rows.map PinRow.key = pinned
  light : ∀ p ∈ s.database.roomPins.rows, p.retainedBytes = activePinRetainedBytes
  audit : s.database.roomPinEvents.rows.map (fun a => (a.roomId, a.atUnix)) = log
  sequence : s.tables.pinSequence = log.length

def pinRequest (roomId : RoomId) (target : EventId) (action : PinAction) (now : Int) :
    ProjectionInput :=
  .request (.pin roomId 1 ⟨target, action⟩ now)

/-- The time has come for the audit row. -/
def pastAge (now : Int) (entry : RoomId × Int) : Bool :=
  decide (entry.2 < saturatingSub now pinAuditRetentionAgeSeconds)

section
variable {s : ProjectionStore} {events : Table RoomEventRow.key} {pinned log : List (RoomId × Int)}
  {roomId : RoomId} {target : EventId} {action : PinAction} {now : Int}

variable (h : PinView s events pinned log)
include h

theorem PinView.countP (p : RoomId × Int → Bool) :
    s.database.roomPinEvents.rows.countP (fun a => p (a.roomId, a.atUnix)) = log.countP p := by
  rw [← h.audit, countP_map]
  rfl

theorem PinView.length :
    s.database.roomPinEvents.rows.length = log.length := by
  rw [← h.audit, length_map]

/-- The request is answered. -/
theorem PinView.answer (roomId : RoomId) (action : PinAction)
    (htarget : 0 < target)
    (hsmall : (target : Int) ≤ i64Max) (hnow : 0 ≤ now) (hwhole : log.length < 16384) :
    ∃ result t, PinOutcome s.tables roomId 1 ⟨target, action⟩ now result t ∧
      projectionStep s (pinRequest roomId target action now) =
        (.pinned result, { s with tables := t }) := by
  obtain ⟨history, hkept⟩ := h.kept
  have hsequence := h.sequence
  have hmax : s.tables.pinSequence < i64Max := by
    unfold i64Max
    omega
  obtain ⟨⟨result, t⟩, hr⟩ := pin_answers hkept roomId ⟨target, action⟩
    (by decide : 0 < (1 : UserId).toNat) htarget hsmall hnow (by omega) hmax
  refine ⟨result, t, applyPin_outcome hr, ?_⟩
  unfold projectionStep pinRequest ProjectionStore.transact Txn.atomically
  simp only [hr]

/-- No audit row is old, and there is room for one more: nothing is pruned. -/
theorem PinView.room (releasable : Option Int)
    (hquiet : ∀ entry ∈ log, pastAge now entry = false)
    (hroom : log.countP (fun entry => entry.1 == roomId) < 1024) (hwhole : log.length < 16384) :
    pinRoom s.database roomId releasable now = (true, s.database.roomPinEvents) := by
  obtain ⟨history, hkept⟩ := h.kept
  have hstale : pinAudit.stale s.database.isPrunable now s.database.roomPinEvents = [] := by
    apply eq_nil_iff_forall_not_mem.mpr
    intro a ha
    obtain ⟨hmem, hexpired, _⟩ := stale_mem ha
    have hold := hquiet (a.roomId, a.atUnix) (h.audit ▸ mem_map_of_mem hmem)
    cases hold.symm.trans hexpired
  have hpruned : prunedPinAudit s.database now = s.database.roomPinEvents := by
    unfold prunedPinAudit pruned
    rw [hstale]
    exact ext (filter_true _)
  have hfits : pinAudit.fits roomId pinAuditRetainedBytes s.database.roomPinEvents = true := by
    refine (hkept.within.fits_iff (Int.le_refl _)).mpr ⟨?_, ?_⟩
    · have hcount : s.database.roomPinEvents.rows.countP (pinAudit.ofRoom roomId) = _ :=
        h.countP fun entry => entry.1 == roomId
      rw [hcount]
      exact Int.ofNat_le.mpr hroom
    · rw [h.length]
      exact Int.ofNat_le.mpr hwhole
  unfold pinRoom
  rw [hpruned, madeRoom, evict_of_fits hfits]

/-- A request that is admitted, with room for its rows, changes the pins. -/
theorem PinView.accepts (htarget : 0 < target)
    (hsmall : (target : Int) ≤ i64Max) (hnow : 0 ≤ now)
    (hadmitted : PinAdmitted s.database roomId ⟨target, action⟩)
    (hfits : action = .pin → PinFits s.database.roomPins roomId)
    (hquiet : ∀ entry ∈ log, pastAge now entry = false)
    (hroom : log.countP (fun entry => entry.1 == roomId) < 1024) (hwhole : log.length < 16384) :
    ∃ id pins, PinChange action (pinRow roomId target 1 now id) s.database.roomPins pins ∧
      PinView (projectionStep s (pinRequest roomId target action now)).2 events
        (pins.rows.map PinRow.key) ((roomId, now) :: log) := by
  obtain ⟨result, t, hout, hstep⟩ := h.answer roomId action htarget hsmall hnow hwhole
  obtain ⟨history, hkept⟩ := h.kept
  have hkept' := pin_step history s (pinRequest roomId target action now) hkept
  have hmade := h.room (releasedBy s.database roomId ⟨target, action⟩) hquiet hroom hwhole
  rw [hstep] at hkept' ⊢
  cases hout with
  | unavailable hno => cases hno.symm.trans hadmitted.available
  | unchanged _ hno => cases hno.symm.trans hadmitted.changes
  | activeFull _ hpin hfull => exact absurd (hfits hpin) hfull
  | auditFull _ _ hfull =>
    rw [hmade] at hfull
    cases hfull
  | @changed _ _ id hid hpos pins hpins newEvents hevents =>
    rw [hmade] at hid hevents
    -- nothing was pruned, so there is an audit row for each id
    have hnext : id = log.length + 1 := by
      rw [hid, ← h.sequence]
      exact nextPinEventId_eq (by rw [h.sequence]; exact Int.natCast_nonneg _) hkept.sequenced
    refine ⟨id, pins, hpins, ⟨_, hkept'⟩, h.events, h.unrevised, rfl, ?_, ?_, hnext⟩
    · intro p hp
      cases action with
      | pin =>
        have hp : p ∈ _ :: s.database.roomPins.rows := hpins.2.1 ▸ hp
        rcases mem_cons.mp hp with rfl | hp
        · rfl
        · exact h.light p hp
      | unpin =>
        have hp : p ∈ (deleteWhere s.database.roomPins _).rows := hpins.1 ▸ hp
        exact h.light p (mem_deleteWhere.mp hp).1
    · show newEvents.rows.map (fun a => (a.roomId, a.atUnix)) = _
      rw [hevents, map_cons, h.audit]
      rfl

theorem PinView.pinEligible
    (hevent : (events.find? (roomId, (target : Int))).any
      (fun e => !e.deleted && [1, 2, 3, 5].contains e.eventKind) = true) :
    s.database.pinEligible roomId target = true := by
  unfold Database.pinEligible Database.targetEligible Database.isTombstoned
  rw [h.events, h.unrevised, hevent]
  rfl

/-- An event that is not pinned yet is pinned. -/
theorem PinView.pin (roomId : RoomId) (target : EventId)
    (now : Int) (htarget : 0 < target) (hsmall : (target : Int) ≤ i64Max) (hnow : 0 ≤ now)
    (hevent : (events.find? (roomId, (target : Int))).any
      (fun e => !e.deleted && [1, 2, 3, 5].contains e.eventKind) = true)
    (hfree : (roomId, (target : Int)) ∉ pinned) (hfew : pinned.length < 64)
    (hquiet : ∀ entry ∈ log, pastAge now entry = false)
    (hroom : log.countP (fun entry => entry.1 == roomId) < 1024) (hwhole : log.length < 16384) :
    PinView (projectionStep s (pinRequest roomId target .pin now)).2 events
      ((roomId, (target : Int)) :: pinned) ((roomId, now) :: log) := by
  have hnone : s.database.pin? roomId target = none := by
    refine Table.find?_eq_none.mpr fun p hp hkey => hfree ?_
    rw [← hkey, ← h.pins]
    exact mem_map_of_mem hp
  have hlength : s.database.roomPins.rows.length < 64 := by
    rw [← h.pins, length_map] at hfew
    exact hfew
  have hfits : PinFits s.database.roomPins roomId := by
    have hcount := countP_le_length (p := fun p : PinRow => p.roomId == roomId)
      (l := s.database.roomPins.rows)
    have hlight : ∀ n ∈ s.database.roomPins.rows.map PinRow.retainedBytes, n ≤ 32 := by
      intro n hn
      obtain ⟨p, hp, rfl⟩ := mem_map.mp hn
      exact (h.light p hp).le
    have hbytes : (s.database.roomPins.rows.map PinRow.retainedBytes).sum ≤
        s.database.roomPins.rows.length * 32 := by
      simpa using sum_le_card_nsmul _ 32 hlight
    refine ⟨?_, ?_, ?_⟩
    · unfold maxActivePinsPerRoom
      omega
    · unfold maxActivePinsGlobal
      omega
    · unfold maxActivePinBytesGlobal activePinRetainedBytes
      omega
  have hadmitted : PinAdmitted s.database roomId ⟨target, .pin⟩ :=
    ⟨h.pinEligible hevent, by rw [hnone]; rfl⟩
  obtain ⟨id, pins, hchange, hview⟩ := h.accepts htarget hsmall hnow hadmitted (fun _ => hfits) hquiet
    hroom hwhole
  rw [hchange.2.1, map_cons, h.pins] at hview
  exact hview

omit h

/-- The event that was pinned last is unpinned. -/
theorem PinView.unpin (h : PinView s events ((roomId, (target : Int)) :: pinned) log)
    (htarget : 0 < target) (hsmall : (target : Int) ≤ i64Max) (hnow : 0 ≤ now)
    (hquiet : ∀ entry ∈ log, pastAge now entry = false)
    (hroom : log.countP (fun entry => entry.1 == roomId) < 1024) (hwhole : log.length < 16384) :
    PinView (projectionStep s (pinRequest roomId target .unpin now)).2 events pinned
      ((roomId, now) :: log) := by
  have hmem : (roomId, (target : Int)) ∈ s.database.roomPins.rows.map PinRow.key := by
    rw [h.pins]
    exact mem_cons_self
  obtain ⟨p, hp, hkey⟩ := mem_map.mp hmem
  have hsome : s.database.pin? roomId target = some p := pin?_eq_some.mpr ⟨hp, hkey⟩
  have hadmitted : PinAdmitted s.database roomId ⟨target, .unpin⟩ := by
    refine ⟨?_, by rw [hsome]; rfl⟩
    rw [hsome]
    rfl
  obtain ⟨id, pins, hchange, hview⟩ := h.accepts htarget hsmall hnow hadmitted
    (fun hpin => by cases hpin) hquiet hroom hwhole
  have hrest : pins.rows.map PinRow.key = pinned := by
    have hnodup := s.database.roomPins.unique
    have hfilter : pins.rows.map PinRow.key = (s.database.roomPins.rows.map PinRow.key).filter
        (fun k => !(k == (roomId, (target : Int)))) := by
      rw [hchange.1, filter_map]
      rfl
    rw [h.pins] at hnodup hfilter
    rw [hfilter, filter_cons_of_neg (by simp), filter_eq_self]
    intro k hk
    have hne : k ≠ (roomId, (target : Int)) := by
      rintro rfl
      exact (nodup_cons.mp hnodup).1 hk
    simpa using hne
  rw [hrest] at hview
  exact hview

/-- An event is pinned and unpinned some times. -/
def toggles (roomId : RoomId) (target : EventId) (now : Int) : Nat → List ProjectionInput
  | 0 => []
  | n + 1 =>
    pinRequest roomId target .pin now :: pinRequest roomId target .unpin now ::
      toggles roomId target now n

/-- Each time adds two audit rows. -/
theorem PinView.toggles (h : PinView s events [] log) (roomId : RoomId) (target : EventId)
    (now : Int) (n : Nat) (htarget : 0 < target) (hsmall : (target : Int) ≤ i64Max) (hnow : 0 ≤ now)
    (hevent : (events.find? (roomId, (target : Int))).any
      (fun e => !e.deleted && [1, 2, 3, 5].contains e.eventKind) = true)
    (hcurrent : pastAge now (roomId, now) = false)
    (hquiet : ∀ entry ∈ log, pastAge now entry = false)
    (hroom : log.countP (fun entry => entry.1 == roomId) + 2 * n ≤ 1024)
    (hwhole : log.length + 2 * n ≤ 16384) :
    PinView (run projectionStep s (toggles roomId target now n)).2 events []
      (replicate (2 * n) (roomId, now) ++ log) := by
  -- on the number of times; the audit rows of those before are in `log`
  induction n generalizing s log with
  | zero => exact h
  | succ n ih =>
    have hquiet₁ : ∀ entry ∈ (roomId, now) :: log, pastAge now entry = false :=
      forall_mem_cons.mpr ⟨hcurrent, hquiet⟩
    have hquiet₂ : ∀ entry ∈ (roomId, now) :: (roomId, now) :: log, pastAge now entry = false :=
      forall_mem_cons.mpr ⟨hcurrent, hquiet₁⟩
    have hcount₁ : ((roomId, now) :: log).countP (fun entry => entry.1 == roomId) =
        log.countP (fun entry => entry.1 == roomId) + 1 := countP_cons_of_pos (by simp)
    have hcount₂ : ((roomId, now) :: (roomId, now) :: log).countP (fun entry => entry.1 == roomId) =
        log.countP (fun entry => entry.1 == roomId) + 2 := by
      rw [countP_cons_of_pos (by simp), hcount₁]
    have hpin := h.pin roomId target now htarget hsmall hnow hevent not_mem_nil (by decide) hquiet
      (by omega) (by omega)
    have hunpin := hpin.unpin htarget hsmall hnow hquiet₁ (by omega)
      (by rw [length_cons]; omega)
    have hrest := ih hunpin hquiet₂ (by omega) (by rw [length_cons, length_cons]; omega)
    have hlog : replicate (2 * (n + 1)) (roomId, now) ++ log =
        replicate (2 * n) (roomId, now) ++ (roomId, now) :: (roomId, now) :: log := by
      rw [Nat.mul_succ, replicate_add, append_assoc]
      rfl
    rw [hlog]
    exact hrest

section
variable (h : PinView s events pinned log)
include h

/-- Old audit rows of rooms without pins use up what one request may prune: a row of such a room
belongs to no pin. -/
theorem PinView.spent
    (hold : 64 ≤ log.countP (fun entry => pastAge now entry && !pinned.any (fun k => k.1 == entry.1))) :
    pinAudit.budget s.database.isPrunable now s.database.roomPinEvents = 0 := by
  obtain ⟨history, hkept⟩ := h.kept
  have hspent : 64 ≤ s.database.roomPinEvents.rows.countP
      (fun r => pinAudit.expired now r && s.database.isPrunable r) := by
    rw [← h.countP] at hold
    refine hold.trans (countP_mono_left fun r hr hentry => ?_)
    obtain ⟨hexpired, hroom⟩ := Bool.and_eq_true_iff.mp hentry
    refine Bool.and_eq_true_iff.mpr ⟨hexpired, ?_⟩
    by_contra hpinned
    unfold Database.isPrunable at hpinned
    rw [Bool.not_eq_true, Bool.not_eq_false'] at hpinned
    obtain ⟨q, hq, hid⟩ := any_eq_true.mp hpinned
    obtain ⟨a, ha, hqa⟩ := hkept.audited q hq
    obtain rfl := eq_of_key ha hr (hqa.id.trans (beq_iff_eq.mp hid))
    have hany : pinned.any (fun k => k.1 == a.roomId) = true := by
      refine any_eq_true.mpr ⟨q.key, ?_, beq_iff_eq.mpr hqa.room.symm⟩
      rw [← h.pins]
      exact mem_map_of_mem hq
    rw [hany] at hroom
    cases hroom
  by_contra hleft
  have hlt := budget_pos_iff.mp (Nat.pos_of_ne_zero hleft)
  have : (64 : Nat) = pinAudit.maxPrunedPerMutation := rfl
  omega

/-- A room whose audit is full of rows that are not old is still full after the pruning for age. -/
theorem PinView.full (hfull : 1024 ≤ log.countP (fun entry => entry.1 == roomId && !pastAge now entry)) :
    pinAudit.fits roomId pinAuditRetainedBytes (prunedPinAudit s.database now) = false := by
  have hcount : 1024 ≤ (prunedPinAudit s.database now).rows.countP (pinAudit.ofRoom roomId) := by
    rw [← h.countP] at hfull
    refine hfull.trans ?_
    rw [prunedPinAudit, pruned, deleteRows, deleteWhere, countP_filter]
    refine countP_mono_left fun r hr hentry => ?_
    obtain ⟨hroom, hfresh⟩ := Bool.and_eq_true_iff.mp hentry
    refine Bool.and_eq_true_iff.mpr ⟨hroom, ?_⟩
    have hexpired : pastAge now (r.roomId, r.atUnix) = false := by simpa using hfresh
    have hstays : r ∈ (prunedPinAudit s.database now).rows :=
      mem_pruned_of_fresh hr hexpired
    exact (mem_filter.mp hstays).2
  by_contra hfits
  have hlimit := of_decide_eq_true (Bool.not_eq_false _ ▸ hfits)
  have : pinAudit.maxRowsPerRoom = 1024 := rfl
  omega

/-- Where nothing is left to prune and the audit of the room is still full, its pins cannot be
removed. -/
theorem PinView.refuses (htarget : 0 < target)
    (hsmall : (target : Int) ≤ i64Max) (hnow : 0 ≤ now) (hmem : (roomId, (target : Int)) ∈ pinned)
    (hold : 64 ≤ log.countP (fun entry => pastAge now entry && !pinned.any (fun k => k.1 == entry.1)))
    (hfull : 1024 ≤ log.countP (fun entry => entry.1 == roomId && !pastAge now entry))
    (hwhole : log.length < 16384) :
    (s.database.pin? roomId target).isSome = true ∧
    (projectionStep s (pinRequest roomId target .unpin now)).1 = .pinned .saturated := by
  rw [← h.pins] at hmem
  obtain ⟨p, hp, hkey⟩ := mem_map.mp hmem
  have hsome : s.database.pin? roomId target = some p := pin?_eq_some.mpr ⟨hp, hkey⟩
  refine ⟨by rw [hsome]; rfl, ?_⟩
  obtain ⟨result, t, hout, hstep⟩ := h.answer roomId .unpin htarget hsmall hnow hwhole
  rw [hstep]
  cases hout with
  | unavailable hno =>
    rw [hsome] at hno
    cases hno
  | unchanged _ hno =>
    rw [hsome] at hno
    cases hno
  | activeFull _ hpin _ => cases hpin
  | auditFull _ _ _ => rfl
  | changed _ hroom _ _ _ _ =>
    rw [pinRoom_spent (h.spent hold), h.full hfull] at hroom
    cases hroom

end

end

/-- In every run that leaves room to unpin, every active pin has its audit row, the active pins are
within their limits and the ids of all pins and unpins increase; a pin is accepted only for an
eligible target, and no unpin is refused for capacity. -/
theorem pin_store_sound (s : ProjectionStore) (hfresh : s.Fresh) (inputs : List ProjectionInput)
    (hleaves : Machine.Meets projectionStep LeavesRoomToUnpin s inputs) :
    PinsAudited (run projectionStep s inputs).2.database.roomPins
      (run projectionStep s inputs).2.database.roomPinEvents ∧
    PinBounds (run projectionStep s inputs).2.database.roomPins ∧
    (pinIds (run projectionStep s inputs).1).Pairwise (· < ·) ∧
    Machine.Meets projectionStep PinStepSound s inputs := by
  have hkept := run_history (I := PinsKept) (fun h s i hs _ => pin_step h s i hs) s inputs
    (meets_true _ _) (pinsKept_fresh hfresh)
  refine ⟨hkept.audited, hkept.bounds, hkept.ids.increasing, ?_⟩
  refine meets_of_invariant (I := fun s => ∃ history, PinsKept history s) ?_ ?_ hleaves
    ⟨[], pinsKept_fresh hfresh⟩
  · intro s i ⟨history, h⟩ _
    exact ⟨_, pin_step history s i h⟩
  · intro s i ⟨_, h⟩ hleaves
    exact pin_step_sound s i h.within h.audited hleaves

/-- A message is pinned and unpinned. -/
def pinnedOnce : List ProjectionInput :=
  [.history (.append 1 (some 1) (.message "a") none ⟨0, 0, 0⟩), pinRequest 1 1 .pin 0,
   pinRequest 1 1 .unpin 1]

theorem pinnedOnce_leaves :
    Machine.Meets projectionStep LeavesRoomToUnpin (.initial .disabled) pinnedOnce := by
  refine ⟨trivial, fun hunpin => ?_, fun _ _ => ?_, trivial⟩
  · cases hunpin
  · exact .inl (by decide)

theorem pin_store_sound_pinnedOnce :
    pinIds (run projectionStep (.initial .disabled) pinnedOnce).1 = [1, 2] ∧
    Machine.Meets projectionStep PinStepSound (.initial .disabled) pinnedOnce :=
  ⟨rfl, (pin_store_sound _ (ProjectionStore.initial_fresh _) pinnedOnce pinnedOnce_leaves).2.2.2⟩

/-- Two messages in room 1 and one in room 2. -/
def threeMessages : List ProjectionInput :=
  [.history (.append 1 (some 1) (.message "a") none ⟨0, 0, 0⟩),
   .history (.append 1 (some 1) (.message "b") none ⟨0, 0, 0⟩),
   .history (.append 2 (some 1) (.message "c") none ⟨0, 0, 0⟩)]

/-- 64 audit rows of room 2, and a second later the 1024 that room 1 may have. -/
def crowdedAudit : List ProjectionInput :=
  threeMessages ++ (toggles 2 1 0 32 ++ (toggles 1 1 1 511 ++
    [pinRequest 1 1 .pin 1, pinRequest 1 2 .pin 1]))

/-- The audit rows before the two last ones. -/
def crowdedLog : List (RoomId × Int) :=
  replicate (2 * 511) (1, 1) ++ (replicate (2 * 32) (2, 0) ++ [])

theorem countP_crowdedLog (p : RoomId × Int → Bool) :
    crowdedLog.countP p = (if p (1, 1) then 1022 else 0) + if p (2, 0) then 64 else 0 := by
  rw [crowdedLog, append_nil, countP_append, countP_replicate, countP_replicate]

theorem length_crowdedLog : crowdedLog.length = 1086 := by
  rw [crowdedLog, append_nil, length_append, length_replicate, length_replicate]

theorem mem_crowdedLog {entry : RoomId × Int} (h : entry ∈ crowdedLog) :
    entry = (1, 1) ∨ entry = (2, 0) := by
  rw [crowdedLog, append_nil, mem_append] at h
  exact h.imp eq_of_mem_replicate eq_of_mem_replicate

theorem crowdedAudit_view :
    PinView (run projectionStep (.initial .disabled) crowdedAudit).2
      (run projectionStep (.initial .disabled) threeMessages).2.database.roomEvents
      [(1, 2), (1, 1)] ((1, 1) :: (1, 1) :: crowdedLog) := by
  have hstart : PinView (run projectionStep (.initial .disabled) threeMessages).2
      (run projectionStep (.initial .disabled) threeMessages).2.database.roomEvents [] [] := by
    have hkept := run_history (I := PinsKept) (fun h s i hs _ => pin_step h s i hs)
      (.initial .disabled) threeMessages (meets_true _ _)
      (pinsKept_fresh (ProjectionStore.initial_fresh _))
    exact ⟨⟨_, hkept⟩, rfl, rfl, rfl, (fun p hp => by cases hp), rfl, rfl⟩
  have hquiet : ∀ entry ∈ crowdedLog, pastAge 1 entry = false := by
    intro entry hentry
    rcases mem_crowdedLog hentry with rfl | rfl
    · rfl
    · rfl
  have hother := hstart.toggles 2 1 0 32 (by decide) (by decide) (by decide) rfl rfl
    (fun entry hentry => by cases hentry) (by decide) (by decide)
  have hroom : PinView _ _ [] crowdedLog := hother.toggles 1 1 1 511
    (by decide) (by decide) (by decide) rfl rfl
    (fun entry hentry => hquiet entry (mem_append_right _ hentry))
    (by rw [append_nil, countP_replicate]; decide)
    (by rw [append_nil, length_replicate]; decide)
  have hone := hroom.pin 1 1 1 (by decide) (by decide) (by decide) rfl (by decide) (by decide) hquiet
    (by rw [countP_crowdedLog]; decide) (by rw [length_crowdedLog]; decide)
  have hquiet' : ∀ entry ∈ (1, 1) :: crowdedLog, pastAge 1 entry = false :=
    forall_mem_cons.mpr ⟨rfl, hquiet⟩
  have htwo := hone.pin 1 2 1 (by decide) (by decide) (by decide) rfl (by decide) (by decide) hquiet'
    (by rw [countP_cons, countP_crowdedLog]; decide)
    (by rw [length_cons, length_crowdedLog]; decide)
  unfold crowdedAudit
  rw [run_append, run_append, run_append]
  exact htwo

/-- A pin of room 1 cannot be removed 180 days later. -/
theorem unpin_refused_for_capacity :
    ((run projectionStep (.initial .disabled) crowdedAudit).2.database.pin? 1
      ((1 : EventId) : Int)).isSome = true ∧
    (projectionStep (run projectionStep (.initial .disabled) crowdedAudit).2
      (pinRequest 1 1 .unpin (180 * 24 * 60 * 60 + 1))).1 = .pinned .saturated := by
  refine crowdedAudit_view.refuses (by decide) (by decide) (by decide) (by decide) ?_ ?_ ?_
  · rw [countP_cons, countP_cons, countP_crowdedLog]
    decide
  · rw [countP_cons, countP_cons, countP_crowdedLog]
    decide
  · rw [length_cons, length_cons, length_crowdedLog]
    decide

end Omen.Server
