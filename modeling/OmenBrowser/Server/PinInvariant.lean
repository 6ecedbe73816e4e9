import OmenBrowser.Server.ProjectionIds

/- The pins of a store along a run.

   Every active pin has the audit row it refers to. Pruning spares the audit rows of active pins;
   the one row it may not spare belongs to the pin that the request is about to remove. A
   compaction deletes pins and audit rows by target, and a pin and its audit row have the same one.
   Ids come from the sequence of the table and never go down.

   An unpin needs room for its audit row, and may release the row of its own pin to get it. It
   finds none if rows past the retention age use up all that one request may prune, and the room is
   still full without them. -/
namespace Omen.Server
open Wire Sql Ints Omen.Protocol List Table

variable {releasable : Option Int} {db : Database}

/-! The invariant. -/

/-- The active pins are within their limits. -/
structure PinBounds (t : Table PinRow.key) : Prop where
  room : ∀ roomId : RoomId, (t.rows.countP (fun p => p.roomId == roomId) : Int) ≤ maxActivePinsPerRoom
  rows : (t.rows.length : Int) ≤ maxActivePinsGlobal
  bytes : ((t.rows.map PinRow.retainedBytes).sum : Int) ≤ maxActivePinBytesGlobal

/-- The audit row of a pin. -/
structure AuditOf (p : PinRow) (a : PinEventRow) : Prop where
  id : a.pinEventId = p.pinEventId
  room : a.roomId = p.roomId
  target : a.targetEventId = p.targetEventId

/-- Every pin has its audit row. -/
def PinsAudited (pins : Table PinRow.key) (events : Table PinEventRow.pinEventId) : Prop :=
  ∀ p ∈ pins.rows, ∃ a ∈ events.rows, AuditOf p a

def ProjectionOutput.pinId? : ProjectionOutput → Option Nat
  | .pinned (.changed e) => some e.pinEventId
  | _ => none

/-- The ids that were returned, of all rooms. -/
def pinIds (history : List (ProjectionInput × ProjectionOutput)) : List Nat :=
  history.filterMap (fun p => p.2.pinId?)

structure PinsKept (history : List (ProjectionInput × ProjectionOutput)) (s : ProjectionStore) :
    Prop where
  audited : PinsAudited s.database.roomPins s.database.roomPinEvents
  bounds : PinBounds s.database.roomPins
  within : pinAudit.Within pinAuditRetainedBytes s.database.roomPinEvents
  sequenced : ∀ a ∈ s.database.roomPinEvents.rows, a.pinEventId ≤ s.tables.pinSequence
  ids : IdsBelow (pinIds history) s.tables.pinSequence

section
variable {pins pins' : Table PinRow.key} {events events' : Table PinEventRow.pinEventId}

theorem PinBounds.sublist (h : PinBounds pins) (hsub : pins'.rows.Sublist pins.rows) :
    PinBounds pins' := by
  refine ⟨?_, ?_, ?_⟩
  · intro roomId
    exact countP_le_of_sublist hsub (h.room roomId)
  · exact length_le_of_sublist hsub h.rows
  · exact sum_le_of_sublist _ hsub h.bytes

theorem PinBounds.add (h : PinBounds pins) {row : PinRow} (hfits : PinFits pins row.roomId)
    (hrows : pins'.rows = row :: pins.rows) (hbytes : row.retainedBytes = activePinRetainedBytes) :
    PinBounds pins' := by
  refine ⟨fun roomId => ?_, ?_, ?_⟩
  · rw [hrows]
    refine countP_cons_le (h.room roomId) fun hroom => ?_
    obtain rfl := beq_iff_eq.mp hroom
    exact hfits.room
  · have hnew := hfits.rows
    rw [hrows, length_cons]
    omega
  · have hnew := hfits.bytes
    rw [hrows, map_cons, sum_cons, hbytes]
    omega

/-- Two pins do not share an audit row. -/
theorem PinsAudited.eq_of_id (h : PinsAudited pins events) {p q : PinRow} (hp : p ∈ pins.rows)
    (hq : q ∈ pins.rows) (hid : p.pinEventId = q.pinEventId) : p = q := by
  obtain ⟨a, ha, hpa⟩ := h p hp
  obtain ⟨b, hb, hqb⟩ := h q hq
  obtain rfl := eq_of_key ha hb (hpa.id.trans (hid.trans hqb.id.symm))
  apply eq_of_key hp hq
  exact Prod.ext (hpa.room.symm.trans hqb.room) (hpa.target.symm.trans hqb.target)

/-- The audit rows of the pins that are left are still there. -/
theorem PinsAudited.keep (h : PinsAudited pins events) (hsub : ∀ p ∈ pins'.rows, p ∈ pins.rows)
    (hkept : ∀ p ∈ pins'.rows, ∀ a ∈ events.rows, AuditOf p a → a ∈ events'.rows) :
    PinsAudited pins' events' := by
  intro p hp
  obtain ⟨a, ha, hpa⟩ := h p (hsub p hp)
  exact ⟨a, hkept p hp a ha hpa, hpa⟩

end

/-! What pruning spares. -/

section
variable {db : Database} {roomId : RoomId} {now : Int} {p : PinRow} {a : PinEventRow}

section
variable (hp : p ∈ db.roomPins.rows) (ha : AuditOf p a)
include hp ha

theorem isPrunable_eq_false : db.isPrunable a = false := by
  unfold Database.isPrunable
  rw [Bool.not_eq_false']
  exact any_eq_true.mpr ⟨p, hp, beq_iff_eq.mpr ha.id.symm⟩

theorem mem_prunedPinAudit (hmem : a ∈ db.roomPinEvents.rows) : a ∈ (prunedPinAudit db now).rows := by
  refine AuditLog.mem_pruned.mpr ⟨hmem, fun hstale => ?_⟩
  have hfree := (AuditLog.stale_mem hstale).2.2
  rw [isPrunable_eq_false hp ha] at hfree
  cases hfree

/-- Making room spares the audit row of a pin that is not released. -/
theorem mem_pinRoom (hmem : a ∈ db.roomPinEvents.rows) (hother : releasable ≠ some a.pinEventId) :
    a ∈ (pinRoom db roomId releasable now).2.rows := by
  apply evict_spares (mem_prunedPinAudit hp ha hmem)
  unfold Database.isReleasable
  rw [isPrunable_eq_false hp ha, Bool.false_or, beq_eq_false_iff_ne]
  exact hother

end

theorem pinRoom_sublist : (pinRoom db roomId releasable now).2.rows.Sublist db.roomPinEvents.rows :=
  evict_sublist.trans (deleteRows_sublist _ _)

/-- Nothing is left to prune. -/
theorem pinRoom_spent (h : pinAudit.budget db.isPrunable now db.roomPinEvents = 0) :
    pinRoom db roomId releasable now =
      (pinAudit.fits roomId pinAuditRetainedBytes (prunedPinAudit db now), prunedPinAudit db now) := by
  unfold pinRoom
  rw [h]
  rfl

/-- With something left to prune, releasing a row of the room makes room. -/
theorem pinRoom_releases (hwithin : pinAudit.Within pinAuditRetainedBytes db.roomPinEvents)
    (hp : p ∈ db.roomPins.rows) (ha : AuditOf p a) (hmem : a ∈ db.roomPinEvents.rows)
    (hroom : p.roomId = roomId)
    (hleft : 0 < pinAudit.budget db.isPrunable now db.roomPinEvents) :
    (pinRoom db roomId (some p.pinEventId) now).1 = true := by
  have hpruned : pinAudit.Within pinAuditRetainedBytes (prunedPinAudit db now) :=
    hwithin.sublist (deleteRows_sublist _ _)
  have hkept : a ∈ (prunedPinAudit db now).rows := mem_prunedPinAudit hp ha hmem
  have hfree : Database.isReleasable (some p.pinEventId) db a = true := by
    unfold Database.isReleasable
    rw [ha.id, beq_self_eq_true, Bool.or_true]
  obtain ⟨left, hbudget⟩ : ∃ left, pinAudit.budget db.isPrunable now db.roomPinEvents = left + 1 :=
    ⟨_, (Nat.succ_pred_eq_of_pos hleft).symm⟩
  unfold pinRoom
  rw [hbudget]
  cases hfits : pinAudit.fits roomId pinAuditRetainedBytes (prunedPinAudit db now) with
  | true => rw [AuditLog.madeRoom, evict_of_fits hfits]
  | false =>
    obtain ⟨v, hv⟩ := exists_first? (pinAudit.byRoomThenAge roomId) hkept hfree
    rw [hpruned.madeRoom_one (Int.le_refl _) hfits hv]
    intro _
    exact ⟨a, hkept, hfree, ha.room.trans hroom⟩

end

/-! Steps. -/

/-- The unpin of an active pin finds room for its audit row, or may still prune for it. -/
def LeavesRoomToUnpin (s : ProjectionStore) : ProjectionInput → Prop
  | .request (.pin roomId _ request now) =>
    request.action = .unpin → (s.database.pin? roomId request.targetEventId).isSome = true →
      s.database.roomPinEvents.rows.countP (fun r => pinAudit.expired now r && s.database.isPrunable r) <
        maxPinAuditPrunedPerMutation ∨
      pinAudit.fits roomId pinAuditRetainedBytes (prunedPinAudit s.database now) = true
  | _ => True

/-- A pin that changes the store has an eligible target at that moment, and an unpin is not refused
for capacity. -/
def PinStepSound (s : ProjectionStore) : ProjectionInput → Prop
  | .request (.pin roomId actorUserId request now) =>
    (∀ e, (projectionStep s (.request (.pin roomId actorUserId request now))).1 =
        .pinned (.changed e) → request.action = .pin →
      s.database.pinEligible roomId request.targetEventId = true) ∧
    (request.action = .unpin →
      (projectionStep s (.request (.pin roomId actorUserId request now))).1 ≠ .pinned .saturated)
  | _ => True

section
variable {t t' : SequencedDatabase} {roomId : RoomId} {actorUserId : UserId} {request : PinRequest}
  {now : Int}

/-- The pin an unpin is about. -/
theorem unpin_current (hadmitted : PinAdmitted db roomId request)
    (haction : request.action = .unpin) :
    ∃ p, db.pin? roomId request.targetEventId = some p ∧ p ∈ db.roomPins.rows ∧
      p.key = (roomId, (request.targetEventId : Int)) ∧
      releasedBy db roomId request = some p.pinEventId := by
  have hchanges := hadmitted.changes
  rw [haction] at hchanges
  obtain ⟨p, hp⟩ := Option.isSome_iff_exists.mp hchanges
  obtain ⟨hmem, hkey⟩ := pin?_eq_some.mp hp
  refine ⟨p, hp, hmem, hkey, ?_⟩
  unfold releasedBy
  rw [haction, hp]
  rfl

theorem pin_releases_nothing (haction : request.action = .pin) :
    releasedBy db roomId request = none := by
  unfold releasedBy
  rw [haction]
  rfl

section
variable (hwithin : pinAudit.Within pinAuditRetainedBytes db.roomPinEvents)
  (haudited : PinsAudited db.roomPins db.roomPinEvents) (hadmitted : PinAdmitted db roomId request)
include hwithin haudited hadmitted

/-- Where an unpin finds no room, nothing was left to prune. -/
theorem unpin_refused (haction : request.action = .unpin)
    (hfull : (pinRoom db roomId (releasedBy db roomId request) now).1 = false) :
    pinAudit.budget db.isPrunable now db.roomPinEvents = 0 := by
  obtain ⟨p, _, hp, hkey, hreleased⟩ := unpin_current hadmitted haction
  obtain ⟨a, ha, hpa⟩ := haudited p hp
  by_contra hleft
  rw [hreleased, pinRoom_releases hwithin hp hpa ha (Prod.mk.inj hkey).1
    (Nat.pos_of_ne_zero hleft)] at hfull
  cases hfull

/-- A request that finds no room has the audit rows of all pins. -/
theorem PinsAudited.full (hfull : (pinRoom db roomId (releasedBy db roomId request) now).1 = false) :
    PinsAudited db.roomPins (pinRoom db roomId (releasedBy db roomId request) now).2 := by
  refine haudited.keep (fun p hp => hp) fun p hp a ha hpa => ?_
  cases haction : request.action with
  | pin =>
    rw [pin_releases_nothing haction]
    exact mem_pinRoom hp hpa ha fun hnone => by cases hnone
  | unpin =>
    rw [pinRoom_spent (unpin_refused hwithin haudited hadmitted haction hfull)]
    exact mem_prunedPinAudit hp hpa ha

end

/-- A request that changes the pins has the audit rows of all that are left, and of the new one. -/
theorem PinsAudited.changed {db : Database} {id : Int} {pins : Table PinRow.key}
    {events : Table PinEventRow.pinEventId} (haudited : PinsAudited db.roomPins db.roomPinEvents)
    (hadmitted : PinAdmitted db roomId request)
    (hpins : PinChange request.action (pinRow roomId request.targetEventId actorUserId now id)
      db.roomPins pins)
    (hevents : events.rows =
      pinEventRow roomId request.targetEventId actorUserId request.action now id ::
        (pinRoom db roomId (releasedBy db roomId request) now).2.rows) :
    PinsAudited pins events := by
  intro p hp
  cases haction : request.action with
  | pin =>
    rw [haction] at hpins
    rw [hpins.2.1] at hp
    rcases mem_cons.mp hp with rfl | hp
    · refine ⟨_, by rw [hevents]; exact mem_cons_self, rfl, rfl, rfl⟩
    · obtain ⟨a, ha, hpa⟩ := haudited p hp
      refine ⟨a, ?_, hpa⟩
      rw [hevents, pin_releases_nothing haction]
      exact mem_cons_of_mem _ (mem_pinRoom hp hpa ha fun hnone => by cases hnone)
  | unpin =>
    rw [haction] at hpins
    rw [hpins.1] at hp
    obtain ⟨hp, hkept⟩ := mem_deleteWhere.mp hp
    obtain ⟨q, _, hq, hkey, hreleased⟩ := unpin_current hadmitted haction
    obtain ⟨a, ha, hpa⟩ := haudited p hp
    refine ⟨a, ?_, hpa⟩
    rw [hevents]
    refine mem_cons_of_mem _ (mem_pinRoom hp hpa ha fun hsame => ?_)
    -- the released row is that of the removed pin, and no other pin has it
    have hid : q.pinEventId = p.pinEventId :=
      (Option.some.inj (hreleased.symm.trans hsame)).trans hpa.id
    rw [← haudited.eq_of_id hq hp hid, hkey] at hkept
    have : ((roomId, (request.targetEventId : Int)) == (roomId, (request.targetEventId : Int))) =
      false := hkept
    rw [beq_self_eq_true] at this
    cases this

theorem PinBounds.change {old new : Table PinRow.key} {action : PinAction} {id target : Int}
    (h : PinBounds old)
    (hchange : PinChange action (pinRow roomId target actorUserId now id) old new) :
    PinBounds new := by
  cases action with
  | pin => exact h.add hchange.1 hchange.2.1 rfl
  | unpin =>
    rw [hchange.1]
    exact h.sublist filter_sublist

end

section
variable {history : List (ProjectionInput × ProjectionOutput)} {s s' : ProjectionStore}
  {p : ProjectionInput × ProjectionOutput}

theorem pinIds_none (h : p.2.pinId? = none) : pinIds (history ++ [p]) = pinIds history := by
  simp [pinIds, filterMap_append, h]

theorem pinIds_some {id : Nat} (h : p.2.pinId? = some id) :
    pinIds (history ++ [p]) = pinIds history ++ [id] := by
  simp [pinIds, filterMap_append, h]

/-- A step that returns no id and adds no audit row. -/
theorem PinsKept.same (h : PinsKept history s) (hnone : p.2.pinId? = none)
    (haudited : PinsAudited s'.database.roomPins s'.database.roomPinEvents)
    (hpins : s'.database.roomPins.rows.Sublist s.database.roomPins.rows)
    (hevents : s'.database.roomPinEvents.rows.Sublist s.database.roomPinEvents.rows)
    (hsequence : s'.tables.pinSequence = s.tables.pinSequence) :
    PinsKept (history ++ [p]) s' := by
  refine ⟨haudited, h.bounds.sublist hpins, h.within.sublist hevents, ?_, ?_⟩
  · intro a ha
    rw [hsequence]
    exact h.sequenced a (hevents.subset ha)
  · rw [pinIds_none hnone, hsequence]
    exact h.ids

/-- A step that touches no pin. -/
theorem PinsKept.untouched (h : PinsKept history s) (hnone : p.2.pinId? = none)
    (hpins : s'.database.roomPins = s.database.roomPins)
    (hevents : s'.database.roomPinEvents = s.database.roomPinEvents)
    (hsequence : s'.tables.pinSequence = s.tables.pinSequence) :
    PinsKept (history ++ [p]) s' := by
  refine h.same hnone ?_ ?_ ?_ hsequence
  · rw [hpins, hevents]
    exact h.audited
  · rw [hpins]
  · rw [hevents]

end

section
variable {history : List (ProjectionInput × ProjectionOutput)} {s s' : ProjectionStore}
  {p : ProjectionInput × ProjectionOutput} {roomId : RoomId} {actorUserId : UserId}
  {request : PinRequest} {now id : Int}

/-- A request that changes the pins gets an id above all that were returned. -/
theorem PinsKept.changed (h : PinsKept history s) (hadmitted : PinAdmitted s.database roomId request)
    (hroom : (pinRoom s.database roomId (releasedBy s.database roomId request) now).1 = true)
    (hgt : s.tables.pinSequence < id) (hpos : 0 < id)
    (hpins : PinChange request.action (pinRow roomId request.targetEventId actorUserId now id)
      s.database.roomPins s'.database.roomPins)
    (hevents : s'.database.roomPinEvents.rows =
      pinEventRow roomId request.targetEventId actorUserId request.action now id ::
        (pinRoom s.database roomId (releasedBy s.database roomId request) now).2.rows)
    (hsequence : s'.tables.pinSequence = id) (hreturned : p.2.pinId? = some id.toNat) :
    PinsKept (history ++ [p]) s' := by
  have hfits : pinAudit.fits roomId pinAuditRetainedBytes
      (pinRoom s.database roomId (releasedBy s.database roomId request) now).2 = true :=
    evict_fits hroom
  refine ⟨h.audited.changed hadmitted hpins hevents, h.bounds.change hpins, ?_, ?_, ?_⟩
  · exact (h.within.sublist pinRoom_sublist).insert hevents hfits (Nat.le_refl _)
  · intro a ha
    rw [hevents] at ha
    rw [hsequence]
    rcases mem_cons.mp ha with rfl | ha
    · exact Int.le_refl _
    · exact (h.sequenced a (pinRoom_sublist.subset ha)).trans hgt.le
  · rw [pinIds_some hreturned, hsequence]
    exact h.ids.append hpos hgt (Int.le_refl _)

end

theorem pin_step (history : List (ProjectionInput × ProjectionOutput)) (s : ProjectionStore)
    (i : ProjectionInput) (h : PinsKept history s) :
    PinsKept (history ++ [(i, (projectionStep s i).1)]) (projectionStep s i).2 := by
  cases i with
  | history i =>
    obtain ⟨roomId, removed, hforgets⟩ := historyStep_forgets ⟨s.database, s.historyRetention⟩ i
    have hpins : (projectionStep s (.history i)).2.database.roomPins = _ := hforgets.pins
    have hevents : (projectionStep s (.history i)).2.database.roomPinEvents = _ := hforgets.pinEvents
    refine h.same rfl ?_ ?_ ?_ rfl
    · rw [hpins, hevents]
      refine h.audited.keep (fun p hp => (mem_deleteWhere.mp hp).1) fun p hp a ha hpa => ?_
      -- a pin and its audit row have one target, so they go together
      refine mem_deleteWhere.mpr ⟨ha, ?_⟩
      rw [hpa.room, hpa.target]
      exact (mem_deleteWhere.mp hp).2
    · rw [hpins]
      exact filter_sublist
    · rw [hevents]
      exact filter_sublist
  | request r =>
    rcases request_cases s r with ⟨e, hstep⟩ | ⟨o, t, hout, hstep⟩
    · rw [hstep]
      exact h.untouched rfl rfl rfl rfl
    · rw [hstep]
      cases hout with
      | react hreact => exact h.untouched rfl (by cases hreact <;> rfl) (by cases hreact <;> rfl) rfl
      | revise hrevise =>
        exact h.untouched rfl (by cases hrevise <;> rfl) (by cases hrevise <;> rfl) rfl
      | pin hpin =>
        have hsame := List.Sublist.refl s.database.roomPins.rows
        have haudited : ∀ now, PinsAudited s.database.roomPins (prunedPinAudit s.database now) :=
          fun now => h.audited.keep (fun p hp => hp) fun p hp a ha hpa => mem_prunedPinAudit hp hpa ha
        cases hpin with
        | unavailable _ => exact h.untouched rfl rfl rfl rfl
        | unchanged | activeFull => exact h.same rfl (haudited _) hsame (deleteRows_sublist _ _) rfl
        | auditFull hadmitted _ hfull =>
          have hkept := h.audited.full h.within hadmitted hfull
          exact h.same rfl hkept hsame pinRoom_sublist rfl
        | changed hadmitted hroom hid hpos hpins hevents =>
          refine h.changed hadmitted hroom ?_ hpos hpins hevents rfl rfl
          -- `AUTOINCREMENT`: the next id is past the sequence, whatever rows are left
          rw [hid]
          exact Int.lt_add_one_of_le (Int.le_max_left _ _)

/-- A step that leaves room to unpin is sound. -/
theorem pin_step_sound (s : ProjectionStore) (i : ProjectionInput)
    (hwithin : pinAudit.Within pinAuditRetainedBytes s.database.roomPinEvents)
    (haudited : PinsAudited s.database.roomPins s.database.roomPinEvents)
    (hleaves : LeavesRoomToUnpin s i) : PinStepSound s i := by
  cases i with
  | history i => trivial
  | request r =>
    cases r with
    | react | revise => trivial
    | pin roomId actorUserId request now =>
      rcases request_cases s (.pin roomId actorUserId request now) with
        ⟨e, hstep⟩ | ⟨o, t, hout, hstep⟩
      · refine ⟨fun e he => ?_, fun _ he => ?_⟩
        · rw [hstep] at he
          cases he
        · rw [hstep] at he
          cases he
      · cases hout with
        | pin hpin =>
          refine ⟨fun e he hpinned => ?_, fun hunpin he => ?_⟩
          · rw [hstep] at he
            obtain rfl := ProjectionOutput.pinned.inj he
            cases hpin with
            | changed hadmitted _ _ _ _ _ =>
              have havailable := hadmitted.available
              rw [hpinned] at havailable
              exact havailable
          · rw [hstep] at he
            obtain rfl := ProjectionOutput.pinned.inj he
            cases hpin with
            | activeFull _ haction _ =>
              rw [haction] at hunpin
              cases hunpin
            | auditFull hadmitted _ hfull =>
              have hspent := unpin_refused hwithin haudited hadmitted hunpin hfull
              obtain ⟨p, hp, _⟩ := unpin_current hadmitted hunpin
              rcases hleaves hunpin (by rw [ProjectionStore.database, hp]; rfl) with hleft | hfits
              · have := AuditLog.budget_pos_iff.mpr hleft
                exact absurd hspent (Nat.pos_iff_ne_zero.mp this)
              · rw [pinRoom_spent hspent, hfits] at hfull
                cases hfull

theorem pinsKept_fresh {s : ProjectionStore} (hfresh : s.Fresh) : PinsKept [] s := by
  have hpins : s.database.roomPins = empty := congrArg Hanging.roomPins hfresh.hanging
  have hevents : s.database.roomPinEvents = empty :=
    congrArg Hanging.roomPinEvents hfresh.hanging
  refine ⟨?_, ?_, ?_, ?_, IdsBelow.nil _⟩
  · rw [hpins]
    intro p hp
    cases hp
  · rw [hpins]
    exact ⟨fun _ => (by decide : (0 : Int) ≤ maxActivePinsPerRoom), by decide, by decide⟩
  · rw [hevents]
    exact AuditLog.within_empty (by decide)
  · rw [hevents]
    intro a ha
    cases ha

end Omen.Server
