import OmenBrowser.Server.Projections

/- The active reactions of a store.

   An addition is checked against six limits before its row is written: the tokens of its actor on
   the target, the rows of the target, the rows and bytes of the room, and the rows and bytes of
   all rooms. Everything else that touches the active table removes rows from it: a removal, a
   tombstone, a compaction. So the limits hold in every state a run reaches.

   A request for what already is leaves the active table alone. It is not without effect: the
   audit table is pruned for age before the request is compared with what is active. -/
namespace Omen.Server
open Wire Sql Ints Omen.Protocol Table Reactions ReactionRow

variable {action : ReactionAction}

/-! The limits. -/

/-- The active table is within its limits. -/
structure ReactionBounds (t : Table key) : Prop where
  actorTarget : ∀ (roomId : RoomId) (targetEventId actorUserId : Int),
    (t.rows.countP (fun r => r.roomId == roomId && r.targetEventId == targetEventId &&
      r.actorUserId == actorUserId) : Int) ≤ maxActiveTokensPerActorTarget
  target : ∀ (roomId : RoomId) (targetEventId : Int),
    (t.rows.countP (fun r => r.roomId == roomId && r.targetEventId == targetEventId) : Int) ≤
      maxActiveRowsPerTarget
  roomRows : ∀ roomId : RoomId,
    (t.rows.countP (fun r => r.roomId == roomId) : Int) ≤ maxActiveRowsPerRoom
  roomBytes : ∀ roomId : RoomId, (((t.rows.filter (fun r => r.roomId == roomId)).map
    ReactionRow.retainedBytes).sum : Int) ≤ maxActiveBytesPerRoom
  rows : (t.rows.length : Int) ≤ maxActiveRowsGlobal
  bytes : ((t.rows.map ReactionRow.retainedBytes).sum : Int) ≤ maxActiveBytesGlobal

section
variable {t t' : Table key} {row : ReactionRow}

theorem reactionBounds_empty : ReactionBounds empty := by
  refine ⟨fun _ _ _ => ?_, fun _ _ => ?_, fun _ => ?_, fun _ => ?_, by decide, by decide⟩
  · exact (by decide : (0 : Int) ≤ maxActiveTokensPerActorTarget)
  · exact (by decide : (0 : Int) ≤ maxActiveRowsPerTarget)
  · exact (by decide : (0 : Int) ≤ maxActiveRowsPerRoom)
  · exact (by decide : (0 : Int) ≤ maxActiveBytesPerRoom)

theorem ReactionBounds.sublist (h : ReactionBounds t) (hsub : t'.rows.Sublist t.rows) :
    ReactionBounds t' := by
  refine ⟨?_, ?_, ?_, ?_, ?_, ?_⟩
  · intro roomId targetEventId actorUserId
    exact countP_le_of_sublist hsub (h.actorTarget roomId targetEventId actorUserId)
  · intro roomId targetEventId
    exact countP_le_of_sublist hsub (h.target roomId targetEventId)
  · intro roomId
    exact countP_le_of_sublist hsub (h.roomRows roomId)
  · intro roomId
    exact sum_le_of_sublist _ (hsub.filter _) (h.roomBytes roomId)
  · exact length_le_of_sublist hsub h.rows
  · exact sum_le_of_sublist _ hsub h.bytes

theorem ReactionBounds.add (h : ReactionBounds t) (hfits : ActiveFits t row)
    (hrows : t'.rows = row :: t.rows) : ReactionBounds t' := by
  refine ⟨?_, ?_, ?_, ?_, ?_, ?_⟩
  · intro roomId targetEventId actorUserId
    rw [hrows]
    refine countP_cons_le (h.actorTarget roomId targetEventId actorUserId) fun hp => ?_
    simp only [Bool.and_eq_true, beq_iff_eq] at hp
    obtain ⟨⟨rfl, rfl⟩, rfl⟩ := hp
    exact hfits.actorTarget
  · intro roomId targetEventId
    rw [hrows]
    refine countP_cons_le (h.target roomId targetEventId) fun hp => ?_
    simp only [Bool.and_eq_true, beq_iff_eq] at hp
    obtain ⟨rfl, rfl⟩ := hp
    exact hfits.target
  · intro roomId
    rw [hrows]
    refine countP_cons_le (h.roomRows roomId) fun hp => ?_
    obtain rfl := beq_iff_eq.mp hp
    exact hfits.roomRows
  · intro roomId
    have hold := h.roomBytes roomId
    rw [hrows, List.filter_cons]
    by_cases hp : (row.roomId == roomId) = true
    · obtain rfl := beq_iff_eq.mp hp
      have hnew := hfits.roomBytes
      rw [if_pos hp, List.map_cons, List.sum_cons]
      omega
    · rw [if_neg hp]
      exact hold
  · have hnew := hfits.rows
    rw [hrows, List.length_cons]
    omega
  · have hnew := hfits.bytes
    rw [hrows, List.map_cons, List.sum_cons]
    omega

theorem ReactionBounds.change (h : ReactionBounds t) (hchange : ActiveChange action row t t') :
    ReactionBounds t' := by
  cases action with
  | add => exact h.add hchange.1 hchange.2.1
  | remove =>
    rw [hchange.1]
    exact h.sublist List.filter_sublist

end

theorem reactionBounds_step (s : ProjectionStore) (i : ProjectionInput)
    (h : ReactionBounds s.database.roomReactions) :
    ReactionBounds (projectionStep s i).2.database.roomReactions := by
  cases i with
  | history i =>
    obtain ⟨roomId, removed, hforgets⟩ := historyStep_forgets ⟨s.database, s.historyRetention⟩ i
    have hless : ReactionBounds (s.database.roomReactions.deleteWhere
        (fun r => isTarget roomId removed r.roomId r.targetEventId)) := h.sublist List.filter_sublist
    exact hforgets.reactions ▸ hless
  | request r =>
    rcases request_cases s r with ⟨e, hstep⟩ | ⟨o, t, hout, hstep⟩
    · rw [hstep]
      exact h
    · rw [hstep]
      cases hout with
      | react hreact =>
        cases hreact with
        | unavailable | unchanged | saturated => exact h
        | changed _ _ _ _ _ hactive _ => exact h.change hactive
      | revise hrevise =>
        cases hrevise with
        | refused | saturated => exact h
        | changed _ _ hrevised => exact h.sublist hrevised.reactions_sublist
      | pin hpin => cases hpin <;> exact h

/-! A request. -/

/-- Nothing changed, but that audit rows past the retention age are gone, no more than one request
prunes. -/
structure OnlyPrunes (now : Int) (s s' : ProjectionStore) (t : Table ReactionEventRow.key) : Prop where
  rest : s' = { s with tables := { s.tables with database := { s.tables.database with
    roomReactionEvents := t } } }
  rows : t.rows.Sublist s.database.roomReactionEvents.rows
  gone : ∀ r ∈ s.database.roomReactionEvents.rows, r ∉ t.rows → reactionAudit.expired now r = true
  few : s.database.roomReactionEvents.rows.length ≤
    t.rows.length + Reactions.maxAuditPrunedPerMutation

/-- A request for what already is leaves all but old audit rows alone; and a request writes its
audit row exactly when it changes the active rows. -/
structure ReactionSound (s : ProjectionStore) (roomId : RoomId) (actorUserId : UserId)
    (request : ReactionRequest) (now : Int) (o : ProjectionOutput) (s' : ProjectionStore) : Prop where
  idempotent : changes request.action (s.database.hasReaction
      (reactionKey roomId request.targetEventId actorUserId request.token)) = false →
    (∀ e, o ≠ .reacted (.changed e)) ∧ ∃ t, OnlyPrunes now s s' t
  written : s'.database.roomReactions ≠ s.database.roomReactions →
    ∃ id kept, s'.database.roomReactionEvents.rows =
        reactionEventRow roomId id request.targetEventId actorUserId request now :: kept ∧
      kept.Sublist s.database.roomReactionEvents.rows
  unwritten : s'.database.roomReactions = s.database.roomReactions →
    s'.database.roomReactionEvents.rows.Sublist s.database.roomReactionEvents.rows

section
variable {s : ProjectionStore} {roomId : RoomId} {actorUserId : UserId} {request : ReactionRequest}
  {now : Int} {o : ProjectionOutput}

theorem onlyPrunes_refl (now : Int) (s : ProjectionStore) :
    OnlyPrunes now s s s.database.roomReactionEvents :=
  ⟨rfl, List.Sublist.refl _, fun _ hr hgone => absurd hr hgone, Nat.le_add_right _ _⟩

theorem onlyPrunes_pruned (now : Int) (s : ProjectionStore) :
    OnlyPrunes now s { s with tables := { s.tables with database := { s.tables.database with
        roomReactionEvents :=
          reactionAudit.pruned (fun _ => true) now s.tables.database.roomReactionEvents } } }
      (reactionAudit.pruned (fun _ => true) now s.database.roomReactionEvents) := by
  refine ⟨rfl, deleteRows_sublist _ _, ?_, AuditLog.length_le_pruned⟩
  intro r hr hgone
  exact AuditLog.expired_of_pruned hr hgone

/-- A request that changes the active rows does change them. -/
theorem ActiveChange.ne {row : ReactionRow} {old new : Table key}
    (h : ActiveChange action row old new) : new ≠ old := by
  rintro rfl
  cases action with
  | add =>
    have hlength := congrArg List.length h.2.1
    rw [List.length_cons] at hlength
    omega
  | remove =>
    obtain ⟨hnew, r, hr, hkey⟩ := h
    rw [hnew] at hr
    have hkept := (mem_deleteWhere.mp hr).2
    rw [hkey, beq_self_eq_true] at hkept
    cases hkept

/-- A request that at most prunes the audit table. -/
theorem OnlyPrunes.sound {s' : ProjectionStore} {t : Table ReactionEventRow.key}
    (h : OnlyPrunes now s s' t) (ho : ∀ e, o ≠ .reacted (.changed e)) :
    ReactionSound s roomId actorUserId request now o s' := by
  refine ⟨fun _ => ⟨ho, t, h⟩, ?_, ?_⟩
  · intro hne
    refine absurd ?_ hne
    rw [h.rest]
  · intro _
    rw [h.rest]
    exact h.rows

end

theorem reactionSound (s : ProjectionStore) (roomId : RoomId) (actorUserId : UserId)
    (request : ReactionRequest) (now : Int) :
    ReactionSound s roomId actorUserId request now
      (projectionStep s (.request (.react roomId actorUserId request now))).1
      (projectionStep s (.request (.react roomId actorUserId request now))).2 := by
  rcases request_cases s (.react roomId actorUserId request now) with ⟨e, hstep⟩ | ⟨o, t, hout, hstep⟩
  · rw [hstep]
    exact (onlyPrunes_refl now s).sound fun _ he => by cases he
  · rw [hstep]
    have hroom : (reactionRoom s.database roomId request.token now).2.rows.Sublist
        s.database.roomReactionEvents.rows :=
      evict_sublist.trans (deleteRows_sublist _ _)
    cases hout with
    | react h =>
      cases h with
      | unavailable _ => exact (onlyPrunes_refl now s).sound fun _ he => by cases he
      | unchanged _ _ => exact (onlyPrunes_pruned now s).sound fun _ he => by cases he
      | saturated _ hchanges _ =>
        refine ⟨fun hsame => ?_, fun hne => absurd rfl hne, fun _ => hroom⟩
        cases hsame.symm.trans hchanges
      | changed _ hchanges _ _ _ hactive hevents =>
        refine ⟨fun hsame => ?_, fun _ => ⟨_, _, hevents, hroom⟩, fun hsame => absurd hsame hactive.ne⟩
        cases hsame.symm.trans hchanges

/-- In every state a run reaches the active reactions are within all limits and no two are the
same; and the next reaction leaves all but old audit rows alone if it asks for what already is, and
writes its audit row exactly when it changes the active rows. -/
theorem reactions_sound (s : ProjectionStore) (hfresh : s.Fresh) (inputs : List ProjectionInput)
    (s' : ProjectionStore) (hreached : (Machine.run projectionStep s inputs).2 = s') :
    ReactionBounds s'.database.roomReactions ∧
    (s'.database.roomReactions.rows.map key).Nodup ∧
    ∀ roomId actorUserId request now, ReactionSound s' roomId actorUserId request now
      (projectionStep s' (.request (.react roomId actorUserId request now))).1
      (projectionStep s' (.request (.react roomId actorUserId request now))).2 := by
  refine ⟨?_, s'.database.roomReactions.unique, reactionSound s'⟩
  have hempty : s.database.roomReactions = empty :=
    congrArg Hanging.roomReactions hfresh.hanging
  rw [← hreached]
  refine Machine.run_invariant (I := fun s => ReactionBounds s.database.roomReactions)
    (fun s i h _ => reactionBounds_step s i h) s inputs (Machine.meets_true _ _) ?_
  rw [hempty]
  exact reactionBounds_empty

/-- A message with a reaction. -/
def likedMessage : List ProjectionInput :=
  [.history (.append 1 (some 1) (.message "a") none ⟨0, 0, 0⟩),
   .request (.react 1 1 ⟨1, .heart, .add⟩ 0)]

theorem reactions_sound_likedMessage :
    (Machine.run projectionStep (.initial .disabled) likedMessage).2.database.roomReactions.rows.length
      = 1 ∧
    ReactionBounds
      (Machine.run projectionStep (.initial .disabled) likedMessage).2.database.roomReactions :=
  ⟨rfl, (reactions_sound _ (ProjectionStore.initial_fresh _) likedMessage _ rfl).1⟩

/-- The reaction is added again after 90 days: it was active, and the audit row of its first
addition goes. -/
theorem repeated_add_prunes_audit :
    (Machine.run projectionStep (.initial .disabled) likedMessage).2.database.hasReaction
      (reactionKey 1 1 1 .heart) = true ∧
    (projectionStep (Machine.run projectionStep (.initial .disabled) likedMessage).2
      (.request (.react 1 1 ⟨1, .heart, .add⟩ (90 * 24 * 60 * 60 + 1)))).1 = .reacted .unchanged ∧
    (projectionStep (Machine.run projectionStep (.initial .disabled) likedMessage).2
      (.request (.react 1 1 ⟨1, .heart, .add⟩ (90 * 24 * 60 * 60 + 1)))).2 ≠
      (Machine.run projectionStep (.initial .disabled) likedMessage).2 := by
  refine ⟨rfl, rfl, ?_⟩
  intro hsame
  have haudit := congrArg (fun s : ProjectionStore => s.database.roomReactionEvents.rows.length) hsame
  exact absurd haudit (by decide)

end Omen.Server
