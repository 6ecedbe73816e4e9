import OmenBrowser.Server.Projections

/- What a request that changes nothing takes from the audit.

   Rows past the retention age are pruned by any request that gets that far. Rows within it go
   only to make room for the audit row of the request, and the three stores do not agree on when
   they make room: a revision and a pin have passed every other check by then, so that only the
   audit itself can refuse them; a reaction makes room before it checks the active limits, and what
   it deleted stays deleted if these refuse it.

   `SpendsAudit` says of the state before the request when it deletes a row within the age. -/
namespace Omen.Server
open Wire Sql Ints Omen.Protocol List AuditLog

def ProjectionRequest.now : ProjectionRequest → Int
  | .react _ _ _ now => now
  | .revise _ _ _ _ _ _ now => now
  | .pin _ _ _ now => now

/-- The request was answered, and its result is not `Changed`. -/
def ProjectionOutput.Refused : ProjectionOutput → Prop
  | .reacted result => ∀ e, result ≠ .changed e
  | .revised result => ∀ m, result ≠ .changed m
  | .pinned result => ∀ e, result ≠ .changed e
  | .history _ => False
  | .failed _ => False

/-- The audit rows within the retention age are still there. -/
structure KeepsAudit (now : Int) (db db' : Database) : Prop where
  reactions : ∀ r ∈ db.roomReactionEvents.rows, reactionAudit.expired now r = false →
    r ∈ db'.roomReactionEvents.rows
  revisions : ∀ r ∈ db.roomMessageRevisionEvents.rows, revisionAudit.expired now r = false →
    r ∈ db'.roomMessageRevisionEvents.rows
  pins : ∀ r ∈ db.roomPinEvents.rows, pinAudit.expired now r = false → r ∈ db'.roomPinEvents.rows

/-- The request comes to the point where it makes room for its audit row, and rows within the
retention age have to go for it. -/
def SpendsAudit (db : Database) : ProjectionRequest → Prop
  | .react roomId actorUserId request now =>
    db.targetEligible roomId request.targetEventId = true ∧
    Reactions.changes request.action (db.hasReaction
      (reactionKey roomId request.targetEventId actorUserId request.token)) = true ∧
    reactionAudit.Spends (fun _ => true) roomId (reactionAuditBytes request.token) now
      db.roomReactionEvents
  | .revise roomId actorUserId _ policy request maxMessageBytes now =>
    (∃ n, RevisionPasses db roomId actorUserId policy request maxMessageBytes n) ∧
    revisionAudit.Spends (fun _ => true) roomId (revisionAuditBytes request) now
      db.roomMessageRevisionEvents
  | .pin roomId _ request now =>
    PinAdmitted db roomId request ∧ (request.action = .pin → PinFits db.roomPins roomId) ∧
    pinAudit.SpendsReleasing db.isPrunable (Database.isReleasable (releasedBy db roomId request) db)
      roomId pinAuditRetainedBytes now db.roomPinEvents

section
variable {db : Database} {roomId : RoomId} {actorUserId : UserId} {now : Int}

theorem keepsAudit_refl (now : Int) (db : Database) : KeepsAudit now db db :=
  ⟨fun _ hr _ => hr, fun _ hr _ => hr, fun _ hr _ => hr⟩

/-- Two releasable rows that are not prunable are one row. -/
theorem releasable_unique {releasable : Option Int} {r q : PinEventRow}
    (hr : r ∈ db.roomPinEvents.rows) (hfree : Database.isReleasable releasable db r = true)
    (hpinned : db.isPrunable r = false) (hq : q ∈ db.roomPinEvents.rows)
    (hqfree : Database.isReleasable releasable db q = true) (hqpinned : db.isPrunable q = false) :
    q = r := by
  unfold Database.isReleasable at hfree hqfree
  rw [hpinned, Bool.false_or, beq_iff_eq] at hfree
  rw [hqpinned, Bool.false_or, beq_iff_eq] at hqfree
  exact Table.eq_of_key hq hr (Option.some.inj (hqfree.symm.trans hfree))

theorem ReactionOutcome.keepsAudit_iff {db' : Database} {request : ReactionRequest}
    {result : ReactionMutationResult}
    (h : ReactionOutcome db roomId actorUserId request now result db')
    (hrefused : ∀ e, result ≠ .changed e) :
    KeepsAudit now db db' ↔ ¬SpendsAudit db (.react roomId actorUserId request now) := by
  cases h with
  | unavailable hno =>
    refine iff_of_true (keepsAudit_refl now db) fun ⟨heligible, _⟩ => ?_
    cases hno.symm.trans heligible
  | unchanged _ hno =>
    refine iff_of_true ⟨?_, fun _ hr _ => hr, fun _ hr _ => hr⟩ fun ⟨_, hchanges, _⟩ => ?_
    · exact fun r hr hfresh => mem_pruned_of_fresh hr hfresh
    · cases hno.symm.trans hchanges
  | saturated heligible hchanges _ =>
    have hspends : SpendsAudit db (.react roomId actorUserId request now) ↔ _ :=
      ⟨fun h => h.2.2, fun h => ⟨heligible, hchanges, h⟩⟩
    rw [hspends, ← keeps_iff_not_spends]
    exact ⟨fun h => h.reactions, fun h => ⟨h, fun _ hr _ => hr, fun _ hr _ => hr⟩⟩
  | changed _ _ _ _ _ _ _ => exact absurd rfl (hrefused _)

theorem RevisionOutcome.keepsAudit_iff {db' : Database} {actorDisplayName : Option String}
    {policy : MessageRevisionActorPolicy} {request : MessageRevisionRequest} {maxMessageBytes : Nat}
    {result : MessageRevisionMutationResult}
    (h : RevisionOutcome db roomId actorUserId actorDisplayName policy request maxMessageBytes now
      result db') (hrefused : ∀ m, result ≠ .changed m) :
    KeepsAudit now db db' ↔ ¬SpendsAudit db
      (.revise roomId actorUserId actorDisplayName policy request maxMessageBytes now) := by
  cases h with
  | refused _ hfails =>
    refine iff_of_true (keepsAudit_refl now db) fun ⟨⟨n, hpasses⟩, _⟩ => ?_
    exact hfails n hpasses
  | saturated hpasses _ =>
    have hspends : SpendsAudit db
        (.revise roomId actorUserId actorDisplayName policy request maxMessageBytes now) ↔ _ :=
      ⟨fun h => h.2, fun h => ⟨⟨_, hpasses⟩, h⟩⟩
    rw [hspends, ← keeps_iff_not_spends]
    exact ⟨fun h => h.revisions, fun h => ⟨fun _ hr _ => hr, h, fun _ hr _ => hr⟩⟩
  | changed _ _ _ => exact absurd rfl (hrefused _)

theorem PinOutcome.keepsAudit_iff {t t' : SequencedDatabase} {request : PinRequest}
    {result : PinMutationResult} (h : PinOutcome t roomId actorUserId request now result t')
    (hrefused : ∀ e, result ≠ .changed e) :
    KeepsAudit now t.database t'.database ↔
      ¬SpendsAudit t.database (.pin roomId actorUserId request now) := by
  have hpruned : KeepsAudit now t.database
      { t.database with roomPinEvents := prunedPinAudit t.database now } :=
    ⟨fun _ hr _ => hr, fun _ hr _ => hr, fun r hr hfresh => mem_pruned_of_fresh hr hfresh⟩
  cases h with
  | unavailable hno =>
    refine iff_of_true (keepsAudit_refl now _) fun ⟨hadmitted, _⟩ => ?_
    cases hno.symm.trans hadmitted.available
  | unchanged _ hno =>
    refine iff_of_true hpruned fun ⟨hadmitted, _⟩ => ?_
    cases hno.symm.trans hadmitted.changes
  | activeFull _ hpin hfull =>
    refine iff_of_true hpruned fun ⟨_, hfits, _⟩ => ?_
    exact hfull (hfits hpin)
  | auditFull hadmitted hfits _ =>
    have hspends : SpendsAudit t.database (.pin roomId actorUserId request now) ↔ _ :=
      ⟨fun h => h.2.2, fun h => ⟨hadmitted, hfits, h⟩⟩
    rw [hspends, ← keeps_iff_not_spendsReleasing]
    · exact ⟨fun h => h.pins, fun h => ⟨fun _ hr _ => hr, fun _ hr _ => hr, h⟩⟩
    · intro r hr hfree hpinned q hq hqfree hqpinned
      exact releasable_unique hr hfree hpinned hq hqfree hqpinned
  | changed _ _ _ _ _ _ => exact absurd rfl (hrefused _)

end

/-- A request whose result is not `Changed` keeps every audit row within the retention age exactly
when it does not come to spend them. -/
theorem refused_keepsAudit_iff (s : ProjectionStore) (r : ProjectionRequest)
    (hrefused : (projectionStep s (.request r)).1.Refused) :
    KeepsAudit r.now s.database (projectionStep s (.request r)).2.database ↔
      ¬SpendsAudit s.database r := by
  rcases request_cases s r with ⟨e, hstep⟩ | ⟨o, t, hout, hstep⟩
  · rw [hstep] at hrefused
    exact hrefused.elim
  · rw [hstep] at hrefused ⊢
    cases hout with
    | react h => exact h.keepsAudit_iff hrefused
    | revise h => exact h.keepsAudit_iff hrefused
    | pin h => exact h.keepsAudit_iff hrefused

/-- A message with a reaction. -/
def likedStore : ProjectionStore :=
  (Machine.run projectionStep (.initial .disabled)
    [.history (.append 1 (some 1) (.message "a") none ⟨0, 0, 0⟩),
     .request (.react 1 1 ⟨1, .heart, .add⟩ 0)]).2

/-- A request for a reaction that is already there. -/
theorem refused_keepsAudit_iff_repeated :
    (projectionStep likedStore (.request (.react 1 1 ⟨1, .heart, .add⟩ 1))).1.Refused ∧
    (KeepsAudit 1 likedStore.database
      (projectionStep likedStore (.request (.react 1 1 ⟨1, .heart, .add⟩ 1))).2.database ↔
      ¬SpendsAudit likedStore.database (.react 1 1 ⟨1, .heart, .add⟩ 1)) := by
  have hrefused : (projectionStep likedStore (.request (.react 1 1 ⟨1, .heart, .add⟩ 1))).1.Refused :=
    fun e he => by cases he
  exact ⟨hrefused, refused_keepsAudit_iff likedStore _ hrefused⟩

/-! A refused reaction that spends the audit. -/

variable (i : Nat)

/-- User 2 adds a reaction to message 1 and removes it, over and over; the last three rows are
three reactions of user 1. -/
def toggledRow : ReactionEventRow :=
  if i < 8189 then
    reactionEventRow 1 (i + 1) 1 2 ⟨1, .heart, if i % 2 = 0 then .add else .remove⟩ 0
  else
    reactionEventRow 1 (i + 1) 1 1
      ⟨1, if i = 8189 then .thumbsUp else if i = 8190 then .heart else .laugh, .add⟩ 0

theorem toggledRow_key : (toggledRow i).key = (1, (i : Int) + 1) := by
  unfold toggledRow
  split <;> rfl

theorem toggledRow_fields : (toggledRow i).roomId = 1 ∧ (toggledRow i).atUnix = 0 ∧
    (toggledRow i).retainedBytes ≤ reactionAuditWidth := by
  unfold toggledRow
  split
  · exact ⟨rfl, rfl, reactionEventRow_narrow _ _ _ _ _ _⟩
  · exact ⟨rfl, rfl, reactionEventRow_narrow _ _ _ _ _ _⟩

def toggledAudit (n : Nat) : Table ReactionEventRow.key where
  rows := (range n).map toggledRow
  unique := by
    rw [map_map]
    refine List.Nodup.map ?_ nodup_range
    intro i j hij
    have hkeys : ((1 : RoomId), (i : Int) + 1) = (1, (j : Int) + 1) :=
      (toggledRow_key i).symm.trans (hij.trans (toggledRow_key j))
    have := (Prod.mk.inj hkeys).2
    omega

section
variable {n : Nat} {r : ReactionEventRow}

theorem mem_toggledAudit (h : r ∈ (toggledAudit n).rows) :
    r.roomId = 1 ∧ r.atUnix = 0 ∧ r.retainedBytes ≤ reactionAuditWidth := by
  obtain ⟨i, _, rfl⟩ := mem_map.mp h
  exact toggledRow_fields i

theorem length_toggledAudit : (toggledAudit n).rows.length = n := by
  rw [toggledAudit, length_map, length_range]

theorem countP_toggledAudit : (toggledAudit n).rows.countP (reactionAudit.ofRoom 1) = n := by
  have hall : ∀ r ∈ (toggledAudit n).rows, reactionAudit.ofRoom 1 r = true :=
    fun r hr => beq_iff_eq.mpr (mem_toggledAudit hr).1
  rw [countP_eq_length.mpr hall, length_toggledAudit]

/-- None of the rows is past the retention age a second later. -/
theorem toggledAudit_fresh (hr : r ∈ (toggledAudit n).rows) : reactionAudit.expired 1 r = false := by
  show decide (r.atUnix < _) = false
  rw [(mem_toggledAudit hr).2.1]
  rfl

theorem toggledAudit_within (h : n ≤ 8192) :
    reactionAudit.Within reactionAuditWidth (toggledAudit n) := by
  refine ⟨by decide, fun roomId => ?_, ?_, fun r hr => (mem_toggledAudit hr).2.2⟩
  · have hle := countP_le_length (p := reactionAudit.ofRoom roomId) (l := (toggledAudit n).rows)
    have hlimit : reactionAudit.maxRowsPerRoom = 8192 := rfl
    rw [length_toggledAudit] at hle
    omega
  · have hlimit : reactionAudit.maxRowsGlobal = 131072 := rfl
    rw [length_toggledAudit]
    omega

/-- A room that has all the audit rows it may have spends one for the next. -/
theorem toggledAudit_spends (h : 8192 ≤ n) (incomingBytes : Int) :
    reactionAudit.Spends (fun _ => true) 1 incomingBytes 1 (toggledAudit n) := by
  have hkeeps : ∀ r ∈ (toggledAudit n).rows, (reactionAudit.expired 1 r && true) = false := by
    intro r hr
    rw [toggledAudit_fresh hr, Bool.false_and]
  refine ⟨?_, ?_, ?_⟩
  · rw [countP_eq_zero.mpr fun r hr => by rw [hkeeps r hr]; exact Bool.false_ne_true]
    decide
  · have hall : (toggledAudit n).deleteWhere (fun r => reactionAudit.expired 1 r && true) =
        toggledAudit n := by
      refine Table.ext (filter_eq_self.mpr fun r hr => ?_)
      exact congrArg not (hkeeps r hr)
    rw [hall]
    refine decide_eq_false fun hfits => ?_
    have hlimit : reactionAudit.maxRowsPerRoom = 8192 := rfl
    rw [countP_toggledAudit] at hfits
    omega
  · have hpos : 0 < (toggledAudit n).rows.length := by
      rw [length_toggledAudit]
      omega
    obtain ⟨r, hr⟩ := exists_mem_of_length_pos hpos
    exact ⟨r, hr, rfl, toggledAudit_fresh hr⟩

end

/-- The reactions that are left: one of user 2 and three of user 1. -/
def toggledReactions : Table ReactionRow.key :=
  ⟨[reactionRow 1 1 1 .laugh 0, reactionRow 1 1 1 .heart 0, reactionRow 1 1 1 .thumbsUp 0,
    reactionRow 1 1 2 .heart 0], by decide⟩

/-- A message with these reactions, and `n` audit rows. -/
def auditedStore (n : Nat) : ProjectionStore where
  tables :=
    { database :=
        { Database.empty with
          roomEvents := ⟨[eventRow 1 1 (some 1) (.message "a") 0 none none], nodup_singleton _⟩
          roomReactions := toggledReactions
          roomReactionEvents := toggledAudit n }
      pinSequence := 0 }
  historyRetention := .disabled

theorem activeAddHasCapacity_ends (db : Database) (roomId : RoomId) (target actorUserId : Int)
    (tokenBytes : Nat)
    (hbytes : ((db.roomReactions.rows.map ReactionRow.retainedBytes).sum : Int) ≤ i64Max) :
    Txn.Ends (Reactions.activeAddHasCapacity roomId target actorUserId tokenBytes) db := by
  have husage : ∀ room, ∃ u, Reactions.activeUsage room db = .ok (u, db) := by
    intro room
    refine ⟨_, activeUsage_ok.mpr ⟨?_, rfl, rfl⟩⟩
    exact Table.sum_le_of_sublist _ filter_sublist hbytes
  obtain ⟨inRoom, hroom⟩ := husage (some roomId)
  obtain ⟨whole, hwhole⟩ := husage none
  exact .bind rfl (.bind rfl (.bind hroom (.bind hwhole (.pure _ _))))

/-- An addition that the active limits refuse is answered. -/
theorem refused_addition_ends {db : Database} {roomId : RoomId} {actorUserId : UserId}
    {target : EventId} {token : ReactionToken} {now : Int} (hsmall : (target : Int) ≤ i64Max)
    (haudit : (reactionAudit.bytes db.roomReactionEvents.rows : Int) ≤ i64Max)
    (hbytes : ((db.roomReactions.rows.map ReactionRow.retainedBytes).sum : Int) ≤ i64Max)
    (hfull : ¬ActiveFits db.roomReactions (reactionRow roomId target actorUserId token now)) :
    Txn.Ends (applyReactionMutationAt roomId actorUserId ⟨target, token, .add⟩ now) db := by
  have hfit : toI64 target = some (target : Int) := if_pos hsmall
  unfold applyReactionMutationAt
  simp only [hfit]
  refine .bind rfl ?_
  split
  · exact .pure _ _
  · refine .bind rfl (.bind pruneExpired_eq ?_)
    split
    · exact .pure _ _
    · have hpruned : (reactionAudit.bytes (reactionAudit.pruned (fun _ => true) now
          db.roomReactionEvents).rows : Int) ≤ i64Max := by
        have hle := bytes_sublist reactionAudit (Table.deleteRows_sublist
          db.roomReactionEvents (reactionAudit.stale (fun _ => true) now db.roomReactionEvents))
        exact (Int.ofNat_le.mpr hle).trans haudit
      refine .bind ((ensureCapacity_ok fun _ _ => rfl).mpr ⟨hpruned, rfl, rfl⟩) ?_
      split
      · exact .pure _ _
      · obtain ⟨⟨fits, db'⟩, hfits⟩ := activeAddHasCapacity_ends (reactionAudit.put
          (reactionRoom db roomId token now).2 db) roomId target actorUserId.toNat
          (tokenBytes token) hbytes
        refine .bind hfits ?_
        split
        · exact .pure _ _
        · next hyes =>
          have hyes : fits = true := by simpa using hyes
          exact absurd ((activeAddHasCapacity_ok hfits).2.mp hyes) hfull

/-- The fourth reaction of user 1 to the message. -/
def fourthReaction : ProjectionRequest := .react 1 1 ⟨1, .sad, .add⟩ 1

theorem fourthReaction_outcome {n : Nat} (h : n ≤ 8192) :
    ∃ db', ReactionOutcome (auditedStore n).database 1 1 ⟨1, .sad, .add⟩ 1 .saturated db' ∧
      projectionStep (auditedStore n) (.request fourthReaction) = (.reacted .saturated,
        { auditedStore n with tables := ⟨db', 0⟩ }) := by
  have hfull : ¬ActiveFits toggledReactions (reactionRow 1 ((1 : EventId) : Int) 1 .sad 1) :=
    fun hfits => absurd hfits.actorTarget (by decide)
  have hbytes : ((toggledReactions.rows.map ReactionRow.retainedBytes).sum : Int) ≤ i64Max := by decide
  have haudit : (reactionAudit.bytes (toggledAudit n).rows : Int) ≤ i64Max := by
    have hle := bytes_le (toggledAudit_within h).wide
    rw [length_toggledAudit, reactionAuditWidth] at hle
    unfold i64Max
    omega
  obtain ⟨⟨result, db'⟩, hr⟩ : Txn.Ends (applyReactionMutationAt 1 1 ⟨1, .sad, .add⟩ 1)
      (auditedStore n).database := refused_addition_ends (by decide) haudit hbytes hfull
  have hout := applyReaction_outcome hr
  have hresult : result = .saturated := by
    cases hout with
    | unavailable hno => cases hno
    | unchanged _ hno => cases hno
    | saturated _ _ _ => rfl
    | changed _ _ _ _ _ hactive _ => exact absurd hactive.1 hfull
  subst hresult
  refine ⟨db', hout, ?_⟩
  unfold projectionStep fourthReaction ProjectionStore.transact Txn.atomically onDatabase Txn.zoom
  simp only [hr, Except.map]
  rfl

/-- The reaction is saturated, and an audit row of the day is gone. -/
theorem saturated_reaction_spends_audit :
    (projectionStep (auditedStore 8192) (.request fourthReaction)).1 = .reacted .saturated ∧
    ¬KeepsAudit 1 (auditedStore 8192).database
      (projectionStep (auditedStore 8192) (.request fourthReaction)).2.database := by
  obtain ⟨db', hout, hstep⟩ := fourthReaction_outcome (Nat.le_refl 8192)
  rw [hstep]
  refine ⟨rfl, fun hkeeps => ?_⟩
  refine (hout.keepsAudit_iff fun e he => by cases he).mp hkeeps ⟨rfl, rfl, ?_⟩
  exact toggledAudit_spends (Nat.le_refl 8192) _

end Omen.Server
