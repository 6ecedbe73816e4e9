import OmenBrowser.Server.Projections

/- The life of a message under revision.

   A message is corrected by its author, at most eight times, until its author or a moderator
   puts a tombstone in its place; nothing changes it after that. The store keeps the last of these
   revisions and its number. Along any run that keeps the message, the state that is stored is the
   last revision that was accepted, its number is how many were, and the row of the message itself
   is what it was.

   A run may do anything else in between: other users revise other messages, react and pin, audit
   rows are pruned, and the history around the message is compacted. -/
namespace Omen.Server
open Wire Sql Ints Omen.Protocol List Machine

/-! The revisions of a message that were accepted. -/

/-- A revision that changed its target, who asked for it and what they were. -/
structure AcceptedRevision where
  actorUserId : UserId
  policy : MessageRevisionActorPolicy
  event : MessageRevisionEvent

def AcceptedRevision.corrects (a : AcceptedRevision) : Bool := decide (a.event.action = .correct)

/-- The state row an accepted revision leaves. -/
def AcceptedRevision.stateRow (roomId : RoomId) (a : AcceptedRevision) : RevisionStateRow :=
  revisionStateRow roomId a.actorUserId ⟨a.event.targetEventId, a.event.action, a.event.replacement⟩
    a.event.revisionNumber a.event.atUnix a.event.revisionEventId

/-- The revision of a message that a step accepted. -/
def acceptedRevision (roomId : RoomId) (target : EventId) :
    ProjectionInput × ProjectionOutput → Option AcceptedRevision
  | (.request (.revise room actorUserId _ policy request _ _), .revised (.changed mutation)) =>
    if room = roomId ∧ request.targetEventId = target then
      some ⟨actorUserId, policy, mutation.event⟩
    else none
  | _ => none

variable {a : AcceptedRevision} {s : ProjectionStore} {db : Database} {actorUserId : UserId}
  {policy : MessageRevisionActorPolicy} {request : MessageRevisionRequest}
  {state : Table RevisionStateRow.key} {events : Table RevisionEventRow.key}
  {reactions : Table ReactionRow.key} {roomId : RoomId}

def acceptedRevisions (roomId : RoomId) (target : EventId)
    (history : List (ProjectionInput × ProjectionOutput)) : List AcceptedRevision :=
  history.filterMap (acceptedRevision roomId target)

variable {i : ProjectionInput} {e : RoomEventRow} {id now : Int} {n : Nat} {db' : Database}
  {removed : List Int} {room : RoomId}

section
variable {roomId : RoomId} {target : EventId} {p : ProjectionInput × ProjectionOutput}
  {history : List (ProjectionInput × ProjectionOutput)}

theorem acceptedRevisions_none (h : acceptedRevision roomId target p = none) :
    acceptedRevisions roomId target (history ++ [p]) = acceptedRevisions roomId target history := by
  simp [acceptedRevisions, filterMap_append, h]

theorem acceptedRevisions_some (h : acceptedRevision roomId target p = some a) :
    acceptedRevisions roomId target (history ++ [p]) =
      acceptedRevisions roomId target history ++ [a] := by
  simp [acceptedRevisions, filterMap_append, h]

/-- A step that ends otherwise accepts nothing. -/
theorem acceptedRevision_eq_none {o : ProjectionOutput} (h : ∀ m, o ≠ .revised (.changed m)) :
    acceptedRevision roomId target (i, o) = none := by
  unfold acceptedRevision
  split
  · next heq =>
    obtain ⟨_, ho⟩ := Prod.mk.inj heq
    exact absurd ho (h _)
  · rfl

end

/-! The message itself. -/

/-- The row of a message, but for what it replies to. -/
structure SameMessage (e e' : RoomEventRow) : Prop where
  key : e'.key = e.key
  kind : e'.eventKind = e.eventKind
  payload : e'.payload = e.payload
  author : e'.actorUserId = e.actorUserId
  timestamp : e'.atUnix = e.atUnix

theorem SameMessage.refl (e : RoomEventRow) : SameMessage e e := ⟨rfl, rfl, rfl, rfl, rfl⟩

theorem SameMessage.trans {e' e'' : RoomEventRow} (h : SameMessage e e') (h' : SameMessage e' e'') :
    SameMessage e e'' :=
  ⟨h'.key.trans h.key, h'.kind.trans h.kind, h'.payload.trans h.payload, h'.author.trans h.author,
    h'.timestamp.trans h.timestamp⟩

theorem sameMessage_forgetReply (roomId : RoomId) (removed : List Int) (e : RoomEventRow) :
    SameMessage e (e.forgetReply roomId removed) := by
  unfold RoomEventRow.forgetReply
  split
  · exact ⟨rfl, rfl, rfl, rfl, rfl⟩
  · exact .refl e

/-- The step keeps the message if it is stored. -/
def Retains (roomId : RoomId) (target : EventId) (s : ProjectionStore) (i : ProjectionInput) : Prop :=
  Stored s.database roomId target → StoredAfter s i roomId target

/-- A message that stays stored stays the same. -/
theorem message_step (he : e ∈ s.database.roomEvents.rows)
    (hstored : StoredAfter s i e.roomId e.eventId) :
    ∃ e' ∈ (projectionStep s i).2.database.roomEvents.rows, SameMessage e e' := by
  cases i with
  | history i =>
    obtain ⟨roomId, removed, hforgets⟩ := historyStep_forgets ⟨s.database, s.historyRetention⟩ i
    obtain ⟨e', he', hkey⟩ := hstored
    refine ⟨e', he', ?_⟩
    rw [hforgets.kept e he e' he' hkey]
    exact sameMessage_forgetReply roomId removed e
  | request r =>
    refine ⟨e, ?_, .refl e⟩
    rcases request_cases s r with ⟨_, hstep⟩ | ⟨o, t, hout, hstep⟩
    · rw [hstep]
      exact he
    · rw [hstep]
      rw [hout.roomEvents]
      exact he

/-! The invariant. -/

/-- The actor of an accepted revision may revise the message: its author, who is not muted if they
correct it, or a moderator who puts a tombstone. -/
def AcceptedRevision.Permitted (a : AcceptedRevision) (e : RoomEventRow) : Prop :=
  match a.event.action with
  | .correct => e.actorUserId = some (a.actorUserId.toNat : Int) ∧ a.policy.isMuted = false
  | .tombstone => e.actorUserId = some (a.actorUserId.toNat : Int) ∨ a.policy.isModerator = true

/-- What is stored for a message, and the revisions of it that were accepted. -/
structure RevisionLife (roomId : RoomId) (target : EventId)
    (history : List (ProjectionInput × ProjectionOutput)) (s : ProjectionStore) : Prop where
  shown : s.database.revisionState? roomId target =
    (acceptedRevisions roomId target history).getLast?.map (AcceptedRevision.stateRow roomId)
  number : ((s.database.revisionState? roomId target).map RevisionStateRow.revisionNumber).getD 0 =
    (acceptedRevisions roomId target history).length
  corrections : (acceptedRevisions roomId target history).countP AcceptedRevision.corrects ≤
    maxCorrectionsPerTarget
  closed : (acceptedRevisions roomId target history).Pairwise (fun a _ => a.event.action = .correct)
  permitted : ∀ a ∈ acceptedRevisions roomId target history,
    ∃ e ∈ s.database.roomEvents.rows, e.key = (roomId, (target : Int)) ∧ a.Permitted e

section
variable {roomId : RoomId} {target : EventId} {s s' : ProjectionStore}
  {history history' : List (ProjectionInput × ProjectionOutput)}

/-- A step that accepts no revision of the message, and keeps what is stored for it. -/
theorem RevisionLife.same (h : RevisionLife roomId target history s)
    (haccepted : acceptedRevisions roomId target history' = acceptedRevisions roomId target history)
    (hstate : s'.database.revisionState? roomId target = s.database.revisionState? roomId target)
    (hevents : ∀ e ∈ s.database.roomEvents.rows, e.key = (roomId, (target : Int)) →
      ∃ e' ∈ s'.database.roomEvents.rows, SameMessage e e') :
    RevisionLife roomId target history' s' := by
  refine ⟨?_, ?_, ?_, ?_, ?_⟩
  · rw [hstate, haccepted]
    exact h.shown
  · rw [hstate, haccepted]
    exact h.number
  · rw [haccepted]
    exact h.corrections
  · rw [haccepted]
    exact h.closed
  · rw [haccepted]
    intro a ha
    obtain ⟨e, he, hkey, hpermitted⟩ := h.permitted a ha
    obtain ⟨e', he', hsame⟩ := hevents e he hkey
    refine ⟨e', he', hsame.key.trans hkey, ?_⟩
    unfold AcceptedRevision.Permitted at hpermitted ⊢
    rw [hsame.author]
    exact hpermitted

/-- As long as the stored state is no tombstone, all that was accepted are corrections. -/
theorem RevisionLife.open (h : RevisionLife roomId target history s)
    (hopen : ∀ r, s.database.revisionState? roomId target = some r →
      r.revisionAction ≠ MessageRevisionAction.tombstone.code) :
    ∀ a ∈ acceptedRevisions roomId target history, a.event.action = .correct := by
  intro a ha
  have hshown := h.shown
  have hclosed := h.closed
  rcases eq_nil_or_concat (acceptedRevisions roomId target history) with hnil | ⟨init, last, hsplit⟩
  · rw [hnil] at ha
    cases ha
  · rw [hsplit, concat_eq_append] at ha hshown hclosed
    rw [getLast?_concat, Option.map_some] at hshown
    rcases mem_append.mp ha with ha | ha
    · exact (pairwise_append.mp hclosed).2.2 a ha last (mem_singleton_self last)
    · rw [mem_singleton.mp ha]
      cases haction : last.event.action with
      | correct => rfl
      | tombstone =>
        refine absurd ?_ (hopen _ hshown)
        show last.event.action.code = _
        rw [haction]

/-- A request that may revise the message is permitted by its row. -/
theorem mayRevise_permitted (h : db.mayRevise roomId actorUserId policy request) :
    ∃ e ∈ db.roomEvents.rows, e.key = (roomId, (request.targetEventId : Int)) ∧
      ∀ event : MessageRevisionEvent, event.action = request.action →
        AcceptedRevision.Permitted ⟨actorUserId, policy, event⟩ e := by
  obtain ⟨targetActor, hauthor, hmay⟩ := h
  obtain ⟨author, hmessage, hu32⟩ := Option.bind_eq_some_iff.mp hauthor
  obtain ⟨e, hfind, hactor⟩ := Option.bind_eq_some_iff.mp hmessage
  obtain ⟨he, hkey⟩ := Table.find?_eq_some.mp hfind
  refine ⟨e, he, hkey, fun event haction => ?_⟩
  have hown : (targetActor == actorUserId) = true →
      e.actorUserId = some (actorUserId.toNat : Int) := by
    intro heq
    split at hactor
    · rw [hactor, toU32_some hu32, beq_iff_eq.mp heq]
    · cases hactor
  unfold AcceptedRevision.Permitted
  rw [haction]
  unfold revisionAuthorized at hmay
  cases hrequest : request.action with
  | correct =>
    simp only [hrequest, Bool.and_eq_true, Bool.not_eq_true'] at hmay
    exact ⟨hown hmay.1, hmay.2⟩
  | tombstone =>
    simp only [hrequest, Bool.or_eq_true] at hmay
    exact hmay.imp hown id

/-- A revision of the message that is accepted. -/
theorem RevisionLife.revised (h : RevisionLife roomId target history s) {maxMessageBytes : Nat}
    (hpasses : RevisionPasses s.database roomId actorUserId policy request maxMessageBytes n)
    (hrevised : Revised s.database roomId actorUserId request n now id state events reactions)
    (htarget : request.targetEventId = target)
    (hstate : s'.database.roomMessageRevisionState = state)
    (hevents : s'.database.roomEvents = s.database.roomEvents)
    (ha : a.actorUserId = actorUserId ∧ a.policy = policy ∧ a.event.action = request.action)
    (hrow : a.stateRow roomId = revisionStateRow roomId actorUserId request n now id)
    (haccepted : acceptedRevisions roomId target history' =
      acceptedRevisions roomId target history ++ [a]) :
    RevisionLife roomId target history' s' := by
  subst htarget
  obtain ⟨hn, _, hallowed⟩ := checkRevision_passes hpasses.checked
  -- a state that may be revised is no tombstone, so all revisions before this one are corrections
  have hopen := h.open fun r hr => (hallowed r hr).1
  have hshown : s'.database.revisionState? roomId request.targetEventId =
      some (revisionStateRow roomId actorUserId request n now id) := by
    refine Table.find?_eq_some.mpr ⟨?_, rfl⟩
    rw [hstate]
    exact (hrevised.state_mem _).mpr (.inl rfl)
  have hlength : n = (acceptedRevisions roomId request.targetEventId history).length + 1 := by
    rw [← h.number, hn]
    cases s.database.revisionState? roomId request.targetEventId <;> rfl
  refine ⟨?_, ?_, ?_, ?_, ?_⟩
  · rw [hshown, haccepted, getLast?_concat, Option.map_some, hrow]
  · rw [hshown, haccepted, length_append, length_singleton, ← hlength]
    rfl
  · rw [haccepted, countP_append, countP_singleton]
    cases haction : request.action with
    | tombstone =>
      have hno : a.corrects = false := by
        rw [AcceptedRevision.corrects, ha.2.2, haction]
        rfl
      rw [hno]
      exact h.corrections
    | correct =>
      have hle := countP_le_length (p := AcceptedRevision.corrects)
        (l := acceptedRevisions roomId request.targetEventId history)
      -- the stored number is that of the accepted revisions, and a correction found it below the limit
      have height : n ≤ maxCorrectionsPerTarget := by
        rw [hn]
        cases hr : s.database.revisionState? roomId request.targetEventId with
        | none => decide
        | some r => exact (hallowed r hr).2 haction
      split <;> omega
  · rw [haccepted]
    refine pairwise_append.mpr ⟨h.closed, pairwise_singleton _ _, ?_⟩
    intro b hb _ _
    exact hopen b hb
  · rw [haccepted, hevents]
    intro b hb
    rcases mem_append.mp hb with hb | hb
    · exact h.permitted b hb
    · rw [mem_singleton.mp hb]
      obtain ⟨e, he, hkey, hpermitted⟩ := mayRevise_permitted hpasses.authorized
      refine ⟨e, he, hkey, ?_⟩
      have hsame := hpermitted a.event ha.2.2
      rw [← ha.1, ← ha.2.1] at hsame
      exact hsame

end

/-- Nothing is stored for a message that was not stored yet. -/
theorem RevisionLife.unstored {target : EventId}
    {history : List (ProjectionInput × ProjectionOutput)} (h : RevisionLife roomId target history s)
    (hstored : ¬Stored s.database roomId target) :
    s.database.revisionState? roomId target = none := by
  have hnone : acceptedRevisions roomId target history = [] := by
    apply eq_nil_iff_forall_not_mem.mpr
    intro a ha
    obtain ⟨e, he, hkey, _⟩ := h.permitted a ha
    exact hstored ⟨e, he, hkey⟩
  rw [h.shown, hnone]
  rfl

/-- What is stored for a message stays as long as the message does. -/
theorem Forgets.revisionState? (h : Forgets db db' room removed) {target : Int}
    (hstored : Stored db' roomId target) :
    db'.revisionState? roomId target = db.revisionState? roomId target := by
  obtain ⟨e, he, hkey⟩ := hstored
  unfold Database.revisionState?
  rw [h.revisionState]
  apply Table.find?_deleteWhere
  intro r hr
  cases hr
  exact h.not_target he hkey

/-- A step of the history that keeps the message keeps what is stored for it, if anything is. -/
theorem RevisionLife.history {target : EventId}
    {history : List (ProjectionInput × ProjectionOutput)}
    (h : RevisionLife roomId target history s) (hforgets : Forgets s.database db' room removed)
    (hretains : Stored s.database roomId target → Stored db' roomId target) :
    db'.revisionState? roomId target = s.database.revisionState? roomId target := by
  by_cases hstored : Stored s.database roomId target
  · exact hforgets.revisionState? (hretains hstored)
  · have hnone := h.unstored hstored
    rw [hnone]
    refine Table.find?_eq_none.mpr fun r hr hkey => ?_
    rw [hforgets.revisionState] at hr
    exact Table.find?_eq_none.mp hnone r (Table.mem_deleteWhere.mp hr).1 hkey

/-- A revision leaves the states of other targets alone. -/
theorem Revised.find?_other
    (h : Revised db roomId actorUserId request n now id state events reactions)
    {key : RoomId × Int} (hother : (roomId, (request.targetEventId : Int)) ≠ key) :
    state.find? key = db.roomMessageRevisionState.find? key := by
  apply Option.ext
  intro r
  rw [Table.find?_eq_some, Table.find?_eq_some, h.state_mem]
  constructor
  · rintro ⟨rfl | ⟨hr, _⟩, hkey⟩
    · exact absurd hkey hother
    · exact ⟨hr, hkey⟩
  · intro ⟨hr, hkey⟩
    exact ⟨.inr ⟨hr, hkey ▸ hother.symm⟩, hkey⟩

theorem revision_life_step (roomId : RoomId) (target : EventId)
    (history : List (ProjectionInput × ProjectionOutput)) (s : ProjectionStore) (i : ProjectionInput)
    (h : RevisionLife roomId target history s) (hretains : Retains roomId target s i) :
    RevisionLife roomId target (history ++ [(i, (projectionStep s i).1)]) (projectionStep s i).2 := by
  -- the step keeps the message, so what is said of its row goes on
  have hevents : ∀ e ∈ s.database.roomEvents.rows, e.key = (roomId, (target : Int)) →
      ∃ e' ∈ (projectionStep s i).2.database.roomEvents.rows, SameMessage e e' := by
    intro e he hkey
    have hstored := hretains ⟨e, he, hkey⟩
    obtain ⟨rfl, heid⟩ := Prod.mk.inj hkey
    exact message_step he (heid ▸ hstored)
  cases i with
  | history i =>
    obtain ⟨room, removed, hforgets⟩ := historyStep_forgets ⟨s.database, s.historyRetention⟩ i
    exact h.same (acceptedRevisions_none rfl) (h.history hforgets hretains) hevents
  | request r =>
    rcases request_cases s r with ⟨e, hstep⟩ | ⟨o, t, hout, hstep⟩
    · rw [hstep] at hevents ⊢
      exact h.same (acceptedRevisions_none (acceptedRevision_eq_none fun m hm => by cases hm)) rfl
        hevents
    · have hroomEvents := hout.roomEvents
      rw [hstep] at hevents ⊢
      cases hout with
      | react hreact =>
        refine h.same (acceptedRevisions_none rfl) ?_ hevents
        exact congrArg (Table.find? · (roomId, (target : Int))) hreact.revisions
      | pin hpin =>
        refine h.same (acceptedRevisions_none rfl) ?_ hevents
        exact congrArg (Table.find? · (roomId, (target : Int))) hpin.revisions
      | @revise room actorUserId actorDisplayName policy request maxMessageBytes now result db' hrevise =>
        cases hrevise with
        | refused hresult _ =>
          refine h.same (acceptedRevisions_none (acceptedRevision_eq_none fun m hm => ?_)) rfl hevents
          exact hresult m (ProjectionOutput.revised.inj hm)
        | saturated _ _ =>
          exact h.same (acceptedRevisions_none (acceptedRevision_eq_none fun m hm => by cases hm)) rfl
            hevents
        | @changed n hpasses _ id state events reactions cleared hrevised =>
          -- a revision of another message leaves the state row of this one
          by_cases htarget : room = roomId ∧ request.targetEventId = target
          · obtain ⟨rfl, htarget⟩ := htarget
            refine h.revised hpasses hrevised htarget rfl hroomEvents ⟨rfl, rfl, rfl⟩ ?_
              (acceptedRevisions_some (if_pos ⟨rfl, htarget⟩))
            have hid : ((id.toNat : Nat) : Int) = id := Int.toNat_of_nonneg hrevised.id_pos.le
            unfold AcceptedRevision.stateRow
            simp only [hid]
          · have hother : (room, (request.targetEventId : Int)) ≠ (roomId, (target : Int)) := by
              intro heq
              obtain ⟨hroom, heid⟩ := Prod.mk.inj heq
              exact htarget ⟨hroom, Int.ofNat_inj.mp heid⟩
            exact h.same (acceptedRevisions_none (if_neg htarget)) (hrevised.find?_other hother) hevents

theorem revision_life_fresh (hfresh : s.Fresh) (roomId : RoomId) (target : EventId) :
    RevisionLife roomId target [] s := by
  have hempty : s.database.roomMessageRevisionState = Table.empty :=
    congrArg Hanging.roomMessageRevisionState hfresh.hanging
  have hnone : s.database.revisionState? roomId target = none := by
    unfold Database.revisionState?
    rw [hempty]
    rfl
  refine ⟨?_, ?_, Nat.zero_le _, List.Pairwise.nil, ?_⟩
  · rw [hnone]
    rfl
  · rw [hnone]
    rfl
  · intro a ha
    cases ha

/-- In every run that keeps a message once it is stored, what is stored for the message is the last
revision of it that was accepted, with their number, and the accepted ones are at most eight
corrections by its unmuted author and then a tombstone by its author or a moderator. The row of the
message is never modified. -/
theorem message_revision_life (s : ProjectionStore) (hfresh : s.Fresh)
    (inputs : List ProjectionInput) (roomId : RoomId) (target : EventId)
    (hretains : Machine.Meets projectionStep (Retains roomId target) s inputs) :
    RevisionLife roomId target (run projectionStep s inputs).1
      (run projectionStep s inputs).2 ∧
    ∀ before after, inputs = before ++ after →
      ∀ e ∈ (run projectionStep s before).2.database.roomEvents.rows,
        e.key = (roomId, (target : Int)) →
        ∃ e' ∈ (run projectionStep s inputs).2.database.roomEvents.rows,
          SameMessage e e' := by
  refine ⟨?_, ?_⟩
  · exact run_history (revision_life_step roomId target) s inputs hretains
      (revision_life_fresh hfresh roomId target)
  · rintro before after rfl e he hkey
    rw [run_append]
    refine run_invariant (I := fun s => ∃ e' ∈ s.database.roomEvents.rows, SameMessage e e')
      ?_ _ after (meets_append hretains) ⟨e, he, .refl e⟩
    intro s i ⟨e', he', hsame⟩ hkeeps
    have hkey' : e'.key = (roomId, (target : Int)) := hsame.key.trans hkey
    have hstored := hkeeps ⟨e', he', hkey'⟩
    obtain ⟨rfl, heid⟩ := Prod.mk.inj hkey'
    obtain ⟨e'', he'', hnext⟩ := message_step he' (heid ▸ hstored)
    exact ⟨e'', he'', hsame.trans hnext⟩

/-- User 1 posts and corrects a message, a moderator puts a tombstone, and another correction
comes too late. -/
def tombstonedMessage : List ProjectionInput :=
  [.history (.append 1 (some 1) (.message "a") none ⟨10, 10, 10⟩),
   .request (.revise 1 1 none ⟨false, false⟩ ⟨1, .correct, some "b"⟩ 1024 11),
   .request (.revise 1 2 none ⟨true, false⟩ ⟨1, .tombstone, none⟩ 1024 12),
   .request (.revise 1 1 none ⟨false, false⟩ ⟨1, .correct, some "c"⟩ 1024 13)]

theorem tombstonedMessage_retains :
    Machine.Meets projectionStep (Retains 1 1) (.initial .disabled) tombstonedMessage := by
  refine ⟨fun _ => ?_, fun _ => ?_, fun _ => ?_, fun _ => ?_, trivial⟩
  all_goals exact ⟨_, mem_cons_self, rfl⟩

theorem message_revision_life_tombstoned :
    (acceptedRevisions 1 1 (run projectionStep (.initial .disabled)
      tombstonedMessage).1).map (fun a => a.event.action) = [.correct, .tombstone] ∧
    RevisionLife 1 1 (run projectionStep (.initial .disabled) tombstonedMessage).1
      (run projectionStep (.initial .disabled) tombstonedMessage).2 :=
  ⟨rfl, (message_revision_life _ (ProjectionStore.initial_fresh _) tombstonedMessage 1 1
    tombstonedMessage_retains).1⟩

end Omen.Server
