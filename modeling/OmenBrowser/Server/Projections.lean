import OmenBrowser.Server.CompactionFrame
import OmenBrowser.Server.Pins
import OmenBrowser.Server.RevisionOutcome

/- Runs of the store: reactions, revisions, pins and the history they hang on.

   A request is a transaction of its own, whatever its result; what fails is rolled back. The
   history is appended to, compacted and lost as in `historyStep`. All that a step of the history
   does to what hangs on events is to delete, in one room, the rows of the events it removed
   (`Forgets`). -/
namespace Omen.Server
open Wire Sql Ints Omen.Protocol

variable {roomId : RoomId} {actorUserId : UserId} {now : Int} {request : PinRequest}
  {result : PinMutationResult}

structure ProjectionStore where
  tables : SequencedDatabase
  historyRetention : RoomHistoryRetentionPolicy

abbrev ProjectionStore.database (s : ProjectionStore) : Database := s.tables.database

/-- A new store. -/
def ProjectionStore.initial (retention : RoomHistoryRetentionPolicy) : ProjectionStore :=
  { tables := { database := Database.empty, pinSequence := 0 }
    historyRetention := retention }

inductive ProjectionRequest where
  | react (roomId : RoomId) (actorUserId : UserId) (request : ReactionRequest) (now : Int)
  | revise (roomId : RoomId) (actorUserId : UserId) (actorDisplayName : Option String)
      (policy : MessageRevisionActorPolicy) (request : MessageRevisionRequest)
      (maxMessageBytes : Nat) (now : Int)
  | pin (roomId : RoomId) (actorUserId : UserId) (request : PinRequest) (now : Int)

inductive ProjectionInput where
  | request (r : ProjectionRequest)
  | history (i : HistoryInput)

inductive ProjectionOutput where
  | reacted (result : ReactionMutationResult)
  | revised (result : MessageRevisionMutationResult)
  | pinned (result : PinMutationResult)
  | history (o : HistoryOutput)
  | failed (error : ServerError)

variable (s : ProjectionStore)

/-- Run a body as a transaction of the store. -/
def ProjectionStore.transact {α : Type} (body : Txn SequencedDatabase ServerError α)
    (output : α → ProjectionOutput) : ProjectionOutput × ProjectionStore :=
  let result := Txn.atomically body s.tables
  (match result.1 with
    | .ok a => output a
    | .error e => .failed e,
   { s with tables := result.2 })

def projectionStep : ProjectionInput → ProjectionOutput × ProjectionStore
  | .request (.react roomId actorUserId request now) =>
    s.transact (onDatabase (applyReactionMutationAt roomId actorUserId request now)) .reacted
  | .request (.revise roomId actorUserId actorDisplayName policy request maxMessageBytes now) =>
    s.transact (onDatabase (applyMessageRevisionMutationAt roomId actorUserId actorDisplayName policy
      request maxMessageBytes now)) .revised
  | .request (.pin roomId actorUserId request now) =>
    s.transact (applyPinMutationAt roomId actorUserId request now) .pinned
  | .history i =>
    let next := historyStep ⟨s.database, s.historyRetention⟩ i
    (.history next.1,
     { tables := { s.tables with database := next.2.database }
       historyRetention := next.2.historyRetention })

/-! Requests. -/

/-- All that a request may do that does not fail. -/
inductive RequestOutcome (t : SequencedDatabase) :
    ProjectionRequest → ProjectionOutput → SequencedDatabase → Prop where
  | react {roomId : RoomId} {actorUserId : UserId} {request : ReactionRequest} {now : Int}
      {result : ReactionMutationResult} {db' : Database}
      (h : ReactionOutcome t.database roomId actorUserId request now result db') :
    RequestOutcome t (.react roomId actorUserId request now) (.reacted result)
      { t with database := db' }
  | revise {roomId : RoomId} {actorUserId : UserId} {actorDisplayName : Option String}
      {policy : MessageRevisionActorPolicy} {request : MessageRevisionRequest}
      {maxMessageBytes : Nat} {now : Int} {result : MessageRevisionMutationResult} {db' : Database}
      (h : RevisionOutcome t.database roomId actorUserId actorDisplayName policy request
        maxMessageBytes now result db') :
    RequestOutcome t
      (.revise roomId actorUserId actorDisplayName policy request maxMessageBytes now)
      (.revised result) { t with database := db' }
  | pin {roomId : RoomId} {actorUserId : UserId} {request : PinRequest} {now : Int}
      {result : PinMutationResult} {t' : SequencedDatabase}
      (h : PinOutcome t roomId actorUserId request now result t') :
    RequestOutcome t (.pin roomId actorUserId request now) (.pinned result) t'

/-- A transaction of the store fails and changes nothing, or ends with its body. -/
theorem transact_cases {α : Type} (body : Txn SequencedDatabase ServerError α)
    (output : α → ProjectionOutput) :
    (∃ e, s.transact body output = (.failed e, s)) ∨
    ∃ a t, body s.tables = .ok (a, t) ∧ s.transact body output = (output a, { s with tables := t }) := by
  unfold ProjectionStore.transact Txn.atomically
  cases h : body s.tables with
  | error e => exact .inl ⟨e, rfl⟩
  | ok p => exact .inr ⟨p.1, p.2, rfl, rfl⟩

/-- A request fails and changes nothing, or has its outcome. -/
theorem request_cases (r : ProjectionRequest) :
    (∃ e, projectionStep s (.request r) = (.failed e, s)) ∨
    ∃ o t, RequestOutcome s.tables r o t ∧
      projectionStep s (.request r) = (o, { s with tables := t }) := by
  cases r with
  | react roomId actorUserId request now =>
    rcases transact_cases s (onDatabase (applyReactionMutationAt roomId actorUserId request now))
      .reacted with hfailed | ⟨result, t, hbody, hstep⟩
    · exact .inl hfailed
    · obtain ⟨db', happly, rfl⟩ := Txn.zoom_ok.mp hbody
      exact .inr ⟨_, _, .react (applyReaction_outcome happly), hstep⟩
  | revise roomId actorUserId actorDisplayName policy request maxMessageBytes now =>
    rcases transact_cases s (onDatabase (applyMessageRevisionMutationAt roomId actorUserId
      actorDisplayName policy request maxMessageBytes now)) .revised with
      hfailed | ⟨result, t, hbody, hstep⟩
    · exact .inl hfailed
    · obtain ⟨db', happly, rfl⟩ := Txn.zoom_ok.mp hbody
      exact .inr ⟨_, _, .revise (applyRevision_outcome happly), hstep⟩
  | pin roomId actorUserId request now =>
    rcases transact_cases s (applyPinMutationAt roomId actorUserId request now) .pinned with
      hfailed | ⟨result, t, hbody, hstep⟩
    · exact .inl hfailed
    · exact .inr ⟨_, _, .pin (applyPin_outcome hbody), hstep⟩

/-! What a request leaves alone. -/

section
variable {db db' : Database} {t t' : SequencedDatabase}

theorem ReactionOutcome.revisions {request : ReactionRequest} {result : ReactionMutationResult}
    (h : ReactionOutcome db roomId actorUserId request now result db') :
    db'.roomMessageRevisionState = db.roomMessageRevisionState := by
  cases h <;> rfl

theorem PinOutcome.revisions (h : PinOutcome t roomId actorUserId request now result t') :
    t'.database.roomMessageRevisionState = t.database.roomMessageRevisionState := by
  cases h <;> rfl

theorem RevisionOutcome.reactionEvents {actorDisplayName : Option String}
    {policy : MessageRevisionActorPolicy} {request : MessageRevisionRequest} {maxMessageBytes : Nat}
    {result : MessageRevisionMutationResult}
    (h : RevisionOutcome db roomId actorUserId actorDisplayName policy request maxMessageBytes now
      result db')
    : db'.roomReactionEvents = db.roomReactionEvents := by
  cases h <;> rfl

theorem PinOutcome.reactionEvents (h : PinOutcome t roomId actorUserId request now result t') :
    t'.database.roomReactionEvents = t.database.roomReactionEvents := by
  cases h <;> rfl

theorem RequestOutcome.roomEvents {r : ProjectionRequest} {o : ProjectionOutput}
    (h : RequestOutcome t r o t') : t'.database.roomEvents = t.database.roomEvents := by
  cases h with
  | react h => cases h <;> rfl
  | revise h => cases h <;> rfl
  | pin h => cases h <;> rfl

end

/-! The history. -/

/-- The tables of rows that hang on events. -/
structure Hanging where
  roomReactions : Table ReactionRow.key
  roomReactionEvents : Table ReactionEventRow.key
  roomMessageRevisionState : Table RevisionStateRow.key
  roomMessageRevisionEvents : Table RevisionEventRow.key
  roomPins : Table PinRow.key
  roomPinEvents : Table PinEventRow.pinEventId

def Database.hanging (db : Database) : Hanging :=
  { roomReactions := db.roomReactions
    roomReactionEvents := db.roomReactionEvents
    roomMessageRevisionState := db.roomMessageRevisionState
    roomMessageRevisionEvents := db.roomMessageRevisionEvents
    roomPins := db.roomPins
    roomPinEvents := db.roomPinEvents }

/-- Without the rows of some events of a room. -/
def Hanging.forget (h : Hanging) (roomId : RoomId) (removed : List Int) : Hanging :=
  { roomReactions := h.roomReactions.deleteWhere
      (fun r => isTarget roomId removed r.roomId r.targetEventId)
    roomReactionEvents := h.roomReactionEvents.deleteWhere
      (fun r => isTarget roomId removed r.roomId r.targetEventId)
    roomMessageRevisionState := h.roomMessageRevisionState.deleteWhere
      (fun r => isTarget roomId removed r.roomId r.targetEventId)
    roomMessageRevisionEvents := h.roomMessageRevisionEvents.deleteWhere
      (fun r => isTarget roomId removed r.roomId r.targetEventId)
    roomPins := h.roomPins.deleteWhere
      (fun r => isTarget roomId removed r.roomId r.targetEventId)
    roomPinEvents := h.roomPinEvents.deleteWhere
      (fun r => isTarget roomId removed r.roomId r.targetEventId) }

/-- Nothing hangs on any event yet. -/
structure ProjectionStore.Fresh (s : ProjectionStore) : Prop where
  hanging : s.database.hanging = Database.empty.hanging
  pinSequence : s.tables.pinSequence = 0

theorem ProjectionStore.initial_fresh (retention : RoomHistoryRetentionPolicy) :
    (ProjectionStore.initial retention).Fresh := ⟨rfl, rfl⟩

/-- Of what hangs on events, the rows of some events of a room are gone, and these events too. -/
structure Forgets (db db' : Database) (roomId : RoomId) (removed : List Int) : Prop where
  hanging : db'.hanging = db.hanging.forget roomId removed
  gone : ∀ e ∈ db'.roomEvents.rows, isTarget roomId removed e.roomId e.eventId = false
  kept : ∀ e ∈ db.roomEvents.rows, ∀ e' ∈ db'.roomEvents.rows, e'.key = e.key →
    e' = e.forgetReply roomId removed

/-- Events may be new, and nothing hangs on them yet. -/
structure Grows (db db' : Database) : Prop where
  hanging : db'.hanging = db.hanging
  events : ∀ e ∈ db.roomEvents.rows, e ∈ db'.roomEvents.rows

section
variable {db db₁ db' : Database} {roomId : RoomId} {removed : List Int}

theorem Grows.of_eq (hhanging : db'.hanging = db.hanging) (hevents : db'.roomEvents = db.roomEvents) :
    Grows db db' :=
  ⟨hhanging, fun e he => by rw [hevents]; exact he⟩

theorem Grows.trans {db₂ : Database} (h₁ : Grows db db₁) (h₂ : Grows db₁ db₂) : Grows db db₂ :=
  ⟨h₂.hanging.trans h₁.hanging, fun e he => h₂.events e (h₁.events e he)⟩

theorem SequenceSet.grows {n : Nat} (h : SequenceSet db db' roomId n) : Grows db db' :=
  .of_eq (by rw [h.rest]; rfl) (by rw [h.rest])

theorem UsageSet.grows {u : UsageRow} (h : UsageSet db db' roomId u) : Grows db db' :=
  .of_eq (by rw [h.rest]; rfl) (by rw [h.rest])

theorem Forgets.of_grows (hgrows : Grows db db₁) (h : Forgets db₁ db' roomId removed) :
    Forgets db db' roomId removed :=
  ⟨by rw [h.hanging, hgrows.hanging], h.gone, fun e he => h.kept e (hgrows.events e he)⟩

theorem Forgets.of_eq (h : Forgets db db₁ roomId removed) (hhanging : db'.hanging = db₁.hanging)
    (hevents : db'.roomEvents = db₁.roomEvents) : Forgets db db' roomId removed := by
  refine ⟨hhanging.trans h.hanging, ?_, ?_⟩
  · rw [hevents]
    exact h.gone
  · rw [hevents]
    exact h.kept

theorem hanging_forget_nil (h : Hanging) (roomId : RoomId) : h.forget roomId [] = h := by
  have hnone : ∀ (r : RoomId) (target : Int), isTarget roomId [] r target = false := by
    intro r target
    simp [isTarget]
  cases h
  simp only [Hanging.forget, hnone, Hanging.mk.injEq]
  refine ⟨?_, ?_, ?_, ?_, ?_, ?_⟩ <;> exact Table.ext (by simp [Table.deleteWhere])

theorem Grows.forgets (h : Grows db db') (roomId : RoomId) : Forgets db db' roomId [] := by
  refine ⟨?_, ?_, ?_⟩
  · rw [h.hanging, hanging_forget_nil]
  · intro e _
    simp [isTarget]
  · intro e he e' he' hkey
    rw [forgetReply_nil]
    exact Table.eq_of_key he' (h.events e he) hkey

theorem mem_events_forget {e : RoomEventRow} :
    e ∈ (db.forget roomId removed).roomEvents.rows ↔
      isTarget roomId removed e.roomId e.eventId = false ∧
      ∃ e₀ ∈ db.roomEvents.rows, e₀.forgetReply roomId removed = e := by
  show e ∈ (db.roomEvents.rows.map (RoomEventRow.forgetReply roomId removed)).filter
    (fun e => !isTarget roomId removed e.roomId e.eventId) ↔ _
  rw [List.mem_filter, List.mem_map, Bool.not_eq_true', and_comm]

theorem forgets_forget (db : Database) (roomId : RoomId) (removed : List Int) :
    Forgets db (db.forget roomId removed) roomId removed := by
  refine ⟨rfl, fun e he => (mem_events_forget.mp he).1, ?_⟩
  intro e he e' he' hkey
  obtain ⟨_, e₀, he₀, rfl⟩ := mem_events_forget.mp he'
  have hsame : e₀.key = e.key := by
    rw [← hkey, RoomEventRow.key, RoomEventRow.key, forgetReply_roomId, forgetReply_eventId]
  rw [Table.eq_of_key he₀ he hsame]

theorem compact_forgets {through : Int} {limit : Nat} {hook : Hook} {result : RoomHistoryCompaction}
    (h : compactRoomHistoryThroughInTransaction roomId through limit now hook db =
      .ok (result, db'))
    : ∃ removed, Forgets db db' roomId removed := by
  obtain ⟨db₁, last, k, hseq, _, _, _, hcase⟩ := compactInTransaction_ok h
  obtain ⟨hset, _⟩ := ensureRoomEventSequence_ok hseq
  have hgrows : Grows db db₁ := hset.grows
  rcases hcase with ⟨_, rfl⟩ | ⟨u, hcompacts⟩
  · exact ⟨[], hgrows.forgets roomId⟩
  · have hforget := forgets_forget db₁ roomId (db₁.oldestIds roomId k)
    refine ⟨db₁.oldestIds roomId k, .of_grows hgrows (hforget.of_eq ?_ ?_)⟩
    · exact hcompacts.after.grows.hanging
    · rw [hcompacts.after.rest]

theorem enforce_forgets {newest : EventId} {policy : RoomHistoryRetentionPolicy} {compactedAt : Int}
    {c : RoomHistoryCompaction}
    (h : enforceRoomHistoryPolicyInTransaction roomId newest policy now compactedAt db =
      .ok (c, db'))
    : ∃ removed, Forgets db db' roomId removed := by
  rcases enforcePolicy_compacts h with rfl | ⟨_, _, hcompact⟩
  · exact ⟨[], (Grows.of_eq rfl rfl).forgets roomId⟩
  · exact compact_forgets hcompact

/-- A backfill touches the ledger only. -/
theorem advanceBackfill_keeps {limit : Nat} :
    Txn.Keeps (fun db => (db.hanging, db.roomEvents))
      (advanceRoomHistoryUsageBackfill roomId limit) := by
  refine .bind (.query _) fun usage => ?_
  cases usage with
  | none => exact .abort _
  | some u =>
    refine .ite (.pure 0) (.bind (.query _) fun rows => .bind (.lift _) fun bytes => ?_)
    split
    · exact .abort _
    · exact .abort _
    · refine .bind ?_ fun changed => .bind ?_ fun _ => .pure _
      · exact .bind (.query _) fun _ => .bind (.execute fun _ => rfl) fun _ => .pure _
      · exact .ite (.pure ()) (.abort _)

theorem append_forgets {actorUserId : Option UserId} {kind : ServerRoomEventKind}
    {metadata : Option RichMessageEventMetadata} {retention : RoomHistoryRetentionPolicy}
    {clock : Clock} {event : ServerRoomEvent}
    (h : appendEventWithMetadataInTransaction roomId actorUserId kind metadata retention clock db =
      .ok (event, db')) : ∃ removed, Forgets db db' roomId removed := by
  obtain ⟨_, _, db₁, db₂, n, c, _, hrecorded, hadvance, henforce⟩ := append_cases h
  have hgrows₁ : Grows db db₁ := by
    refine ⟨by rw [hrecorded.rest]; rfl, fun e he => ?_⟩
    rw [hrecorded.stored]
    exact List.mem_cons_of_mem _ he
  have hsame := Prod.mk.inj (advanceBackfill_keeps db₁ n db₂ hadvance)
  obtain ⟨removed, hforgets⟩ := enforce_forgets henforce
  exact ⟨removed, .of_grows (hgrows₁.trans (.of_eq hsame.1 hsame.2)) hforgets⟩

theorem advance_grows {usage : RoomHistoryUsage}
    (h : advanceRoomHistoryUsage roomId db = .ok (usage, db')) : Grows db db' := by
  obtain ⟨n, db₁, db₂, m, hseq, hseed, hadvance⟩ := advance_cases h
  have hset := (ensureRoomEventSequence_ok hseq).1
  have husage := ensureRoomHistoryUsage_ok hseed
  have hsame := Prod.mk.inj (advanceBackfill_keeps db₂ m db' hadvance)
  exact hset.grows.trans (husage.grows.trans (.of_eq hsame.1 hsame.2))

end

/-- A step of the history forgets some events of a room, or none. -/
theorem historyStep_forgets (s : OmenchatStore) (i : HistoryInput) :
    ∃ roomId removed, Forgets s.database (historyStep s i).2.database roomId removed := by
  have hsame : ∀ s' : OmenchatStore, s'.database = s.database →
      ∃ roomId removed, Forgets s.database s'.database roomId removed := by
    intro s' h
    exact ⟨0, [], Grows.forgets (.of_eq (by rw [h]) (by rw [h])) 0⟩
  have htransact : ∀ {α : Type} {body : Txn Database ServerError α} {output : α → HistoryOutput},
      (∀ a db', body s.database = .ok (a, db') → ∃ roomId removed,
        Forgets s.database db' roomId removed) →
      ∃ roomId removed, Forgets s.database (s.transact body output).2.database roomId removed := by
    intro α body output hbody
    unfold OmenchatStore.transact Txn.atomically
    cases h : body s.database with
    | error e => exact hsame s rfl
    | ok p => exact hbody p.1 p.2 h
  cases i with
  | append roomId actorUserId kind metadata clock =>
    exact htransact fun a db' h => ⟨roomId, append_forgets h⟩
  | advance roomId => exact htransact fun a db' h => ⟨roomId, [], (advance_grows h).forgets roomId⟩
  | compact roomId throughEventId maxEvents now =>
    refine htransact fun a db' h => ⟨roomId, ?_⟩
    obtain ⟨_, _, _, _, hcompact, _⟩ := compactThrough_cases h
    exact compact_forgets hcompact
  | fault => exact hsame s rfl
  | restart retention => exact hsame _ rfl

/-- The event is stored. -/
def Stored (db : Database) (roomId : RoomId) (eventId : Int) : Prop :=
  ∃ e ∈ db.roomEvents.rows, e.key = (roomId, eventId)

/-- The event is stored after the step. -/
def StoredAfter (i : ProjectionInput) (roomId : RoomId) (eventId : Int) : Prop :=
  Stored (projectionStep s i).2.database roomId eventId

section
variable {db db' : Database} {roomId : RoomId} {removed : List Int}

variable (h : Forgets db db' roomId removed)
include h

/-- A row that hangs on an event that is still stored is not forgotten. -/
theorem Forgets.not_target {e : RoomEventRow} {r : RoomId}
    {target : Int} (he : e ∈ db'.roomEvents.rows) (hkey : e.key = (r, target)) :
    isTarget roomId removed r target = false := by
  cases hkey
  exact h.gone e he

theorem Forgets.revisionState :
    db'.roomMessageRevisionState = db.roomMessageRevisionState.deleteWhere
      (fun r => isTarget roomId removed r.roomId r.targetEventId) :=
  congrArg Hanging.roomMessageRevisionState h.hanging

theorem Forgets.reactions :
    db'.roomReactions = db.roomReactions.deleteWhere
      (fun r => isTarget roomId removed r.roomId r.targetEventId) :=
  congrArg Hanging.roomReactions h.hanging

theorem Forgets.pins :
    db'.roomPins = db.roomPins.deleteWhere
      (fun r => isTarget roomId removed r.roomId r.targetEventId) :=
  congrArg Hanging.roomPins h.hanging

theorem Forgets.pinEvents :
    db'.roomPinEvents = db.roomPinEvents.deleteWhere
      (fun r => isTarget roomId removed r.roomId r.targetEventId) :=
  congrArg Hanging.roomPinEvents h.hanging

theorem Forgets.reactionEvents :
    db'.roomReactionEvents = db.roomReactionEvents.deleteWhere
      (fun r => isTarget roomId removed r.roomId r.targetEventId) :=
  congrArg Hanging.roomReactionEvents h.hanging

/-- What hangs on an event that is still stored is kept. -/
theorem Forgets.mem_revisionState {r : RevisionStateRow}
    (hr : r ∈ db.roomMessageRevisionState.rows) (hstored : Stored db' r.roomId r.targetEventId) :
    r ∈ db'.roomMessageRevisionState.rows := by
  obtain ⟨e, he, hkey⟩ := hstored
  rw [h.revisionState]
  exact Table.mem_deleteWhere.mpr ⟨hr, h.not_target he hkey⟩

theorem Forgets.mem_reactionEvents {r : ReactionEventRow}
    (hr : r ∈ db.roomReactionEvents.rows) (hstored : Stored db' r.roomId r.targetEventId) :
    r ∈ db'.roomReactionEvents.rows := by
  obtain ⟨e, he, hkey⟩ := hstored
  rw [h.reactionEvents]
  exact Table.mem_deleteWhere.mpr ⟨hr, h.not_target he hkey⟩

end

end Omen.Server
