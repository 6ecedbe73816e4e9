import OmenBrowser.Server.EventIds
import OmenBrowser.Server.MessageRevisions
import OmenBrowser.Server.RetentionPolicy
import OmenBrowser.Server.Users

/- Whom the author id of a stored event stands for.

   Events record their author by numeric user id, and a revision is authorized by comparing
   numeric ids. `identityStep` is the store as sessions and the administrator drive it: a user
   is ensured, users are deleted, an event is appended under the id a session got for its
   identity or in one transaction with ensuring it, and a message is revised. `appended` says
   which identity appended which event; it is a record for the statements below, no step reads
   it.

   An author id stands for another identity than the one that appended the event in two ways: a
   new user gets the id of a deleted one whose events are stored, or an event is appended under
   an id that has become another user's. `KeepsIdsApart` says of a step that it does neither;
   runs of such steps keep every author id bound to the identity. -/
namespace Omen.Server
open Wire Sql Ints Omen.Protocol List

variable {actorUserId : Option UserId} {kind : ServerRoomEventKind}
  {metadata : Option RichMessageEventMetadata} {retention : RoomHistoryRetentionPolicy}
  {clock : Clock} {event : ServerRoomEvent} {roomId : RoomId} {identityHash : Bytes}

structure Appender where
  roomId : RoomId
  eventId : EventId
  identityHash : Bytes

structure ChatStore where
  database : Database
  historyRetention : RoomHistoryRetentionPolicy
  /-- The id a session got when its identity was ensured. -/
  sessions : Bytes → Option UserId
  appended : List Appender

def ChatStore.initial (retention : RoomHistoryRetentionPolicy) : ChatStore :=
  { database := Database.empty
    historyRetention := retention
    sessions := fun _ => none
    appended := [] }

inductive IdentityInput where
  | ensureUser (peer : ServerPeer) (now : Int)
  | deleteUsers (userIds : List UserId)
  | append (identityHash : Bytes) (roomId : RoomId) (kind : ServerRoomEventKind) (clock : Clock)
  | appendSystem (roomId : RoomId) (kind : ServerRoomEventKind) (clock : Clock)
  | appendDurable (peer : ServerPeer) (now : Int) (roomId : RoomId) (kind : ServerRoomEventKind)
      (metadata : Option RichMessageEventMetadata) (clock : Clock)
  | revise (peer : ServerPeer) (seenAt : Int) (roomId : RoomId) (policy : MessageRevisionActorPolicy)
      (request : MessageRevisionRequest) (maxMessageBytes : Nat) (now : Int)

inductive IdentityOutput where
  | user (user : ServerUser)
  | deleted (count : Nat)
  | appended (event : ServerRoomEvent)
  | revised (result : MessageRevisionMutationResult)
  | failed (error : ServerError)
  | idle

/-- Ensure the user, then append in its name, in one transaction. -/
def appendAs (peer : ServerPeer) (now : Int) (roomId : RoomId) (kind : ServerRoomEventKind)
    (metadata : Option RichMessageEventMetadata) (retention : RoomHistoryRetentionPolicy)
    (clock : Clock) : Txn Database ServerError ServerRoomEvent := do
  let user ← ensureUserOn peer now
  appendEventWithMetadataInTransaction roomId (some user.userId) kind metadata retention clock

/-- Ensure the user, then revise in its name, in one transaction. -/
def reviseAs (peer : ServerPeer) (seenAt : Int) (roomId : RoomId)
    (policy : MessageRevisionActorPolicy) (request : MessageRevisionRequest) (maxMessageBytes : Nat)
    (now : Int) : Txn Database ServerError MessageRevisionMutationResult := do
  let user ← ensureUserOn peer seenAt
  applyMessageRevisionMutationAt roomId user.userId (some user.displayName) policy request
    maxMessageBytes now

/-- Run a body as a transaction; `commit` says what else a success changes. -/
def ChatStore.transact {α : Type} (s : ChatStore) (body : Txn Database ServerError α)
    (output : α → IdentityOutput) (commit : α → ChatStore → ChatStore) : IdentityOutput × ChatStore :=
  match Txn.atomically body s.database with
  | (.ok a, db) => (output a, commit a { s with database := db })
  | (.error e, db) => (.failed e, { s with database := db })

def ChatStore.holdId (identityHash : Bytes) (user : ServerUser) (s : ChatStore) : ChatStore :=
  { s with
    sessions := fun h => if h == identityHash then some user.userId else s.sessions h }

def ChatStore.noteAppended (identityHash : Bytes) (roomId : RoomId) (event : ServerRoomEvent)
    (s : ChatStore) : ChatStore :=
  { s with appended := ⟨roomId, event.eventId, identityHash⟩ :: s.appended }

def identityStep (s : ChatStore) : IdentityInput → IdentityOutput × ChatStore
  | .ensureUser peer now =>
    s.transact (ensureUserOn peer now) .user (ChatStore.holdId peer.identityHash)
  | .deleteUsers userIds => s.transact (deleteUsers userIds 0) .deleted (fun _ s => s)
  | .append identityHash roomId kind clock =>
    match s.sessions identityHash with
    | none => (.idle, s)
    | some userId =>
      s.transact (appendEventInTransaction roomId (some userId) kind s.historyRetention clock)
        .appended (ChatStore.noteAppended identityHash roomId)
  | .appendSystem roomId kind clock =>
    s.transact (appendEventInTransaction roomId none kind s.historyRetention clock) .appended
      (fun _ s => s)
  | .appendDurable peer now roomId kind metadata clock =>
    s.transact (appendAs peer now roomId kind metadata s.historyRetention clock) .appended
      (ChatStore.noteAppended peer.identityHash roomId)
  | .revise peer seenAt roomId policy request maxMessageBytes now =>
    s.transact (reviseAs peer seenAt roomId policy request maxMessageBytes now) .revised
      (fun _ s => s)

/-! The statements. -/

def AppendedBy (appended : List Appender) (e : RoomEventRow) (identityHash : Bytes) : Prop :=
  ∃ p ∈ appended, p.roomId = e.roomId ∧ (p.eventId : Int) = e.eventId ∧ p.identityHash = identityHash

/-- An author id stands for nobody but the identity that appended the event. -/
def AuthorsBound (s : ChatStore) : Prop :=
  ∀ e ∈ s.database.roomEvents.rows, ∀ userId : UserId, e.actorUserId = some (userId.toNat : Int) →
    ∀ a b, AppendedBy s.appended e a → s.database.Resolves userId b → b = a

/-- If the identity is new, no stored event of another identity has the id it gets. -/
def CreatesUnused (s : ChatStore) (identityHash : Bytes) : Prop :=
  s.database.users.byIdentity? identityHash = none →
    ∀ e ∈ s.database.roomEvents.rows,
      e.actorUserId = some ((s.database.userIdOf identityHash).toNat : Int) →
      ∀ a, AppendedBy s.appended e a → a = identityHash

/-- The id is no other user's. -/
def Unclaimed (s : ChatStore) (userId : UserId) (identityHash : Bytes) : Prop :=
  ∀ b, s.database.Resolves userId b → b = identityHash

def KeepsIdsApart (s : ChatStore) : IdentityInput → Prop
  | .ensureUser peer _ => CreatesUnused s peer.identityHash
  | .deleteUsers _ => True
  | .append identityHash _ _ _ =>
    ∀ userId, s.sessions identityHash = some userId → Unclaimed s userId identityHash
  | .appendSystem _ _ _ => True
  | .appendDurable peer _ _ _ _ _ =>
    CreatesUnused s peer.identityHash ∧
      Unclaimed s (s.database.userIdOf peer.identityHash) peer.identityHash
  | .revise peer _ _ _ _ _ _ => CreatesUnused s peer.identityHash

/-! What an append does to events and users. -/

/-- Events may be gone, and what is left of them is of the same room, id and author. -/
def Descends (db db' : Database) : Prop :=
  ∀ e' ∈ db'.roomEvents.rows, ∃ e ∈ db.roomEvents.rows,
    e.roomId = e'.roomId ∧ e.eventId = e'.eventId ∧ e.actorUserId = e'.actorUserId

theorem Descends.of_eq {db db' : Database} (h : db'.roomEvents = db.roomEvents) : Descends db db' := by
  intro e he
  rw [h] at he
  exact ⟨e, he, rfl, rfl, rfl⟩

theorem Descends.trans {db₁ db₂ db₃ : Database} (h₁ : Descends db₁ db₂) (h₂ : Descends db₂ db₃) :
    Descends db₁ db₃ := by
  intro e₃ he₃
  obtain ⟨e₂, he₂, hroom₂, hid₂, hactor₂⟩ := h₂ e₃ he₃
  obtain ⟨e₁, he₁, hroom₁, hid₁, hactor₁⟩ := h₁ e₂ he₂
  exact ⟨e₁, he₁, hroom₁.trans hroom₂, hid₁.trans hid₂, hactor₁.trans hactor₂⟩

theorem forgetReply_actorUserId (roomId : RoomId) (eventIds : List Int) (e : RoomEventRow) :
    (e.forgetReply roomId eventIds).actorUserId = e.actorUserId := by
  unfold RoomEventRow.forgetReply
  split
  · rfl
  · rfl

section
variable {db db' : Database} {roomId : RoomId}

theorem descends_forget (eventIds : List Int) : Descends db (db.forget roomId eventIds) := by
  intro e he
  have hmem : e ∈ (db.forget roomId eventIds).history e.roomId := mem_history.mpr ⟨he, rfl⟩
  rw [history_forget] at hmem
  obtain ⟨e₀, he₀, rfl⟩ := mem_map.mp hmem
  refine ⟨e₀, (mem_history.mp (mem_filter.mp he₀).1).1, ?_, ?_, ?_⟩
  · rw [forgetReply_roomId]
  · rw [forgetReply_eventId]
  · rw [forgetReply_actorUserId]

theorem users_forget (db : Database) (roomId : RoomId) (eventIds : List Int) :
    (db.forget roomId eventIds).users = db.users := by
  simp only [Database.forget, Database.deleteEvents, Database.deleteTargets, Database.clearReplies]

theorem compact_descends {through : Int} {limit : Nat} {now : Int} {hook : Hook}
    {result : RoomHistoryCompaction}
    (h : compactRoomHistoryThroughInTransaction roomId through limit now hook db =
      .ok (result, db')) : db'.users = db.users ∧ Descends db db' := by
  obtain ⟨db₁, last, k, hseq, _, _, _, hcase⟩ := compactInTransaction_ok h
  obtain ⟨hset, _⟩ := ensureRoomEventSequence_ok hseq
  have husers₁ : db₁.users = db.users := by rw [hset.rest]
  have hevents₁ : Descends db db₁ := .of_eq (by rw [hset.rest])
  rcases hcase with ⟨_, rfl⟩ | ⟨u, hcompacts⟩
  · exact ⟨husers₁, hevents₁⟩
  · have hafter := hcompacts.after
    have husers : db'.users = (db₁.forget roomId (db₁.oldestIds roomId k)).users := by
      rw [hafter.rest]
    have hevents : db'.roomEvents = (db₁.forget roomId (db₁.oldestIds roomId k)).roomEvents := by
      rw [hafter.rest]
    refine ⟨husers.trans ((users_forget db₁ roomId _).trans husers₁), ?_⟩
    exact hevents₁.trans ((descends_forget _).trans (.of_eq hevents))

theorem enforce_descends {newest : EventId} {policy : RoomHistoryRetentionPolicy}
    {now compactedAt : Int} {c : RoomHistoryCompaction}
    (h : enforceRoomHistoryPolicyInTransaction roomId newest policy now compactedAt db =
      .ok (c, db')) : db'.users = db.users ∧ Descends db db' := by
  rcases enforcePolicy_compacts h with rfl | ⟨_, _, hcompact⟩
  · exact ⟨rfl, .of_eq rfl⟩
  · exact compact_descends hcompact

section
variable (hinv : HistoryInv db)
  (h : appendEventWithMetadataInTransaction roomId actorUserId kind metadata retention clock db =
    .ok (event, db'))
include hinv h

/-- The id of an appended event is spent from then on. -/
theorem append_spent : Spent db' roomId event.eventId := by
  obtain ⟨_, _, db₁, db₂, _, _, _, hrecorded, hadvance, henforce⟩ := append_cases h
  have hspent : Spent db₁ roomId event.eventId :=
    .inl ⟨event.eventId, hrecorded.sequence, Int.le_refl _⟩
  exact (hspent.advanceBackfill (hinv.recorded hrecorded) hadvance).enforce henforce

/-- After an append every stored event is the new one, with its author, or one that was stored. -/
theorem append_events : db'.users = db.users ∧ ∀ e' ∈ db'.roomEvents.rows,
      (e'.roomId = roomId ∧ e'.eventId = event.eventId ∧
        e'.actorUserId = actorUserId.map (fun userId => (userId.toNat : Int))) ∨
      ∃ e ∈ db.roomEvents.rows,
        e.roomId = e'.roomId ∧ e.eventId = e'.eventId ∧ e.actorUserId = e'.actorUserId := by
  obtain ⟨reply, mentions, db₁, db₂, n, c, _, hrecorded, hadvance, henforce⟩ := append_cases h
  have hinv₁ := hinv.recorded hrecorded
  have hadvanced : db₂.users = db₁.users ∧ db₂.roomEvents = db₁.roomEvents := by
    rcases advanceBackfill_sets hinv₁ hadvance with rfl | ⟨_, hset⟩
    · exact ⟨rfl, rfl⟩
    · exact ⟨by rw [hset.rest], by rw [hset.rest]⟩
  obtain ⟨husers, hdescends⟩ := enforce_descends henforce
  have husers₁ : db₁.users = db.users := by rw [hrecorded.rest]
  refine ⟨husers.trans (hadvanced.1.trans husers₁), ?_⟩
  intro e' he'
  obtain ⟨e, he, hroom, hid, hactor⟩ := hdescends e' he'
  rw [hadvanced.2, hrecorded.stored] at he
  rcases mem_cons.mp he with rfl | he
  · exact .inl ⟨hroom.symm, hid.symm, hactor.symm⟩
  · exact .inr ⟨e, he, hroom, hid, hactor⟩

end

end

/-! The invariant. -/

structure Tracked (db : Database) (appended : List Appender) : Prop where
  history : HistoryInv db
  spent : ∀ p ∈ appended, Spent db p.roomId p.eventId
  logged : ∀ e ∈ db.roomEvents.rows, e.actorUserId ≠ none → ∃ a, AppendedBy appended e a
  bound : ∀ e ∈ db.roomEvents.rows, ∀ userId : UserId, e.actorUserId = some (userId.toNat : Int) →
    ∀ a b, AppendedBy appended e a → db.Resolves userId b → b = a

section
variable {db db' : Database} {appended : List Appender}

theorem history_of_histories (h : db'.histories = db.histories) (r : RoomId) :
    db'.history r = db.history r := by
  have hevents : db'.roomEvents = db.roomEvents := congrArg Histories.roomEvents h
  unfold Database.history
  rw [hevents]

theorem sequence?_of_histories (h : db'.histories = db.histories) (r : RoomId) :
    db'.sequence? r = db.sequence? r := by
  have hsequences : db'.roomEventSequences = db.roomEventSequences :=
    congrArg Histories.roomEventSequences h
  unfold Database.sequence?
  rw [hsequences]

theorem usage?_of_histories (h : db'.histories = db.histories) (r : RoomId) :
    db'.usage? r = db.usage? r := by
  have husage : db'.roomHistoryUsage = db.roomHistoryUsage := congrArg Histories.roomHistoryUsage h
  unfold Database.usage?
  rw [husage]

variable (h : Tracked db appended)
include h

/-- A change of the users alone. -/
theorem Tracked.of_users (hsame : db'.histories = db.histories)
    (hnew : ∀ userId b, db'.Resolves userId b → db.Resolves userId b ∨
      ∀ e ∈ db.roomEvents.rows, e.actorUserId = some (userId.toNat : Int) →
        ∀ a, AppendedBy appended e a → b = a) : Tracked db' appended := by
  have hevents : db'.roomEvents = db.roomEvents := congrArg Histories.roomEvents hsame
  refine ⟨?_, ?_, hevents ▸ h.logged, ?_⟩
  · intro r
    rw [history_of_histories hsame, sequence?_of_histories hsame, usage?_of_histories hsame]
    exact h.history r
  · intro p hp
    exact (h.spent p hp).of_same (sequence?_of_histories hsame _) (history_of_histories hsame _)
  · intro e he userId hactor a b happended hresolves
    rw [hevents] at he
    rcases hnew userId b hresolves with hold | hnew
    · exact h.bound e he userId hactor a b happended hold
    · exact hnew e he hactor a happended

theorem Tracked.ensureUser {peer : ServerPeer} {now : Int}
    {user : ServerUser} (hs : ensureUserOn peer now db = .ok (user, db'))
    (hunused : db.users.byIdentity? peer.identityHash = none → ∀ e ∈ db.roomEvents.rows,
      e.actorUserId = some ((db.userIdOf peer.identityHash).toNat : Int) →
      ∀ a, AppendedBy appended e a → a = peer.identityHash) : Tracked db' appended := by
  obtain ⟨hupsert, _, _⟩ := ensureUserOn_ok hs
  have hrest := (upsertUser_ok hupsert).1
  apply h.of_users
  · rw [hrest]
    rfl
  · intro userId b hresolves
    refine (upsertUser_resolves hupsert hresolves).imp_right ?_
    rintro ⟨hnone, rfl, rfl⟩ e he hactor a happended
    exact (hunused hnone e he hactor a happended).symm

theorem Tracked.deleteUsers {userIds : List UserId} {n : Nat}
    (hs : deleteUsers userIds 0 db = .ok (n, db')) : Tracked db' appended := by
  obtain ⟨hrest, hresolves⟩ := deleteUsers_ok hs
  apply h.of_users
  · rw [hrest]
    rfl
  · intro userId b hr
    exact .inl (hresolves userId b hr)

theorem Tracked.revised (hsame : db'.messages = db.messages) :
    Tracked db' appended := by
  obtain ⟨husers, hhistories⟩ := Prod.mk.inj hsame
  refine h.of_users hhistories fun userId b hr => .inl ?_
  unfold Database.Resolves at hr ⊢
  rw [← husers]
  exact hr

/-- An append under an id that stands for nobody but the appending identity; an event of the server
itself is of nobody. -/
theorem Tracked.append
    (hs : appendEventWithMetadataInTransaction roomId actorUserId kind metadata retention clock db =
      .ok (event, db'))
    {l : List Appender} (hlogged : actorUserId ≠ none → l ≠ [])
    (hnew : ∀ p ∈ l, p.roomId = roomId ∧ p.eventId = event.eventId ∧
      ∀ userId, actorUserId = some userId → ∀ b, db.Resolves userId b → b = p.identityHash) :
    Tracked db' (l ++ appended) := by
  obtain ⟨husers, hevents⟩ := append_events h.history hs
  have hresolves : ∀ userId b, db'.Resolves userId b → db.Resolves userId b := by
    intro userId b hr
    unfold Database.Resolves at hr ⊢
    rw [← husers]
    exact hr
  refine ⟨h.history.append hs, ?_, ?_, ?_⟩
  · intro p hp
    rcases mem_append.mp hp with hp | hp
    · obtain ⟨hroom, hid, _⟩ := hnew p hp
      rw [hroom, hid]
      exact append_spent h.history hs
    · exact (h.spent p hp).append h.history hs
  · -- an event with an author is the new one, which is logged, or was logged before
    intro e' he' hauthor
    rcases hevents e' he' with ⟨hroom, hid, hactor⟩ | ⟨e, he, hroom, hid, hactor⟩
    · have hsome : actorUserId ≠ none := by
        rintro rfl
        exact hauthor hactor
      obtain ⟨p, hp⟩ := exists_mem_of_ne_nil l (hlogged hsome)
      obtain ⟨hroomp, hidp, _⟩ := hnew p hp
      refine ⟨p.identityHash, p, mem_append_left _ hp, hroomp.trans hroom.symm, ?_, rfl⟩
      rw [hidp, hid]
    · obtain ⟨a, p, hp, hroomp, hidp, ha⟩ := h.logged e he (hactor ▸ hauthor)
      exact ⟨a, p, mem_append_right _ hp, hroomp.trans hroom, hidp.trans hid, ha⟩
  · intro e' he' userId hactor a b ⟨p, hp, hroom, hid, ha⟩ hr
    have hr := hresolves userId b hr
    rcases hevents e' he' with ⟨hroom', hid', hactor'⟩ | ⟨e, he, hroom', hid', hactor'⟩
    · -- the new event: the ids of earlier appends are below its id
      rcases mem_append.mp hp with hp | hp
      · rw [hactor'] at hactor
        obtain ⟨uid, huid, heq⟩ := Option.map_eq_some_iff.mp hactor
        obtain rfl : uid = userId := UInt32.toNat_inj.mp (Int.ofNat.inj heq)
        rw [← ha]
        exact (hnew p hp).2.2 uid huid b hr
      · have hlt := (hroom.trans hroom' ▸ h.spent p hp).lt_appended hs
        rw [hid, hid'] at hlt
        exact absurd hlt (Int.lt_irrefl _)
    · -- an event from before: its id is below the new one
      rcases mem_append.mp hp with hp | hp
      · obtain ⟨hroomp, hidp, _⟩ := hnew p hp
        have hstored : e ∈ db.history roomId :=
          mem_history.mpr ⟨he, hroom'.trans (hroom.symm.trans hroomp)⟩
        have hlt := (spent_of_stored h.history hstored).lt_appended hs
        rw [hid', ← hid, hidp] at hlt
        exact absurd hlt (Int.lt_irrefl _)
      · refine h.bound e he userId (hactor'.trans hactor) a b ⟨p, hp, ?_, ?_, ha⟩ hr
        · exact hroom.trans hroom'.symm
        · exact hid.trans hid'.symm

/-- An append in the name of an identity. -/
theorem Tracked.appendBy {userId : UserId}
    (hs : appendEventWithMetadataInTransaction roomId (some userId) kind metadata retention clock db =
      .ok (event, db'))
    (hclaimed : ∀ b, db.Resolves userId b → b = identityHash) :
    Tracked db' (⟨roomId, event.eventId, identityHash⟩ :: appended) := by
  refine h.append hs (l := [⟨roomId, event.eventId, identityHash⟩])
    (fun _ => cons_ne_nil _ _) ?_
  intro p hp
  rw [mem_singleton.mp hp]
  refine ⟨rfl, rfl, ?_⟩
  rintro _ ⟨⟩ b hb
  exact hclaimed b hb

/-- What the stored author of a message is to the identity that revises it. -/
theorem Tracked.author {targetEventId targetActor : Int} {userId : UserId}
    (hauthor : db.messageAuthor roomId targetEventId = some targetActor)
    (howns : toU32 targetActor = some userId) (hresolves : db.Resolves userId identityHash) :
    ∃ e ∈ db.roomEvents.rows, e.roomId = roomId ∧ e.eventId = targetEventId ∧
      AppendedBy appended e identityHash := by
  obtain ⟨e, he, hactor⟩ := Option.bind_eq_some_iff.mp hauthor
  obtain ⟨hmem, hkey⟩ := Table.find?_eq_some.mp he
  obtain ⟨hroom, hid⟩ := Prod.mk.inj hkey
  split at hactor
  · obtain ⟨a, happended⟩ := h.logged e hmem (hactor ▸ Option.some_ne_none targetActor)
    rw [toU32_some howns] at hactor
    rw [h.bound e hmem userId hactor a identityHash happended hresolves]
    exact ⟨e, hmem, hroom, hid, happended⟩
  · cases hactor

end

section
variable {α : Type} {s : ChatStore} {body : Txn Database ServerError α} {output : α → IdentityOutput}
  {commit : α → ChatStore → ChatStore}

/-- What a transaction changes, it changes on success. -/
theorem Tracked.transact (h : Tracked s.database s.appended)
    (hbody : ∀ a db', body s.database = .ok (a, db') →
      Tracked (commit a { s with database := db' }).database
        (commit a { s with database := db' }).appended) :
    Tracked (s.transact body output commit).2.database (s.transact body output commit).2.appended := by
  unfold ChatStore.transact Txn.atomically
  cases hrun : body s.database with
  | error e => exact h
  | ok p => exact hbody p.1 p.2 hrun

theorem transact_output {o : IdentityOutput} (h : (s.transact body output commit).1 = o)
    (ho : ∀ e, o ≠ .failed e) : ∃ a db', body s.database = .ok (a, db') ∧ output a = o := by
  unfold ChatStore.transact Txn.atomically at h
  cases hrun : body s.database with
  | error e =>
    rw [hrun] at h
    exact absurd h.symm (ho e)
  | ok p =>
    rw [hrun] at h
    exact ⟨p.1, p.2, rfl, h⟩

end

/-- One step that keeps the ids apart. -/
theorem identityStep_tracked (s : ChatStore) (i : IdentityInput)
    (h : Tracked s.database s.appended) (hok : KeepsIdsApart s i) :
    Tracked (identityStep s i).2.database (identityStep s i).2.appended := by
  cases i with
  | ensureUser peer now => exact h.transact fun user db' hs => h.ensureUser hs hok
  | deleteUsers userIds => exact h.transact fun n db' hs => h.deleteUsers hs
  | append identityHash roomId kind clock =>
    simp only [identityStep]
    cases hsession : s.sessions identityHash with
    | none => exact h
    | some userId =>
      exact h.transact fun event db' hs => h.appendBy hs (hok userId hsession)
  | appendSystem roomId kind clock =>
    refine h.transact fun event db' hs => ?_
    exact h.append hs (l := []) (fun hc => absurd rfl hc) fun p hp => absurd hp not_mem_nil
  | appendDurable peer now roomId kind metadata clock =>
    refine h.transact fun event db' hs => ?_
    obtain ⟨user, db₁, hensure, happend⟩ := Txn.bind_ok.mp hs
    obtain ⟨hupsert, hid, _⟩ := ensureUserOn_ok hensure
    refine (h.ensureUser hensure hok.1).appendBy happend fun b hb => ?_
    -- the id stood for nobody else before, and the new user is the one it stands for now
    rcases upsertUser_resolves hupsert hb with hold | ⟨_, _, hb⟩
    · exact hok.2 b (hid ▸ hold)
    · exact hb
  | revise peer seenAt roomId policy request maxMessageBytes now =>
    refine h.transact fun result db' hs => ?_
    obtain ⟨user, db₁, hensure, happly⟩ := Txn.bind_ok.mp hs
    exact (h.ensureUser hensure hok).revised (applyRevision_cases happly).1

theorem initial_tracked (retention : RoomHistoryRetentionPolicy) :
    Tracked (ChatStore.initial retention).database (ChatStore.initial retention).appended := by
  refine ⟨empty_migrated.historyInv, ?_, ?_, ?_⟩
  · intro p hp
    cases hp
  · intro e he
    cases he
  · intro e he
    cases he

/-- In every state a run of such steps reaches, an author id stands for nobody but the identity
that appended the event; and a further revision that changes a message is made by the identity
that appended it, or is a moderator's tombstone. -/
theorem authors_bound (retention : RoomHistoryRetentionPolicy) (inputs : List IdentityInput)
    (hapart : Machine.Meets identityStep KeepsIdsApart (ChatStore.initial retention) inputs)
    (s : ChatStore) (hreached : (Machine.run identityStep (ChatStore.initial retention) inputs).2 = s) :
    AuthorsBound s ∧
    ∀ peer seenAt roomId policy request maxMessageBytes now mutation,
      KeepsIdsApart s (.revise peer seenAt roomId policy request maxMessageBytes now) →
      (identityStep s (.revise peer seenAt roomId policy request maxMessageBytes now)).1 =
        .revised (.changed mutation) →
      (∃ e ∈ s.database.roomEvents.rows, e.roomId = roomId ∧ e.eventId = request.targetEventId ∧
        AppendedBy s.appended e peer.identityHash) ∨
      request.action = .tombstone ∧ policy.isModerator = true := by
  have htracked : Tracked s.database s.appended := hreached ▸
    Machine.run_invariant (I := fun s => Tracked s.database s.appended) identityStep_tracked _ inputs
      hapart (initial_tracked retention)
  refine ⟨htracked.bound, ?_⟩
  intro peer seenAt roomId policy request maxMessageBytes now mutation hok hchanged
  obtain ⟨result, db', hrevise, hresult⟩ := transact_output hchanged fun e he => by cases he
  obtain rfl : result = .changed mutation := IdentityOutput.revised.inj hresult
  obtain ⟨user, db₁, hensure, happly⟩ := Txn.bind_ok.mp hrevise
  obtain ⟨hupsert, _, hresolves⟩ := ensureUserOn_ok hensure
  obtain ⟨targetActor, hauthor, howns | hmoderator⟩ :=
    (applyRevision_cases happly).2 mutation rfl
  · have hevents : db₁.roomEvents = s.database.roomEvents := by rw [(upsertUser_ok hupsert).1]
    rw [← hevents]
    exact .inl ((htracked.ensureUser hensure hok).author hauthor howns hresolves)
  · exact .inr hmoderator

def alice : ServerPeer := ⟨[1], "alice", none⟩
def bob : ServerPeer := ⟨[2], "bob", none⟩

/-- Alice posts, is deleted, and Bob comes. -/
def reusedId : ChatStore :=
  (Machine.run identityStep (ChatStore.initial .disabled)
    [.ensureUser alice 10, .append alice.identityHash 1 (.message "mine") ⟨20, 20, 20⟩,
     .deleteUsers [1], .ensureUser bob 30]).2

/-- Bob has got the id of Alice's event, and corrects it. -/
theorem deleted_author_id_reused :
    ¬AuthorsBound reusedId ∧
    (∃ e ∈ reusedId.database.roomEvents.rows, e.roomId = 1 ∧ e.eventId = 1 ∧
      AppendedBy reusedId.appended e alice.identityHash) ∧
    ∃ mutation, (identityStep reusedId (.revise bob 40 1 ⟨false, false⟩
      ⟨1, .correct, some "forged"⟩ 1024 41)).1 = .revised (.changed mutation) := by
  have hstored : eventRow 1 1 (some 1) (.message "mine") 20 none none ∈
      reusedId.database.roomEvents.rows := mem_cons_self
  have happended : AppendedBy reusedId.appended
      (eventRow 1 1 (some 1) (.message "mine") 20 none none) alice.identityHash :=
    ⟨_, mem_cons_self, rfl, rfl, rfl⟩
  refine ⟨?_, ⟨_, hstored, rfl, rfl, happended⟩, _, rfl⟩
  intro hbound
  have hbob : reusedId.database.Resolves 1 bob.identityHash := ⟨_, mem_cons_self, rfl, rfl⟩
  have heq := hbound _ hstored 1 rfl alice.identityHash bob.identityHash happended hbob
  exact absurd heq (by decide)

/-- Alice and Bob come, and Alice posts. -/
def posting : List IdentityInput :=
  [.ensureUser alice 10, .ensureUser bob 11,
   .append alice.identityHash 1 (.message "mine") ⟨20, 20, 20⟩]

theorem posting_apart :
    Machine.Meets identityStep KeepsIdsApart (ChatStore.initial .disabled) posting := by
  refine ⟨?_, ?_, ?_, trivial⟩
  · intro _ e he
    cases he
  · intro _ e he
    cases he
  · intro userId hsession b hresolves
    obtain rfl := Option.some.inj hsession
    obtain ⟨r, hr, hid, hidentity⟩ := hresolves
    rcases mem_cons.mp hr with rfl | hr
    · exact absurd hid (by decide)
    · rw [← hidentity, mem_singleton.mp hr]
      rfl

/-- The id of the event is Alice's, and her correction is that of its author. -/
theorem authors_bound_posting :
    AuthorsBound (Machine.run identityStep (ChatStore.initial .disabled) posting).2 ∧
    ((∃ e ∈ (Machine.run identityStep (ChatStore.initial .disabled)
        posting).2.database.roomEvents.rows, e.roomId = 1 ∧ e.eventId = ((1 : EventId) : Int) ∧
        AppendedBy (Machine.run identityStep (ChatStore.initial .disabled) posting).2.appended e
          alice.identityHash) ∨
      MessageRevisionAction.correct = .tombstone ∧ false = true) := by
  obtain ⟨hbound, hrevise⟩ := authors_bound .disabled posting posting_apart _ rfl
  refine ⟨hbound, hrevise alice 40 1 ⟨false, false⟩ ⟨1, .correct, some "better"⟩ 1024 41 _ ?_ rfl⟩
  intro hnone
  cases hnone

end Omen.Server
