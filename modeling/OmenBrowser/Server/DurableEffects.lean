import OmenBrowser.Server.DurableSafety
import OmenBrowser.Server.Events

/- Durable mutations with an effect to publish (`server/src/store/durable_replay.rs`).

   `commit_durable_mutation_effect_result` and `commit_durable_room_event_result` give the
   commit a callback that leaves the effect in variables of the function around it. The
   transaction ends first; the variables are read after it, and what they say decides
   whether the caller has something to publish. So a failure may also come after the
   commit: the room event wrapper refuses variables that do not agree with each other,
   when the tables are written already.

   The callback's variables are `κ`: it works on `σ × κ`, the other tables and the
   variables, of which only the tables are in the database.

   Correspondence (Rust ↔ Lean):
     `stored_effect`                        ↔ `κ := Option ε`
     `stored_event`, `stored_admission`     ↔ `κ := Option ServerRoomEvent × Option α`
     the closures given to the commit       ↔ `effectCallback`, `roomEventCallback`
     `super::current_unix_seconds()`        ↔ the argument `now`, and `Clock` in an append -/
namespace Omen.Server
open Wire Sql Outcome Omen.Protocol Txn
variable {σ τ κ ε α : Type}
  {s s' : ReplayStore σ} {identityHash frame : Bytes} {now : Int} {limits : RetentionLimits}
  {key : DurableMutationKey} {hash : RequestHash} {build : Txn σ ServerError Bytes}
  {out commit : DurableReplayCommit}

inductive DurableMutationEffectCommit (ε : Type) where
  | stored (resultFrame : Bytes) (effect : ε) (pruned : Nat)
  | storedResponse (resultFrame : Bytes) (pruned : Nat)
  | replayed (resultFrame : Bytes)
  | conflict
  | expired

inductive DurableMutationEffectPlan (ε : Type) where
  | effect (resultFrame : Bytes) (effect : ε)
  | response (resultFrame : Bytes)

/-- Replays omit the event, so that callers cannot broadcast it twice. -/
inductive DurableRoomEventCommit (α : Type) where
  | stored (resultFrame : Bytes) (event : ServerRoomEvent) (admission : α) (pruned : Nat)
  | replayed (resultFrame : Bytes)
  | storedResponse (resultFrame : Bytes) (pruned : Nat)
  | conflict
  | expired

inductive DurableRoomEventPlan (α : Type) where
  | event (actorUserId : Option UserId) (kind : ServerRoomEventKind) (admission : α)
  | eventWithResult (actorUserId : Option UserId) (kind : ServerRoomEventKind) (admission : α)
      (resultFrame : Bytes)
  | richEvent (actorUserId : Option UserId) (kind : ServerRoomEventKind)
      (metadata : RichMessageEventMetadata) (admission : α)
  | response (resultFrame : Bytes)

/-! The wrappers. -/

def commitDurableMutationResult (rmpv : Rmpv) (key : DurableMutationKey) (requestHash : RequestHash)
    (now : Int) (buildResult : Txn σ ServerError Bytes) :
    Txn (ReplayStore σ) ServerError DurableReplayCommit :=
  commitDurableMutationResultWithLimits rmpv key requestHash now productionLimits buildResult

/-- A part of a callback that works on the tables. -/
def onTables (x : Txn σ ServerError α) : Txn (σ × κ) ServerError α :=
  zoom Prod.fst (fun s t => (s, t.2)) x

/-- A part of a callback that sets its variables. -/
def capture (f : κ → κ) : Txn (σ × κ) ServerError Unit := execute (fun t => (t.1, f t.2))

/-- A commit whose callback has variables, and their values after it. -/
def commitCapturing (rmpv : Rmpv) (key : DurableMutationKey) (requestHash : RequestHash) (now : Int)
    (start : κ) (callback : Txn (σ × κ) ServerError Bytes) (s : ReplayStore σ) :
    Except ServerError (DurableReplayCommit × κ) × ReplayStore σ :=
  let ended := atomically (commitDurableMutationResult rmpv key requestHash now callback)
    ⟨s.results, s.clients, (s.rest, start)⟩
  (ended.1.map (fun commit => (commit, ended.2.rest.2)),
    ⟨ended.2.results, ended.2.clients, ended.2.rest.1⟩)

def effectCallback (prepare : Txn σ ServerError (DurableMutationEffectPlan ε)) :
    Txn (σ × Option ε) ServerError Bytes := do
  match ← onTables prepare with
  | .effect resultFrame effect =>
    capture fun _ => some effect
    pure resultFrame
  | .response resultFrame => pure resultFrame

/-- What the wrapper returns, from the commit and the variable. -/
def effectCommit : DurableReplayCommit × Option ε → DurableMutationEffectCommit ε
  | (.stored resultFrame pruned, some effect) => .stored resultFrame effect pruned
  | (.stored resultFrame pruned, none) => .storedResponse resultFrame pruned
  | (.replayed resultFrame, _) => .replayed resultFrame
  | (.conflict, _) => .conflict
  | (.expired, _) => .expired

def commitDurableMutationEffectResult (rmpv : Rmpv) (key : DurableMutationKey)
    (requestHash : RequestHash) (now : Int)
    (prepare : Txn σ ServerError (DurableMutationEffectPlan ε)) (s : ReplayStore σ) :
    Except ServerError (DurableMutationEffectCommit ε) × ReplayStore σ :=
  let ended := commitCapturing rmpv key requestHash now none (effectCallback prepare) s
  (ended.1.map effectCommit, ended.2)

/-- The variables of a room event. -/
abbrev CapturedEvent (α : Type) := Option ServerRoomEvent × Option α

/-- The tables are those of the rooms and others, `τ`, which only the preparation uses. -/
def onRooms (x : Txn Database ServerError α) : Txn ((Database × τ) × κ) ServerError α :=
  onTables (zoom Prod.fst (fun database t => (database, t.2)) x)

section RoomEvent
variable (roomId : RoomId) (retention : RoomHistoryRetentionPolicy) (clock : Clock)
  (prepare : Txn (Database × τ) ServerError (DurableRoomEventPlan α))
  (encodeResult : ServerRoomEvent → Except ServerError Bytes)

def roomEventCallback : Txn ((Database × τ) × CapturedEvent α) ServerError Bytes := do
  match ← onTables prepare with
  | .event actorUserId kind admission =>
    let event ← onRooms (appendEventInTransaction roomId actorUserId kind retention clock)
    let resultFrame ← lift (encodeResult event)
    capture fun v => (some event, v.2)
    capture fun v => (v.1, some admission)
    pure resultFrame
  | .eventWithResult actorUserId kind admission resultFrame =>
    let event ← onRooms (appendEventInTransaction roomId actorUserId kind retention clock)
    capture fun v => (some event, v.2)
    capture fun v => (v.1, some admission)
    pure resultFrame
  | .richEvent actorUserId kind metadata admission =>
    let event ← onRooms
      (appendEventWithMetadataInTransaction roomId actorUserId kind (some metadata) retention clock)
    let resultFrame ← lift (encodeResult event)
    capture fun v => (some event, v.2)
    capture fun v => (v.1, some admission)
    pure resultFrame
  | .response resultFrame => pure resultFrame

/-- What the wrapper returns; only one of the two variables set is an error, after the commit. -/
def roomEventCommit :
    DurableReplayCommit × CapturedEvent α → Except ServerError (DurableRoomEventCommit α)
  | (.stored resultFrame pruned, (some event, some admission)) =>
    .ok (.stored resultFrame event admission pruned)
  | (.stored resultFrame pruned, (none, none)) => .ok (.storedResponse resultFrame pruned)
  | (.stored _ _, _) =>
    .error (.message "durable room event committed with incomplete execution ownership")
  | (.replayed resultFrame, _) => .ok (.replayed resultFrame)
  | (.conflict, _) => .ok .conflict
  | (.expired, _) => .ok .expired

def commitDurableRoomEventResult (rmpv : Rmpv) (key : DurableMutationKey) (requestHash : RequestHash)
    (now : Int) (s : ReplayStore (Database × τ)) :
    Except ServerError (DurableRoomEventCommit α) × ReplayStore (Database × τ) :=
  let ended := commitCapturing rmpv key requestHash now (none, none)
    (roomEventCallback roomId retention clock prepare encodeResult) s
  (ended.1.bind roomEventCommit, ended.2)

end RoomEvent

/-! What a commit leaves alone. -/

/-- The other tables are as they were, and no result is new. -/
structure OnlyDrops (s s' : ReplayStore σ) : Prop where
  rest : s'.rest = s.rest
  results : s'.results.rows.Sublist s.results.rows

theorem OnlyDrops.refl (s : ReplayStore σ) : OnlyDrops s s := ⟨rfl, List.Sublist.refl _⟩

theorem OnlyDrops.trans {s₁ s₂ s₃ : ReplayStore σ} (h₁ : OnlyDrops s₁ s₂) (h₂ : OnlyDrops s₂ s₃) :
    OnlyDrops s₁ s₃ := ⟨h₂.rest.trans h₁.rest, h₂.results.trans h₁.results⟩

theorem OnlyDrops.insertClient {row : ClientRow} (h : s.insertClient row = .ok s') :
    OnlyDrops s s' := by
  unfold ReplayStore.insertClient at h
  split at h
  · cases h
  · obtain ⟨t, _, rfl⟩ := map_ok.mp h
    exact ⟨rfl, List.Sublist.refl _⟩

theorem OnlyDrops.retireClient {id : ClientInstanceId}
    (h : s.retireClient identityHash id now = .ok s') : OnlyDrops s s' := by
  unfold ReplayStore.retireClient at h
  split at h
  · exact OnlyDrops.insertClient h
  · cases h
    exact ⟨rfl, List.Sublist.refl _⟩

theorem OnlyDrops.retireAndDeleteOldest {selector : PruneSelector} {n : Nat}
    (h : retireAndDeleteOldest selector now s = .ok (n, s')) : OnlyDrops s s' := by
  rcases retireAndDeleteOldest_cases h with ⟨_, _, rfl⟩ | ⟨r, s₁, _, hretire, _, rfl⟩
  · exact OnlyDrops.refl _
  · exact (OnlyDrops.retireClient hretire).trans ⟨rfl, List.filter_sublist⟩

theorem OnlyDrops.pruneForAdmission {incomingBytes : Int} {n : Nat}
    (h : pruneForAdmission identityHash incomingBytes now limits s = .ok (n, s')) :
    OnlyDrops s s' := by
  obtain ⟨_, _, hdrops⟩ := pruneForAdmission_rel (R := fun _ => OnlyDrops) OnlyDrops.refl
    (fun _ _ _ _ _ => OnlyDrops.trans) (fun _ _ _ _ => OnlyDrops.retireAndDeleteOldest) h
  exact hdrops

theorem ensureClientInstance_frame {b : Bool}
    (h : ensureClientInstance key now limits s = .ok (b, s')) :
    s'.rest = s.rest ∧ s'.results = s.results := by
  rcases ensureClientInstance_cases h with ⟨c, _, _, rfl⟩ | ⟨_, _, _, _, hinsert⟩
  · exact ⟨rfl, rfl⟩
  · exact ⟨(OnlyDrops.insertClient hinsert).rest, (insertClient_ok hinsert).1⟩

/-! How a commit ends. -/

/-- The result is stored, and there was none under the key. -/
structure StoredFirst (key : DurableMutationKey) (hash : RequestHash) (frame : Bytes)
    (s s' : ReplayStore σ) : Prop where
  absent : s.results.find? key = none
  held : Holds s' key hash frame

/-- What each way a commit ends says of the tables. -/
inductive Settles (key : DurableMutationKey) (hash : RequestHash) (build : Txn σ ServerError Bytes)
    (s s' : ReplayStore σ) : DurableReplayCommit → Prop
  | stored (frame : Bytes) (pruned : Nat) (first : StoredFirst key hash frame s s')
      (ran : build s.rest = .ok (frame, s'.rest)) : Settles key hash build s s' (.stored frame pruned)
  | replayed (frame : Bytes) (held : Holds s key hash frame) (rest : s'.rest = s.rest) :
      Settles key hash build s s' (.replayed frame)
  | conflict (other : RequestHash) (frame : Bytes) (held : Holds s key other frame)
      (differs : other ≠ hash) (rest : s'.rest = s.rest) : Settles key hash build s s' .conflict
  | expired (drops : OnlyDrops s s') : Settles key hash build s s' .expired

theorem insertResult_rest {row : ResultRow} (h : s.insertResult row = .ok s') :
    s'.rest = s.rest := by
  unfold ReplayStore.insertResult at h
  split at h
  · cases h
  · obtain ⟨t, _, rfl⟩ := map_ok.mp h
    rfl

theorem admit_settles {rmpv : Rmpv} (habsent : s.results.find? key = none)
    (h : admitDurableMutation rmpv key hash now limits build s = .ok (out, s')) :
    Settles key hash build s s' out := by
  obtain ⟨_, pruned, s₁, c, _, hprune, _, hend⟩ := admitDurableMutation_cases h
  have hdrops := OnlyDrops.pruneForAdmission hprune
  rcases hend with ⟨_, rfl, rfl⟩ | ⟨_, frame, rest, retained, hrun, _, _, hinsert, rfl⟩
  · exact .expired hdrops
  · obtain ⟨_, hrows, _⟩ := insertResult_ok hinsert
    have hheld : Holds s' key hash frame := by
      refine ⟨⟨key.identityHash, key.clientInstanceId, key.mutationId, hash, frame, retained, now,
        now⟩, ?_, rfl, rfl, rfl⟩
      rw [hrows]
      exact List.mem_cons_self
    refine .stored frame pruned ⟨habsent, hheld⟩ ?_
    rw [← hdrops.rest, hrun, insertResult_rest hinsert]

theorem commit_settles {rmpv : Rmpv}
    (h : commitDurableMutationResultWithLimits rmpv key hash now limits build s = .ok (out, s')) :
    Settles key hash build s s' out := by
  obtain ⟨_, _, b, s₁, hensure, hend⟩ := commit_cases h
  obtain ⟨hrest, hresults⟩ := ensureClientInstance_frame hensure
  have hheld : ∀ r, s₁.results.find? key = some r → Holds s key r.requestHash r.resultFrame := by
    intro r hr
    obtain ⟨hmem, hkey⟩ := Table.find?_eq_some.mp hr
    exact ⟨r, hresults ▸ hmem, hkey, rfl, rfl⟩
  rcases hend with ⟨_, rfl, rfl⟩ | ⟨_, r, hr, hother, rfl, rfl⟩ | ⟨_, r, hr, rfl, rfl, rfl⟩ |
    ⟨_, habsent, hadmitted⟩
  · exact .expired ⟨hrest, hresults ▸ List.Sublist.refl _⟩
  · exact .conflict r.requestHash r.resultFrame (hheld r hr) hother hrest
  · exact .replayed r.resultFrame (hheld r hr) hrest
  · -- the mutation ran on the tables as they were
    have hsettles := admit_settles habsent hadmitted
    cases hsettles with
    | stored frame pruned first ran =>
      exact .stored frame pruned ⟨hresults ▸ first.absent, first.held⟩ (hrest ▸ ran)
    | replayed frame held rest =>
      exact .replayed frame (by rwa [Holds, ← hresults]) (rest.trans hrest)
    | conflict other frame held differs rest =>
      exact .conflict other frame (by rwa [Holds, ← hresults]) differs (rest.trans hrest)
    | expired drops =>
      exact .expired ⟨drops.rest.trans hrest, hresults ▸ drops.results⟩

/-- Only a commit that stored it has a first result. -/
theorem Settles.stored_of_first {hash' : RequestHash} (h : Settles key hash build s s' out)
    (hfirst : StoredFirst key hash' frame s s') : ∃ frame' pruned, out = .stored frame' pruned := by
  have hno : ∀ r ∈ s.results.rows, r.key ≠ key := Table.find?_eq_none.mp hfirst.absent
  cases h with
  | stored frame' pruned _ _ => exact ⟨frame', pruned, rfl⟩
  | replayed frame' held _ =>
    obtain ⟨r, hr, hkey, _⟩ := held
    exact (hno r hr hkey).elim
  | conflict other frame' held _ _ =>
    obtain ⟨r, hr, hkey, _⟩ := held
    exact (hno r hr hkey).elim
  | expired drops =>
    obtain ⟨r, hr, hkey, _⟩ := hfirst.held
    exact (hno r (drops.results.subset hr) hkey).elim

theorem Settles.rest_of_other (h : Settles key hash build s s' out)
    (hother : ∀ frame pruned, out ≠ .stored frame pruned) : s'.rest = s.rest := by
  cases h with
  | stored frame pruned _ _ => exact (hother frame pruned rfl).elim
  | replayed _ _ rest => exact rest
  | conflict _ _ _ _ rest => exact rest
  | expired drops => exact drops.rest

/-! The callbacks. -/

theorem onTables_ok {x : Txn σ ServerError α} {t : σ × κ} {a : α} {t' : σ × κ} :
    onTables x t = .ok (a, t') ↔ x t.1 = .ok (a, t'.1) ∧ t'.2 = t.2 := by
  unfold onTables
  rw [zoom_ok]
  refine ⟨?_, ?_⟩
  · rintro ⟨s', hx, rfl⟩
    exact ⟨hx, rfl⟩
  · rintro ⟨hx, hv⟩
    exact ⟨t'.1, hx, Prod.ext rfl hv⟩

theorem onRooms_ok {x : Txn Database ServerError α} {t t' : (Database × τ) × κ} {a : α} :
    onRooms x t = .ok (a, t') ↔ x t.1.1 = .ok (a, t'.1.1) ∧ t'.1.2 = t.1.2 ∧ t'.2 = t.2 := by
  rw [onRooms, onTables_ok, zoom_ok]
  refine ⟨?_, ?_⟩
  · rintro ⟨⟨s', hx, hset⟩, hv⟩
    have hset : t'.1 = (s', t.1.2) := hset
    have hfst : t'.1.1 = s' := by rw [hset]
    have hsnd : t'.1.2 = t.1.2 := by rw [hset]
    exact ⟨hfst ▸ hx, hsnd, hv⟩
  · rintro ⟨hx, hother, hv⟩
    exact ⟨⟨t'.1.1, hx, Prod.ext rfl hother⟩, hv⟩

/-- The plan's effect, if it has one, and what running it does. -/
def EffectRun (prepare : Txn σ ServerError (DurableMutationEffectPlan ε)) (d d' : σ)
    (frame : Bytes) : Option ε → Prop
  | some effect => prepare d = .ok (.effect frame effect, d')
  | none => prepare d = .ok (.response frame, d')

theorem effectCallback_ok {prepare : Txn σ ServerError (DurableMutationEffectPlan ε)} {d d' : σ}
    {v : Option ε} :
    effectCallback prepare (d, none) = .ok (frame, (d', v)) ↔ EffectRun prepare d d' frame v := by
  rw [effectCallback, Txn.bind_ok]
  refine ⟨?_, ?_⟩
  · rintro ⟨plan, t, hplan, h⟩
    obtain ⟨hprepare, hv⟩ := onTables_ok.mp hplan
    cases plan with
    | effect resultFrame effect =>
      cases h
      exact hprepare
    | response resultFrame =>
      cases h
      cases hv
      exact hprepare
  · intro h
    cases v with
    | some | none => exact ⟨_, (d', none), onTables_ok.mpr ⟨h, rfl⟩, rfl⟩

section RoomEventRun
variable (roomId : RoomId) (retention : RoomHistoryRetentionPolicy) (clock : Clock)
  (prepare : Txn (Database × τ) ServerError (DurableRoomEventPlan α))
  (encodeResult : ServerRoomEvent → Except ServerError Bytes)

/-- What running a plan of a room event does: the event is appended to the tables the
preparation left, and is published with the admission. -/
inductive RoomEventRun (d : Database × τ) :
    Database × τ → Bytes → Option (ServerRoomEvent × α) → Prop
  | event {actorUserId : Option UserId} {kind : ServerRoomEventKind} {admission : α}
      {d₁ d' : Database × τ} {event : ServerRoomEvent} {frame : Bytes}
      (prepared : prepare d = .ok (.event actorUserId kind admission, d₁))
      (appended : appendEventInTransaction roomId actorUserId kind retention clock d₁.1 =
        .ok (event, d'.1))
      (others : d'.2 = d₁.2) (encoded : encodeResult event = .ok frame) :
      RoomEventRun d d' frame (some (event, admission))
  | eventWithResult {actorUserId : Option UserId} {kind : ServerRoomEventKind} {admission : α}
      {d₁ d' : Database × τ} {event : ServerRoomEvent} {frame : Bytes}
      (prepared : prepare d = .ok (.eventWithResult actorUserId kind admission frame, d₁))
      (appended : appendEventInTransaction roomId actorUserId kind retention clock d₁.1 =
        .ok (event, d'.1))
      (others : d'.2 = d₁.2) : RoomEventRun d d' frame (some (event, admission))
  | richEvent {actorUserId : Option UserId} {kind : ServerRoomEventKind}
      {metadata : RichMessageEventMetadata} {admission : α} {d₁ d' : Database × τ}
      {event : ServerRoomEvent} {frame : Bytes}
      (prepared : prepare d = .ok (.richEvent actorUserId kind metadata admission, d₁))
      (appended : appendEventWithMetadataInTransaction roomId actorUserId kind (some metadata)
        retention clock d₁.1 = .ok (event, d'.1))
      (others : d'.2 = d₁.2) (encoded : encodeResult event = .ok frame) :
      RoomEventRun d d' frame (some (event, admission))
  | response {d' : Database × τ} {frame : Bytes}
      (prepared : prepare d = .ok (.response frame, d')) : RoomEventRun d d' frame none

/-- Both variables are set, or neither is. -/
def capturedEvent : Option (ServerRoomEvent × α) → CapturedEvent α
  | some (event, admission) => (some event, some admission)
  | none => (none, none)

variable {roomId retention clock prepare encodeResult}

theorem roomEventCallback_ok {d d' : Database × τ} {v : CapturedEvent α} :
    roomEventCallback roomId retention clock prepare encodeResult (d, (none, none)) =
        .ok (frame, (d', v)) ↔
      ∃ effect, RoomEventRun roomId retention clock prepare encodeResult d d' frame effect ∧
        v = capturedEvent effect := by
  rw [roomEventCallback, Txn.bind_ok]
  refine ⟨?_, ?_⟩
  · -- only the four plans can come out of `prepare`
    rintro ⟨plan, ⟨d₁, v₁⟩, hplan, h⟩
    obtain ⟨hprepare, hv⟩ := onTables_ok.mp hplan
    cases plan with
    | event actorUserId kind admission =>
      obtain ⟨event, t₂, happend, h⟩ := bind_ok.mp h
      obtain ⟨happended, hothers, _⟩ := onRooms_ok.mp happend
      obtain ⟨resultFrame, hencoded, h⟩ := lift_bind_ok.mp h
      cases h
      exact ⟨_, .event hprepare happended hothers hencoded, rfl⟩
    | eventWithResult actorUserId kind admission resultFrame =>
      obtain ⟨event, t₂, happend, h⟩ := bind_ok.mp h
      obtain ⟨happended, hothers, _⟩ := onRooms_ok.mp happend
      cases h
      exact ⟨_, .eventWithResult hprepare happended hothers, rfl⟩
    | richEvent actorUserId kind metadata admission =>
      obtain ⟨event, t₂, happend, h⟩ := bind_ok.mp h
      obtain ⟨happended, hothers, _⟩ := onRooms_ok.mp happend
      obtain ⟨resultFrame, hencoded, h⟩ := lift_bind_ok.mp h
      cases h
      exact ⟨_, .richEvent hprepare happended hothers hencoded, rfl⟩
    | response resultFrame =>
      cases h
      exact ⟨none, .response hprepare, hv⟩
  · rintro ⟨effect, hrun, rfl⟩
    cases hrun with
    | event prepared appended others encoded =>
      refine ⟨_, (_, (none, none)), onTables_ok.mpr ⟨prepared, rfl⟩, ?_⟩
      refine bind_ok.mpr ⟨_, (d', (none, none)), onRooms_ok.mpr ⟨appended, others, rfl⟩, ?_⟩
      exact lift_bind_ok.mpr ⟨_, encoded, rfl⟩
    | eventWithResult prepared appended others =>
      refine ⟨_, (_, (none, none)), onTables_ok.mpr ⟨prepared, rfl⟩, ?_⟩
      exact bind_ok.mpr ⟨_, (d', (none, none)), onRooms_ok.mpr ⟨appended, others, rfl⟩, rfl⟩
    | richEvent prepared appended others encoded =>
      refine ⟨_, (_, (none, none)), onTables_ok.mpr ⟨prepared, rfl⟩, ?_⟩
      refine bind_ok.mpr ⟨_, (d', (none, none)), onRooms_ok.mpr ⟨appended, others, rfl⟩, ?_⟩
      exact lift_bind_ok.mpr ⟨_, encoded, rfl⟩
    | response prepared =>
      exact ⟨_, (d', (none, none)), onTables_ok.mpr ⟨prepared, rfl⟩, rfl⟩

end RoomEventRun

/-! The whole call. -/

/-- What a call promises: a failure leaves every table as it was; an effect is handed to the
caller by the call that ran it and stored its result for the first time, and by no other. -/
structure CommitsWhole (key : DurableMutationKey) (hash : RequestHash)
    (ran : σ → σ → Bytes → Option ε → Prop) (s s' : ReplayStore σ)
    (out : Except ServerError (DurableReplayCommit × Option ε)) : Prop where
  failed : ∀ e, out = .error e → s' = s
  published : ∀ effect, (∃ commit, out = .ok (commit, some effect)) ↔
    ∃ frame, StoredFirst key hash frame s s' ∧ ran s.rest s'.rest frame (some effect)
  stored : ∀ frame pruned effect, out = .ok (.stored frame pruned, effect) →
    StoredFirst key hash frame s s' ∧ ran s.rest s'.rest frame effect
  silent : ∀ commit effect, out = .ok (commit, effect) →
    (∀ frame pruned, commit ≠ .stored frame pruned) → effect = none ∧ s'.rest = s.rest

section CommitsWhole
variable {key : DurableMutationKey} {hash : RequestHash} {ran : σ → σ → Bytes → Option ε → Prop}
  {s s' : ReplayStore σ}

theorem CommitsWhole.of_error (e : ServerError) : CommitsWhole key hash ran s s (.error e) := by
  refine ⟨fun _ _ => rfl, fun effect => ⟨?_, ?_⟩, ?_, ?_⟩
  · rintro ⟨commit, h⟩
    cases h
  · -- a result that was not there before is not there after
    rintro ⟨frame, ⟨habsent, r, hr, hkey, _⟩, _⟩
    exact (Table.find?_eq_none.mp habsent r hr hkey).elim
  · intro frame pruned effect h
    cases h
  · intro commit effect h
    cases h

theorem CommitsWhole.of_stored {pruned : Nat} {effect : Option ε}
    (hfirst : StoredFirst key hash frame s s') (hran : ran s.rest s'.rest frame effect)
    (honly : ∀ frame' effect', ran s.rest s'.rest frame' effect' → effect' = effect) :
    CommitsWhole key hash ran s s' (.ok (.stored frame pruned, effect)) := by
  refine ⟨?_, fun e => ⟨?_, ?_⟩, ?_, ?_⟩
  · intro e h
    cases h
  · rintro ⟨commit, h⟩
    cases h
    exact ⟨frame, hfirst, hran⟩
  · rintro ⟨frame', _, hran'⟩
    exact ⟨.stored frame pruned, by rw [honly frame' _ hran']⟩
  · intro frame' pruned' effect' h
    cases h
    exact ⟨hfirst, hran⟩
  · intro commit effect' h hother
    cases h
    exact (hother frame pruned rfl).elim

theorem CommitsWhole.of_silent (hother : ∀ frame pruned, commit ≠ .stored frame pruned)
    (hno : ∀ frame, ¬StoredFirst key hash frame s s') (hrest : s'.rest = s.rest) :
    CommitsWhole key hash ran s s' (.ok (commit, none)) := by
  refine ⟨?_, fun effect => ⟨?_, ?_⟩, ?_, ?_⟩
  · intro e h
    cases h
  · rintro ⟨commit', h⟩
    cases h
  · rintro ⟨frame, hfirst, _⟩
    exact (hno frame hfirst).elim
  · intro frame pruned effect h
    cases h
    exact (hother frame pruned rfl).elim
  · intro commit' effect h _
    cases h
    exact ⟨rfl, hrest⟩

end CommitsWhole

/-- How a wrapper reads the commit and the variables. -/
structure Reads (captured : Option ε → κ)
    (view : DurableReplayCommit × κ → Except ServerError (DurableReplayCommit × Option ε)) :
    Prop where
  stored : ∀ frame pruned effect, view (.stored frame pruned, captured effect) =
    .ok (.stored frame pruned, effect)
  other : ∀ commit v, (∀ frame pruned, commit ≠ .stored frame pruned) →
    view (commit, v) = .ok (commit, none)

section Capturing
variable {rmpv : Rmpv} {key : DurableMutationKey} {hash : RequestHash} {now : Int} {start : κ}
  {callback : Txn (σ × κ) ServerError Bytes} {s : ReplayStore σ}

theorem commitCapturing_error {e : ServerError}
    (h : (commitCapturing rmpv key hash now start callback s).1 = .error e) :
    (commitCapturing rmpv key hash now start callback s).2 = s := by
  have hended := atomically_error (map_error.mp h)
  unfold commitCapturing
  simp only [hended]

theorem commitCapturing_settles {v : κ}
    (h : (commitCapturing rmpv key hash now start callback s).1 = .ok (commit, v)) :
    Settles key hash callback ⟨s.results, s.clients, (s.rest, start)⟩
      ⟨(commitCapturing rmpv key hash now start callback s).2.results,
        (commitCapturing rmpv key hash now start callback s).2.clients,
        ((commitCapturing rmpv key hash now start callback s).2.rest, v)⟩ commit := by
  obtain ⟨c, hc, hpair⟩ := map_ok.mp h
  cases hpair
  exact commit_settles (atomically_ok.mp hc)

/-- From what the callback does to what the call promises. -/
theorem commitCapturing_whole {ran : σ → σ → Bytes → Option ε → Prop} {captured : Option ε → κ}
    {view : DurableReplayCommit × κ → Except ServerError (DurableReplayCommit × Option ε)}
    (hran : ∀ d d' frame v, callback (d, start) = .ok (frame, (d', v)) ↔
      ∃ effect, ran d d' frame effect ∧ v = captured effect)
    (hview : Reads captured view) :
    CommitsWhole key hash ran s (commitCapturing rmpv key hash now start callback s).2
      ((commitCapturing rmpv key hash now start callback s).1.bind view) := by
  generalize hs' : (commitCapturing rmpv key hash now start callback s).2 = s'
  cases hout : (commitCapturing rmpv key hash now start callback s).1 with
  | error e =>
    obtain rfl := hs'.symm.trans (commitCapturing_error hout)
    exact .of_error e
  | ok ended =>
    obtain ⟨commit, v⟩ := ended
    have hsettles := commitCapturing_settles hout
    rw [hs'] at hsettles
    by_cases hstored : ∃ frame pruned, commit = .stored frame pruned
    · obtain ⟨frame, pruned, rfl⟩ := hstored
      cases hsettles with
      | stored _ _ first callbackRan =>
        obtain ⟨effect, heffect, rfl⟩ := (hran _ _ _ _).mp callbackRan
        show CommitsWhole key hash ran s s' (view (.stored frame pruned, captured effect))
        rw [hview.stored]
        refine .of_stored ⟨first.absent, first.held⟩ heffect ?_
        -- the callback has one outcome, and the wrapper reads one effect from it
        intro frame' effect' hran'
        have hsame := callbackRan.symm.trans ((hran _ _ _ _).mpr ⟨effect', hran', rfl⟩)
        have hcaptured : captured effect = captured effect' := by
          simpa using (Prod.mk.inj (Prod.mk.inj (Except.ok.inj hsame)).2).2
        have hread := hview.stored frame pruned effect'
        rw [← hcaptured, hview.stored] at hread
        exact (Prod.mk.inj (Except.ok.inj hread)).2.symm
    · have hother : ∀ frame pruned, commit ≠ .stored frame pruned :=
        fun frame pruned h => hstored ⟨frame, pruned, h⟩
      show CommitsWhole key hash ran s s' (view (commit, v))
      rw [hview.other commit v hother]
      refine .of_silent hother ?_ ?_
      · intro frame hfirst
        exact hstored (hsettles.stored_of_first ⟨hfirst.absent, hfirst.held⟩)
      · exact congrArg Prod.fst (hsettles.rest_of_other hother)

end Capturing

/-! Both wrappers. -/

def DurableMutationEffectCommit.summary :
    DurableMutationEffectCommit ε → DurableReplayCommit × Option ε
  | .stored resultFrame effect pruned => (.stored resultFrame pruned, some effect)
  | .storedResponse resultFrame pruned => (.stored resultFrame pruned, none)
  | .replayed resultFrame => (.replayed resultFrame, none)
  | .conflict => (.conflict, none)
  | .expired => (.expired, none)

def DurableRoomEventCommit.summary :
    DurableRoomEventCommit α → DurableReplayCommit × Option (ServerRoomEvent × α)
  | .stored resultFrame event admission pruned =>
    (.stored resultFrame pruned, some (event, admission))
  | .storedResponse resultFrame pruned => (.stored resultFrame pruned, none)
  | .replayed resultFrame => (.replayed resultFrame, none)
  | .conflict => (.conflict, none)
  | .expired => (.expired, none)

theorem effectCommit_reads :
    Reads (id : Option ε → Option ε) (fun c => .ok (effectCommit c).summary) := by
  refine ⟨?_, ?_⟩
  · intro frame pruned effect
    cases effect <;> rfl
  · intro commit v hother
    cases commit with
    | stored frame pruned => exact (hother frame pruned rfl).elim
    | replayed | conflict | expired => rfl

/-- The error after the commit is not reached: both variables are set together. -/
theorem roomEventCommit_reads :
    Reads capturedEvent
      (fun c : DurableReplayCommit × CapturedEvent α =>
        (roomEventCommit c).map DurableRoomEventCommit.summary) := by
  refine ⟨?_, ?_⟩
  · intro frame pruned effect
    cases effect <;> rfl
  · intro commit v hother
    cases commit with
    | stored frame pruned => exact (hother frame pruned rfl).elim
    | replayed | conflict | expired => rfl

theorem effectResult_whole (rmpv : Rmpv) (key : DurableMutationKey) (hash : RequestHash) (now : Int)
    (prepare : Txn σ ServerError (DurableMutationEffectPlan ε)) (s : ReplayStore σ) :
    CommitsWhole key hash (EffectRun prepare) s
      (commitDurableMutationEffectResult rmpv key hash now prepare s).2
      ((commitDurableMutationEffectResult rmpv key hash now prepare s).1.map
        DurableMutationEffectCommit.summary) := by
  have hwhole : CommitsWhole key hash (EffectRun prepare) s _ _ :=
    @commitCapturing_whole _ _ _ rmpv key hash now none (effectCallback prepare) s
      (EffectRun prepare) id _ (fun d d' frame v => by simp [effectCallback_ok]) effectCommit_reads
  rw [commitDurableMutationEffectResult]
  convert hwhole using 1
  cases (commitCapturing rmpv key hash now none (effectCallback prepare) s).1 <;> rfl

theorem roomEventResult_whole (roomId : RoomId) (retention : RoomHistoryRetentionPolicy)
    (clock : Clock) (prepare : Txn (Database × τ) ServerError (DurableRoomEventPlan α))
    (encodeResult : ServerRoomEvent → Except ServerError Bytes) (rmpv : Rmpv)
    (key : DurableMutationKey) (hash : RequestHash) (now : Int) (s : ReplayStore (Database × τ)) :
    CommitsWhole key hash (RoomEventRun roomId retention clock prepare encodeResult) s
      (commitDurableRoomEventResult roomId retention clock prepare encodeResult rmpv key hash now s).2
      ((commitDurableRoomEventResult roomId retention clock prepare encodeResult rmpv key hash now
        s).1.map DurableRoomEventCommit.summary) := by
  have hwhole : CommitsWhole key hash (RoomEventRun roomId retention clock prepare encodeResult) s
      _ _ :=
    @commitCapturing_whole _ _ _ rmpv key hash now (none, none)
      (roomEventCallback roomId retention clock prepare encodeResult) s _ capturedEvent _
      (fun d d' frame v => roomEventCallback_ok) roomEventCommit_reads
  rw [commitDurableRoomEventResult]
  convert hwhole using 1
  cases (commitCapturing rmpv key hash now (none, none)
    (roomEventCallback roomId retention clock prepare encodeResult) s).1 <;> rfl

/-- A durable mutation commits whole or not at all: the commit itself under any limits, and the
two wrappers that hand an effect to the caller, for every preparation and every point at which
it, the append, the encoding, the retention or the commit may fail. -/
theorem durable_commit_whole (rmpv : Rmpv) (key : DurableMutationKey) (hash : RequestHash)
    (now : Int) :
    (∀ (limits : RetentionLimits) (build : Txn σ ServerError Bytes) (s : ReplayStore σ) e,
      (atomically
        (commitDurableMutationResultWithLimits rmpv key hash now limits build) s).1 = .error e →
      (atomically
        (commitDurableMutationResultWithLimits rmpv key hash now limits build) s).2 = s) ∧
    (∀ (prepare : Txn σ ServerError (DurableMutationEffectPlan ε)) (s : ReplayStore σ),
      CommitsWhole key hash (EffectRun prepare) s
        (commitDurableMutationEffectResult rmpv key hash now prepare s).2
        ((commitDurableMutationEffectResult rmpv key hash now prepare s).1.map
          DurableMutationEffectCommit.summary)) ∧
    (∀ (roomId : RoomId) (retention : RoomHistoryRetentionPolicy) (clock : Clock)
      (prepare : Txn (Database × τ) ServerError (DurableRoomEventPlan α))
      (encodeResult : ServerRoomEvent → Except ServerError Bytes) (s : ReplayStore (Database × τ)),
      CommitsWhole key hash (RoomEventRun roomId retention clock prepare encodeResult) s
        (commitDurableRoomEventResult roomId retention clock prepare encodeResult rmpv key hash now
          s).2
        ((commitDurableRoomEventResult roomId retention clock prepare encodeResult rmpv key hash now
          s).1.map DurableRoomEventCommit.summary)) := by
  refine ⟨fun limits build s e h => atomically_error h, ?_, ?_⟩
  · intro prepare s
    exact effectResult_whole rmpv key hash now prepare s
  · intro roomId retention clock prepare encodeResult s
    exact roomEventResult_whole roomId retention clock prepare encodeResult rmpv key hash now s

end Omen.Server
