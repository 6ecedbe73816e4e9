import OmenBrowser.Server.LedgerExact

/- What the retention policy promises after an append, and when the promise is kept.

   Candidates are taken from the oldest event on, and the check after a compaction looks at all
   events of the room. Where nothing is selected there is no compaction and no check: an event
   that is too old then stays as long as an event with a smaller id is not, which takes a clock
   that has stepped back between the two. `Stranded` is this situation, read off the room before
   the append; outside of it the policy is met. -/
namespace Omen.Server
open Wire Sql Ints Omen.Protocol List RoomEventRow

variable {policy : RoomHistoryRetentionPolicy} {cutoff : Int} {roomId : RoomId} {db : Database}
  {events : List RoomEventRow} {kind : ServerRoomEventKind}
  {metadata : Option RichMessageEventMetadata}

/-- At the time `now` an event of the time `atUnix` is past the maximum age. -/
def RoomHistoryRetentionPolicy.expired (policy : RoomHistoryRetentionPolicy) (now atUnix : Int) :
    Bool :=
  match retentionCutoff policy now with
  | .ok cutoff => decide (atUnix ≤ cutoff)
  | .error _ => false

/-- What an appended event adds to the bytes of its room. -/
def appendedBytes (kind : ServerRoomEventKind) (metadata : Option RichMessageEventMetadata) : Nat :=
  match encodeStoredEventMetadata metadata with
  | .ok (reply, mentions) => (eventRow 0 0 none kind 0 reply mentions).retainedBytes
  | .error _ => 0

/-- The events of a room are within the policy's limits; the newest may exceed the byte limit
alone, and is not asked for its age. -/
structure RetentionMet (events : List RoomEventRow) (newest : EventId)
    (policy : RoomHistoryRetentionPolicy) (now : Int) : Prop where
  items : events.length ≤ policy.maxEventsPerRoom
  bytes : (events.map RoomEventRow.retainedBytes).sum ≤ policy.maxBytesPerRoom ∨ events.length = 1
  age : ∀ e ∈ events, e.eventId ≠ (newest : Int) → policy.expired now e.atUnix = false

/-- There is an expired event behind one that is not, and room for an event of `bytes` bytes. -/
structure Stranded (events : List RoomEventRow) (bytes : Nat) (policy : RoomHistoryRetentionPolicy)
    (now : Int) : Prop where
  oldest : ∃ e, events.head? = some e ∧ policy.expired now e.atUnix = false
  behind : ∃ e ∈ events, policy.expired now e.atUnix = true
  items : events.length + 1 ≤ policy.maxEventsPerRoom
  bytes : (events.map RoomEventRow.retainedBytes).sum + bytes ≤ policy.maxBytesPerRoom

-- as a function: unfolded at its arguments, the kernel would multiply out the days of the policy
theorem expired_eq : RoomHistoryRetentionPolicy.expired = fun policy now atUnix =>
    match retentionCutoff policy now with
    | .ok cutoff => decide (atUnix ≤ cutoff)
    | .error _ => false := rfl

theorem not_expired_iff {now : Int} (h : retentionCutoff policy now = .ok cutoff) {atUnix : Int} :
    policy.expired now atUnix = false ↔ cutoff < atUnix := by
  rw [expired_eq]
  dsimp only
  rw [h]
  exact decide_eq_false_iff_not.trans Int.not_le

/-- Whether anything is selected is decided by the oldest candidate. -/
theorem selectCandidates_eq_nil {candidates : List AdmissionCandidate} {items bytes : Nat} :
    selectCandidates policy cutoff candidates items bytes = [] ↔
      ∀ c, candidates.head? = some c → cutoff < c.atUnix ∧ items ≤ policy.maxEventsPerRoom ∧
        (bytes ≤ policy.maxBytesPerRoom ∨ items ≤ 1) := by
  cases candidates with
  | nil => simp [selectCandidates]
  | cons c candidates =>
    simp only [selectCandidates, head?_cons, Option.some.injEq, forall_eq']
    split
    · next h =>
      simp only [Bool.and_eq_true, Bool.not_eq_true', decide_eq_false_iff_not,
        Bool.and_eq_false_iff] at h
      simp only [true_iff]
      omega
    · next h =>
      simp only [Bool.and_eq_true, Bool.not_eq_true', decide_eq_false_iff_not,
        Bool.and_eq_false_iff] at h
      simp only [cons_ne_nil, false_iff]
      omega

/-- The backfill writes the ledger only. -/
theorem advanceBackfill_rooms {db' : Database} {n : Nat} (hinv : HistoryInv db)
    (h : advanceRoomHistoryUsageBackfill roomId historyUsageBackfillBatch db = .ok (n, db'))
    (r : RoomId) : db'.history r = db.history r := by
  rcases advanceBackfill_sets hinv h with rfl | ⟨_, hset⟩
  · rfl
  · exact hset.history r

section
variable {row : RoomEventRow} (hhistory : db.history roomId = events ++ [row])
include hhistory

/-- The new event has the largest id of its room. -/
theorem older_of_append : ∀ e ∈ events, e.eventId ≠ row.eventId := by
  intro e he
  have hasc := ascending_history db roomId
  rw [hhistory] at hasc
  exact Int.ne_of_lt ((pairwise_append.mp hasc).2.2 e he row (mem_singleton_self row))

/-- The candidates are the events before the newest, so the oldest of them comes first. -/
theorem admissionCandidates_head : (db.admissionCandidates roomId row.eventId).head? =
      events.head?.map (fun e => ⟨e.eventId, e.retainedBytes, e.atUnix⟩) := by
  have hfilter : (events ++ [row]).filter (fun e => decide (e.eventId ≠ row.eventId)) = events := by
    rw [filter_append, filter_eq_self.mpr]
    · simp
    · intro e he
      exact decide_eq_true (older_of_append hhistory e he)
  unfold Database.admissionCandidates
  rw [hhistory, hfilter, head?_map, head?_take, if_neg (by decide)]

end

section
variable {db db' : Database} {roomId : RoomId} {newest : EventId}
  {policy : RoomHistoryRetentionPolicy} {now compactedAt : Int} {c : RoomHistoryCompaction}
  {events : List RoomEventRow} {row : RoomEventRow}

/-- What the check after a compaction has found on an exact ledger. -/
theorem Verified.met {v : UsageRow} (h : Verified db roomId newest cutoff policy v)
    (hcutoff : retentionCutoff policy now = .ok cutoff) (hcomplete : v.backfillComplete = true)
    (hinv : HistoryInv db) : RetentionMet (db.history roomId) newest policy now := by
  obtain ⟨hcount, hbytes⟩ := ((hinv roomId).ledger v h.ledger).exact_all hcomplete
  refine ⟨?_, ?_, ?_⟩
  · rw [← hcount]
    exact h.items
  · rw [← hcount, ← hbytes]
    exact h.bytes
  · intro e he hne
    exact (not_expired_iff hcutoff).mpr (h.age e he hne)

/-- A compaction leaves a complete ledger complete. -/
theorem compact_complete {through : Int} {limit : Nat} {u v : UsageRow}
    (hu : db.usage? roomId = some u) (hcomplete : u.backfillComplete = true)
    (h : compactRoomHistoryThroughInTransaction roomId through limit now noHook db = .ok (c, db'))
    (hv : db'.usage? roomId = some v) : v.backfillComplete = true := by
  obtain ⟨db₁, _, _, hseq, _, _, _, hcase⟩ := compactInTransaction_ok h
  obtain ⟨hset, _⟩ := ensureRoomEventSequence_ok hseq
  rcases hcase with ⟨_, rfl⟩ | ⟨w, hcompacts⟩
  · rw [hset.usage, hu] at hv
    rw [← Option.some.inj hv]
    exact hcomplete
  · rw [hcompacts.after.room] at hv
    rw [← Option.some.inj hv]
    exact hcompacts.complete

/-- Nothing was selected behind the new event. -/
theorem unselected_met_iff (hcutoff : retentionCutoff policy now = .ok cutoff)
    (hmax : policy.maxEventsPerRoom ≠ 0) (hrow : row.eventId = newest)
    (holder : ∀ e ∈ events, e.eventId ≠ (newest : Int))
    (hfirst : ∀ e, events.head? = some e → cutoff < e.atUnix ∧
      (events ++ [row]).length ≤ policy.maxEventsPerRoom ∧
      (((events ++ [row]).map RoomEventRow.retainedBytes).sum ≤ policy.maxBytesPerRoom ∨
        (events ++ [row]).length ≤ 1)) :
    RetentionMet (events ++ [row]) newest policy now ↔
      ¬Stranded events row.retainedBytes policy now := by
  cases events with
  | nil =>
    -- the new event is alone
    refine ⟨?_, ?_⟩
    · rintro - ⟨⟨e, he, _⟩, _, _, _⟩
      cases he
    · intro _
      refine ⟨Nat.one_le_iff_ne_zero.mpr hmax, .inr rfl, ?_⟩
      intro e he hne
      rw [nil_append, mem_singleton] at he
      exact absurd (he ▸ hrow) hne
  | cons first rest =>
    obtain ⟨hage, hitems, hbytes⟩ := hfirst first rfl
    replace hbytes := hbytes.resolve_right (by simp)
    have hsum : (((first :: rest) ++ [row]).map RoomEventRow.retainedBytes).sum =
        ((first :: rest).map RoomEventRow.retainedBytes).sum + row.retainedBytes := by
      rw [map_append, sum_append, map_singleton, sum_singleton]
    refine ⟨?_, ?_⟩
    · rintro hmet ⟨_, ⟨e, he, hexpired⟩, _, _⟩
      have hkept := hmet.age e (mem_append_left _ he) (holder e he)
      exact Bool.false_ne_true (hkept.symm.trans hexpired)
    · intro hstranded
      refine ⟨hitems, .inl hbytes, ?_⟩
      intro e he hne
      rcases mem_append.mp he with he | he
      · by_contra hexpired
        refine hstranded ⟨⟨first, rfl, (not_expired_iff hcutoff).mpr hage⟩,
          ⟨e, he, Bool.eq_true_of_not_eq_false hexpired⟩, ?_, hsum ▸ hbytes⟩
        simpa using hitems
      · rw [mem_singleton.mp he] at hne
        exact absurd hrow hne

/-- Enforcing the policy behind a new event: it is met unless the room was stranded. -/
theorem enforcePolicy_met_iff (hinv : HistoryInv db) (hrow : row.eventId = newest)
    (hhistory : db.history roomId = events ++ [row]) (henabled : policy.enabled = true)
    (h : enforceRoomHistoryPolicyInTransaction roomId newest policy now compactedAt db =
      .ok (c, db')) :
    RetentionMet (db'.history roomId) newest policy now ↔
      ¬Stranded events row.retainedBytes policy now := by
  rcases enforcePolicy_cases h with ⟨hdisabled, _⟩ | ⟨_, hmax, cutoff, u, hcutoff, hu, hcomplete,
    selected, hselected, hcase⟩
  · exact absurd (henabled.symm.trans hdisabled) (by decide)
  · obtain ⟨hcount, hbytes⟩ := ((hinv roomId).ledger u hu).exact_all hcomplete
    rw [hcount, hbytes, hhistory] at hselected
    have hnil : selected = [] ↔ ∀ e, events.head? = some e → cutoff < e.atUnix ∧
        (events ++ [row]).length ≤ policy.maxEventsPerRoom ∧
        (((events ++ [row]).map RoomEventRow.retainedBytes).sum ≤ policy.maxBytesPerRoom ∨
          (events ++ [row]).length ≤ 1) := by
      rw [hselected, selectCandidates_eq_nil, ← hrow, admissionCandidates_head hhistory]
      simp
    rcases hcase with ⟨hempty, rfl⟩ | ⟨last, hlast, hcompact, v, hverified⟩
    · rw [hhistory]
      exact unselected_met_iff hcutoff hmax hrow (hrow ▸ older_of_append hhistory) (hnil.mp hempty)
    · -- something was selected: the result was verified, and the room was not stranded
      refine ⟨?_, ?_⟩
      · rintro - ⟨⟨e, he, hage⟩, _, hitems, hfree⟩
        have hempty : selected = [] := by
          refine hnil.mpr fun e' he' => ⟨?_, ?_, .inl ?_⟩
          · obtain rfl := Option.some.inj (he.symm.trans he')
            exact (not_expired_iff hcutoff).mp hage
          · simpa using hitems
          · simpa using hfree
        rw [hempty] at hlast
        cases hlast
      · intro _
        exact hverified.met hcutoff (compact_complete hu hcomplete hcompact hverified.ledger)
          (hinv.compact hcompact)

/-- The bytes of the row an append writes. -/
theorem appendedBytes_eq {reply : Option Int} {mentions : Option Bytes}
    (h : encodeStoredEventMetadata metadata = .ok (reply, mentions)) (roomId : RoomId)
    (eventId : EventId) (actorUserId : Option UserId) (atUnix : Int) :
    (eventRow roomId eventId actorUserId kind atUnix reply mentions).retainedBytes =
      appendedBytes kind metadata := by
  rw [appendedBytes, h]
  rfl

theorem append_met_iff {actorUserId : Option UserId} {clock : Clock} {event : ServerRoomEvent}
    (hinv : HistoryInv db) (henabled : policy.enabled = true)
    (h : appendEventWithMetadataInTransaction roomId actorUserId kind metadata policy clock db =
      .ok (event, db')) :
    RetentionMet (db'.history roomId) event.eventId policy clock.enforced ↔
      ¬Stranded (db.history roomId) (appendedBytes kind metadata) policy clock.enforced := by
  obtain ⟨reply, mentions, db₁, db₂, n, c, hmeta, hrecorded, hadvance, henforce⟩ := append_cases h
  have hinv₁ := hinv.recorded hrecorded
  have hhistory := (advanceBackfill_rooms hinv₁ hadvance roomId).trans (hrecorded.history hinv)
  rw [← appendedBytes_eq hmeta roomId event.eventId actorUserId clock.appended]
  exact enforcePolicy_met_iff (hinv₁.advanceBackfill hadvance) hrecorded.id hhistory henabled henforce

end

/-- In every state a store reaches, an append that succeeds under an enabled policy leaves the room
within the policy's limits if and only if the room was not stranded before it. -/
theorem append_retentionMet_iff (s : OmenchatStore) (h : Migrated s.database)
    (inputs : List HistoryInput) (roomId : RoomId) (actorUserId : Option UserId)
    (kind : ServerRoomEventKind) (metadata : Option RichMessageEventMetadata) (clock : Clock)
    (store : OmenchatStore) (hreached : (Machine.run historyStep s inputs).2 = store)
    (henabled : store.historyRetention.enabled = true) (event : ServerRoomEvent)
    (happended : (historyStep store (.append roomId actorUserId kind metadata clock)).1 =
      .appended event) :
    RetentionMet ((historyStep store (.append roomId actorUserId kind metadata
        clock)).2.database.history roomId) event.eventId store.historyRetention clock.enforced ↔
      ¬Stranded (store.database.history roomId) (appendedBytes kind metadata)
        store.historyRetention clock.enforced := by
  have hinv : HistoryInv store.database := hreached ▸ historyRun_inv h inputs
  exact append_met_iff hinv henabled (historyStep_appended happended)

theorem empty_migrated : Migrated Database.empty :=
  ⟨fun _ he => absurd he not_mem_nil, fun _ hq => absurd hq not_mem_nil, rfl⟩

/-- The time of day `n`. -/
def atDay (n : Int) : Clock := ⟨n * 86400, n * 86400, n * 86400⟩

/-- Thirty days, ten events, a hundred kilobytes. -/
def monthPolicy : RoomHistoryRetentionPolicy := ⟨true, 30, 10, 100000⟩

/-- A store whose clock was on day 1000 and then on day 100. -/
def steppedBack : OmenchatStore :=
  (Machine.run historyStep ⟨Database.empty, monthPolicy⟩
    [.append 1 none (.message "a") none (atDay 1000),
     .append 1 none (.message "b") none (atDay 100)]).2

/-- On day 140 the event of day 100 is past its thirty days and stays. -/
theorem append_keeps_expired :
    Migrated Database.empty ∧ steppedBack.historyRetention.enabled = true ∧
    (∃ u, steppedBack.database.usage? 1 = some u ∧ u.backfillComplete = true) ∧
    ∃ event, (historyStep steppedBack (.append 1 none (.message "c") none (atDay 140))).1 =
        .appended event ∧
      ¬RetentionMet ((historyStep steppedBack (.append 1 none (.message "c") none
        (atDay 140))).2.database.history 1) event.eventId steppedBack.historyRetention
        (atDay 140).enforced := by
  refine ⟨empty_migrated, rfl, ⟨_, rfl, rfl⟩, ⟨1, 3, .message "c", none, none, 12096000, none⟩, rfl,
    ?_⟩
  intro hmet
  have hstored : (2, 8640000) ∈ ((historyStep steppedBack (.append 1 none (.message "c") none
      (atDay 140))).2.database.history 1).map (fun e => (e.eventId, e.atUnix)) := by
    decide +kernel
  obtain ⟨e, he, heq⟩ := mem_map.mp hstored
  obtain ⟨hid, hat⟩ := Prod.mk.inj heq
  have hkept := hmet.age e he (by rw [hid]; decide)
  rw [hat] at hkept
  exact absurd hkept (by decide +kernel)

/-- A store with one event, of day 100. -/
def dayHundred : OmenchatStore :=
  (Machine.run historyStep ⟨Database.empty, monthPolicy⟩
    [.append 1 none (.message "b") none (atDay 100)]).2

/-- Without a younger event before it, the event of day 100 goes on day 140. -/
theorem append_retentionMet_iff_ordered :
    RetentionMet ((historyStep dayHundred (.append 1 none (.message "c") none
      (atDay 140))).2.database.history 1) 2 dayHundred.historyRetention (atDay 140).enforced := by
  refine (append_retentionMet_iff ⟨Database.empty, monthPolicy⟩ empty_migrated
    [.append 1 none (.message "b") none (atDay 100)] 1 none (.message "c") none (atDay 140)
    dayHundred rfl rfl ⟨1, 2, .message "c", none, none, 12096000, none⟩ rfl).mpr ?_
  rintro ⟨⟨e, he, hage⟩, _, _, _⟩
  have hat : (dayHundred.database.history 1).head?.map atUnix = some 8640000 := by
    decide +kernel
  rw [he, Option.map_some] at hat
  rw [Option.some.inj hat] at hage
  exact absurd hage (by decide +kernel)

end Omen.Server
