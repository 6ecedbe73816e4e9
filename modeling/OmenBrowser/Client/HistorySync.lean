import OmenBrowser.Client.EventIdentity
import OmenBrowser.Lib.Pruning

/- Syncs of a room's recent history (`chat/live.rs`, `chat/client.rs`).

   A live event whose id is far above those of its room asks for a sync, and the batch that answers
   is merged into the session's events. Two rules of the merge and of the test look at more than
   they should. The batch goes through the window's older edge, as history that is scrolled back to
   does, so that a full window drops the newest events, which are those of the batch; and the test
   takes the highest id of the room, which is that of an echo as long as one is waited for.

   Correspondence (Rust ↔ Lean):
     `live_event_gap_detected`                        ↔ `liveEventGapDetected`
     the `RoomEvent` arm of the frame dispatch        ↔ `applyRoomEvent`, `roomEventNotices`
     `apply_batch`, of a history                      ↔ `applyHistoryBatch`, `historyNotices`
     `load_cached_history_before`,
     `load_cached_room_history`                       ↔ `SyncInput.olderHistory`
   The session's status line is left out. -/
namespace Omen.Client
open Wire Sql Ints Machine Omen.Protocol List

variable {events : List ChatEvent} {roomId : Option UInt32} {session : ChatSessionView}
  {eventId : Nat} {event : ChatEvent}

/-- What the history of a session has to tell the user interface. -/
inductive ChatClientEvent where
  | eventAppended (sessionId : ChatSessionId) (event : ChatEvent)
  | historySyncNeeded (sessionId : ChatSessionId) (roomId : UInt32)
  | historyPrepended (sessionId : ChatSessionId) (events : List ChatEvent)
  | historySynced (sessionId : ChatSessionId) (roomId : UInt32)

def roomEventIds (session : ChatSessionView) (roomId : UInt32) : List Nat :=
  (session.events.filter (fun event => event.roomId == roomId)).map (fun event => event.eventId.toNat)

def liveEventGapDetected (session : ChatSessionView) (roomId : UInt32) (eventId : UInt64) : Bool :=
  match (roomEventIds session roomId).max? with
  | none => false
  | some last => decide (saturatingCount last 1 < eventId.toNat)

/-! What the frames tell. -/

def liveEvent? (serverId : String) (roomId : Option UInt32) (body : FrameBody) : Option ChatEvent :=
  ((bodyValues body).bind head?).bind (parseEvent serverId (roomId.getD 1))

def batchEvents (serverId : String) (roomId : Option UInt32) (values : List FrameValue) :
    List ChatEvent :=
  values.filterMap (parseEvent serverId (roomId.getD 1))

section
variable (c : LiveClient) (sessionId : ChatSessionId) (roomId : Option UInt32)

/-- The gap is looked for before the event is appended. -/
def roomEventNotices (body : FrameBody) : List ChatClientEvent :=
  let session := c.sessions sessionId
  match liveEvent? ((session.map ChatSessionView.serverId).getD "") roomId body with
  | none => []
  | some event =>
    .eventAppended sessionId event ::
      if session.any (fun session => liveEventGapDetected session event.roomId event.eventId) then
        [.historySyncNeeded sessionId (roomId.getD 1)]
      else []

def historyNotices (values : List FrameValue) : List ChatClientEvent :=
  let session := c.sessions sessionId
  let added := newEvents ((session.map fun session => session.events.map ChatEvent.key).getD [])
    (batchEvents ((session.map ChatSessionView.serverId).getD "") roomId values)
  if added.isEmpty = false then [.historyPrepended sessionId added]
  else if values.isEmpty = false then [.historySynced sessionId (roomId.getD 1)]
  else []

end

/-! The run. -/

inductive SyncInput where
  | client (i : EchoInput)
  /-- Events of the client's own store are loaded. -/
  | olderHistory (sessionId : ChatSessionId) (events : List ChatEvent)

section Run
variable (retainedBytes : ChatEvent → Nat)

variable (s : LinkedClient)

def syncNext : SyncInput → LinkedClient
  | .client i => echoNext retainedBytes s i
  | .olderHistory sessionId events =>
    { s with client := s.client.updateSession sessionId (fun session =>
        prependHistoryEvents retainedBytes session events) }

def syncNotices : SyncInput → List ChatClientEvent
  | .client (.roomEvent sessionId roomId body) => roomEventNotices s.client sessionId roomId body
  | .client (.history sessionId roomId values) => historyNotices s.client sessionId roomId values
  | _ => []

def syncStep (i : SyncInput) : List ChatClientEvent × LinkedClient :=
  (syncNotices s i, syncNext retainedBytes s i)

end Run

instance (eventId : UInt64) : Decidable (IsServerId eventId) :=
  inferInstanceAs (Decidable (_ ≤ i64Max))

/-- The highest server's id in a room. -/
def lastConfirmed (session : ChatSessionView) (roomId : UInt32) : Option Nat :=
  ((roomEventIds session roomId).filter (fun eventId : Nat => decide (Int.ofNat eventId ≤ i64Max))).max?

/-- The event is of the server, and more than one above the last confirmed one of its room. -/
def BeyondConfirmed (session : ChatSessionView) (event : ChatEvent) : Prop :=
  IsServerId event.eventId ∧
    ∃ last, lastConfirmed session event.roomId = some last ∧ last + 1 < event.eventId.toNat

/-- A batch is retained, and a gap asks for a sync. -/
def Converges (retainedBytes : ChatEvent → Nat) (s : LinkedClient) : SyncInput → Prop
  | .client (.history sessionId roomId values) => ∀ session session',
    s.client.sessions sessionId = some session →
    (applyHistory retainedBytes s.client sessionId roomId values).sessions sessionId = some session' →
    ∀ event ∈ batchEvents session.serverId roomId values, event.key ∈ session'.events.map ChatEvent.key
  | .client (.roomEvent sessionId roomId body) => ∀ session event,
    s.client.sessions sessionId = some session →
    liveEvent? session.serverId roomId body = some event → BeyondConfirmed session event →
    .historySyncNeeded sessionId event.roomId ∈ roomEventNotices s.client sessionId roomId body
  | _ => True

/-- The session's events and the new ones of a batch, in the order of rooms and ids. -/
def merged (session : ChatSessionView) (events : List ChatEvent) : List ChatEvent :=
  orderBy byRoomAndEvent
    ((newEvents (session.events.map ChatEvent.key) events).foldl pushEvent session.events)

/-- In the order of age, the events up to one with the key fit into the window. -/
def FitsUpTo (retainedBytes : ChatEvent → Nat) (events : List ChatEvent) (key : EventKey) : Prop :=
  ∃ older event newer, orderBy byAge events.zipIdx = older ++ event :: newer ∧ event.1.key = key ∧
    withinWindow (older.length + 1)
      ((older.map fun e => retainedBytes e.1).sum + retainedBytes event.1) = true

/-- The window has room for the batch, and no echo of the room is waited for where a gap is. -/
def Syncable (retainedBytes : ChatEvent → Nat) (s : LinkedClient) : SyncInput → Prop
  | .client (.history sessionId roomId values) => ∀ session,
    s.client.sessions sessionId = some session →
    newEvents (session.events.map ChatEvent.key) (batchEvents session.serverId roomId values) = [] ∨
      ∀ event ∈ batchEvents session.serverId roomId values, FitsUpTo retainedBytes
        (merged session (batchEvents session.serverId roomId values)) event.key
  | .client (.roomEvent sessionId roomId body) => ∀ session event,
    s.client.sessions sessionId = some session →
    liveEvent? session.serverId roomId body = some event → BeyondConfirmed session event →
    ∀ existing ∈ session.events, existing.roomId = event.roomId → IsServerId existing.eventId
  | _ => True

/-! The window. -/

variable {key : EventKey} {serverId : String} {body : FrameBody}

section Window
variable {retainedBytes : ChatEvent → Nat}

theorem withinWindow_mono {items items' bytes bytes' : Nat} (hitems : items ≤ items')
    (hbytes : bytes ≤ bytes') (h : withinWindow items' bytes' = true) :
    withinWindow items bytes = true := by
  rw [withinWindow, Bool.and_eq_true, decide_eq_true_iff, decide_eq_true_iff] at h ⊢
  exact ⟨Nat.le_trans hitems h.1, Nat.le_trans hbytes h.2⟩

/-- An event is dropped if those that are not dropped before it, itself among them, do not fit. -/
theorem mem_dropped {front rest : List (ChatEvent × Nat)} {entry : ChatEvent × Nat}
    (hplaces : ((front ++ entry :: rest).map Prod.snd).Nodup) :
    entry.2 ∈ dropped retainedBytes (front ++ entry :: rest).length
        ((front ++ entry :: rest).map fun e => retainedBytes e.1).sum (front ++ entry :: rest) ↔
      withinWindow (entry :: rest).length ((entry :: rest).map fun e => retainedBytes e.1).sum =
        false := by
  induction front with
  | nil =>
    rw [nil_append]
    cases hwithin : withinWindow (entry :: rest).length
        ((entry :: rest).map fun e => retainedBytes e.1).sum with
    | true =>
      rw [dropped_within hwithin]
      simp
    | false =>
      have hfirst : entry.2 ∈ dropped retainedBytes (entry :: rest).length
          ((entry :: rest).map fun e => retainedBytes e.1).sum (entry :: rest) := by
        rw [dropped, hwithin, if_neg Bool.false_ne_true]
        exact mem_cons_self
      exact iff_of_true hfirst rfl
  | cons e front ih =>
    rw [cons_append, map_cons, nodup_cons] at hplaces
    obtain ⟨hne, hplaces⟩ := hplaces
    have hother : entry.2 ≠ e.2 := by
      intro hsame
      exact hne (hsame ▸ mem_map_of_mem (mem_append_right front mem_cons_self))
    rw [← ih hplaces, cons_append, map_cons, sum_cons]
    cases hwithin : withinWindow (e :: (front ++ entry :: rest)).length
        (retainedBytes e.1 + ((front ++ entry :: rest).map fun e => retainedBytes e.1).sum) with
    | true =>
      -- what is behind an event fits if the event fits with it
      have hrest : withinWindow (front ++ entry :: rest).length
          ((front ++ entry :: rest).map fun e => retainedBytes e.1).sum = true :=
        withinWindow_mono (Nat.le_succ _) (Nat.le_add_left _ _) hwithin
      rw [dropped_within hwithin, dropped_within hrest]
    | false =>
      rw [dropped, hwithin, if_neg Bool.false_ne_true, mem_cons, or_iff_right hother,
        length_cons, Nat.add_sub_cancel, Nat.add_sub_cancel_left]

theorem nodup_places (events : List ChatEvent) : (events.zipIdx.map Prod.snd).Nodup := by
  rw [zipIdx_map_snd]
  exact nodup_range'

/-- The window that drops the newest keeps a key if the events up to it fit. -/
theorem mem_enforceHistoryWindow :
    key ∈ (enforceHistoryWindow retainedBytes .oldest none events).map ChatEvent.key ↔
      FitsUpTo retainedBytes events key := by
  have hperm : (orderBy byAge events.zipIdx).reverse.Perm events.zipIdx :=
    (reverse_perm _).trans (perm_orderBy byAge _)
  have hplaces := (hperm.map Prod.snd).nodup_iff.mpr (nodup_places events)
  have hcount : (orderBy byAge events.zipIdx).reverse.length = events.length := by
    rw [hperm.length_eq, length_zipIdx]
  have hbytes : ((orderBy byAge events.zipIdx).reverse.map fun e => retainedBytes e.1).sum =
      retainedHistoryBytes retainedBytes events := by
    rw [(hperm.map fun e => retainedBytes e.1).sum_eq, retainedHistoryBytes,
      ← zipIdx_map_fst 0 events, map_map, zipIdx_map_fst]
    rfl
  -- the newest go first, so an event is dropped if those up to it are too many
  have hkept : ∀ older event newer, orderBy byAge events.zipIdx = older ++ event :: newer →
      (event.2 ∈ dropped retainedBytes events.length (retainedHistoryBytes retainedBytes events)
          (dropOrder .oldest none events) ↔
        withinWindow (older.length + 1)
          ((older.map fun e => retainedBytes e.1).sum + retainedBytes event.1) = false) := by
    intro older event newer hsplit
    have hreverse : (orderBy byAge events.zipIdx).reverse =
        newer.reverse ++ event :: older.reverse := by
      rw [hsplit, reverse_append, reverse_cons, append_assoc, singleton_append]
    rw [hreverse] at hplaces hcount hbytes
    have hdrop := @mem_dropped retainedBytes _ _ _ hplaces
    rw [hcount, hbytes, length_cons, length_reverse, map_cons, sum_cons,
      map_reverse, sum_reverse, Nat.add_comm (retainedBytes event.1), ← hreverse] at hdrop
    exact hdrop
  constructor
  · intro hmem
    obtain ⟨event, hmem, hkey⟩ := mem_map.mp hmem
    obtain ⟨entry, hentry, rfl⟩ := mem_map.mp hmem
    obtain ⟨hentry, hplace⟩ := mem_filter.mp hentry
    obtain ⟨older, newer, hsplit⟩ := append_of_mem ((@mem_orderBy _ byAge _ _).mpr hentry)
    refine ⟨older, entry, newer, hsplit, hkey, ?_⟩
    rw [Bool.not_eq_true', ← Bool.not_eq_true, contains_iff_mem, hkept older entry newer hsplit,
      Bool.not_eq_false] at hplace
    exact hplace
  · rintro ⟨older, entry, newer, hsplit, hkey, hwithin⟩
    have hentry : entry ∈ events.zipIdx := by
      rw [← @mem_orderBy _ byAge, hsplit]
      exact mem_append_right older mem_cons_self
    refine mem_map.mpr ⟨entry.1, mem_map.mpr ⟨entry, mem_filter.mpr ⟨hentry, ?_⟩, rfl⟩,
      hkey⟩
    rw [Bool.not_eq_true', ← Bool.not_eq_true, contains_iff_mem, hkept older entry newer hsplit,
      Bool.not_eq_false]
    exact hwithin

end Window

/-! Batches. -/

section Batches
variable {retainedBytes : ChatEvent → Nat} {session : ChatSessionView}

theorem newEvents_eq_nil {known : List EventKey} (h : newEvents known events = []) :
    ∀ event ∈ events, event.key ∈ known := by
  induction events with
  | nil => exact fun event hevent => absurd hevent not_mem_nil
  | cons event events ih =>
    rw [newEvents] at h
    split at h
    · next hknown =>
      intro other hother
      rcases mem_cons.mp hother with rfl | hother
      · exact contains_iff_mem.mp hknown
      · exact ih h other hother
    · cases h

/-- A batch is retained if it brings nothing new, or if the window has room for it. -/
theorem history_retained {session' : ChatSessionView} {values : List FrameValue}
    (happly : session' = applyHistoryBatch retainedBytes session roomId values) :
    (∀ event ∈ batchEvents session.serverId roomId values,
        event.key ∈ session'.events.map ChatEvent.key) ↔
      newEvents (session.events.map ChatEvent.key) (batchEvents session.serverId roomId values) = [] ∨
        ∀ event ∈ batchEvents session.serverId roomId values, FitsUpTo retainedBytes
          (merged session (batchEvents session.serverId roomId values)) event.key := by
  have hevents : session' = prependHistoryEvents retainedBytes session (newEvents
      (session.events.map ChatEvent.key) (batchEvents session.serverId roomId values)) := happly
  rw [hevents, prependHistoryEvents]
  split
  · next hempty =>
    have hnone := isEmpty_iff.mp hempty
    exact iff_of_true (newEvents_eq_nil hnone) (.inl hnone)
  · next hsome =>
    have hne : newEvents (session.events.map ChatEvent.key)
        (batchEvents session.serverId roomId values) ≠ [] := fun hnone =>
      hsome (isEmpty_iff.mpr hnone)
    rw [or_iff_right hne]
    exact forall₂_congr fun event _ => mem_enforceHistoryWindow

end Batches

/-! Gaps. -/

theorem mem_roomEventIds {roomId : UInt32} :
    eventId ∈ roomEventIds session roomId ↔
      ∃ event ∈ session.events, event.roomId = roomId ∧ event.eventId.toNat = eventId := by
  simp [roomEventIds, and_assoc]

theorem lastConfirmed_some {roomId : UInt32} {last : Nat}
    (h : lastConfirmed session roomId = some last) :
    last ∈ roomEventIds session roomId ∧
      ∀ eventId ∈ roomEventIds session roomId, (eventId : Int) ≤ i64Max → eventId ≤ last := by
  obtain ⟨hmem, hmax⟩ := max?_eq_some_iff.mp h
  refine ⟨(mem_filter.mp hmem).1, fun eventId heventId hserver => hmax eventId ?_⟩
  exact mem_filter.mpr ⟨heventId, decide_eq_true hserver⟩

/-- A gap is found if no event of the room has an id that is not a server's. -/
theorem liveEventGapDetected_iff (h : BeyondConfirmed session event) :
    liveEventGapDetected session event.roomId event.eventId = true ↔
      ∀ existing ∈ session.events, existing.roomId = event.roomId → IsServerId existing.eventId := by
  obtain ⟨hserver, last, hlast, hgap⟩ := h
  obtain ⟨hmem, hconfirmed⟩ := lastConfirmed_some hlast
  unfold IsServerId at hserver
  unfold liveEventGapDetected
  split
  · next hnone =>
    rw [max?_eq_none_iff.mp hnone] at hmem
    exact absurd hmem not_mem_nil
  · next top htop =>
    obtain ⟨htopmem, htopmax⟩ := max?_eq_some_iff.mp htop
    rw [decide_eq_true_iff]
    constructor
    · intro hbelow existing hexisting hroom
      have hle : existing.eventId.toNat ≤ top :=
        htopmax _ (mem_roomEventIds.mpr ⟨existing, hexisting, hroom, rfl⟩)
      unfold saturatingCount u64Max at hbelow
      have := event.eventId.toNat_lt
      unfold IsServerId
      omega
    · intro hall
      obtain ⟨existing, hexisting, hroom, htopid⟩ := mem_roomEventIds.mp htopmem
      have hle : top ≤ last := by
        refine hconfirmed top htopmem ?_
        have hserver : (existing.eventId.toNat : Int) ≤ i64Max := hall existing hexisting hroom
        omega
      unfold saturatingCount
      omega

theorem parseEvent_roomId {roomId : UInt32} {value : FrameValue}
    (h : parseEvent serverId roomId value = some event) : event.roomId = roomId := by
  simp only [parseEvent, Option.bind_eq_bind, Option.bind_eq_some_iff] at h
  obtain ⟨_, _, _, _, _, _, _, _, _, _, _, _, _, _, hpure⟩ := h
  cases hpure
  rfl

/-- The room a live event is of. -/
theorem liveEvent?_roomId (h : liveEvent? serverId roomId body = some event) :
    event.roomId = roomId.getD 1 := by
  obtain ⟨value, _, hparse⟩ := Option.bind_eq_some_iff.mp h
  exact parseEvent_roomId hparse

/-- A gap is told if it is found. -/
theorem gap_told {c : LiveClient} {sessionId : ChatSessionId}
    (hsession : c.sessions sessionId = some session)
    (hevent : liveEvent? session.serverId roomId body = some event) :
    .historySyncNeeded sessionId event.roomId ∈ roomEventNotices c sessionId roomId body ↔
      liveEventGapDetected session event.roomId event.eventId = true := by
  have hroom := liveEvent?_roomId hevent
  unfold roomEventNotices
  simp only [hsession, Option.map_some, Option.getD_some, hevent, Option.any_some, mem_cons,
    reduceCtorEq, false_or]
  cases liveEventGapDetected session event.roomId event.eventId with
  | true => simp [hroom]
  | false => simp

/-! Runs. -/

section Runs
variable (retainedBytes : ChatEvent → Nat)

theorem converges_iff (s : LinkedClient) (i : SyncInput) :
    Converges retainedBytes s i ↔ Syncable retainedBytes s i := by
  match i with
  | .client (.history sessionId roomId values) =>
    have hafter : ∀ session, s.client.sessions sessionId = some session →
        (applyHistory retainedBytes s.client sessionId roomId values).sessions sessionId =
          some (applyHistoryBatch retainedBytes session roomId values) := by
      intro session hsession
      rw [applyHistory, LiveClient.sessions_updateSession, if_pos rfl, hsession, Option.map_some]
    constructor
    · intro h session hsession
      exact (history_retained rfl).mp (h session _ hsession (hafter session hsession))
    · intro h session session' hsession hsession'
      rw [hafter session hsession] at hsession'
      exact (history_retained (Option.some.inj hsession').symm).mpr (h session hsession)
  | .client (.roomEvent sessionId roomId body) =>
    refine forall_congr' fun session => forall_congr' fun event => forall_congr' fun hsession =>
      forall_congr' fun hevent => forall_congr' fun hbeyond => ?_
    rw [gap_told hsession hevent, liveEventGapDetected_iff hbeyond]
  | .olderHistory .. => exact Iff.rfl
  | .client (.openServer ..) | .client (.reconnect ..) | .client (.send ..)
  | .client (.sendDurable ..) | .client (.request ..) | .client (.joinAccept ..)
  | .client (.messageAck ..) | .client (.error ..) | .client .dropped => exact Iff.rfl

/-- In every run each batch is retained and each gap is told if and only if the window has room for
the batch and no echo of the room is in the list when the live event comes. -/
theorem recent_history_sync (inputs : List SyncInput) :
    (∀ i, Converges retainedBytes (run (syncStep retainedBytes) .new inputs).2 i ↔
      Syncable retainedBytes (run (syncStep retainedBytes) .new inputs).2 i) ∧
    (Meets (syncStep retainedBytes) (Converges retainedBytes) .new inputs ↔
      Meets (syncStep retainedBytes) (Syncable retainedBytes) .new inputs) :=
  ⟨converges_iff retainedBytes _, meets_congr (converges_iff retainedBytes)⟩

end Runs

/-! A full window, and an echo that is waited for. -/

instance : Std.TransCmp byAge :=
  inferInstanceAs (Std.TransCmp (compareLex
    (compareOn fun entry : ChatEvent × Nat => entry.1.atUnix.toInt)
    (compareLex (compareOn fun entry : ChatEvent × Nat => entry.1.roomId.toNat)
      (compareOn fun entry : ChatEvent × Nat => entry.1.eventId.toNat))))

theorem byAge_atUnix {a b : ChatEvent × Nat} (h : (byAge a b).isLE = true) :
    a.1.atUnix.toInt ≤ b.1.atUnix.toInt := by
  by_contra hlt
  have hgt : compare a.1.atUnix.toInt b.1.atUnix.toInt = .gt := Int.compare_eq_gt.mpr (by omega)
  rw [byAge, hgt] at h
  cases h

theorem foldl_pushEvent_prefix (known events : List ChatEvent) :
    ∃ extra, events.foldl pushEvent known = known ++ extra := by
  induction events generalizing known with
  | nil => exact ⟨[], (append_nil known).symm⟩
  | cons event events ih =>
    obtain ⟨extra, hextra⟩ := ih (pushEvent known event)
    rw [foldl_cons, hextra, pushEvent]
    split
    · exact ⟨extra, rfl⟩
    · exact ⟨event :: extra, append_assoc known [event] extra⟩

/-- A full window has no room for an event that is new and later than all others. -/
theorem not_fitsUpTo_latest {retainedBytes : ChatEvent → Nat}
    (hkeys : (session.events.map ChatEvent.key).Nodup)
    (hfull : chatSessionHistoryMaxEvents ≤ session.events.length)
    (hnew : key ∉ session.events.map ChatEvent.key)
    (hlatest : ∀ e ∈ session.events ++ events, ∀ e' ∈ session.events ++ events,
      e.key = key → e'.key ≠ key → e'.atUnix.toInt < e.atUnix.toInt) :
    ¬FitsUpTo retainedBytes (merged session events) key := by
  rintro ⟨older, entry, newer, hsplit, hkey, hwithin⟩
  have hperm := perm_orderBy byRoomAndEvent
    ((newEvents (session.events.map ChatEvent.key) events).foldl pushEvent session.events)
  have hnodup : ((merged session events).map ChatEvent.key).Nodup :=
    (hperm.map ChatEvent.key).nodup_iff.mpr (foldl_pushEvent_nodup hkeys _)
  have hmem : ∀ e ∈ merged session events, e ∈ session.events ++ events := by
    intro e he
    rcases mem_foldl_pushEvent (hperm.mem_iff.mp he) with hold | hadded
    · exact mem_append_left events hold
    · exact mem_append_right session.events (mem_newEvents hadded)
  have haged := perm_orderBy byAge (merged session events).zipIdx
  have hagedmem : ∀ e ∈ older ++ entry :: newer, e.1 ∈ merged session events := fun e he =>
    fst_mem_of_mem_zipIdx (haged.mem_iff.mp (hsplit ▸ he))
  have hentry := hagedmem entry (mem_append_right older mem_cons_self)
  have hagedkeys : (older ++ entry :: newer).map (fun e => e.1.key) |>.Nodup := by
    have hzip : (merged session events).zipIdx.map (fun e => e.1.key) =
        (merged session events).map ChatEvent.key := by
      conv_rhs => rw [← zipIdx_map_fst 0 (merged session events), map_map]
      rfl
    rw [← hsplit]
    exact (haged.map fun e => e.1.key).nodup_iff.mpr (hzip ▸ hnodup)
  have hlonger : chatSessionHistoryMaxEvents < (older ++ entry :: newer).length := by
    obtain ⟨extra, hextra⟩ := foldl_pushEvent_prefix session.events
      (newEvents (session.events.map ChatEvent.key) events)
    have hlength : (older ++ entry :: newer).length = session.events.length + extra.length := by
      rw [← hsplit, haged.length_eq, length_zipIdx, merged, hperm.length_eq, hextra,
        length_append]
    have hsome : extra ≠ [] := by
      rintro rfl
      have hheld : entry.1 ∈ session.events := by
        rw [← append_nil session.events, ← hextra]
        exact hperm.mem_iff.mp hentry
      exact hnew (hkey ▸ mem_map_of_mem hheld)
    have := length_pos_iff.mpr hsome
    omega
  -- so that another event is behind it in the order of age
  rw [withinWindow, Bool.and_eq_true, decide_eq_true_iff] at hwithin
  have hbehind : newer ≠ [] := by
    rintro rfl
    rw [length_append, length_singleton] at hlonger
    omega
  obtain ⟨later, newer, rfl⟩ := exists_cons_of_ne_nil hbehind
  have hsorted := Table.pairwise_orderBy byAge (merged session events).zipIdx
  rw [hsplit] at hsorted
  have hle := byAge_atUnix ((pairwise_cons.mp (pairwise_append.mp hsorted).2.1).1 later
    mem_cons_self)
  have hlater := hagedmem later
    (mem_append_right older (mem_cons_of_mem entry mem_cons_self))
  rw [map_append, map_cons, map_cons] at hagedkeys
  have hother : later.1.key ≠ key := by
    intro hsame
    have hcons := (nodup_append.mp hagedkeys).2.1
    exact (nodup_cons.mp hcons).1 (hkey.trans hsame.symm ▸ mem_cons_self)
  have hlt := hlatest entry.1 (hmem _ hentry) later.1 (hmem _ hlater) hkey hother
  omega

def storedEvent (eventId : Nat) : ChatEvent :=
  { serverId := "server", roomId := 1, eventId := UInt64.ofNat eventId, actorUserId := some 7,
    actorDisplayName := none, atUnix := Int64.ofNat eventId, kind := .message "" }

def storedValue (eventId : Nat) : FrameValue :=
  .array [.u64 (UInt64.ofNat eventId), .u64 1, .u64 7, .i64 (Int64.ofNat eventId), .string ""]

/-- The events of a server from one on, and its history of them. -/
def storedEvents (first count : Nat) : List ChatEvent := (range' first count).map storedEvent

def storedHistory (first count : Nat) : EchoInput :=
  .history 1 (some 1) ((range' first count).map storedValue)

theorem batchEvents_stored (first count : Nat) :
    batchEvents "server" (some 1) ((range' first count).map storedValue) =
      storedEvents first count := by
  rw [batchEvents, filterMap_map, storedEvents]
  exact filterMap_eq_map_iff_forall_eq_some.mpr fun eventId _ => rfl

theorem toNat_storedId (h : eventId < 2048) : (storedEvent eventId).eventId.toNat = eventId :=
  UInt64.toNat_ofNat_of_lt' (by unfold UInt64.size; omega)

theorem storedEvent_key {a b : Nat} (ha : a < 2048) (hb : b < 2048) :
    (storedEvent a).key = (storedEvent b).key ↔ a = b := by
  constructor
  · intro hkey
    have hids := congrArg (fun key : EventKey => key.2.toNat) hkey
    exact (toNat_storedId ha).symm.trans (hids.trans (toNat_storedId hb))
  · rintro rfl
    rfl

theorem storedEvent_atUnix (h : eventId < 2048) : (storedEvent eventId).atUnix.toInt = eventId :=
  Int64.toInt_ofNat_of_lt (by omega)

theorem storedEvents_nodup {first count : Nat} (h : first + count ≤ 2048) :
    ((storedEvents first count).map ChatEvent.key).Nodup := by
  rw [storedEvents, map_map]
  refine List.Nodup.map_on (fun a ha b hb hsame => ?_) nodup_range'
  rw [mem_range'_1] at ha hb
  exact (storedEvent_key (by omega) (by omega)).mp hsame

/-- A server, and a batch of its first events, as many as a window has. -/
def fullWindow : List SyncInput :=
  [.client (.openServer 1 "server"), .client (storedHistory 1 1024)]

theorem fullWindow_session : ∃ session,
    (run (syncStep fun _ => 512) .new fullWindow).2.client.sessions 1 = some session ∧
      session.serverId = "server" ∧ session.events.Perm (storedEvents 1 1024) := by
  refine ⟨_, rfl, ?_, ?_⟩
  · unfold applyHistoryBatch prependHistoryEvents
    dsimp only
    split
    · rfl
    · rfl
  · have hperm := @applyHistoryBatch_perm (fun _ => 512) ⟨"server", 1, []⟩ 1 _ _
      (batchEvents_stored 1 1024)
      (storedEvents_nodup (by omega))
      (fun event hevent => by
        obtain ⟨eventId, _, rfl⟩ := mem_map.mp hevent
        rfl)
      (fun event hevent => absurd hevent not_mem_nil)
      (by
        rw [nil_append, storedEvents, length_map, length_range']
        exact Nat.le_refl 1024)
      (by
        rw [nil_append, retainedHistoryBytes, map_const', sum_replicate, storedEvents,
          length_map, length_range']
        decide)
    exact hperm

/-- An event with a server's id, and an echo. -/
def eventAndEcho : List SyncInput :=
  [.client (.openServer 1 "server"), .client (storedHistory 5 1), .client (.send 1 (textSend "hello"))]

/-- The twelve newest events do not come into a full window, and no sync is asked for by an event
that is four above the last one if an echo is in the list. -/
theorem recent_history_not_synced :
    ¬Converges (fun _ => 512) (run (syncStep fun _ => 512) .new fullWindow).2
        (.client (storedHistory 1019 12)) ∧
    ¬Converges (fun _ => 512) (run (syncStep fun _ => 512) .new eventAndEcho).2
        (.client (.roomEvent 1 (some 1) (.fields [storedValue 9]))) := by
  refine ⟨fun hconverges => ?_, fun hconverges => ?_⟩
  · obtain ⟨session, hsession, hserver, hperm⟩ := fullWindow_session
    have hbatch : batchEvents session.serverId (some 1) ((range' 1019 12).map storedValue) =
        storedEvents 1019 12 := hserver ▸ batchEvents_stored 1019 12
    -- none of the twelve is in the window
    have hheld : ∀ eventId, 1025 ≤ eventId → eventId < 2048 →
        (storedEvent eventId).key ∉ session.events.map ChatEvent.key := by
      intro eventId hlow hhigh hmem
      obtain ⟨e, he, hkey⟩ := mem_map.mp hmem
      obtain ⟨other, hother, rfl⟩ := mem_map.mp (hperm.mem_iff.mp he)
      rw [mem_range'_1] at hother
      rw [storedEvent_key (by omega) hhigh] at hkey
      omega
    have hlast : storedEvent 1030 ∈ storedEvents 1019 12 :=
      mem_map_of_mem (mem_range'_1.mpr (by omega))
    have hfits := (converges_iff _ _ _).mp hconverges session hsession
    rw [hbatch] at hfits
    rcases hfits with hnone | hfits
    · exact hheld 1030 (by omega) (by omega) (newEvents_eq_nil hnone _ hlast)
    · -- 1024 events stand below the last one, which are as many as fit
      refine not_fitsUpTo_latest ?_ ?_ (hheld 1030 (by omega) (by omega)) ?_ (hfits _ hlast)
      · exact (hperm.map ChatEvent.key).nodup_iff.mpr (storedEvents_nodup (by omega))
      · rw [hperm.length_eq, storedEvents, length_map, length_range']
        exact Nat.le_refl 1024
      · have hstored : ∀ e ∈ session.events ++ storedEvents 1019 12,
            ∃ eventId ≤ 1030, storedEvent eventId = e := by
          intro e he
          rcases mem_append.mp he with he | he
          · obtain ⟨eventId, hid, hsame⟩ := mem_map.mp (hperm.mem_iff.mp he)
            rw [mem_range'_1] at hid
            exact ⟨eventId, by omega, hsame⟩
          · obtain ⟨eventId, hid, hsame⟩ := mem_map.mp he
            rw [mem_range'_1] at hid
            exact ⟨eventId, by omega, hsame⟩
        intro e he e' he' hkey hother
        obtain ⟨eventId, hid, rfl⟩ := hstored e he
        obtain ⟨otherId, hotherId, rfl⟩ := hstored e' he'
        rw [storedEvent_key (by omega) (by omega)] at hkey
        rw [ne_eq, storedEvent_key (by omega) (by omega)] at hother
        rw [storedEvent_atUnix (by omega), storedEvent_atUnix (by omega)]
        omega
  · have hsync := (converges_iff _ _ _).mp hconverges _ (storedEvent 9) rfl rfl
      ⟨by decide, 5, by decide +kernel, by decide⟩
    have hserver := hsync (localEcho ⟨"server", 1, []⟩ 1 3 "hello" .roomMessage none 5)
      (by decide +kernel) rfl
    exact absurd hserver (by decide +kernel)

end Omen.Client
