import OmenBrowser.Client.Events
import OmenBrowser.Lib.Ordered

/- The events a client's session holds (`chat/client.rs`, `chat/live.rs`).

   The events of a session are in the order of their rooms and ids, and no two of one room share an
   id. Past a count or a number of bytes the window drops events from one edge.

   Correspondence (Rust ↔ Lean):
     `enforce_history_window`                     ↔ `enforceHistoryWindow`
     `prepend_history_events`                     ↔ `prependHistoryEvents`
     `append_event_bounded`                       ↔ `appendEventBounded`
     `apply_batch`, of a history                  ↔ `applyHistoryBatch`
   What an event takes in memory depends on the capacities of its strings and is a parameter. -/
namespace Omen.Client
open Wire Sql Omen.Protocol List ChatEvent

variable {events known : List ChatEvent} {edge : HistoryWindowEdge} {e : ChatEvent}
  {session : ChatSessionView} {roomId : Option UInt32} {values : List FrameValue}

def chatSessionHistoryMaxEvents : Nat := 1024
def chatSessionHistoryMaxBytes : Nat := 8 * 1024 * 1024

abbrev ChatSessionId := Nat

abbrev EventKey := UInt32 × UInt64

def ChatEvent.key (e : ChatEvent) : EventKey := (e.roomId, e.eventId)

/-- What of a session the history reads and writes. -/
structure ChatSessionView where
  serverId : String
  activeRoomId : UInt32
  events : List ChatEvent

inductive HistoryWindowEdge where
  | oldest
  | newest
  deriving DecidableEq

/-! The window. -/

def byRoomAndEvent (a b : ChatEvent) : Ordering :=
  (compare a.roomId.toNat b.roomId.toNat).then (compare a.eventId.toNat b.eventId.toNat)

def byAge (a b : ChatEvent × Nat) : Ordering :=
  (compare a.1.atUnix.toInt b.1.atUnix.toInt).then (byRoomAndEvent a.1 b.1)

/-- The order in which events are dropped, with their places. -/
def dropOrder (edge : HistoryWindowEdge) (protect : Option EventKey) (events : List ChatEvent) :
    List (ChatEvent × Nat) :=
  let ranked := orderBy byAge events.zipIdx
  let ranked := match edge with
    | .oldest => ranked.reverse
    | .newest => ranked
  match protect with
  | none => ranked
  | some key => orderBy (fun a b => compare (a.1.key == key) (b.1.key == key)) ranked

section Window
variable (retainedBytes : ChatEvent → Nat)

def withinWindow (items bytes : Nat) : Bool :=
  decide (items ≤ chatSessionHistoryMaxEvents) && decide (bytes ≤ chatSessionHistoryMaxBytes)

/-- The places that are dropped until the rest is within the window. -/
def dropped (items bytes : Nat) : List (ChatEvent × Nat) → List Nat
  | [] => []
  | (e, place) :: rest =>
    if withinWindow items bytes then []
    else place :: dropped (items - 1) (bytes - retainedBytes e) rest

def retainedHistoryBytes (events : List ChatEvent) : Nat := (events.map retainedBytes).sum

def enforceHistoryWindow (edge : HistoryWindowEdge) (protect : Option EventKey)
    (events : List ChatEvent) : List ChatEvent :=
  let places := dropped retainedBytes events.length (retainedHistoryBytes retainedBytes events)
    (dropOrder edge protect events)
  (events.zipIdx.filter (fun e => !places.contains e.2)).map Prod.fst

/-! New events. -/

/-- Pushed unless its key is there. -/
def pushEvent (events : List ChatEvent) (event : ChatEvent) : List ChatEvent :=
  if events.any (fun existing => existing.key == event.key) then events else events ++ [event]

def prependHistoryEvents (session : ChatSessionView) (events : List ChatEvent) : ChatSessionView :=
  if events.isEmpty then session
  else
    { session with
      events := enforceHistoryWindow retainedBytes .oldest none
        (orderBy byRoomAndEvent (events.foldl pushEvent session.events)) }

/-- Whether the event was kept, too. -/
def appendEventBounded (session : ChatSessionView) (event : ChatEvent) (sortAfter : Bool)
    (edge : HistoryWindowEdge) : Bool × ChatSessionView :=
  if session.events.any (fun existing => existing.key == event.key) then (false, session)
  else
    let pushed := session.events ++ [event]
    let sorted := if sortAfter then orderBy byRoomAndEvent pushed else pushed
    let events := enforceHistoryWindow retainedBytes edge (some event.key) sorted
    (events.any (fun existing => existing.key == event.key), { session with events })

/-- The first event of each key that is not known. -/
def newEvents : List EventKey → List ChatEvent → List ChatEvent
  | _, [] => []
  | known, event :: events =>
    if known.contains event.key then newEvents known events
    else event :: newEvents (event.key :: known) events

def applyHistoryBatch (session : ChatSessionView) (roomId : Option UInt32)
    (values : List FrameValue) : ChatSessionView :=
  let parsed := values.filterMap (parseEvent session.serverId (roomId.getD 1))
  prependHistoryEvents retainedBytes session (newEvents (session.events.map key) parsed)

/-! Keys. -/

variable {retainedBytes}

theorem dropped_within {items bytes : Nat} (h : withinWindow items bytes = true)
    (order : List (ChatEvent × Nat)) : dropped retainedBytes items bytes order = [] := by
  cases order with
  | nil => rfl
  | cons e rest => exact if_pos h

/-- A window that is not overfull stays. -/
theorem enforceHistoryWindow_within {protect : Option EventKey}
    (hcount : events.length ≤ chatSessionHistoryMaxEvents)
    (hbytes : retainedHistoryBytes retainedBytes events ≤ chatSessionHistoryMaxBytes) :
    enforceHistoryWindow retainedBytes edge protect events = events := by
  have hwithin : withinWindow events.length (retainedHistoryBytes retainedBytes events) = true := by
    rw [withinWindow, Bool.and_eq_true]
    exact ⟨decide_eq_true hcount, decide_eq_true hbytes⟩
  unfold enforceHistoryWindow
  rw [dropped_within hwithin]
  have hall : events.zipIdx.filter (fun e => !([] : List Nat).contains e.2) = events.zipIdx :=
    filter_eq_self.mpr fun _ _ => rfl
  simp only [hall]
  exact zipIdx_map_fst 0 events

/-- The window only drops events. -/
theorem enforceHistoryWindow_sublist (retainedBytes : ChatEvent → Nat) (edge : HistoryWindowEdge)
    (protect : Option EventKey) (events : List ChatEvent) :
    (enforceHistoryWindow retainedBytes edge protect events).Sublist events := by
  have hsub : (enforceHistoryWindow retainedBytes edge protect events).Sublist
      (events.zipIdx.map Prod.fst) := filter_sublist.map Prod.fst
  rwa [zipIdx_map_fst] at hsub

theorem pushEvent_nodup (h : (events.map key).Nodup) (event : ChatEvent) :
    ((pushEvent events event).map key).Nodup := by
  unfold pushEvent
  split
  · exact h
  · next hnew =>
    rw [map_append, map_singleton, nodup_append]
    refine ⟨h, nodup_singleton _, fun key hkey key' hkey' => ?_⟩
    rintro rfl
    rw [mem_singleton] at hkey'
    obtain ⟨existing, hmem, hsame⟩ := mem_map.mp hkey
    exact hnew (any_eq_true.mpr ⟨existing, hmem, beq_iff_eq.mpr (hsame.trans hkey')⟩)

theorem mem_pushEvent {event : ChatEvent} (h : e ∈ pushEvent events event) :
    e ∈ events ∨ e = event := by
  unfold pushEvent at h
  split at h
  · exact .inl h
  · simpa using h

theorem foldl_pushEvent_nodup (h : (known.map key).Nodup) (events : List ChatEvent) :
    ((events.foldl pushEvent known).map key).Nodup := by
  induction events generalizing known with
  | nil => exact h
  | cons event events ih => exact ih (pushEvent_nodup h event)

theorem mem_foldl_pushEvent (h : e ∈ events.foldl pushEvent known) : e ∈ known ∨ e ∈ events := by
  induction events generalizing known with
  | nil => exact .inl h
  | cons event events ih =>
    rcases ih h with hknown | hrest
    · rcases mem_pushEvent hknown with hknown | rfl
      · exact .inl hknown
      · exact .inr mem_cons_self
    · exact .inr (mem_cons_of_mem event hrest)

theorem mem_newEvents {known : List EventKey} (h : e ∈ newEvents known events) : e ∈ events := by
  induction events generalizing known with
  | nil => exact h
  | cons event events ih =>
    rw [newEvents] at h
    split at h
    · exact mem_cons_of_mem event (ih h)
    · rcases mem_cons.mp h with rfl | h
      · exact mem_cons_self
      · exact mem_cons_of_mem event (ih h)

/-- A batch leaves no two events under one key. -/
theorem applyHistoryBatch_nodup (h : (session.events.map key).Nodup) :
    ((applyHistoryBatch retainedBytes session roomId values).events.map key).Nodup := by
  unfold applyHistoryBatch prependHistoryEvents
  dsimp only
  split
  · exact h
  · have hpushed := foldl_pushEvent_nodup h (newEvents (session.events.map key)
      (values.filterMap (parseEvent session.serverId (roomId.getD 1))))
    have hsorted := ((perm_orderBy byRoomAndEvent _).map key).nodup_iff.mpr hpushed
    exact hsorted.sublist ((enforceHistoryWindow_sublist ..).map key)

/-- What is in the list after a batch was there, or is of the batch. -/
theorem mem_applyHistoryBatch
    (h : e ∈ (applyHistoryBatch retainedBytes session roomId values).events) :
    e ∈ session.events ∨
      ∃ value ∈ values, parseEvent session.serverId (roomId.getD 1) value = some e := by
  unfold applyHistoryBatch prependHistoryEvents at h
  dsimp only at h
  split at h
  · exact .inl h
  · have hmem := mem_orderBy.mp ((enforceHistoryWindow_sublist ..).subset h)
    rcases mem_foldl_pushEvent hmem with hold | hnew
    · exact .inl hold
    · exact .inr (mem_filterMap.mp (mem_newEvents hnew))

/-- An event that is new to the list is appended within the window. -/
theorem appendEventBounded_events {event : ChatEvent} {sortAfter : Bool}
    (h : (session.events.map key).Nodup) :
    ((appendEventBounded retainedBytes session event sortAfter edge).2.events.map
      key).Nodup ∧
    ∀ e ∈ (appendEventBounded retainedBytes session event sortAfter edge).2.events,
      e ∈ session.events ∨ e = event := by
  unfold appendEventBounded
  split
  · exact ⟨h, fun e he => .inl he⟩
  · next hnew =>
    have hpush : pushEvent session.events event = session.events ++ [event] := if_neg hnew
    have hpushed := hpush ▸ pushEvent_nodup h event
    have hperm : (if sortAfter = true then orderBy byRoomAndEvent (session.events ++ [event])
        else session.events ++ [event]).Perm (session.events ++ [event]) := by
      split
      · exact perm_orderBy _ _
      · exact List.Perm.refl _
    have hsub := enforceHistoryWindow_sublist retainedBytes edge (some event.key)
      (if sortAfter = true then orderBy byRoomAndEvent (session.events ++ [event])
        else session.events ++ [event])
    refine ⟨((hperm.map key).nodup_iff.mpr hpushed).sublist (hsub.map key), ?_⟩
    intro e he
    have hmem := hperm.mem_iff.mp (hsub.subset he)
    simpa using hmem

theorem foldl_pushEvent (hkeys : (events.map key).Nodup)
    (hnew : ∀ event ∈ events, ∀ existing ∈ known, existing.key ≠ event.key) :
    events.foldl pushEvent known = known ++ events := by
  induction events generalizing known with
  | nil => exact (append_nil known).symm
  | cons event events ih =>
    obtain ⟨hfirst, hrest⟩ := nodup_cons.mp hkeys
    have habsent : ¬known.any (fun existing => existing.key == event.key) = true := by
      rw [any_eq_true]
      rintro ⟨existing, hmem, hkey⟩
      exact hnew event mem_cons_self existing hmem (beq_iff_eq.mp hkey)
    have happend : known ++ event :: events = known ++ [event] ++ events := by
      rw [append_assoc, singleton_append]
    rw [foldl_cons, pushEvent, if_neg habsent, happend]
    refine ih hrest fun later hlater existing hmem => ?_
    rcases mem_append.mp hmem with hmem | hmem
    · exact hnew later (mem_cons_of_mem event hlater) existing hmem
    · rw [mem_singleton.mp hmem]
      intro hkey
      exact hfirst (hkey ▸ mem_map_of_mem hlater)

theorem newEvents_eq {known : List EventKey} (hkeys : (events.map key).Nodup)
    (hnew : ∀ event ∈ events, event.key ∉ known) : newEvents known events = events := by
  induction events generalizing known with
  | nil => rfl
  | cons event events ih =>
    obtain ⟨hfirst, hrest⟩ := nodup_cons.mp hkeys
    have habsent : ¬known.contains event.key = true := by
      rw [contains_iff_mem]
      exact hnew event mem_cons_self
    rw [newEvents, if_neg habsent]
    refine congrArg (event :: ·) (ih hrest fun later hlater hmem => ?_)
    rcases mem_cons.mp hmem with hkey | hmem
    · exact hfirst (hkey ▸ mem_map_of_mem hlater)
    · exact hnew later (mem_cons_of_mem event hlater) hmem

theorem applyHistoryBatch_activeRoomId (session : ChatSessionView) (roomId : Option UInt32)
    (values : List FrameValue) :
    (applyHistoryBatch retainedBytes session roomId values).activeRoomId = session.activeRoomId := by
  unfold applyHistoryBatch prependHistoryEvents
  simp only
  split
  · rfl
  · rfl

/-- A session takes a batch of events of a room of which it has none yet. -/
theorem applyHistoryBatch_perm {session : ChatSessionView} {roomId : UInt32}
    {values : List FrameValue} {events : List ChatEvent}
    (hparsed : values.filterMap (parseEvent session.serverId roomId) = events)
    (hkeys : (events.map key).Nodup) (hroom : ∀ event ∈ events, event.roomId = roomId)
    (hnone : ∀ event ∈ session.events, event.roomId ≠ roomId)
    (hcount : (session.events ++ events).length ≤ chatSessionHistoryMaxEvents)
    (hbytes : retainedHistoryBytes retainedBytes (session.events ++ events) ≤
      chatSessionHistoryMaxBytes) :
    (applyHistoryBatch retainedBytes session (some roomId) values).events.Perm
      (session.events ++ events) := by
  have hdisjoint : ∀ event ∈ events, ∀ existing ∈ session.events, existing.key ≠ event.key := by
    intro event hevent existing hexisting hkey
    have hsame : existing.roomId = event.roomId := congrArg Prod.fst hkey
    exact hnone existing hexisting (hsame.trans (hroom event hevent))
  have hnew : newEvents (session.events.map key) events = events := by
    refine newEvents_eq hkeys fun event hevent hmem => ?_
    obtain ⟨existing, hexisting, hkey⟩ := mem_map.mp hmem
    exact hdisjoint event hevent existing hexisting hkey
  have hbatch : applyHistoryBatch retainedBytes session (some roomId) values =
      prependHistoryEvents retainedBytes session events := by
    unfold applyHistoryBatch
    simp only [Option.getD_some, hparsed, hnew]
  have hsorted := perm_orderBy byRoomAndEvent (session.events ++ events)
  rw [hbatch, prependHistoryEvents]
  split
  · next hempty =>
    rw [isEmpty_iff.mp hempty, append_nil]
  · show (enforceHistoryWindow retainedBytes .oldest none
      (orderBy byRoomAndEvent (events.foldl pushEvent session.events))).Perm _
    have hsum : retainedHistoryBytes retainedBytes
        (orderBy byRoomAndEvent (session.events ++ events)) =
        retainedHistoryBytes retainedBytes (session.events ++ events) :=
      (hsorted.map retainedBytes).sum_eq
    rw [foldl_pushEvent hkeys hdisjoint,
      enforceHistoryWindow_within (hsorted.length_eq ▸ hcount) (hsum ▸ hbytes)]
    exact hsorted

end Window

end Omen.Client
