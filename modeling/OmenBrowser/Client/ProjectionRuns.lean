import OmenBrowser.Client.ProjectionRegisters
import OmenBrowser.Lib.Txn

/- What a client shows of a server's changes, whatever the order in which it is told of them.

   A server commits changes; their live events are delivered in the order of the commits, and a
   snapshot may be delivered at any time after it was taken, since it may travel as a resource of its
   own. The run keeps beside the client the version of the server that it shows of each register.

   A live event of a revision is compared with the revision that is shown, and one of a pin with the
   cursor of its target. One of a reaction is compared with nothing, a cursor is there only if the
   last snapshot has a pin for the target, and no snapshot is compared with anything. In a run in
   which no delivery that is compared with nothing comes behind a newer one (`InOrder`) what is shown
   never moves back, and ends as the server has it. -/
namespace Omen.Client
open Wire Sql Ints Machine Replica Omen.Protocol List Option ChatClient ProjectionChange

variable {w : Write ProjectionKey ProjectionValue} {change : ProjectionChange}
  {current : ChatMessageRevision} {target : RoomTarget} {roomId : UInt32} {c : ChatClient}
  {s : Replication} {rest : List (Write ProjectionKey ProjectionValue)}

/-! What a server commits. -/

def ProjectionChange.writable : ProjectionChange → Bool
  | .reaction _ e => reactionWritable e
  | .revision _ e => revisionWritable e
  | .pin _ e => pinWritable e

/-- The ids of a message's revisions and their numbers ascend, and a tombstone is the last of them;
the ids of all pin events ascend. -/
def Follows : ProjectionChange → ProjectionChange → Prop
  | .revision roomId e, .revision roomId' e' =>
    (roomId, e.targetEventId) = (roomId', e'.targetEventId) →
      e.revisionEventId < e'.revisionEventId ∧ e.revisionNumber < e'.revisionNumber ∧
        e.action ≠ .tombstone
  | .pin _ e, .pin _ e' => e.pinEventId < e'.pinEventId
  | _, _ => True

def Committable (log : List ProjectionChange) (change : ProjectionChange) : Prop :=
  change.writable = true ∧ ∀ earlier ∈ log, Follows earlier change

structure Committed (log : List ProjectionChange) : Prop where
  writable : ∀ change ∈ log, change.writable = true
  follows : log.Pairwise Follows

/-! The run. -/

/-- The client, what the server committed, how much of it was delivered live, and the version of each
register that is shown. -/
structure Replication where
  client : ChatClient
  log : List ProjectionChange
  delivered : Nat
  shown : ProjectionKey → Nat

def Replication.writes (s : Replication) : List (Write ProjectionKey ProjectionValue) :=
  s.log.map write

inductive ReplicationInput where
  | commit (change : ProjectionChange)
  /-- The next live event is delivered. -/
  | event
  /-- A snapshot taken at a version is delivered. -/
  | snapshot (roomId : UInt32) (snapshot : ProjectionSnapshot) (version : Nat)
  /-- The link is made anew, and the live events of the time between are lost. -/
  | relink

def ChatClient.markStale (c : ChatClient) (sessionId : ChatSessionId) : ChatClient :=
  ((c.markReactionsStale sessionId).markMessageRevisionsStale sessionId).markPinsStale sessionId

section Run
variable (sessionId : ChatSessionId)

def deliverEvent (s : Replication) (change : ProjectionChange) : Replication :=
  match s.client.applyChange sessionId change with
  | .ok (_, c) =>
    { s with
      client := c
      delivered := s.delivered + 1
      shown := told (· = change.key) (s.delivered + 1) s.shown }
  | .error _ => { s with delivered := s.delivered + 1 }

def deliverSnapshot (s : Replication) (roomId : UInt32) (snapshot : ProjectionSnapshot)
    (version : Nat) : Replication :=
  let (taken, c) := s.client.applySnapshot sessionId roomId snapshot
  { s with
    client := c
    shown := if taken then told (snapshot.coversKey roomId) version s.shown else s.shown }

def replicationNext (s : Replication) : ReplicationInput → Replication
  | .commit change => { s with log := s.log ++ [change] }
  | .event =>
    match s.log[s.delivered]? with
    | none => s
    | some change => deliverEvent sessionId s change
  | .snapshot roomId snapshot version => deliverSnapshot sessionId s roomId snapshot version
  | .relink => { s with client := s.client.markStale sessionId, delivered := s.log.length }

def replicationStep (s : Replication) (i : ReplicationInput) : Unit × Replication :=
  ((), replicationNext sessionId s i)

end Run

/-- A client that joins when a server has committed a log, and shows nothing of it. -/
def Replication.start (client : ChatClient) (log : List ProjectionChange) : Replication :=
  ⟨client, log, log.length, fun _ => 0⟩

/-- Nothing of the server is known. -/
structure ChatClient.Blank (c : ChatClient) (serverId : String) : Prop where
  reactions : ∀ r ∈ c.reactions.rows, r.serverId ≠ serverId
  reactionTargets : ∀ target ∈ c.authoritativeReactionTargets, target.1 ≠ serverId
  revisions : ∀ r ∈ c.messageRevisions.rows, r.serverId ≠ serverId
  revisionTargets : ∀ target ∈ c.authoritativeMessageRevisionTargets, target.1 ≠ serverId
  pins : ∀ p ∈ c.pins.rows, p.serverId ≠ serverId
  cursors : ∀ entry ∈ c.pinEventCursors.rows, entry.1.1 ≠ serverId
  pinTargets : ∀ target ∈ c.authoritativePinTargets, target.1 ≠ serverId

/-- What is committed follows what was, and a snapshot says what the server had at its version. -/
def FromServer (s : Replication) : ReplicationInput → Prop
  | .commit change => Committable s.log change
  | .snapshot roomId snapshot version =>
    version ≤ s.log.length ∧ snapshot.TakenAt s.writes version roomId
  | _ => True

/-- The client has room for the change, and an event for it to hang on. -/
def ChangeFits (c : ChatClient) (session : ChatSessionView) : ProjectionChange → Prop
  | .reaction roomId e =>
    retainsTarget chatEventSupportsReactions session roomId e.targetEventId = true ∧
      chatReactionsFitBounds
        (nextReactions c.reactions session.serverId roomId e).rows = true
  | .revision roomId e =>
    retainsTarget chatEventSupportsMessageRevisions session roomId e.targetEventId = true ∧
      chatMessageRevisionsFitBounds
        (c.messageRevisions.put (revisionOf session.serverId roomId e)).rows = true
  | .pin roomId e =>
    retainsTarget chatEventSupportsPins session roomId e.targetEventId = true ∧
      chatPinsFitBounds (nextPins c.pins session.serverId roomId e).rows = true

/-- No write to the register of the next live event is shown that comes after it. -/
def Replication.Newest (s : Replication) (k : ProjectionKey) : Prop :=
  Unwritten s.writes (s.delivered + 1) (s.shown k) k

/-- Where nothing is compared the next live event is the newest. -/
def Replication.Guarded (s : Replication) (serverId : String) : ProjectionChange → Prop
  | .revision .. => True
  | .reaction roomId e => s.Newest (reaction roomId e).key
  | .pin roomId e => s.Newest (pin roomId e).key ∨
      (s.client.pinCursor? (serverId, roomId, e.targetEventId)).isSome = true

/-- No delivery that is compared with nothing comes behind a newer one, and there is room for what
is to stay authoritative. -/
def InOrder (session : ChatSessionView) (s : Replication) : ReplicationInput → Prop
  | .event => ∀ change, s.log[s.delivered]? = some change →
    s.Guarded session.serverId change ∧
      (s.client.authoritative session.serverId change.key → s.Newest change.key →
        ChangeFits s.client session change)
  | .snapshot roomId snapshot version => ∀ k, snapshot.coversKey roomId k →
    Unwritten s.writes version (max (s.shown k) s.delivered) k
  | _ => True

/-! The invariant. -/

/-- The cursor of a target is the id of the last event of its pin that is shown. -/
def CursorShown (serverId : String) (s : Replication) : Prop :=
  ∀ target eventId, s.client.pinCursor? (serverId, target) = some eventId →
    ∃ i e, s.log[i]? = some (.pin target.1 e) ∧ e.targetEventId = target.2 ∧
      e.pinEventId = eventId ∧ i < s.shown (.pin target) ∧
      Unwritten s.writes (i + 1) (s.shown (.pin target)) (.pin target)

/-- Each register shows a version, and an authoritative one shows all that was delivered. -/
structure Replicates (sessionId : ChatSessionId) (session : ChatSessionView) (s : Replication) :
    Prop where
  opened : s.client.session? sessionId = some session
  anchored : Anchored s.client session.serverId
  committed : Committed s.log
  delivered : s.delivered ≤ s.log.length
  shows : Shows s.writes (s.client.register session.serverId) s.shown
  upToDate : ∀ k, s.client.authoritative session.serverId k →
    Unwritten s.writes (s.shown k) s.delivered k
  cursor : CursorShown session.serverId s

section Step
variable {sessionId : ChatSessionId} {session : ChatSessionView} {s : Replication}

theorem length_writes : s.writes.length = s.log.length := length_map _

theorem getElem?_writes {i : Nat} :
    s.writes[i]? = some w ↔ ∃ change, s.log[i]? = some change ∧ change.write = w := by
  rw [Replication.writes, getElem?_map, map_eq_some_iff]

theorem writes_of_log {i : Nat} (h : s.log[i]? = some change) :
    s.writes[i]? = some change.write := getElem?_writes.mpr ⟨change, h, rfl⟩

theorem Committed.follows_of_lt (h : Committed s.log) {i j : Nat} {a b : ProjectionChange}
    (ha : s.log[i]? = some a) (hb : s.log[j]? = some b) (hlt : i < j) : Follows a b := by
  obtain ⟨hi, rfl⟩ := List.getElem?_eq_some_iff.mp ha
  obtain ⟨hj, rfl⟩ := List.getElem?_eq_some_iff.mp hb
  exact List.pairwise_iff_getElem.mp h.follows i j hi hj hlt

theorem Committed.append (h : Committed s.log) (hchange : Committable s.log change) :
    Committed (s.log ++ [change]) where
  writable c hc := by
    rcases mem_append.mp hc with hold | hnew
    · exact h.writable c hold
    · rw [mem_singleton.mp hnew]
      exact hchange.1
  follows := by
    refine pairwise_append.mpr ⟨h.follows, pairwise_singleton _ _, ?_⟩
    intro a ha b hb
    rw [mem_singleton.mp hb]
    exact hchange.2 a ha

theorem revisionIsStale_eq_false {revision : ChatMessageRevision} :
    revisionIsStale current revision = false ↔
      current.latestRevisionEventId < revision.latestRevisionEventId ∧
        current.revisionNumber < revision.revisionNumber ∧ current.action ≠ .tombstone := by
  simp [revisionIsStale, and_assoc]

variable (h : Replicates sessionId session s)
include h

/-- What a register of a revision shows is the last revision of the message. -/
theorem revision_shown
    (hcurrent : s.client.messageRevisions.find? (session.serverId, target) = some current) :
    ∃ i e, s.log[i]? = some (.revision target.1 e) ∧ e.targetEventId = target.2 ∧
      i < s.shown (.revision target) ∧
      Unwritten s.writes (i + 1) (s.shown (.revision target)) (.revision target) ∧
      (revision target.1 e).value = some current.value := by
  have hregister : s.client.register session.serverId (.revision target) = some current.value := by
    rw [register, hcurrent, map_some]
  rw [h.shows.value] at hregister
  obtain ⟨i, w, hlt, hw, hkey, hvalue, hrest⟩ := exists_last_write (h.shows.within _) hregister
  obtain ⟨change, hchange, rfl⟩ := getElem?_writes.mp hw
  cases change with
  | reaction | pin => cases hkey
  | revision roomId e =>
    cases hkey
    exact ⟨i, e, hchange, rfl, hlt, hrest, hvalue⟩

/-- A register of a revision that shows nothing has no revision behind it. -/
theorem revision_not_shown
    (hnone : s.client.messageRevisions.find? (session.serverId, target) = none) :
    Unwritten s.writes 0 (s.shown (.revision target)) (.revision target) := by
  have hregister : s.client.register session.serverId (.revision target) = none := by
    rw [register, hnone, map_none]
  rw [h.shows.value] at hregister
  refine unwritten_of_none (h.shows.within _) (fun w hw hkey => ?_) hregister
  obtain ⟨change, _, rfl⟩ := mem_map.mp hw
  cases change with
  | reaction | pin => cases hkey
  | revision roomId e => rintro ⟨⟩

/-- A live event that is taken is the newest of its register. -/
theorem newest_of_taken {changed : Bool} {c' : ChatClient}
    (hchange : s.log[s.delivered]? = some change) (hguarded : s.Guarded session.serverId change)
    (htaken : s.client.applyChange sessionId change = .ok (changed, c')) : s.Newest change.key := by
  cases change with
  | reaction roomId e => exact hguarded
  | revision roomId e =>
    obtain ⟨session', t, hsession', _, _, hcases⟩ := applyMessageRevisionEvent_ok htaken
    cases h.opened.symm.trans hsession'
    cases hfind : s.client.messageRevisions.find? (session.serverId, roomId, e.targetEventId) with
    | none => exact (revision_not_shown h hfind).mono (Nat.zero_le _) (Nat.le_refl _)
    | some current =>
      obtain ⟨i, e', hi, htarget, _, hrest, hvalue⟩ := revision_shown h hfind
      obtain ⟨hsame, _⟩ := ProjectionValue.revision.inj (some.inj hvalue)
      have hle : i ≤ s.delivered := by
        -- a version shown by a snapshot from behind the event would have been newer
        by_contra hlt
        obtain ⟨hid, _, _⟩ := h.committed.follows_of_lt hchange hi (Nat.lt_of_not_le hlt)
          (congrArg (Prod.mk roomId) htarget.symm)
        rw [hsame] at hid
        rcases hcases with ⟨_, hknown⟩ | ⟨_, hfresh⟩
        · rw [some.inj (hfind.symm.trans hknown)] at hid
          exact Nat.lt_irrefl _ hid
        · have hstale := hfresh current hfind
          rw [revisionIsStale_eq_false] at hstale
          exact Nat.lt_asymm hid hstale.1
      exact hrest.mono (Nat.succ_le_succ hle) (Nat.le_refl _)
  | pin roomId e =>
    rcases hguarded with hnewest | hcursor
    · exact hnewest
    · obtain ⟨current, hcurrent⟩ := isSome_iff_exists.mp hcursor
      obtain ⟨i, e', hi, htarget, hid, _, hrest⟩ := h.cursor _ _ hcurrent
      obtain ⟨session', t, cursors, hsession', _, _, hcases⟩ := applyPinEvent_ok htaken
      cases h.opened.symm.trans hsession'
      have hle : i ≤ s.delivered := by
        by_contra hlt
        have hlater := h.committed.follows_of_lt hchange hi (Nat.lt_of_not_le hlt)
        have hlater : e.pinEventId < e'.pinEventId := hlater
        rw [hid] at hlater
        rcases hcases with ⟨_, _, hsame, _⟩ | ⟨_, _, hnewer⟩
        · rw [hcurrent] at hsame
          exact Nat.lt_irrefl _ (some.inj hsame ▸ hlater)
        · exact Nat.lt_asymm hlater (hnewer current hcurrent)
      exact hrest.mono (Nat.succ_le_succ hle) (Nat.le_refl _)

end Step

section Accepted
variable {sessionId : ChatSessionId} {session : ChatSessionView} {s : Replication}

variable (h : Replicates sessionId session s)
include h

/-- The revision that is shown is the one of the event, or is older. -/
theorem current_of_newest {e : MessageRevisionEvent}
    (hchange : s.log[s.delivered]? = some (.revision roomId e))
    (hnewest : s.Newest (revision roomId e).key)
    (hfind : s.client.messageRevisions.find? (session.serverId, roomId, e.targetEventId) =
      some current) :
    current = revisionOf session.serverId roomId e ∨
      revisionIsStale current (revisionOf session.serverId roomId e) = false := by
  obtain ⟨i, e', hi, htarget, hlt, _, hvalue⟩ := revision_shown h hfind
  obtain ⟨hid, haction, hactor, hbody, hat, hnumber⟩ :=
    ProjectionValue.revision.inj (some.inj hvalue)
  have hkey : (revision roomId e').key =
      (revision roomId e).key := by
    rw [key, key, htarget]
  rcases Nat.lt_trichotomy i s.delivered with hbelow | rfl | habove
  · obtain ⟨hids, hnumbers, hlast⟩ := h.committed.follows_of_lt hi hchange hbelow
      (congrArg (Prod.mk roomId) htarget)
    refine .inr (revisionIsStale_eq_false.mpr ⟨?_, ?_, ?_⟩)
    · rw [← hid]; exact hids
    · rw [← hnumber]; exact hnumbers
    · rw [← haction]; exact hlast
  · cases hi.symm.trans hchange
    obtain ⟨hmem, hcurrent⟩ := Table.find?_eq_some.mp hfind
    obtain ⟨server, room, target, id, action, actor, body, at₁, number⟩ := current
    cases hcurrent
    cases hid
    cases haction
    cases hactor
    cases hbody
    cases hat
    cases hnumber
    exact .inl rfl
  · exact absurd hkey (hnewest i _ habove hlt (writes_of_log hi))

/-- The cursor is that of the event, or of an older one. -/
theorem cursor_of_newest {e : PinEvent}
    (hchange : s.log[s.delivered]? = some (.pin roomId e))
    (hnewest : s.Newest (pin roomId e).key) {current : EventId}
    (hcursor : s.client.pinCursor? (session.serverId, roomId, e.targetEventId) = some current) :
    current < e.pinEventId ∨ current = e.pinEventId ∧
      pinMatchesCurrent s.client.pins session.serverId roomId e = true := by
  obtain ⟨i, e', hi, htarget, rfl, hlt, hrest⟩ := h.cursor _ _ hcursor
  have hkey : (pin roomId e').key = (pin roomId e).key := by
    rw [key, key, htarget]
  rcases Nat.lt_trichotomy i s.delivered with hbelow | rfl | habove
  · exact .inl (h.committed.follows_of_lt hi hchange hbelow)
  · rw [hchange] at hi
    cases hi
    refine .inr ⟨rfl, ?_⟩
    -- the register shows what the event wrote
    have hshown : s.client.register session.serverId (.pin (roomId, e.targetEventId)) =
        (pin roomId e).value := by
      rw [h.shows.value, valueAt_of_unwritten hlt (h.shows.within _) hrest,
        valueAt_succ (writes_of_log hchange)]
      exact if_pos rfl
    exact matches_of_value hshown
  · exact absurd hkey (hnewest i _ habove hlt (writes_of_log hi))

/-- A newest live event that fits is taken, where its register is authoritative. -/
theorem change_accepted
    (hchange : s.log[s.delivered]? = some change) (hnewest : s.Newest change.key)
    (hauth : s.client.authoritative session.serverId change.key)
    (hfits : ChangeFits s.client session change) :
    ∃ changed c', s.client.applyChange sessionId change = .ok (changed, c') := by
  have hwritable := h.committed.writable change (mem_of_getElem? hchange)
  cases change with
  | reaction roomId e =>
    exact exists_applyReactionEvent hwritable h.opened hfits.1 hfits.2
  | revision roomId e =>
    exact exists_applyMessageRevisionEvent hwritable h.opened hfits.1 hfits.2
      fun current hfind => current_of_newest h hchange hnewest hfind
  | pin roomId e =>
    refine exists_applyPinEvent hwritable h.opened hfits.1 hfits.2 ?_
      fun current hcursor => cursor_of_newest h hchange hnewest hcursor
    have hmem : (session.serverId, roomId, e.targetEventId) ∈ s.client.authoritativePinTargets := hauth
    rw [pinAuthorityFits, decide_eq_true hmem, Bool.true_or]

end Accepted

/-! A step. -/

section Steps
variable {sessionId : ChatSessionId} {session : ChatSessionView} {s : Replication}

theorem session?_of_sessions {c' : ChatClient} (h : c'.sessions = c.sessions) :
    c'.session? sessionId = c.session? sessionId := by
  rw [session?, session?, h]

variable (h : Replicates sessionId session s)
include h

/-- What is refused moves nothing that is shown. -/
theorem Replicates.loosened
    (hc : Loosened session.serverId s.client c) :
    Replicates sessionId session { s with client := c } where
  opened := (session?_of_sessions hc.sessions).trans h.opened
  anchored := hc.anchored
  committed := h.committed
  delivered := h.delivered
  shows := ⟨h.shows.within, fun k => (hc.register k).trans (h.shows.value k)⟩
  upToDate k hk := h.upToDate k (hc.authoritative k hk)
  cursor target eventId hcursor := h.cursor target eventId (hc.cursor target eventId hcursor)

theorem Replicates.commit (hchange : Committable s.log change) :
    Replicates sessionId session { s with log := s.log ++ [change] } := by
  have hwrites : ({ s with log := s.log ++ [change] } : Replication).writes =
      s.writes ++ [change.write] := map_append
  have hdelivered : s.delivered ≤ s.writes.length := length_writes ▸ h.delivered
  refine ⟨h.opened, h.anchored, h.committed.append hchange, ?_, ?_, ?_, ?_⟩
  · rw [length_append]
    exact Nat.le_trans h.delivered (Nat.le_add_right _ _)
  · rw [hwrites]
    exact h.shows.append _
  · intro k hk
    rw [hwrites]
    exact (h.upToDate k hk).append hdelivered _
  · intro target eventId hcursor
    obtain ⟨i, e, hi, htarget, hid, hlt, hrest⟩ := h.cursor target eventId hcursor
    refine ⟨i, e, ?_, htarget, hid, hlt, ?_⟩
    · rw [List.getElem?_append_left (List.getElem?_eq_some_iff.mp hi).1, hi]
    · rw [hwrites]
      exact hrest.append (h.shows.within _) _

/-- A live event that is taken. -/
theorem Replicates.taken
    (hchange : s.log[s.delivered]? = some change) (hnewest : s.Newest change.key)
    (hc : ChangeTaken session.serverId change s.client c) :
    Replicates sessionId session
      { s with
        client := c
        delivered := s.delivered + 1
        shown := told (· = change.key) (s.delivered + 1) s.shown } := by
  have hwrite := writes_of_log hchange
  have hlt := (List.getElem?_eq_some_iff.mp hwrite).1
  have hnext : valueAt s.writes (s.delivered + 1) change.key = change.value := by
    rw [valueAt_succ hwrite]
    exact if_pos rfl
  -- the register of the change moves, all others are as they were
  refine ⟨(session?_of_sessions hc.sessions).trans h.opened, hc.anchored, h.committed,
    length_writes ▸ hlt, ?_, ?_, ?_⟩
  · refine h.shows.told hlt (fun k hk => ?_) (fun k hk => ?_) fun k hk => ?_
    · rw [hk]; exact hnewest
    · rw [hk, hnext, hc.register, if_pos rfl]
    · rw [hc.register, if_neg hk]
  · intro k hk
    show Unwritten s.writes (told (· = change.key) (s.delivered + 1) s.shown k) (s.delivered + 1) k
    by_cases hkey : k = change.key
    · rw [told_one hkey]
      exact unwritten_of_le (Nat.le_max_right _ _)
    · rw [told_one_other hkey]
      rcases hc.authoritative k hk with hold | ⟨hsame, _⟩
      · exact (h.upToDate k hold).succ hwrite (Ne.symm hkey)
      · exact absurd hsame hkey
  · intro target eventId hcursor
    show ∃ i e, s.log[i]? = some (.pin target.1 e) ∧ e.targetEventId = target.2 ∧
      e.pinEventId = eventId ∧ i < told (· = change.key) (s.delivered + 1) s.shown (.pin target) ∧
      Unwritten s.writes (i + 1)
        (told (· = change.key) (s.delivered + 1) s.shown (.pin target)) (.pin target)
    have hcursor := (hc.cursor target).symm.trans hcursor
    by_cases hkey : ProjectionKey.pin target = change.key
    · rw [told_one hkey]
      cases change with
      | reaction | revision => cases hkey
      | pin roomId e =>
        cases hkey
        simp only [if_true, some.injEq] at hcursor
        refine ⟨s.delivered, e, hchange, rfl, hcursor, Nat.lt_of_lt_of_le (Nat.lt_succ_self _)
          (Nat.le_max_right _ _), ?_⟩
        intro i w hle hltmax hw
        -- what was shown is not written over before it, and behind it nothing is told yet
        rcases Nat.lt_or_ge i (s.shown (.pin (roomId, e.targetEventId))) with hshown | hshown
        · exact hnewest i w hle hshown hw
        · omega
    · rw [told_one_other hkey]
      have hold : s.client.pinCursor? (session.serverId, target) = some eventId := by
        cases change with
        | reaction | revision => exact hcursor
        | pin roomId e =>
          have hne : target ≠ (roomId, e.targetEventId) := fun hsame =>
            hkey (congrArg ProjectionKey.pin hsame)
          simp only [if_neg hne] at hcursor
          exact hcursor
      exact h.cursor target eventId hold

/-- A live event that is refused comes behind a newer one, where its register is authoritative. -/
theorem Replicates.missed
    (hchange : s.log[s.delivered]? = some change)
    (hbehind : s.client.authoritative session.serverId change.key → ¬s.Newest change.key) :
    Replicates sessionId session { s with delivered := s.delivered + 1 } := by
  have hwrite := writes_of_log hchange
  have hlt := (List.getElem?_eq_some_iff.mp hchange).1
  refine ⟨h.opened, h.anchored, h.committed, hlt, h.shows, fun k hk => ?_, h.cursor⟩
  by_cases hkey : change.key = k
  · subst hkey
    have hshown : s.delivered + 1 ≤ s.shown change.key := by
      by_contra hle
      exact hbehind hk (unwritten_of_le (by omega))
    exact unwritten_of_le hshown
  · exact (h.upToDate k hk).succ hwrite hkey

/-- A snapshot that is taken. -/
theorem Replicates.snapshotTaken
    {snapshot : ProjectionSnapshot} {version : Nat} (hversion : version ≤ s.log.length)
    (horder : ∀ k, snapshot.coversKey roomId k →
      Unwritten s.writes version (max (s.shown k) s.delivered) k)
    (hc : SnapshotTaken session.serverId roomId snapshot s.writes version s.client c) :
    Replicates sessionId session
      { s with client := c, shown := told (snapshot.coversKey roomId) version s.shown } := by
  have hversion : version ≤ s.writes.length := length_writes ▸ hversion
  -- what the snapshot covers moves to its version, the rest is as it was
  refine ⟨(session?_of_sessions hc.sessions).trans h.opened, hc.anchored, h.committed, h.delivered,
    ?_, fun k hk => ?_, fun target eventId hcursor => ?_⟩
  · refine h.shows.told hversion (fun k hk => ?_) hc.covered hc.other
    exact (horder k hk).mono (Nat.le_refl _) (Nat.le_max_left _ _)
  · show Unwritten s.writes (told (snapshot.coversKey roomId) version s.shown k) s.delivered k
    by_cases hcovers : snapshot.coversKey roomId k
    · rw [told_of_covers hcovers]
      exact (horder k hcovers).mono (Nat.le_max_right _ _) (Nat.le_max_right _ _)
    · rw [told_of_not hcovers]
      exact h.upToDate k ((hc.authoritative k hk).resolve_right hcovers)
  · have hcursor := (hc.cursor target).symm.trans hcursor
    show ∃ i e, s.log[i]? = some (.pin target.1 e) ∧ e.targetEventId = target.2 ∧
      e.pinEventId = eventId ∧
      i < told (snapshot.coversKey roomId) version s.shown (.pin target) ∧
      Unwritten s.writes (i + 1)
        (told (snapshot.coversKey roomId) version s.shown (.pin target)) (.pin target)
    by_cases hcovers : snapshot.coversKey roomId (.pin target)
    · rw [told_of_covers hcovers]
      rw [if_pos hcovers] at hcursor
      obtain ⟨value, hvalue, hid⟩ := bind_eq_some_iff.mp hcursor
      -- a cursor that the snapshot sets is that of the last write it saw
      obtain ⟨i, w, hlt, hw, hkey, hwritten, hrest⟩ := exists_last_write hversion hvalue
      obtain ⟨change, hchange, rfl⟩ := getElem?_writes.mp hw
      cases change with
      | reaction | revision => cases hkey
      | pin roomId e =>
        cases hkey
        have hid : e.pinEventId = eventId := by
          have hwritten : (pin roomId e).value = some value := hwritten
          unfold ProjectionChange.value at hwritten
          dsimp only at hwritten
          cases haction : e.action with
          | pin =>
            rw [haction] at hwritten
            cases hwritten
            exact some.inj hid
          | unpin =>
            rw [haction] at hwritten
            cases hwritten
        refine ⟨i, e, hchange, rfl, hid, Nat.lt_of_lt_of_le hlt (Nat.le_max_right _ _), ?_⟩
        intro j w hle hltmax hw
        rcases Nat.lt_or_ge j version with hbelow | habove
        · exact hrest j w hle hbelow hw
        · exact horder _ hcovers j w habove
            (Nat.lt_of_lt_of_le (by omega) (Nat.le_max_left _ _)) hw
    · rw [told_of_not hcovers]
      rw [if_neg hcovers] at hcursor
      exact h.cursor target eventId hcursor

theorem markStale_loosened :
    Loosened session.serverId s.client (s.client.markStale sessionId) := by
  have h₁ := markReactionsStale_loosened h.opened h.anchored
  have h₂ := markMessageRevisionsStale_loosened ((session?_of_sessions h₁.sessions).trans h.opened)
    h₁.anchored
  have h₃ := markPinsStale_loosened
    ((session?_of_sessions (h₂.sessions.trans h₁.sessions)).trans h.opened) h₂.anchored
  exact (h₁.trans h₂).trans h₃

end Steps

/-- A client that is marked stale has nothing authoritative of its server. -/
theorem markStale_authoritative {sessionId : ChatSessionId} {session : ChatSessionView}
    (hsession : c.session? sessionId = some session) (k : ProjectionKey) :
    ¬(c.markStale sessionId).authoritative session.serverId k := by
  have h₁ : (c.markReactionsStale sessionId).session? sessionId = some session := by
    rw [markReactionsStale, hsession]
    exact hsession
  have h₂ : ((c.markReactionsStale sessionId).markMessageRevisionsStale sessionId).session?
      sessionId = some session := by
    rw [markMessageRevisionsStale, h₁]
    exact h₁
  unfold markStale
  rw [markPinsStale, h₂, markMessageRevisionsStale, h₁,
    markReactionsStale, hsession]
  cases k with
  | reaction | revision | pin => exact fun hk => (Finset.mem_filter.mp hk).2 rfl

section Run
variable {sessionId : ChatSessionId} {session : ChatSessionView}

/-- The log has grown, and no register has moved back. -/
structure Later (s s' : Replication) : Prop where
  log : ∃ more, s'.log = s.log ++ more
  shown : ∀ k, s.shown k ≤ s'.shown k

theorem Later.refl (s : Replication) : Later s s :=
  ⟨⟨[], (append_nil _).symm⟩, fun _ => Nat.le_refl _⟩

theorem Later.trans {s₁ s₂ s₃ : Replication} (h₁ : Later s₁ s₂) (h₂ : Later s₂ s₃) : Later s₁ s₃ := by
  obtain ⟨more, hmore⟩ := h₁.log
  obtain ⟨rest, hrest⟩ := h₂.log
  refine ⟨⟨more ++ rest, ?_⟩, fun k => Nat.le_trans (h₁.shown k) (h₂.shown k)⟩
  rw [hrest, hmore, append_assoc]

theorem later_of_log {s' : Replication} (hlog : s'.log = s.log)
    (hshown : ∀ k, s.shown k ≤ s'.shown k) : Later s s' :=
  ⟨⟨[], by rw [hlog, append_nil]⟩, hshown⟩

/-- A step moves no register back. -/
theorem replication_step {i : ReplicationInput} (h : Replicates sessionId session s)
    (hserver : FromServer s i) (horder : InOrder session s i) :
    Replicates sessionId session (replicationNext sessionId s i) ∧
      Later s (replicationNext sessionId s i) := by
  cases i with
  | commit change => exact ⟨h.commit hserver, ⟨⟨[change], rfl⟩, fun k => Nat.le_refl _⟩⟩
  | relink =>
    refine ⟨?_, later_of_log rfl fun k => Nat.le_refl _⟩
    -- the registers stay as they are shown, but none is authoritative any more
    have hloose := h.loosened (markStale_loosened h)
    exact
      { hloose with
        delivered := Nat.le_refl _
        upToDate := fun k hk => absurd hk (markStale_authoritative h.opened k) }
  | snapshot roomId snapshot version =>
    obtain ⟨hversion, htaken⟩ := hserver
    unfold replicationNext deliverSnapshot
    dsimp only
    cases happly : (s.client.applySnapshot sessionId roomId snapshot).1 with
    | true =>
      refine ⟨h.snapshotTaken hversion horder (snapshot_taken h.opened h.anchored htaken happly),
        later_of_log rfl fun k => ?_⟩
      exact le_told version k
    | false =>
      refine ⟨h.loosened (snapshot_refused h.opened h.anchored happly), later_of_log rfl fun k => ?_⟩
      exact Nat.le_refl _
  | event =>
    unfold replicationNext
    cases hchange : s.log[s.delivered]? with
    | none => exact ⟨h, Later.refl s⟩
    | some change =>
      obtain ⟨hguarded, hfits⟩ := horder change hchange
      dsimp only
      unfold deliverEvent
      cases happly : s.client.applyChange sessionId change with
      | ok result =>
        obtain ⟨changed, c⟩ := result
        have hnewest := newest_of_taken h hchange hguarded happly
        refine ⟨h.taken hchange hnewest (change_taken h.opened h.anchored happly),
          later_of_log rfl fun k => ?_⟩
        show s.shown k ≤ told (· = change.key) (s.delivered + 1) s.shown k
        exact le_told _ k
      | error message =>
        refine ⟨h.missed hchange fun hauth hnewest => ?_, later_of_log rfl fun k => Nat.le_refl _⟩
        -- a refused event was not the newest of an authoritative register
        obtain ⟨changed, c', haccepted⟩ := change_accepted h hchange hnewest hauth (hfits hauth hnewest)
        rw [happly] at haccepted
        cases haccepted

/-- A client that knows nothing of the server shows its beginning. -/
theorem replicates_start {log : List ProjectionChange}
    (hsession : c.session? sessionId = some session) (hblank : c.Blank session.serverId)
    (hlog : Committed log) : Replicates sessionId session (.start c log) := by
  have hstays : ∀ {retained : List (UInt32 × EventId)} {target : Target},
      target.1 ≠ session.serverId → stays session.serverId retained target = true := by
    intro retained target hne
    rw [stays, bne_iff_ne.mpr hne, Bool.true_or]
  have hregister : ∀ k, c.register session.serverId k = none := by
    intro k
    cases k with
    | reaction target actorUserId token =>
      refine map_eq_none_iff.mpr (Table.find?_eq_none.mpr fun r hr hkey => ?_)
      exact hblank.reactions r hr (congrArg (fun key => key.1.1) hkey)
    | revision target =>
      refine map_eq_none_iff.mpr (Table.find?_eq_none.mpr fun r hr hkey => ?_)
      exact hblank.revisions r hr (congrArg Prod.fst hkey)
    | pin target =>
      refine map_eq_none_iff.mpr (Table.find?_eq_none.mpr fun p hp hkey => ?_)
      exact hblank.pins p hp (congrArg Prod.fst hkey)
  constructor
  case opened => exact hsession
  case anchored =>
    exact
      { reactions := fun r hr => hstays (hblank.reactions r hr)
        reactionTargets := fun target htarget => hstays (hblank.reactionTargets target htarget)
        revisions := fun r hr => hstays (hblank.revisions r hr)
        revisionTargets := fun target htarget => hstays (hblank.revisionTargets target htarget)
        pins := fun p hp => hstays (hblank.pins p hp)
        cursors := fun entry hentry => hstays (hblank.cursors entry hentry)
        pinTargets := fun target htarget => hstays (hblank.pinTargets target htarget) }
  case committed => exact hlog
  case delivered => exact Nat.le_refl _
  -- nothing is shown, which is version zero of every register
  case shows => exact ⟨fun k => Nat.zero_le _, fun k => (hregister k).trans valueAt_zero.symm⟩
  case upToDate =>
    intro k hk
    cases k with
    | reaction target actorUserId token => exact absurd rfl (hblank.reactionTargets _ hk)
    | revision target => exact absurd rfl (hblank.revisionTargets _ hk)
    | pin target => exact absurd rfl (hblank.pinTargets _ hk)
  case cursor =>
    intro target eventId hcursor
    obtain ⟨entry, hentry, _⟩ := map_eq_some_iff.mp hcursor
    obtain ⟨hmem, hkey⟩ := Table.find?_eq_some.mp hentry
    exact absurd (congrArg Prod.fst hkey) (hblank.cursors entry hmem)

end Run

/-! Runs. -/

section Runs
variable {sessionId : ChatSessionId} {session : ChatSessionView}

/-- What is to be met by the steps of a run. -/
def Orderly (session : ChatSessionView) (s : Replication) (i : ReplicationInput) : Prop :=
  FromServer s i ∧ InOrder session s i

theorem run_replicates {inputs : List ReplicationInput} (h : Replicates sessionId session s)
    (hmeets : Meets (replicationStep sessionId) (Orderly session) s inputs) :
    Replicates sessionId session (run (replicationStep sessionId) s inputs).2 ∧
      Later s (run (replicationStep sessionId) s inputs).2 := by
  induction inputs generalizing s with
  | nil => exact ⟨h, Later.refl s⟩
  | cons i inputs ih =>
    obtain ⟨hstep, hlater⟩ := replication_step h hmeets.1.1 hmeets.1.2
    obtain ⟨hrest, hlast⟩ := ih hstep hmeets.2
    exact ⟨hrest, hlater.trans hlast⟩

/-- A later revision of a message has a higher number, and a tombstone is the last one. -/
def NotBehind : Option ProjectionValue → Option ProjectionValue → Prop
  | some (.revision eventId action actorUserId replacement atUnix number), after =>
    ∃ eventId' action' actorUserId' replacement' atUnix' number',
      after = some (.revision eventId' action' actorUserId' replacement' atUnix' number') ∧
      number ≤ number' ∧
      (action = .tombstone → after =
        some (.revision eventId action actorUserId replacement atUnix number))
  | _, _ => True

theorem revision_notBehind (h : Committed s.log) {a b : Nat} (hle : a ≤ b)
    (hb : b ≤ s.writes.length) :
    NotBehind (valueAt s.writes a (.revision target)) (valueAt s.writes b (.revision target)) := by
  have hrevision : ∀ {i : Nat} {w : Write ProjectionKey ProjectionValue}, s.writes[i]? = some w →
      w.key = .revision target → ∃ e, s.log[i]? = some (.revision target.1 e) ∧
        e.targetEventId = target.2 ∧ w = (revision target.1 e).write := by
    intro i w hw hkey
    obtain ⟨change, hchange, rfl⟩ := getElem?_writes.mp hw
    cases change with
    | reaction | pin => cases hkey
    | revision roomId e =>
      cases hkey
      exact ⟨e, hchange, rfl, rfl⟩
  cases hbefore : valueAt s.writes a (.revision target) with
  | none => trivial
  | some v =>
    obtain ⟨i, w, hia, hw, hkey, hvalue, _⟩ := exists_last_write (Nat.le_trans hle hb) hbefore
    obtain ⟨e, hi, htarget, rfl⟩ := hrevision hw hkey
    cases hvalue
    cases hafter : valueAt s.writes b (.revision target) with
    | none =>
      have hnever := unwritten_of_none hb (fun w' hw' hkey' => ?_) hafter
      · exact absurd hkey (hnever i _ (Nat.zero_le i) (Nat.lt_of_lt_of_le hia hle) hw)
      · obtain ⟨j, hj⟩ := mem_iff_getElem?.mp hw'
        obtain ⟨e', _, _, rfl⟩ := hrevision hj hkey'
        rintro ⟨⟩
    | some v' =>
      obtain ⟨j, w', hjb, hw', hkey', hvalue', hlast⟩ := exists_last_write hb hafter
      obtain ⟨e', hj, htarget', rfl⟩ := hrevision hw' hkey'
      cases hvalue'
      rcases Nat.lt_trichotomy i j with hlt | rfl | hgt
      · obtain ⟨_, hnumber, hnot⟩ := h.follows_of_lt hi hj hlt
          (congrArg (Prod.mk target.1) (htarget.trans htarget'.symm))
        exact ⟨_, _, _, _, _, _, rfl, Nat.le_of_lt hnumber, fun htomb => absurd htomb hnot⟩
      · rw [hi] at hj
        cases hj
        exact ⟨_, _, _, _, _, _, rfl, Nat.le_refl _, fun _ => rfl⟩
      · exact absurd hkey (hlast i _ hgt (Nat.lt_of_lt_of_le hia hle) hw)

/-- Of two states of a run the later one shows no register at an earlier version, and when all live
events are delivered an authoritative register is as the server has it. -/
theorem projections_never_move_back (sessionId : ChatSessionId) (session : ChatSessionView)
    (client : ChatClient) (log : List ProjectionChange) (before after : List ReplicationInput)
    (hsession : client.session? sessionId = some session) (hblank : client.Blank session.serverId)
    (hlog : Committed log)
    (hmeets : Meets (replicationStep sessionId) (Orderly session) (.start client log)
      (before ++ after)) :
    let s := (run (replicationStep sessionId) (.start client log) before).2
    let s' := (run (replicationStep sessionId) (.start client log) (before ++ after)).2
    ∀ k,
      (s.client.register session.serverId k = valueAt s'.writes (s.shown k) k ∧
        s'.client.register session.serverId k = valueAt s'.writes (s'.shown k) k ∧
        s.shown k ≤ s'.shown k) ∧
      NotBehind (s.client.register session.serverId k) (s'.client.register session.serverId k) ∧
      (s'.delivered = s'.log.length → s'.client.authoritative session.serverId k →
        s'.client.register session.serverId k = valueAt s'.writes s'.log.length k) := by
  intro s s' k
  have hstart := replicates_start hsession hblank hlog
  obtain ⟨hs, _⟩ := run_replicates hstart (meets_front hmeets)
  obtain ⟨hs', hlater⟩ := run_replicates hs (meets_append hmeets)
  rw [← run_append] at hs' hlater
  obtain ⟨more, hmore⟩ := hlater.log
  -- the log only grows, so the first state shows a version of the later log
  have hwrites : s'.writes = s.writes ++ more.map write := by
    rw [Replication.writes, hmore, map_append, ← Replication.writes]
  have hbefore : s.client.register session.serverId k = valueAt s'.writes (s.shown k) k := by
    rw [hs.shows.value k, hwrites, valueAt_append (hs.shows.within k)]
  have hafter := hs'.shows.value k
  refine ⟨⟨hbefore, hafter, hlater.shown k⟩, ?_, fun hall hauth => ?_⟩
  · cases k with
    | reaction target actorUserId token =>
      rw [register]
      cases s.client.reactions.find? ((session.serverId, target), actorUserId, token) <;> trivial
    | pin target =>
      rw [register]
      cases s.client.pins.find? (session.serverId, target) <;> trivial
    | revision target =>
      rw [hbefore, hafter]
      exact revision_notBehind hs'.committed (hlater.shown _) (hs'.shows.within _)
  · have hunwritten := hs'.upToDate k hauth
    rw [hall] at hunwritten
    rw [hafter, ← length_writes]
    rw [← length_writes] at hunwritten
    exact (valueAt_of_unwritten (hs'.shows.within k) (Nat.le_refl _) hunwritten).symm

end Runs

/-! One client and one message. -/

def helloEvent : ChatEvent :=
  { serverId := "server", roomId := 1, eventId := 5, actorUserId := some 7, actorDisplayName := none,
    atUnix := 10, kind := .message "hello" }

def helloSession : ChatSessionView := ⟨"server", 1, [helloEvent]⟩

/-- A client with one session that knows of one message. -/
def helloClient : ChatClient :=
  { sessions := [(1, helloSession)]
    reactions := .empty
    authoritativeReactionTargets := ∅
    messageRevisions := .empty
    authoritativeMessageRevisionTargets := ∅
    pins := .empty
    pinEventCursors := .empty
    authoritativePinTargets := ∅ }

theorem helloClient_blank : helloClient.Blank "server" := by
  constructor
  all_goals
    intro x hx
    cases hx

/-- A heart is added and removed again. -/
def heart (reactionEventId : EventId) (action : ReactionAction) (atUnix : Int) : ProjectionChange :=
  .reaction 1 ⟨reactionEventId, 5, 9, .heart, action, atUnix⟩

def heartSnapshot : ProjectionSnapshot := .reactions ⟨[5], [⟨5, 9, .heart, 20⟩]⟩

def promptHeart : List ReplicationInput :=
  [.commit (heart 1 .add 20), .event, .snapshot 1 heartSnapshot 1]

def lateHeart : List ReplicationInput :=
  [.commit (heart 1 .add 20), .event, .commit (heart 2 .remove 30), .event,
    .snapshot 1 heartSnapshot 1]

/-- The message is corrected, and deleted after that. -/
def revisionOfHello (revisionEventId : EventId) (action : MessageRevisionAction)
    (replacement : Option String) (number : Nat) : ProjectionChange :=
  .revision 1 ⟨revisionEventId, 5, action, 7, 20, replacement, number, none⟩

def correctionSnapshot : ProjectionSnapshot :=
  .messageRevisions ⟨[5], [⟨5, 1, .correct, 7, 20, some "hello!", 1⟩]⟩

def lateCorrection : List ReplicationInput :=
  [.commit (revisionOfHello 1 .correct (some "hello!") 1), .event,
    .commit (revisionOfHello 2 .tombstone none 2), .event, .snapshot 1 correctionSnapshot 1]

def replicated (inputs : List ReplicationInput) : Replication :=
  (run (replicationStep 1) (.start helloClient []) inputs).2

/-- A register that holds something after one write is the one that was written. -/
theorem valueAt_one {k : ProjectionKey} {v : ProjectionValue} (h : valueAt (w :: rest) 1 k = some v)
    : k = w.key ∧ some v = w.value := by
  have hw : (w :: rest)[0]? = some w := rfl
  rw [valueAt_succ hw, valueAt_zero] at h
  split at h
  · next hkey => exact ⟨hkey.symm, h.symm⟩
  · cases h

theorem heartSnapshot_takenAt : heartSnapshot.TakenAt ((heart 1 .add 20).write :: rest) 1 1 := by
  constructor
  · intro e he
    rw [mem_singleton.mp he, valueAt_succ rfl]
    exact (if_pos (by decide +kernel)).trans (by decide +kernel)
  · intro k v _ hv
    obtain ⟨rfl, hvalue⟩ := valueAt_one hv
    cases hvalue
    decide +kernel

/-- The snapshot arrives between the two changes that it lies between. -/
theorem projections_never_move_back_hello : ∃ k v,
    (replicated promptHeart).client.register "server" k = some v ∧
      (replicated (promptHeart ++ [.commit (heart 2 .remove 30), .event])).client.register
        "server" k = none := by
  have hmeets : Meets (replicationStep 1) (Orderly helloSession) (.start helloClient [])
      (promptHeart ++ [.commit (heart 2 .remove 30), .event]) := by
    refine ⟨⟨⟨rfl, by rintro _ ⟨⟩⟩, trivial⟩, ⟨trivial, ?_⟩,
      ⟨⟨Nat.le_refl 1, heartSnapshot_takenAt⟩, ?_⟩, ⟨⟨rfl, ?_⟩, trivial⟩, ⟨trivial, ?_⟩, trivial⟩
    · rintro _ ⟨⟩
      exact ⟨unwritten_of_le (by decide), fun hauth => absurd hauth (Finset.notMem_empty _)⟩
    · intro k _
      refine unwritten_of_le (Nat.max_le.mpr ⟨?_, Nat.le_refl 1⟩)
      show told (· = (heart 1 .add 20).key) 1 (fun _ => 0) k ≤ 1
      unfold told
      split
      · exact Nat.le_refl 1
      · exact Nat.zero_le 1
    · intro earlier _
      cases earlier <;> trivial
    · rintro _ ⟨⟩
      refine ⟨unwritten_of_le (by decide +kernel), fun _ _ => ⟨?_, ?_⟩⟩
      all_goals decide +kernel
  have hall : (replicated (promptHeart ++ [.commit (heart 2 .remove 30), .event])).delivered = 2 := by
    decide +kernel
  have hauth : (replicated (promptHeart ++
      [.commit (heart 2 .remove 30), .event])).client.authoritative "server"
        (.reaction (1, 5) 9 .heart) := by
    unfold authoritative
    decide +kernel
  have hserver : valueAt (replicated (promptHeart ++
      [.commit (heart 2 .remove 30), .event])).writes 2 (.reaction (1, 5) 9 .heart) = none := by
    decide +kernel
  have hlast := (projections_never_move_back 1 helloSession helloClient [] promptHeart
    [.commit (heart 2 .remove 30), .event] rfl helloClient_blank ⟨by rintro _ ⟨⟩, .nil⟩ hmeets
    (.reaction (1, 5) 9 .heart)).2.2
  refine ⟨.reaction (1, 5) 9 .heart, .reaction 20, ?_, ?_⟩
  · decide +kernel
  · exact (hlast hall hauth).trans hserver

theorem lateHeart_fromServer : Meets (replicationStep 1) FromServer (.start helloClient []) lateHeart := by
  refine ⟨⟨rfl, by rintro _ ⟨⟩⟩, trivial, ⟨rfl, ?_⟩, trivial, ⟨?_, ?_⟩, trivial⟩
  · intro earlier _
    cases earlier <;> trivial
  · exact Nat.le_succ 1
  · constructor
    · intro e he
      rw [mem_singleton.mp he]
      decide +kernel
    · intro k v _ hv
      obtain ⟨rfl, hvalue⟩ := valueAt_one hv
      cases hvalue
      decide +kernel

theorem lateCorrection_fromServer :
    Meets (replicationStep 1) FromServer (.start helloClient []) lateCorrection := by
  refine ⟨⟨by decide +kernel, by rintro _ ⟨⟩⟩, trivial, ⟨by decide +kernel, ?_⟩, trivial, ⟨?_, ?_⟩,
    trivial⟩
  · intro earlier hearlier
    have hlog : earlier ∈ [revisionOfHello 1 .correct (some "hello!") 1] := hearlier
    rw [mem_singleton.mp hlog]
    exact fun _ => ⟨by decide, by decide, by decide⟩
  · exact Nat.le_succ 1
  · constructor
    · intro e he
      rw [mem_singleton.mp he]
      decide +kernel
    · intro k v _ hv
      obtain ⟨rfl, hvalue⟩ := valueAt_one hv
      cases hvalue
      decide +kernel

/-- A reaction that was removed reappears, and the client says that this is what the server has; a
message that was deleted is shown as corrected. -/
theorem projections_move_back :
    (Meets (replicationStep 1) FromServer (.start helloClient []) lateHeart ∧
      (replicated lateHeart).delivered = (replicated lateHeart).log.length ∧
      (replicated lateHeart).client.authoritative "server" (.reaction (1, 5) 9 .heart) ∧
      (replicated lateHeart).client.register "server" (.reaction (1, 5) 9 .heart) =
        some (.reaction 20) ∧
      valueAt (replicated lateHeart).writes 2 (.reaction (1, 5) 9 .heart) = none) ∧
    (Meets (replicationStep 1) FromServer (.start helloClient []) lateCorrection ∧
      (replicated (lateCorrection.take 4)).client.register "server" (.revision (1, 5)) =
        some (.revision 2 .tombstone 7 none 20 2) ∧
      (replicated lateCorrection).client.register "server" (.revision (1, 5)) =
        some (.revision 1 .correct 7 (some "hello!") 20 1)) := by
  refine ⟨⟨lateHeart_fromServer, ?_, ?_, ?_, ?_⟩, lateCorrection_fromServer, ?_, ?_⟩
  · decide +kernel
  · show ("server", (1 : UInt32), 5) ∈ (replicated lateHeart).client.authoritativeReactionTargets
    decide +kernel
  · decide +kernel
  · decide +kernel
  · decide +kernel
  · decide +kernel

end Omen.Client
