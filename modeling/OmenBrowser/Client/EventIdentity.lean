import OmenBrowser.Client.LocalEchoes
import OmenBrowser.Lib.Txn

/- Whose text an event of a session carries.

   A client runs against a server whose log says which text is stored under which event of a room:
   live events and batches come from the log, and an acknowledgement names the event under which the
   text of its frame is stored (`Truthful`). Beside the client the run keeps, for each session, the
   echoes that were sent on its current link.

   Two steps of the client look at less than they rewrite. A send puts its echo into the list under
   an id that an echo of an earlier link may still have, and the list then keeps the earlier one; an
   acknowledgement gives the echo the id of an event that a batch may have brought before. In a run
   in which neither happens (`Clear`) no two events of a session share a key, every event with a
   server's id carries the stored text, and an acknowledgement changes the echo of its send only. -/
namespace Omen.Client
open Wire Sql Ints Machine Text Omen.Protocol List

variable {seq : UInt32} {c : LiveClient} {roomId : Option UInt32} {body : FrameBody}
  {key : ChatSessionId × UInt32} {entry : (ChatSessionId × UInt32) × PendingLocalEcho}

/-- The text the server stored for an event of a room. -/
abbrev ServerLog := UInt32 → UInt64 → Option String

def ChatEventKind.text? : ChatEventKind → Option String
  | .message body | .richMessage body _ | .action body | .notice body | .system body => some body
  | .upload .. => none

/-- The server's ids are integers of a database. -/
def IsServerId (eventId : UInt64) : Prop := (eventId.toNat : Int) ≤ i64Max

/-- The event has a server's id, and the text that the server stored under it. -/
def Confirms (log : ServerLog) (event : ChatEvent) : Prop :=
  IsServerId event.eventId ∧
    ∀ text, event.kind.text? = some text → log event.roomId event.eventId = some text

/-! The run. -/

/-- The client, and the echoes sent on the current link of each session. -/
structure LinkedClient where
  client : LiveClient
  links : ChatSessionId → List (UInt32 × ChatEvent)

def LinkedClient.new : LinkedClient := ⟨.new, fun _ => []⟩

inductive EchoInput where
  | openServer (sessionId : ChatSessionId) (serverId : String)
  | reconnect (sessionId : ChatSessionId) (sameDestination : Bool)
  | send (sessionId : ChatSessionId) (send : RoomTextSend)
  | sendDurable (sessionId : ChatSessionId) (mutationId : MutationId) (send : RoomTextSend)
  /-- Another request of the session, which may be waited for. -/
  | request (sessionId : ChatSessionId) (waits : Option PendingLocalEcho)
  | joinAccept (sessionId : ChatSessionId) (roomId : UInt32)
  | roomEvent (sessionId : ChatSessionId) (roomId : Option UInt32) (body : FrameBody)
  | history (sessionId : ChatSessionId) (roomId : Option UInt32) (values : List FrameValue)
  | messageAck (sessionId : ChatSessionId) (seq : UInt32) (body : FrameBody) (now : Int64)
  | error (sessionId : ChatSessionId) (seq : UInt32) (body : FrameBody)
  /-- A frame that is read while the live state is not at hand, and is dropped. -/
  | dropped

/-- Another request takes a sequence number, and is waited for without an echo. -/
def sendRequest (c : LiveClient) (sessionId : ChatSessionId) (waits : Option PendingLocalEcho) :
    LiveClient :=
  match reserveSeq c sessionId with
  | none => c
  | some (seq, c) =>
    match waits with
    | none => c
    | some pending => c.insertPending (sessionId, seq) { pending with tempEventId := none }

def LinkedClient.sent (s : LinkedClient) (sessionId : ChatSessionId)
    (r : Option (UInt32 × ChatEvent) × LiveClient) : LinkedClient :=
  match r.1 with
  | none => { s with client := r.2 }
  | some echo =>
    { client := r.2
      links := fun other => if other = sessionId then echo :: s.links other else s.links other }

/-- A reconnect that is made begins a link. -/
def LinkedClient.relinked (s : LinkedClient) (sessionId : ChatSessionId) (sameDestination : Bool) :
    LinkedClient :=
  { client := reconnectLiveServer s.client sessionId sameDestination
    links := fun other =>
      if other = sessionId ∧ sameDestination = true ∧ (s.client.sessions sessionId).isSome = true
      then [] else s.links other }

section Run
variable (retainedBytes : ChatEvent → Nat)

def echoNext (s : LinkedClient) : EchoInput → LinkedClient
  | .openServer sessionId serverId =>
    { s with client := openLiveServer s.client sessionId serverId }
  | .reconnect sessionId sameDestination => s.relinked sessionId sameDestination
  | .send sessionId send => s.sent sessionId (sendLiveRoomText retainedBytes s.client sessionId send)
  | .sendDurable sessionId mutationId send =>
    s.sent sessionId (sendUncertainDurableRoomText retainedBytes s.client sessionId mutationId send)
  | .request sessionId waits => { s with client := sendRequest s.client sessionId waits }
  | .joinAccept sessionId roomId => { s with client := applyJoinAccept s.client sessionId roomId }
  | .roomEvent sessionId roomId body =>
    { s with client := applyRoomEvent retainedBytes s.client sessionId roomId body }
  | .history sessionId roomId values =>
    { s with client := applyHistory retainedBytes s.client sessionId roomId values }
  | .messageAck sessionId seq body now =>
    { s with client := applyMessageAck s.client sessionId seq body now }
  | .error sessionId seq body =>
    { s with client := applyDurableTerminalError s.client sessionId seq body }
  | .dropped => s

def echoStep (s : LinkedClient) (i : EchoInput) : Unit × LinkedClient := ((), echoNext retainedBytes s i)

end Run

/-- The frames of the server say what its log says. -/
def Truthful (log : ServerLog) (s : LinkedClient) : EchoInput → Prop
  | .roomEvent sessionId roomId body => ∀ session value event,
    s.client.sessions sessionId = some session → (bodyValues body).bind head? = some value →
    parseEvent session.serverId (roomId.getD 1) value = some event → Confirms log event
  | .history sessionId roomId values => ∀ session, s.client.sessions sessionId = some session →
    ∀ value ∈ values, ∀ event, parseEvent session.serverId (roomId.getD 1) value = some event →
      Confirms log event
  | .messageAck sessionId seq body now => ∀ ack echo, parseMessageAck body now = some ack →
    (seq, echo) ∈ s.links sessionId → Confirms log { echo with eventId := ack.eventId }
  | _ => True

/-- The id of the session's next echo is not the id of an event in the list. -/
def EchoFree (s : LinkedClient) (sessionId : ChatSessionId) : Prop :=
  ∀ session seq c, s.client.sessions sessionId = some session →
    reserveSeq s.client sessionId = some (seq, c) →
    ∀ event ∈ session.events, event.key ≠ (session.activeRoomId, localEchoEventId seq)

/-- No send meets an earlier echo under its id, and no acknowledgement an event under its own. -/
def Clear (s : LinkedClient) : EchoInput → Prop
  | .send sessionId _ => EchoFree s sessionId
  | .sendDurable sessionId _ _ => EchoFree s sessionId
  | .messageAck sessionId seq body now => ∀ ack echo session, parseMessageAck body now = some ack →
    (seq, echo) ∈ s.links sessionId → s.client.sessions sessionId = some session →
    ∀ event ∈ session.events, event.key ≠ (echo.roomId, ack.eventId)
  | _ => True

/-! The invariant. -/

/-- The events of a session, the echoes of its link and what is waited for agree. -/
structure LinkedClient.Identified (log : ServerLog) (s : LinkedClient) : Prop where
  keys : ∀ sessionId session, s.client.sessions sessionId = some session →
    (session.events.map ChatEvent.key).Nodup
  texts : ∀ sessionId session, s.client.sessions sessionId = some session →
    ∀ event ∈ session.events, IsServerId event.eventId → Confirms log event
  echoes : ∀ sessionId session, s.client.sessions sessionId = some session →
    ∀ sent ∈ s.links sessionId, ∀ event ∈ session.events, event.key = sent.2.key → event = sent.2
  ids : ∀ sessionId, ∀ sent ∈ s.links sessionId, sent.2.eventId = localEchoEventId sent.1 ∧
    sent.1.toNat < nextSeq s.client sessionId
  distinct : ∀ sessionId, ((s.links sessionId).map Prod.fst).Nodup
  waits : ∀ entry ∈ s.client.pendingLocalEchoes, ∀ tempEventId,
    entry.2.tempEventId = some tempEventId →
    ∃ echo, (entry.1.2, echo) ∈ s.links entry.1.1 ∧ echo.key = (entry.2.roomId, tempEventId)

theorem LinkedClient.identified_new (log : ServerLog) : LinkedClient.Identified log .new := by
  refine ⟨?_, ?_, ?_, ?_, ?_, ?_⟩
  · intro sessionId session h
    cases h
  · intro sessionId session h
    cases h
  · intro sessionId session h
    cases h
  · intro sessionId sent h
    cases h
  · intro sessionId
    exact nodup_nil
  · intro entry h
    cases h

/-! Ids of echoes. -/

theorem localEchoEventId_toNat (seq : UInt32) :
    (localEchoEventId seq).toNat = u64Max - seq.toNat := by
  have hlt : u64Max - seq.toNat < 2 ^ 64 := by
    unfold u64Max
    omega
  exact UInt64.toNat_ofNat_of_lt' hlt

theorem localEchoEventId_inj {a b : UInt32} (h : localEchoEventId a = localEchoEventId b) :
    a = b := by
  have hnat := congrArg UInt64.toNat h
  rw [localEchoEventId_toNat, localEchoEventId_toNat] at hnat
  have hb := b.toNat_lt
  unfold u64Max at hnat
  exact UInt32.toNat_inj.mp (by omega)

theorem not_isServerId_localEcho (seq : UInt32) : ¬IsServerId (localEchoEventId seq) := by
  have hlt := seq.toNat_lt
  unfold IsServerId
  rw [localEchoEventId_toNat]
  unfold u64Max i64Max
  omega

theorem Confirms.ne_echo {log : ServerLog} {event : ChatEvent} (h : Confirms log event) :
    event.eventId ≠ localEchoEventId seq := by
  intro hsame
  exact not_isServerId_localEcho seq (hsame ▸ h.1)

/-! Steps. -/

section Steps
variable {log : ServerLog} {s : LinkedClient} {retainedBytes : ChatEvent → Nat}
  {sessionId : ChatSessionId}

/-- A step that brings events of the server's log only, and nothing to wait for but what has no
echo. -/
theorem LinkedClient.Identified.of_log (h : s.Identified log)
    (hsessions : ∀ other session, c.sessions other = some session →
      (session.events.map ChatEvent.key).Nodup ∧ ∀ event ∈ session.events, Confirms log event ∨
        ∃ before, s.client.sessions other = some before ∧ event ∈ before.events)
    (hpending : ∀ entry ∈ c.pendingLocalEchoes, entry ∈ s.client.pendingLocalEchoes ∨
      entry.2.tempEventId = none)
    (hseq : ∀ other, nextSeq s.client other ≤ nextSeq c other) :
    LinkedClient.Identified log { s with client := c } := by
  refine ⟨?_, ?_, ?_, ?_, h.distinct, ?_⟩
  · intro other session hother
    exact (hsessions other session hother).1
  · intro other session hother event hevent hserver
    rcases (hsessions other session hother).2 event hevent with hlog | ⟨before, hbefore, hmem⟩
    · exact hlog
    · exact h.texts other before hbefore event hmem hserver
  · intro other session hother sent hsent event hevent hkey
    rcases (hsessions other session hother).2 event hevent with hlog | ⟨before, hbefore, hmem⟩
    · have hid : event.eventId = sent.2.eventId := congrArg Prod.snd hkey
      exact absurd (hid.trans (h.ids other sent hsent).1) hlog.ne_echo
    · exact h.echoes other before hbefore sent hsent event hmem hkey
  · intro other sent hsent
    obtain ⟨hid, hlt⟩ := h.ids other sent hsent
    exact ⟨hid, hlt.trans_le (hseq other)⟩
  · intro entry hentry tempEventId htemp
    rcases hpending entry hentry with hold | hnone
    · exact h.waits entry hold tempEventId htemp
    · rw [hnone] at htemp
      cases htemp

/-- A step that changes the events of one session. -/
theorem LinkedClient.Identified.of_update (h : s.Identified log)
    {f : ChatSessionView → ChatSessionView}
    (hf : ∀ session, s.client.sessions sessionId = some session →
      (session.events.map ChatEvent.key).Nodup →
      ((f session).events.map ChatEvent.key).Nodup ∧
        ∀ event ∈ (f session).events, Confirms log event ∨ event ∈ session.events) :
    LinkedClient.Identified log { s with client := s.client.updateSession sessionId f } := by
  refine h.of_log ?_ ?_ ?_
  · intro other session hother
    rw [LiveClient.sessions_updateSession] at hother
    split at hother
    · next hsame =>
      obtain ⟨before, hbefore, rfl⟩ := Option.map_eq_some_iff.mp hother
      obtain ⟨hkeys, hmem⟩ := hf before hbefore (h.keys sessionId before hbefore)
      refine ⟨hkeys, fun event hevent => (hmem event hevent).imp_right fun hold => ?_⟩
      exact ⟨before, hsame ▸ hbefore, hold⟩
    · exact ⟨h.keys other session hother, fun event hevent => .inr ⟨session, hother, hevent⟩⟩
  · intro entry hentry
    rw [LiveClient.pendingLocalEchoes_updateSession] at hentry
    exact .inl hentry
  · intro other
    unfold nextSeq
    rw [LiveClient.nextSeqBySession_updateSession]

/-- A step that leaves the sessions alone. -/
theorem LinkedClient.Identified.of_sessions (h : s.Identified log)
    (hsessions : c.sessions = s.client.sessions)
    (hpending : ∀ entry ∈ c.pendingLocalEchoes, entry ∈ s.client.pendingLocalEchoes ∨
      entry.2.tempEventId = none)
    (hseq : ∀ other, nextSeq s.client other ≤ nextSeq c other) :
    LinkedClient.Identified log { s with client := c } := by
  refine h.of_log (fun other session hother => ?_) hpending hseq
  rw [hsessions] at hother
  exact ⟨h.keys other session hother, fun event hevent => .inr ⟨session, hother, hevent⟩⟩

theorem nextSeq_le_of_reserve {c' : LiveClient} (h : reserveSeq c sessionId = some (seq, c'))
    (other : ChatSessionId) : nextSeq c other ≤ nextSeq c' other := by
  obtain ⟨hseq, _, _, hnext⟩ := reserveSeq_some h
  rw [hnext]
  split
  · next hsame => rw [hsame, hseq]; exact Nat.le_succ _
  · exact Nat.le_refl _

theorem appendEvent_events (retainedBytes : ChatEvent → Nat) {session : ChatSessionView}
    (event : ChatEvent) (sortAfter : Bool) (h : (session.events.map ChatEvent.key).Nodup) :
    ((appendEvent retainedBytes session event sortAfter).events.map ChatEvent.key).Nodup ∧
    ∀ e ∈ (appendEvent retainedBytes session event sortAfter).events,
      e ∈ session.events ∨ e = event := by
  unfold appendEvent
  split
  · exact ⟨h, fun e he => .inl he⟩
  · exact appendEventBounded_events h

theorem roomEvent_identified (h : s.Identified log)
    (ht : Truthful log s (.roomEvent sessionId roomId body)) :
    LinkedClient.Identified log { s with
      client := applyRoomEvent retainedBytes s.client sessionId roomId body } := by
  refine h.of_update fun session hsession hkeys => ?_
  have hstay : (session.events.map ChatEvent.key).Nodup ∧
      ∀ event ∈ session.events, Confirms log event ∨ event ∈ session.events :=
    ⟨hkeys, fun event hevent => .inr hevent⟩
  split
  · exact hstay
  · next value hvalue =>
    split
    · exact hstay
    · next event hevent =>
      obtain ⟨hnodup, hmem⟩ := appendEvent_events retainedBytes event false hkeys
      refine ⟨hnodup, fun e he => ?_⟩
      rcases hmem e he with hold | rfl
      · exact .inr hold
      · exact .inl (ht session value e hsession hvalue hevent)

theorem history_identified {values : List FrameValue} (h : s.Identified log)
    (ht : Truthful log s (.history sessionId roomId values)) :
    LinkedClient.Identified log { s with
      client := applyHistory retainedBytes s.client sessionId roomId values } := by
  refine h.of_update fun session hsession hkeys => ⟨applyHistoryBatch_nodup hkeys, ?_⟩
  intro event hevent
  rcases mem_applyHistoryBatch hevent with hold | ⟨value, hvalue, hparsed⟩
  · exact .inr hold
  · exact .inl (ht session hsession value hvalue event hparsed)

theorem mem_removePending (h : entry ∈ (c.removePending key).pendingLocalEchoes) :
    entry ∈ c.pendingLocalEchoes :=
  (mem_filter.mp h).1

theorem mem_insertPending {pending : PendingLocalEcho}
    (h : entry ∈ (c.insertPending key pending).pendingLocalEchoes) :
    entry = (key, pending) ∨ entry ∈ c.pendingLocalEchoes :=
  (mem_cons.mp h).imp_right fun hrest => (mem_filter.mp hrest).1

theorem error_identified (h : s.Identified log) :
    LinkedClient.Identified log { s with
      client := applyDurableTerminalError s.client sessionId seq body } := by
  unfold applyDurableTerminalError
  split
  · exact h
  · split
    · exact h
    · next pending _ =>
      split
      · exact h
      · have hremoved : LinkedClient.Identified log { s with
            client := s.client.removePending (sessionId, seq) } :=
          h.of_sessions rfl (fun entry hentry => .inl (mem_removePending hentry)) fun _ => Nat.le_refl _
        split
        · exact hremoved
        · exact hremoved.of_update fun session _ hkeys =>
            ⟨hkeys.sublist (filter_sublist.map _), fun event hevent =>
              .inr (mem_filter.mp hevent).1⟩

theorem joinAccept_identified {roomId : UInt32} (h : s.Identified log) :
    LinkedClient.Identified log { s with client := applyJoinAccept s.client sessionId roomId } :=
  h.of_update fun _ _ hkeys => ⟨hkeys, fun _ hevent => .inr hevent⟩

theorem request_identified {waits : Option PendingLocalEcho} (h : s.Identified log) :
    LinkedClient.Identified log { s with client := sendRequest s.client sessionId waits } := by
  unfold sendRequest
  split
  · exact h
  · next seq c hreserve =>
    obtain ⟨_, hsessions, hpending, _⟩ := reserveSeq_some hreserve
    have hseq := nextSeq_le_of_reserve hreserve
    split
    · exact h.of_sessions hsessions (fun entry hentry => .inl (hpending ▸ hentry)) hseq
    · refine h.of_sessions hsessions (fun entry hentry => ?_) hseq
      rcases mem_insertPending hentry with rfl | hold
      · exact .inr rfl
      · exact .inl (hpending ▸ hold)

theorem sendSessionOpenAndJoin_keeps (c : LiveClient) (sessionId : ChatSessionId) :
    (sendSessionOpenAndJoin c sessionId).sessions = c.sessions ∧
      (sendSessionOpenAndJoin c sessionId).pendingLocalEchoes = c.pendingLocalEchoes ∧
      ∀ other, nextSeq c other ≤ nextSeq (sendSessionOpenAndJoin c sessionId) other ∧
        (other ≠ sessionId → nextSeq (sendSessionOpenAndJoin c sessionId) other = nextSeq c other) := by
  unfold sendSessionOpenAndJoin
  split
  · exact ⟨rfl, rfl, fun _ => ⟨Nat.le_refl _, fun _ => rfl⟩⟩
  · next first c' hreserve =>
    obtain ⟨hfirst, _, hsessions, hpending, hnext⟩ := reserveSequenceRange_some hreserve
    refine ⟨hsessions, hpending, fun other => ⟨?_, fun hne => ?_⟩⟩
    · rw [hnext]
      split
      · next hsame => rw [hsame, hfirst]; exact Nat.le_add_right _ _
      · exact Nat.le_refl _
    · rw [hnext, if_neg hne]

theorem openServer_identified {serverId : String} (h : s.Identified log) :
    LinkedClient.Identified log { s with client := openLiveServer s.client sessionId serverId } := by
  unfold openLiveServer
  split
  · exact h
  · obtain ⟨hsessions, hpending, hseq⟩ := sendSessionOpenAndJoin_keeps
      (s.client.setSession sessionId { serverId, activeRoomId := 1, events := [] }) sessionId
    refine h.of_log (fun other session hother => ?_)
      (fun entry hentry => .inl (hpending ▸ hentry)) fun other => (hseq other).1
    rw [hsessions, LiveClient.sessions_setSession] at hother
    split at hother
    · cases hother
      exact ⟨nodup_nil, fun event hevent => absurd hevent not_mem_nil⟩
    · exact ⟨h.keys other session hother, fun event hevent => .inr ⟨session, hother, hevent⟩⟩

/-- A link that ends takes its echoes along; those of texts without a stored mutation stay in the
list. -/
theorem reconnect_identified {sameDestination : Bool} (h : s.Identified log) :
    (s.relinked sessionId sameDestination).Identified log := by
  unfold LinkedClient.relinked reconnectLiveServer
  split
  · next hnone =>
    simp only [hnone, Option.isSome_none, Bool.false_eq_true, and_false, if_false]
    exact h
  · next session hsession =>
    split
    · next hother =>
      simp only [hother, Bool.false_eq_true, false_and, and_false, if_false]
      exact h
    · next hsame =>
      rw [Bool.not_eq_false] at hsame
      simp only [hsame, hsession, Option.isSome_some, and_true]
      obtain ⟨hsessions, hpending, hseq⟩ := sendSessionOpenAndJoin_keeps
        ((retireSessionLinkState s.client sessionId).setSession sessionId { session with
          events := session.events.filter
            (fun event => !(retiredEchoes s.client sessionId).contains event.key) }) sessionId
      -- the sessions lose the echoes of the link that ended, and get no event
      have hevents : ∀ other after, (sendSessionOpenAndJoin
          ((retireSessionLinkState s.client sessionId).setSession sessionId { session with
            events := session.events.filter
              (fun event => !(retiredEchoes s.client sessionId).contains event.key) })
          sessionId).sessions other = some after → ∃ before,
            s.client.sessions other = some before ∧ after.events.Sublist before.events := by
        intro other after hafter
        rw [hsessions, LiveClient.sessions_setSession] at hafter
        split at hafter
        · next hid =>
          cases hafter
          exact ⟨session, hid ▸ hsession, filter_sublist⟩
        · exact ⟨after, hafter, List.Sublist.refl _⟩
      refine ⟨?_, ?_, ?_, ?_, ?_, ?_⟩
      · intro other after hafter
        obtain ⟨before, hbefore, hsub⟩ := hevents other after hafter
        exact (h.keys other before hbefore).sublist (hsub.map _)
      · intro other after hafter event hevent
        obtain ⟨before, hbefore, hsub⟩ := hevents other after hafter
        exact h.texts other before hbefore event (hsub.subset hevent)
      · intro other after hafter sent hsent event hevent
        obtain ⟨before, hbefore, hsub⟩ := hevents other after hafter
        dsimp only at hsent
        split at hsent
        · cases hsent
        · exact h.echoes other before hbefore sent hsent event (hsub.subset hevent)
      · intro other sent hsent
        dsimp only at hsent
        split at hsent
        · cases hsent
        · next hne =>
          obtain ⟨hid, hlt⟩ := h.ids other sent hsent
          refine ⟨hid, ?_⟩
          rw [(hseq other).2 hne]
          simpa only [nextSeq, retireSessionLinkState, LiveClient.setSession, if_neg hne] using hlt
      · intro other
        dsimp only
        split
        · exact nodup_nil
        · exact h.distinct other
      · intro entry hentry tempEventId htemp
        rw [hpending] at hentry
        obtain ⟨hold, hne⟩ := mem_filter.mp hentry
        have hne : entry.1.1 ≠ sessionId := by simpa using hne
        obtain ⟨echo, hecho, hkey⟩ := h.waits entry hold tempEventId htemp
        refine ⟨echo, ?_, hkey⟩
        dsimp only
        rw [if_neg hne]
        exact hecho

/-! Sending. -/

/-- A send makes an echo under the next sequence number, or none. -/
theorem sendRoomText_cases (retainedBytes : ChatEvent → Nat) (c : LiveClient)
    (sessionId : ChatSessionId) (send : RoomTextSend) (tracked : Bool) :
    (∃ c', sendRoomText retainedBytes c sessionId send tracked = (none, c') ∧
      c'.sessions = c.sessions ∧ c'.pendingLocalEchoes = c.pendingLocalEchoes ∧
      ∀ other, nextSeq c other ≤ nextSeq c' other) ∨
    ∃ session seq c₁, c.sessions sessionId = some session ∧
      reserveSeq c sessionId = some (seq, c₁) ∧
      let echo := localEcho session session.activeRoomId seq send.body send.op send.metadata send.now
      sendRoomText retainedBytes c sessionId send tracked =
        (some (seq, echo), (c₁.updateSession sessionId (fun session =>
          appendEvent retainedBytes session echo false)).insertPending (sessionId, seq)
            { roomId := session.activeRoomId
              tempEventId := some echo.eventId
              mutationId := send.mutationId }) := by
  unfold sendRoomText
  split
  · exact .inl ⟨c, rfl, rfl, rfl, fun _ => Nat.le_refl _⟩
  · next session hsession =>
    split
    · exact .inl ⟨c, rfl, rfl, rfl, fun _ => Nat.le_refl _⟩
    · split
      · exact .inl ⟨c, rfl, rfl, rfl, fun _ => Nat.le_refl _⟩
      · next seq c₁ hreserve =>
        split
        · obtain ⟨_, hsessions, hpending, _⟩ := reserveSeq_some hreserve
          exact .inl ⟨c₁, rfl, hsessions, hpending, nextSeq_le_of_reserve hreserve⟩
        · exact .inr ⟨session, seq, c₁, hsession, hreserve, rfl⟩

theorem localEcho_key (session : ChatSessionView) (roomId : UInt32) (seq : UInt32) (body : String)
    (op : ChatOp) (metadata : Option ChatMessageMetadata) (now : Int64) :
    (localEcho session roomId seq body op metadata now).key = (roomId, localEchoEventId seq) := rfl

/-- The events of each session: those before, and in the echo's session the echo. -/
theorem echo_events {c₁ : LiveClient} {echo : ChatEvent} (h : s.Identified log)
    (hsessions : c₁.sessions = s.client.sessions) {other : ChatSessionId} {after : ChatSessionView}
    (hafter : (c₁.updateSession sessionId (fun session =>
      appendEvent retainedBytes session echo false)).sessions other = some after) :
    (after.events.map ChatEvent.key).Nodup ∧ ∃ before, s.client.sessions other = some before ∧
      ∀ event ∈ after.events, event ∈ before.events ∨ other = sessionId ∧ event = echo := by
  rw [LiveClient.sessions_updateSession, hsessions] at hafter
  split at hafter
  · next hsame =>
    obtain ⟨session, hsession, rfl⟩ := Option.map_eq_some_iff.mp hafter
    obtain ⟨hnodup, hmem⟩ := appendEvent_events retainedBytes echo false
      (h.keys sessionId session hsession)
    exact ⟨hnodup, session, hsame ▸ hsession, fun event hevent =>
      (hmem event hevent).imp_right fun heq => ⟨hsame, heq⟩⟩
  · exact ⟨h.keys other after hafter, after, hafter, fun event hevent => .inl hevent⟩

/-- A client that has one more echo, under a free id and the next sequence number. -/
theorem LinkedClient.Identified.echoed {c' : LiveClient} {echo : ChatEvent} (h : s.Identified log)
    (hid : echo.eventId = localEchoEventId seq) (hseq : seq.toNat = nextSeq s.client sessionId)
    (hnew : ∀ session, s.client.sessions sessionId = some session →
      ∀ event ∈ session.events, event.key ≠ echo.key)
    (hevents : ∀ other after, c'.sessions other = some after →
      (after.events.map ChatEvent.key).Nodup ∧ ∃ before, s.client.sessions other = some before ∧
        ∀ event ∈ after.events, event ∈ before.events ∨ other = sessionId ∧ event = echo)
    (hnext : ∀ other, nextSeq c' other =
      if other = sessionId then seq.toNat + 1 else nextSeq s.client other)
    (hwaits : ∀ entry ∈ c'.pendingLocalEchoes, entry ∈ s.client.pendingLocalEchoes ∨
      entry.1 = (sessionId, seq) ∧ ∀ tempEventId, entry.2.tempEventId = some tempEventId →
        echo.key = (entry.2.roomId, tempEventId)) :
    (s.sent sessionId (some (seq, echo), c')).Identified log := by
  have hlinks : ∀ {other sent}, sent ∈ (s.sent sessionId (some (seq, echo), c')).links other ↔
      other = sessionId ∧ sent = (seq, echo) ∨ sent ∈ s.links other := by
    intro other sent
    dsimp only [LinkedClient.sent]
    split
    · next hother => simp only [hother, mem_cons, true_and]
    · next hother => simp only [hother, false_and, false_or]
  refine ⟨fun other after hafter => (hevents other after hafter).1, ?_, ?_, ?_, ?_, ?_⟩
  · intro other after hafter event hevent hserver
    obtain ⟨-, before, hbefore, hmem⟩ := hevents other after hafter
    rcases hmem event hevent with hold | ⟨-, rfl⟩
    · exact h.texts other before hbefore event hold hserver
    · exact absurd (hid ▸ hserver) (not_isServerId_localEcho seq)
  · intro other after hafter sent hsent event hevent hsame
    obtain ⟨-, before, hbefore, hmem⟩ := hevents other after hafter
    rcases hlinks.mp hsent with ⟨rfl, rfl⟩ | hold
    · rcases hmem event hevent with hmem | ⟨-, rfl⟩
      · exact absurd hsame (hnew before hbefore event hmem)
      · rfl
    · rcases hmem event hevent with hmem | ⟨rfl, rfl⟩
      · exact h.echoes other before hbefore sent hold event hmem hsame
      · -- an earlier echo of the link has a smaller sequence number
        obtain ⟨hsid, hlt⟩ := h.ids other sent hold
        have hids : localEchoEventId seq = localEchoEventId sent.1 :=
          hid.symm.trans ((congrArg Prod.snd hsame).trans hsid)
        have := congrArg UInt32.toNat (localEchoEventId_inj hids)
        omega
  · intro other sent hsent
    change _ ∧ sent.1.toNat < nextSeq c' other
    rw [hnext]
    rcases hlinks.mp hsent with ⟨rfl, rfl⟩ | hold
    · rw [if_pos rfl]
      exact ⟨hid, Nat.lt_succ_self _⟩
    · obtain ⟨hsid, hlt⟩ := h.ids other sent hold
      refine ⟨hsid, ?_⟩
      split
      · next hsame =>
        rw [hsame] at hlt
        omega
      · exact hlt
  · intro other
    dsimp only [LinkedClient.sent]
    split
    · next hsame =>
      rw [map_cons]
      refine nodup_cons.mpr ⟨fun hmem => ?_, h.distinct other⟩
      obtain ⟨sent, hsent, hfirst⟩ := mem_map.mp hmem
      have hlt := (h.ids other sent hsent).2
      rw [hfirst, hsame] at hlt
      change seq.toNat < nextSeq s.client sessionId at hlt
      omega
    · exact h.distinct other
  · intro entry hentry tempEventId htemp
    rcases hwaits entry hentry with hold | ⟨hlink, hkey⟩
    · obtain ⟨sent, hsent, hsame⟩ := h.waits entry hold tempEventId htemp
      exact ⟨sent, hlinks.mpr (.inr hsent), hsame⟩
    · refine ⟨echo, hlinks.mpr (.inl ?_), hkey tempEventId htemp⟩
      rw [hlink]
      exact ⟨rfl, rfl⟩

/-- An echo under a free id is the only event under it. -/
theorem send_identified {send : RoomTextSend} {tracked : Bool} (h : s.Identified log)
    (hfree : EchoFree s sessionId) :
    (s.sent sessionId (sendRoomText retainedBytes s.client sessionId send tracked)).Identified log := by
  rcases sendRoomText_cases retainedBytes s.client sessionId send tracked with
    ⟨c', hnone, hsessions, hpending, hseq⟩ | ⟨session, seq, c₁, hsession, hreserve, hsome⟩
  · rw [hnone]
    exact h.of_sessions hsessions (fun entry hentry => .inl (hpending ▸ hentry)) hseq
  obtain ⟨hseq, hsessions, hpending, hnext⟩ := reserveSeq_some hreserve
  generalize hecho : localEcho session session.activeRoomId seq send.body send.op send.metadata
    send.now = echo at hsome
  have hkey : echo.key = (session.activeRoomId, localEchoEventId seq) := by
    rw [← hecho, localEcho_key]
  have hid : echo.eventId = localEchoEventId seq := congrArg Prod.snd hkey
  rw [hsome]
  refine h.echoed hid hseq ?_ (fun other after hafter => echo_events h hsessions hafter) ?_ ?_
  · intro session' hsession' event hevent
    rw [hsession] at hsession'
    cases hsession'
    rw [hkey]
    exact hfree session seq c₁ hsession hreserve event hevent
  · intro other
    rw [← hnext]
    simp only [nextSeq, LiveClient.insertPending, LiveClient.nextSeqBySession_updateSession]
  · intro entry hentry
    rcases mem_insertPending hentry with rfl | hold
    · refine .inr ⟨rfl, fun tempEventId htemp => ?_⟩
      cases htemp
      rw [hkey, hid]
    · rw [LiveClient.pendingLocalEchoes_updateSession, hpending] at hold
      exact .inl hold

/-! Acknowledgements. -/

theorem updateFirst_eq_map {α : Type} [DecidableEq α] {p : α → Bool} {f : α → α} {a : α}
    {l : List α} (hnodup : l.Nodup) (hp : ∀ b ∈ l, p b = true ↔ b = a) :
    updateFirst p f l = l.map (fun b => if b = a then f a else b) := by
  induction l with
  | nil => rfl
  | cons b l ih =>
    obtain ⟨hb, hrest⟩ := nodup_cons.mp hnodup
    rw [updateFirst, map_cons]
    by_cases hba : b = a
    · subst hba
      have hid : l.map (fun c => if c = b then f b else c) = l := by
        rw [map_congr_left (g := id), map_id]
        intro c hc
        exact if_neg fun hcb : c = b => hb (hcb ▸ hc)
      rw [if_pos ((hp b mem_cons_self).mpr rfl), if_pos rfl, hid]
    · have hno : ¬p b = true := fun hpb => hba ((hp b mem_cons_self).mp hpb)
      rw [if_neg hno, if_neg hba, ih hrest fun c hc => hp c (mem_cons_of_mem b hc)]

theorem confirmedKind_text (kind : ChatEventKind) (kindId : UInt64) :
    (confirmedKind kind kindId).text? = kind.text? := by
  cases kind with
  | message body =>
    unfold confirmedKind
    dsimp only
    split
    · rfl
    · split <;> rfl
  | richMessage | action | notice | system | upload => rfl

/-- The events of a session after an acknowledgement: the echo of the send is rewritten, the others
stay. -/
def AnswersOnly (s : LinkedClient) (c : LiveClient) (sessionId : ChatSessionId) (seq : UInt32) : Prop :=
  ∀ other session, c.sessions other = some session → ∃ before,
    s.client.sessions other = some before ∧
    (session.events = before.events ∨ other = sessionId ∧ ∃ ack echo, (seq, echo) ∈ s.links sessionId ∧
      session.events = before.events.map (fun event =>
        if event = echo then confirmEvent ack echo else event))

/-- An acknowledgement is applied to the echo of its send, or to nothing. -/
theorem applyMessageAck_cases (h : s.Identified log) (sessionId : ChatSessionId) (seq : UInt32)
    (body : FrameBody) (now : Int64) :
    applyMessageAck s.client sessionId seq body now = s.client ∨
      ∃ session ack echo, s.client.sessions sessionId = some session ∧
        parseMessageAck body now = some ack ∧ (seq, echo) ∈ s.links sessionId ∧
        echo ∈ session.events ∧
        applyMessageAck s.client sessionId seq body now =
          (s.client.setSession sessionId { session with
            events := session.events.map (fun event =>
              if event = echo then confirmEvent ack echo else event) }).removePending
                (sessionId, seq) := by
  unfold applyMessageAck
  split
  · exact .inl rfl
  · next pending hpending =>
    split
    · next tempEventId ack session htemp hack hsession =>
      dsimp only
      split
      · next hany =>
        obtain ⟨entry, hfind, rfl⟩ := Option.map_eq_some_iff.mp hpending
        have hentry := mem_of_find?_eq_some hfind
        have hname : entry.1 = (sessionId, seq) := by simpa using find?_some hfind
        obtain ⟨echo, hecho, hkey⟩ := h.waits entry hentry tempEventId htemp
        rw [hname] at hecho
        have hsame : ∀ event ∈ session.events,
            (event.key == (entry.2.roomId, tempEventId)) = true ↔ event = echo := by
          intro event hevent
          rw [beq_iff_eq, ← hkey]
          constructor
          · exact h.echoes sessionId session hsession _ hecho event hevent
          · rintro rfl
            rfl
        obtain ⟨event, hevent, hmatch⟩ := any_eq_true.mp hany
        have hnodup : session.events.Nodup := List.Nodup.of_map _ (h.keys sessionId session hsession)
        refine .inr ⟨session, ack, echo, hsession, hack, hecho,
          (hsame event hevent).mp hmatch ▸ hevent, ?_⟩
        rw [updateFirst_eq_map hnodup hsame]
      · exact .inl rfl
    · exact .inl rfl

theorem messageAck_answersOnly {now : Int64} (h : s.Identified log) :
    AnswersOnly s (applyMessageAck s.client sessionId seq body now) sessionId seq := by
  intro other after hafter
  rcases applyMessageAck_cases h sessionId seq body now with
    hsame | ⟨session, ack, echo, hsession, _, hecho, _, hmade⟩
  · rw [hsame] at hafter
    exact ⟨after, hafter, .inl rfl⟩
  · rw [hmade] at hafter
    change (if other = sessionId then _ else s.client.sessions other) = _ at hafter
    split at hafter
    · next hid =>
      cases hafter
      exact ⟨session, hid ▸ hsession, .inr ⟨hid, ack, echo, hecho, rfl⟩⟩
    · exact ⟨after, hafter, .inl rfl⟩

theorem messageAck_identified {now : Int64} (h : s.Identified log)
    (ht : Truthful log s (.messageAck sessionId seq body now))
    (hclear : Clear s (.messageAck sessionId seq body now)) :
    LinkedClient.Identified log { s with
      client := applyMessageAck s.client sessionId seq body now } := by
  rcases applyMessageAck_cases h sessionId seq body now with
    hsame | ⟨session, ack, echo, hsession, hack, hecho, hin, hmade⟩
  · rw [hsame]
    exact h
  rw [hmade]
  have hkeys := h.keys sessionId session hsession
  have hconfirmed : Confirms log (confirmEvent ack echo) := by
    obtain ⟨hserver, htext⟩ := ht ack echo hack hecho
    refine ⟨hserver, fun text hkind => htext text ?_⟩
    rw [← hkind]
    exact (confirmedKind_text echo.kind ack.kindId).symm
  refine h.of_log (fun other after hafter => ?_)
    (fun entry hentry => .inl (mem_removePending hentry)) fun _ => Nat.le_refl _
  change (if other = sessionId then _ else s.client.sessions other) = _ at hafter
  split at hafter
  · next hid =>
    cases hafter
    refine ⟨?_, fun event hevent => ?_⟩
    · rw [map_map]
      refine List.Nodup.map_on ?_ (List.Nodup.of_map _ hkeys)
      intro a ha b hb hab
      simp only [Function.comp] at hab
      -- no other event has the key the echo is given
      have hfree := hclear ack echo session hack hecho hsession
      by_cases hae : a = echo
      · by_cases hbe : b = echo
        · rw [hae, hbe]
        · rw [if_pos hae, if_neg hbe] at hab
          exact absurd hab.symm (hfree b hb)
      · by_cases hbe : b = echo
        · rw [if_neg hae, if_pos hbe] at hab
          exact absurd hab (hfree a ha)
        · rw [if_neg hae, if_neg hbe] at hab
          exact inj_on_of_nodup_map hkeys ha hb hab
    · obtain ⟨before, hbefore, rfl⟩ := mem_map.mp hevent
      split
      · exact .inl hconfirmed
      · exact .inr ⟨session, hid ▸ hsession, hbefore⟩
  · exact ⟨h.keys other after hafter, fun event hevent => .inr ⟨after, hafter, hevent⟩⟩

/-! Whole runs. -/

theorem echoStep_identified {i : EchoInput} (h : s.Identified log)
    (hi : Truthful log s i ∧ Clear s i) : (echoStep retainedBytes s i).2.Identified log := by
  obtain ⟨ht, hclear⟩ := hi
  cases i with
  | openServer sessionId serverId => exact openServer_identified h
  | reconnect sessionId sameDestination => exact reconnect_identified h
  | send | sendDurable => exact send_identified h hclear
  | request sessionId waits => exact request_identified h
  | joinAccept sessionId roomId => exact joinAccept_identified h
  | roomEvent sessionId roomId body => exact roomEvent_identified h ht
  | history sessionId roomId values => exact history_identified h ht
  | messageAck sessionId seq body now => exact messageAck_identified h ht hclear
  | error sessionId seq body => exact error_identified h
  | dropped => exact h

end Steps

/-- In every run against a truthful server in which no send finds its echo's id taken and no
acknowledgement an event under its own id: no two events of a session share a room and an id, every
event with a server's id carries the text the server stored under it, and an acknowledgement rewrites
the echo of the send it answers and nothing else. -/
theorem event_identity_kept (retainedBytes : ChatEvent → Nat) (log : ServerLog)
    (is : List EchoInput)
    (hrun : Meets (echoStep retainedBytes) (fun s i => Truthful log s i ∧ Clear s i) .new is) :
    let s := (run (echoStep retainedBytes) .new is).2
    (∀ sessionId session, s.client.sessions sessionId = some session →
      (session.events.map (fun event => (event.roomId, event.eventId))).Nodup) ∧
    (∀ sessionId session, s.client.sessions sessionId = some session →
      ∀ event ∈ session.events, IsServerId event.eventId → ∀ text, event.kind.text? = some text →
        log event.roomId event.eventId = some text) ∧
    ∀ sessionId seq body now,
      AnswersOnly s (echoNext retainedBytes s (.messageAck sessionId seq body now)).client sessionId
        seq := by
  have hidentified := run_invariant (I := LinkedClient.Identified log)
    (fun _ _ h hi => echoStep_identified h hi) .new is hrun (LinkedClient.identified_new log)
  refine ⟨hidentified.keys, ?_, fun sessionId seq body now => messageAck_answersOnly hidentified⟩
  intro sessionId session hsession event hevent hserver
  exact (hidentified.texts sessionId session hsession event hevent hserver).2

/-! Two runs. -/

/-- Event 8 of every room says "second". -/
def secondOnly : ServerLog := fun _ eventId => if eventId = 8 then some "second" else none

def textSend (body : String) : RoomTextSend :=
  { body
    op := .roomMessage
    metadata := none
    mutationId := none
    admitted := true
    transmitted := true
    now := 5 }

def echoRun (is : List EchoInput) : LinkedClient := (run (echoStep fun _ => 0) .new is).2

def onceSent : List EchoInput := [.openServer 1 "server", .send 1 (textSend "second")]

/-- The echo that waits under sequence number 3 of room 1. -/
def thirdEcho (body : String) : ChatEvent :=
  { serverId := "server"
    roomId := 1
    eventId := localEchoEventId 3
    actorUserId := none
    actorDisplayName := some "You"
    atUnix := 5
    kind := .message body }

def ackOfEight : FrameBody := .fields [.u64 8]

theorem ackOfEight_truthful {s : LinkedClient} (h : s.links 1 = [(3, thirdEcho "second")]) :
    Truthful secondOnly s (.messageAck 1 3 ackOfEight 5) := by
  intro ack echo hack hecho
  rw [h, mem_singleton] at hecho
  cases hecho
  cases hack
  have hserver : ((8 : UInt64).toNat : Int) ≤ i64Max := by decide
  refine ⟨hserver, fun text htext => ?_⟩
  cases htext
  rfl

/-- A message is sent and acknowledged. -/
theorem event_identity_kept_once :
    let s := (run (echoStep fun _ => 0) .new (onceSent ++ [.messageAck 1 3 ackOfEight 5])).2
    ∀ sessionId session, s.client.sessions sessionId = some session →
      (session.events.map (fun event => (event.roomId, event.eventId))).Nodup := by
  refine (event_identity_kept (fun _ => 0) secondOnly
    (onceSent ++ [EchoInput.messageAck 1 3 ackOfEight 5]) ?_).1
  refine ⟨⟨trivial, trivial⟩, ⟨trivial, ?_⟩, ⟨?_, ?_⟩, trivial⟩
  · intro session seq c hsession _ event hevent
    cases hsession
    cases hevent
  · exact ackOfEight_truthful rfl
  · intro ack echo session hack hecho hsession event hevent hkey
    have hlinks : (echoRun onceSent).links 1 = [(3, thirdEcho "second")] := by decide +kernel
    have hevents : ((echoRun onceSent).client.sessions 1).map ChatSessionView.events =
        some [thirdEcho "second"] := by decide +kernel
    change (echoRun onceSent).client.sessions 1 = some session at hsession
    rw [hsession, Option.map_some] at hevents
    rw [Option.some.inj hevents, mem_singleton] at hevent
    change (3, echo) ∈ (echoRun onceSent).links 1 at hecho
    rw [hlinks, mem_singleton] at hecho
    cases hecho
    cases hack
    rw [hevent] at hkey
    exact absurd (congrArg Prod.snd hkey) (by decide)

/-! What an earlier link left, and what a batch brought. -/

/-- The echo of a message whose link was lost before its answer is still in the list. -/
def resentMessage : List EchoInput :=
  [.openServer 1 "server", .send 1 (textSend "first"), .reconnect 1 true,
    .send 1 (textSend "second")]

def fetchedEvent : FrameValue :=
  .array [.u64 8, .u64 1, .u64 7, .i64 5, .string "second"]

/-- A stored mutation is sent again on the next link, when its event has come with the history. -/
def resentMutation (mutationId : MutationId) : List EchoInput :=
  [.openServer 1 "server", .sendDurable 1 mutationId (textSend "second"), .reconnect 1 true,
    .history 1 (some 1) [fetchedEvent], .sendDurable 1 mutationId (textSend "second")]

def sixteenZeros : MutationId := ⟨replicate 16 0, by decide⟩

/-- The server's frames are true to its log. Then the answer to the second message gives its event
the text of the first, and the answer to the mutation gives two events one id. -/
theorem event_identity_lost :
    (Meets (echoStep fun _ => 0) (Truthful secondOnly) .new
        (resentMessage ++ [.messageAck 1 3 ackOfEight 5]) ∧
      ((echoRun (resentMessage ++ [.messageAck 1 3 ackOfEight 5])).client.sessions 1).map
        (fun session => session.events.map (fun event => (event.eventId, event.kind.text?))) =
          some [(8, some "first")] ∧ secondOnly 1 8 = some "second") ∧
    (Meets (echoStep fun _ => 0) (Truthful secondOnly) .new
        (resentMutation sixteenZeros ++ [.messageAck 1 3 ackOfEight 5]) ∧
      ((echoRun (resentMutation sixteenZeros ++ [.messageAck 1 3 ackOfEight 5])).client.sessions 1).map
        (fun session => session.events.map ChatEvent.key) = some [(1, 8), (1, 8)]) := by
  refine ⟨⟨⟨trivial, trivial, trivial, trivial, ackOfEight_truthful rfl, trivial⟩, by decide +kernel, rfl⟩,
    ⟨trivial, trivial, trivial, ?_, trivial, ackOfEight_truthful rfl, trivial⟩, by decide +kernel⟩
  intro session hsession value hvalue event hevent
  cases hsession
  rw [mem_singleton.mp hvalue] at hevent
  cases hevent
  have hserver : ((8 : UInt64).toNat : Int) ≤ i64Max := by decide
  refine ⟨hserver, fun text htext => ?_⟩
  cases htext
  rfl

end Omen.Client
