import OmenBrowser.Client.History
import OmenBrowser.Protocol.Durable

/- Local echoes and their acknowledgements (`chat/live.rs`).

   A room text that is sent is shown at once: an echo is put into the session's events, under an id
   made of the frame's sequence number, and is waited for. The acknowledgement names the event the
   server stored, and the echo is rewritten to it in place. Sequence numbers start again with each
   link of a session.

   Correspondence (Rust ↔ Lean):
     `reserve_sequence_range`                          ↔ `reserveSequenceRange`
     `send_live_room_text`                             ↔ `sendLiveRoomText`
     `send_uncertain_durable_room_text`                ↔ `sendUncertainDurableRoomText`
     `append_pending_local_echo`, `append_event`       ↔ `localEcho`, `appendEvent`
     `apply_message_ack`                               ↔ `applyMessageAck`
     `apply_durable_terminal_error`                    ↔ `applyDurableTerminalError`
     the `RoomEvent` arm of the frame dispatch         ↔ `applyRoomEvent`
     `retire_session_link_state`                       ↔ `retireSessionLinkState`
     `reconnect_live_server`, `open_live_server`       ↔ `reconnectLiveServer`, `openLiveServer`
   What of a send is decided by other parts of the client (the right to publish, the negotiated
   capabilities, the bound of the queue, the stored intent) and what the transport says of a frame
   are inputs; unread counts, statuses and the answers to the user interface are left out. -/
namespace Omen.Client
open Wire Sql Ints Text Omen.Protocol

variable {sessionId : ChatSessionId}

structure PendingLocalEcho where
  roomId : UInt32
  tempEventId : Option UInt64
  mutationId : Option MutationId

/-- What of the client and its live state the events of a session depend on. The key of a pending
echo is a session and a sequence number. -/
structure LiveClient where
  sessions : ChatSessionId → Option ChatSessionView
  pendingLocalEchoes : List ((ChatSessionId × UInt32) × PendingLocalEcho)
  nextSeqBySession : ChatSessionId → Option Nat

def LiveClient.new : LiveClient := ⟨fun _ => none, [], fun _ => none⟩

namespace LiveClient

def setSession (c : LiveClient) (sessionId : ChatSessionId) (session : ChatSessionView) :
    LiveClient :=
  { c with sessions := fun other => if other = sessionId then some session else c.sessions other }

/-- `session.events = ..`, where there is a session. -/
def updateSession (c : LiveClient) (sessionId : ChatSessionId)
    (f : ChatSessionView → ChatSessionView) : LiveClient :=
  match c.sessions sessionId with
  | none => c
  | some session => c.setSession sessionId (f session)

def pending? (c : LiveClient) (key : ChatSessionId × UInt32) : Option PendingLocalEcho :=
  (c.pendingLocalEchoes.find? (fun entry => entry.1 == key)).map Prod.snd

def insertPending (c : LiveClient) (key : ChatSessionId × UInt32) (pending : PendingLocalEcho) :
    LiveClient :=
  { c with
    pendingLocalEchoes := (key, pending) :: c.pendingLocalEchoes.filter (fun entry => entry.1 != key) }

def removePending (c : LiveClient) (key : ChatSessionId × UInt32) : LiveClient :=
  { c with pendingLocalEchoes := c.pendingLocalEchoes.filter (fun entry => entry.1 != key) }

end LiveClient

namespace LiveClient
variable {c : LiveClient} {sessionId other : ChatSessionId} {f : ChatSessionView → ChatSessionView}

theorem sessions_setSession {session : ChatSessionView} : (c.setSession sessionId session).sessions other =
    if other = sessionId then some session else c.sessions other := rfl

theorem sessions_updateSession : (c.updateSession sessionId f).sessions other =
    if other = sessionId then (c.sessions sessionId).map f else c.sessions other := by
  unfold updateSession
  split
  · next hnone =>
    split
    · next hsame => rw [hsame, hnone, Option.map_none]
    · rfl
  · next session hsome => rw [sessions_setSession, hsome, Option.map_some]

theorem pendingLocalEchoes_updateSession :
    (c.updateSession sessionId f).pendingLocalEchoes = c.pendingLocalEchoes := by
  unfold updateSession
  split <;> rfl

theorem nextSeqBySession_updateSession :
    (c.updateSession sessionId f).nextSeqBySession = c.nextSeqBySession := by
  unfold updateSession
  split <;> rfl

end LiveClient

/-! Sequence numbers. -/

section
variable (c : LiveClient) (sessionId : ChatSessionId)

def nextSeq : Nat :=
  (c.nextSeqBySession sessionId).getD 1

/-- The first of `count` sequence numbers. -/
def reserveSequenceRange (count : Nat) : Option (Nat × LiveClient) :=
  let next := nextSeq c sessionId
  match checkedAdd next (count - 1) with
  | none => none
  | some last =>
    if count = 0 ∨ next = 0 ∨ last > u32Max then none
    else some (next, { c with
      nextSeqBySession := fun other =>
        if other = sessionId then some (saturatingCount last 1) else c.nextSeqBySession other })

def reserveSeq : Option (UInt32 × LiveClient) :=
  (reserveSequenceRange c sessionId 1).map (fun r => (UInt32.ofNat r.1, r.2))

end

/-- The numbers that are taken are the next ones, and are not taken again. -/
theorem reserveSequenceRange_some {c c' : LiveClient} {count first : Nat}
    (h : reserveSequenceRange c sessionId count = some (first, c')) :
    first = nextSeq c sessionId ∧ first ≤ u32Max ∧ c'.sessions = c.sessions ∧
      c'.pendingLocalEchoes = c.pendingLocalEchoes ∧
      ∀ other, nextSeq c' other = if other = sessionId then first + count else nextSeq c other := by
  unfold reserveSequenceRange at h
  dsimp only at h
  split at h
  · cases h
  · next last hlast =>
    obtain ⟨rfl, _⟩ := checkedAdd_some.mp hlast
    split at h
    · cases h
    · next hrange =>
      rw [not_or, not_or, Nat.not_lt] at hrange
      obtain ⟨hcount, hfirst, hmax⟩ := hrange
      cases h
      refine ⟨rfl, by omega, rfl, rfl, fun other => ?_⟩
      have hlast : saturatingCount (nextSeq c sessionId + (count - 1)) 1 =
          nextSeq c sessionId + count := by
        unfold saturatingCount u64Max
        unfold u32Max at hmax
        omega
      by_cases hsame : other = sessionId
      · simp only [nextSeq, if_pos hsame, Option.getD_some]
        exact hlast
      · simp only [nextSeq, if_neg hsame]

theorem reserveSeq_some {c c' : LiveClient} {seq : UInt32}
    (h : reserveSeq c sessionId = some (seq, c')) :
    seq.toNat = nextSeq c sessionId ∧ c'.sessions = c.sessions ∧
      c'.pendingLocalEchoes = c.pendingLocalEchoes ∧
      ∀ other, nextSeq c' other = if other = sessionId then seq.toNat + 1 else nextSeq c other := by
  obtain ⟨⟨first, c₁⟩, hrange, hpair⟩ := Option.map_eq_some_iff.mp h
  cases hpair
  obtain ⟨rfl, hmax, hrest⟩ := reserveSequenceRange_some hrange
  have hseq : (UInt32.ofNat (nextSeq c sessionId)).toNat = nextSeq c sessionId := by
    exact UInt32.toNat_ofNat_of_lt' (Nat.lt_of_le_of_lt hmax (by decide))
  rw [hseq]
  exact ⟨rfl, hrest⟩

/-! Echoes. -/

def localEchoEventId (seq : UInt32) : UInt64 := UInt64.ofNat (u64Max - seq.toNat)

/-- The `match op` of the echo. -/
def localEchoKind (op : ChatOp) (metadata : Option ChatMessageMetadata) (body : String) :
    ChatEventKind :=
  match op, metadata with
  | .roomAction, _ => .action body
  | .roomNotice, _ => .notice body
  | _, some metadata => .richMessage body metadata
  | _, none => .message body

def localEcho (session : ChatSessionView) (roomId : UInt32) (seq : UInt32) (body : String)
    (op : ChatOp) (metadata : Option ChatMessageMetadata) (now : Int64) : ChatEvent :=
  { serverId := session.serverId
    roomId
    eventId := localEchoEventId seq
    actorUserId := none
    actorDisplayName := some "You"
    atUnix := now
    kind := localEchoKind op metadata body }

/-- A text to be sent, with the time and with what the rest of the client says of it. -/
structure RoomTextSend where
  body : String
  op : ChatOp
  metadata : Option ChatMessageMetadata
  mutationId : Option MutationId
  admitted : Bool
  transmitted : Bool
  now : Int64

section Window
variable (retainedBytes : ChatEvent → Nat)

def appendEvent (session : ChatSessionView) (event : ChatEvent) (sortAfter : Bool) :
    ChatSessionView :=
  if session.events.any (fun existing => existing.key == event.key) then session
  else
    (appendEventBounded retainedBytes session event sortAfter
      (if sortAfter then .oldest else .newest)).2

section
variable (c : LiveClient) (sessionId : ChatSessionId)

/-- The part the two senders share. The echo, with its sequence number, if one is waited for. -/
def sendRoomText (send : RoomTextSend)
    (tracked : Bool) : Option (UInt32 × ChatEvent) × LiveClient :=
  match c.sessions sessionId with
  | none => (none, c)
  | some session =>
    if send.admitted = false then (none, c)
    else
      match reserveSeq c sessionId with
      | none => (none, c)
      | some (seq, c) =>
        -- the sequence number is spent even if nothing was sent
        if send.transmitted = false ∨ tracked = false then (none, c)
        else
          let echo := localEcho session session.activeRoomId seq send.body send.op send.metadata
            send.now
          let c := c.updateSession sessionId (fun session =>
            appendEvent retainedBytes session echo false)
          (some (seq, echo), c.insertPending (sessionId, seq)
            { roomId := session.activeRoomId
              tempEventId := some echo.eventId
              mutationId := send.mutationId })

/-- Notices are sent without waiting for an answer. -/
def sendLiveRoomText (send : RoomTextSend) : Option (UInt32 × ChatEvent) × LiveClient :=
  sendRoomText retainedBytes c sessionId { send with metadata := none, mutationId := none }
    (send.op == .roomMessage || send.op == .roomAction)

def sendUncertainDurableRoomText (mutationId : MutationId) (send : RoomTextSend) :
    Option (UInt32 × ChatEvent) × LiveClient :=
  sendRoomText retainedBytes c sessionId { send with mutationId := some mutationId } true

end

/-! Frames. -/

def bodyValues : FrameBody → Option (List FrameValue)
  | .fields values => some values
  | _ => none

section
variable (c : LiveClient) (sessionId : ChatSessionId) (roomId : Option UInt32)

def applyRoomEvent (body : FrameBody) : LiveClient :=
  c.updateSession sessionId (fun session =>
    match (bodyValues body).bind List.head? with
    | none => session
    | some value =>
      match parseEvent session.serverId (roomId.getD 1) value with
      | none => session
      | some event => appendEvent retainedBytes session event false)

def applyHistory (values : List FrameValue) : LiveClient :=
  c.updateSession sessionId (fun session => applyHistoryBatch retainedBytes session roomId values)

end

end Window

/-! Acknowledgements. -/

/-- `iter_mut().find(..)`: the first that meets a condition is changed. -/
def updateFirst {α : Type} (p : α → Bool) (f : α → α) : List α → List α
  | [] => []
  | a :: l => if p a then f a :: l else a :: updateFirst p f l

/-- An acknowledgement makes actions and notices of plain messages only. -/
def confirmedKind (kind : ChatEventKind) (kindId : UInt64) : ChatEventKind :=
  match kind with
  | .message body =>
    if kindId = 2 then .action body else if kindId = 3 then .notice body else .message body
  | kind => kind

/-- What an acknowledgement says of an event. -/
structure MessageAck where
  eventId : UInt64
  kindId : UInt64
  actorUserId : Option UserId
  atUnix : Int64
  actorDisplayName : Option String

variable (body : FrameBody)

def parseMessageAck (now : Int64) : Option MessageAck := do
  let values ← bodyValues body
  let eventId ← values[0]?.bind fieldU64
  pure
    { eventId
      kindId := (values[1]?.bind fieldU64).getD 1
      actorUserId := (values[2]?.bind fieldU64).bind (fun value =>
        if value.toNat ≤ u32Max then some value.toUInt32 else none)
      atUnix := (values[3]?.bind fieldI64).getD now
      actorDisplayName := ((values[4]?.bind fieldStr).map trim).filter (fun name => name != "") }

def confirmEvent (ack : MessageAck) (event : ChatEvent) : ChatEvent :=
  { event with
    eventId := ack.eventId
    actorUserId := ack.actorUserId
    actorDisplayName := ack.actorDisplayName
    atUnix := ack.atUnix
    kind := confirmedKind event.kind ack.kindId }

def applyMessageAck (c : LiveClient) (sessionId : ChatSessionId) (seq : UInt32) (body : FrameBody)
    (now : Int64) : LiveClient :=
  match c.pending? (sessionId, seq) with
  | none => c
  | some pending =>
    match pending.tempEventId, parseMessageAck body now, c.sessions sessionId with
    | some tempEventId, some ack, some session =>
      let isEcho := fun event : ChatEvent => event.key == (pending.roomId, tempEventId)
      if session.events.any isEcho then
        (c.setSession sessionId { session with
          events := updateFirst isEcho (confirmEvent ack) session.events }).removePending (sessionId, seq)
      else c
    | _, _, _ => c

/-- `frame_error_code`. -/
def frameErrorCode : Option Nat := do
  let values ← bodyValues body
  let code ← values[0]?.bind fieldU64
  if code.toNat < 2 ^ 16 then some code.toNat else none

/-- Conflict, expiry and slow mode. -/
def isTerminalErrorCode (code : Nat) : Bool := code == 1013 || code == 1014 || code == 1017

section
variable (c : LiveClient) (sessionId : ChatSessionId)

def applyDurableTerminalError (seq : UInt32) (body : FrameBody) : LiveClient :=
  if (frameErrorCode body).any isTerminalErrorCode = false then c
  else
    match c.pending? (sessionId, seq) with
    | none => c
    | some pending =>
      if pending.mutationId = none then c
      else
        let c := c.removePending (sessionId, seq)
        match pending.tempEventId with
        | none => c
        | some tempEventId => c.updateSession sessionId (fun session =>
          { session with
            events := session.events.filter (fun event => event.key != (pending.roomId, tempEventId)) })

/-! Links. -/

/-- The keys of the retired echoes: those of durable mutations. -/
def retiredEchoes : List EventKey :=
  c.pendingLocalEchoes.filterMap (fun entry =>
    if entry.1.1 = sessionId ∧ entry.2.mutationId ≠ none then
      entry.2.tempEventId.map (fun eventId => (entry.2.roomId, eventId))
    else none)

def retireSessionLinkState : LiveClient :=
  { c with
    pendingLocalEchoes := c.pendingLocalEchoes.filter (fun entry => entry.1.1 != sessionId)
    nextSeqBySession := fun other => if other = sessionId then none else c.nextSeqBySession other }

/-- The session is opened and its room joined: two sequence numbers. -/
def sendSessionOpenAndJoin : LiveClient :=
  match reserveSequenceRange c sessionId 2 with
  | none => c
  | some (_, c) => c

def reconnectLiveServer (sameDestination : Bool) : LiveClient :=
  match c.sessions sessionId with
  | none => c
  | some session =>
    if sameDestination = false then c
    else
      let retired := retiredEchoes c sessionId
      let c := retireSessionLinkState c sessionId
      sendSessionOpenAndJoin (c.setSession sessionId { session with
        events := session.events.filter (fun event => !retired.contains event.key) }) sessionId

/-- A session under an id that is not in use. -/
def openLiveServer (serverId : String) : LiveClient :=
  match c.sessions sessionId with
  | some _ => c
  | none =>
    sendSessionOpenAndJoin
      (c.setSession sessionId { serverId, activeRoomId := 1, events := [] }) sessionId

/-- `JoinAccept`: the room is the active one from now on. -/
def applyJoinAccept (roomId : UInt32) : LiveClient :=
  c.updateSession sessionId (fun session => { session with activeRoomId := roomId })

end

end Omen.Client
