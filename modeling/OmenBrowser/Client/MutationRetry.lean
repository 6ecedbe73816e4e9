import OmenBrowser.Client.MutationIntents
import OmenBrowser.Client.Projections
import OmenBrowser.Protocol.ProjectionRequests
import OmenBrowser.Server.DurableSession

/- Retrying a mutation that was recovered from the journal (`desktop/omenchat_mutations.rs`,
   `desktop/omenchat_update.rs`).

   A retry sends the persisted request once more, under its own mutation id. The gate looks the
   session up again, the first one to the server that has the room, and asks of it what the
   operation needs. For a pin it asks for more than the others do: the pins as the client has them
   now must allow the very action of the request, so a pin that was executed, with its
   acknowledgement lost, is not sent again. A change of the nickname's colour belongs to no room,
   and the gate takes that for a defect of the intent (`retry_nicknameColour`).

   Correspondence (Rust ↔ Lean):
     `self.omenchat`, what the gate reads of it ↔ `DesktopChat`
     `try_prepare(..)` in the prepare functions ↔ `Prepares`, without their own conditions
     `current_unix_seconds()`                   ↔ the parameter `now` -/
namespace Omen.Client
open Wire Sql Omen.Protocol Outcome
open Omen.Server (colourValue)

-- `∀ c ∈ chars` is decided along the list, not over every character there is
attribute [local instance (high)] List.decidableBAll

/-! What the gate reads. -/

structure OpenRoom where
  roomId : UInt32
  joined : Bool

structure OpenUser where
  userId : UserId
  roleBits : UInt64
  statusBits : UInt32

structure OpenSession where
  sessionId : ChatSessionId
  serverId : String
  serverDestination : String
  rooms : List OpenRoom
  activeRoomId : UInt32
  users : List OpenUser
  events : List ChatEvent

structure PendingMutation where
  sessionId : ChatSessionId
  roomId : UInt32
  mutationId : Option MutationId
  /-- The target of a pin that is waited for. -/
  pinTarget : Option EventId

structure DesktopChat where
  authenticatedIdentityHash : Option Bytes
  clientInstanceId : Option ClientInstanceId
  sessions : List OpenSession
  liveTransports : Finset ChatSessionId
  durableSessions : Finset ChatSessionId
  durableNoticeAckSessions : Finset ChatSessionId
  replyMentionsSessions : Finset ChatSessionId
  reactionSessions : Finset ChatSessionId
  messageRevisionSessions : Finset ChatSessionId
  pinSessions : Finset ChatSessionId
  nicknameColourSessions : Finset ChatSessionId
  pendingLocalEchoes : List PendingMutation
  pendingPinConfirmations : Finset (ChatSessionId × UInt32 × EventId)
  localUserIds : List (String × UserId)
  messageRevisions : Table ChatMessageRevision.key
  pins : Table ChatPin.key
  authoritativePinTargets : Finset Target

def chatStatusBanned : UInt32 := 1
def chatRoleModerator : UInt64 := 2
def chatRoleAdmin : UInt64 := 4

/-! What is prepared. -/

def userCommands : List String := ["role", "unban", "kick", "ban", "mute", "unmute"]

/-- What the client's prepare functions hand to the journal. -/
inductive Prepares : ChatOp → Option UInt32 → FrameBody → Prop
  | nicknameColour (colour : Option Nat) :
    Prepares .nicknameColourSet none (.fields [colourValue colour])
  | reaction {target : UInt64} {token : ReactionToken} {action : ReactionAction} {body : FrameBody}
    (roomId : UInt32) (h : ReactionRequest.intoFrameBody target token action = .ok body) :
    Prepares .roomReaction (some roomId) body
  | revision {target : UInt64} {action : MessageRevisionAction} {replacement : Option String}
    {body : FrameBody} (roomId : UInt32)
    (h : MessageRevisionRequest.intoFrameBody target action replacement = .ok body) :
    Prepares .roomMessageRevision (some roomId) body
  | pin {target : UInt64} {action : PinAction} {body : FrameBody} (roomId : UInt32)
    (h : PinRequest.intoFrameBody target action = .ok body) : Prepares .roomPin (some roomId) body
  | me (roomId : UInt32) (text : String) : Prepares .roomAction (some roomId) (.text text)
  | notice (roomId : UInt32) (text : String) : Prepares .roomNotice (some roomId) (.text text)
  | part (roomId : UInt32) : Prepares .partRoom (some roomId) .empty
  | topic (roomId : UInt32) (topic : String) :
    Prepares .command (some roomId) (.text (Text.trim ("topic" ++ " " ++ topic)))
  | createRoom (room : String) (topic : Option String) :
    Prepares .command none (.text ("create" ++ " " ++ (room ++ topic.elim "" (" " ++ ·))))
  | user {name : String} (roomId : UInt32) (hname : name ∈ userCommands) (rest : String) :
    Prepares .command (some roomId) (.text (name ++ " " ++ rest))
  | message (roomId : UInt32) (text : String) : Prepares .roomMessage (some roomId) (.text text)
  | richMessage {message : RichMessageBody} {body : FrameBody} (roomId : UInt32)
    (h : message.intoFrameBody? = some body) : Prepares .roomMessage (some roomId) body

/-! The gate. -/

def OutboundMutationIntent.commandName (intent : OutboundMutationIntent) : Option String :=
  match intent.op, intent.body with
  | .command, .text command => Text.firstWord command
  | _, _ => none

/-- The commands that may be retried. -/
def retryableCommands : List String := ["topic", "create"] ++ userCommands

theorem firstWord_append {name tail : List Char} (hname : ∀ a ∈ name, Text.isWhitespace a = false)
    (hne : name ≠ []) (htail : ∀ a, tail.head? = some a → Text.isWhitespace a = true) :
    Text.firstWord (String.ofList (name ++ tail)) = some (String.ofList name) := by
  have hdrop : (name ++ tail).dropWhile Text.isWhitespace = name ++ tail := by
    obtain ⟨a, rest, rfl⟩ := List.exists_cons_of_ne_nil hne
    simp [hname a List.mem_cons_self]
  have hrest : tail.takeWhile (fun a => !Text.isWhitespace a) = [] := by
    cases tail with
    | nil => rfl
    | cons a rest => simp [htail a rfl]
  have htake : (name ++ tail).takeWhile (fun a => !Text.isWhitespace a) = name := by
    rw [List.takeWhile_append_of_pos (by simpa using hname), hrest, List.append_nil]
  unfold Text.firstWord
  rw [String.toList_ofList, hdrop, htake]
  cases name with
  | nil => exact absurd rfl hne
  | cons a rest => rfl

/-- The name of a command is its first word. -/
theorem firstWord_command {name : String} (hname : name ∈ retryableCommands) (rest : String) :
    Text.firstWord (name ++ " " ++ rest) = some name := by
  have hword : ∀ n ∈ retryableCommands, n.toList ≠ [] ∧
      ∀ a ∈ n.toList, Text.isWhitespace a = false := by decide
  have hsplit : name ++ " " ++ rest = String.ofList (name.toList ++ (' ' :: rest.toList)) := by
    apply String.toList_injective
    simp
  rw [hsplit, firstWord_append (hword name hname).2 (hword name hname).1 (fun a ha => ?_),
    String.ofList_toList]
  cases ha
  decide

theorem takeWhile_spaced (front : List Char) {back : List Char}
    (hback : ∀ a ∈ back, Text.isWhitespace a = true) :
    (front ++ back).takeWhile (fun a => !Text.isWhitespace a) =
      front.takeWhile (fun a => !Text.isWhitespace a) := by
  induction front with
  | nil =>
    cases back with
    | nil => rfl
    | cons a rest => simp [hback a List.mem_cons_self]
  | cons a rest ih =>
    by_cases ha : Text.isWhitespace a = true
    · simp [ha]
    · simp [ha, ih]

/-- Trimming leaves the first word. -/
theorem firstWord_trim (s : String) : Text.firstWord (Text.trim s) = Text.firstWord s := by
  have hwhole : s.toList.dropWhile Text.isWhitespace = Text.trimChars s.toList ++
      (s.toList.dropWhile Text.isWhitespace).rtakeWhile Text.isWhitespace :=
    List.rdropWhile_append_rtakeWhile.symm
  have hback := takeWhile_spaced (Text.trimChars s.toList)
    (fun a ha => List.mem_rtakeWhile_imp (l := s.toList.dropWhile Text.isWhitespace) ha)
  have hfront : (Text.trimChars s.toList).dropWhile Text.isWhitespace = Text.trimChars s.toList :=
    Text.dropWhile_trimChars s.toList
  unfold Text.firstWord
  rw [hwhole, hback, show (Text.trim s).toList = Text.trimChars s.toList from String.toList_ofList,
    hfront]

/-- The condition of `sessions().iter().find(..)`. -/
def OutboundMutationIntent.opensIn (intent : OutboundMutationIntent) (s : OpenSession) : Bool :=
  s.serverDestination == intent.serverDestination &&
    (intent.commandName == some "create" ||
      if intent.op == .partRoom || intent.commandName.any userCommands.contains then
        s.rooms.any (fun room => some room.roomId == intent.roomId)
      else some s.activeRoomId == intent.roomId)

variable {intent : OutboundMutationIntent}

/-- What a prepared request for a room, or for a new one, says of itself. -/
theorem Prepares.scoped (h : Prepares intent.op intent.roomId intent.body)
    (hcolour : intent.op ≠ .nicknameColourSet) :
    (intent.op = .command → intent.commandName.any retryableCommands.contains = true) ∧
      (intent.commandName = some "create" ↔ intent.roomId = none) := by
  have hcommand : ∀ name ∈ retryableCommands, ∀ rest, intent.op = .command →
      intent.body = .text (name ++ " " ++ rest) → intent.commandName = some name := by
    intro name hname rest hop hbody
    simp only [OutboundMutationIntent.commandName, hop, hbody, firstWord_command hname]
  have hother : intent.op ≠ .command → intent.commandName = none := by
    intro hop
    unfold OutboundMutationIntent.commandName
    split
    · exact absurd ‹_› hop
    · rfl
  generalize hop : intent.op = op at h hcolour
  generalize hroom : intent.roomId = roomId at h
  generalize hbody : intent.body = body at h
  cases h with
  | nicknameColour => exact absurd rfl hcolour
  | topic =>
    have hname : intent.commandName = some "topic" := by
      simp only [OutboundMutationIntent.commandName, hop, hbody, firstWord_trim]
      exact firstWord_command (by decide) _
    simp [hname, retryableCommands]
  | createRoom =>
    have hname := hcommand "create" (by decide) _ hop hbody
    simp [hname, retryableCommands]
  | user _ hmem =>
    have hname := hcommand _ (List.mem_append_right _ hmem) _ hop hbody
    refine ⟨fun _ => ?_, ?_⟩
    · simp [hname, retryableCommands, hmem]
    · rw [hname]
      refine ⟨fun hcreate => ?_, fun hnone => nomatch hnone⟩
      cases hcreate
      exact absurd hmem (by decide)
  | _ =>
    have hname := hother (by simp [hop])
    simp [hname]

/-- What was prepared can be read. -/
theorem Prepares.readable (h : Prepares intent.op intent.roomId intent.body) :
    (intent.op = .roomReaction → (ReactionRequest.fromFrameBody? intent.body).isSome) ∧
    (intent.op = .roomMessageRevision →
      (MessageRevisionRequest.fromFrameBody? intent.body).isSome) ∧
    (intent.op = .roomPin → (PinRequest.fromFrameBody? intent.body).isSome) ∧
    (intent.op = .roomPin → intent.roomId.isSome) := by
  generalize intent.op = op at h
  generalize intent.roomId = roomId at h
  generalize intent.body = body at h
  cases h with
  | reaction _ hbody => simp [ReactionRequest.fromFrameBody?_written hbody]
  | revision _ hbody => simp [MessageRevisionRequest.fromFrameBody?_written hbody]
  | pin _ hbody => simp [PinRequest.fromFrameBody?_written hbody]
  | _ => simp

namespace DesktopChat
variable (c : DesktopChat)

def session? (sessionId : ChatSessionId) : Option OpenSession :=
  c.sessions.find? (fun s => s.sessionId == sessionId)

def durableMutationIsPending (sessionId : ChatSessionId) (mutationId : MutationId) : Bool :=
  c.pendingLocalEchoes.any (fun pending => pending.sessionId == sessionId &&
    pending.mutationId == some mutationId)

def pinMutationIsPending (sessionId : ChatSessionId) (roomId : UInt32) (target : EventId) : Bool :=
  decide ((sessionId, roomId, target) ∈ c.pendingPinConfirmations) ||
    c.pendingLocalEchoes.any (fun pending => pending.sessionId == sessionId &&
      pending.roomId == roomId && pending.pinTarget == some target)

/-- The user may change pins in the room. -/
def mayPin (s : OpenSession) (roomId : UInt32) : Bool :=
  s.rooms.any (fun room => room.roomId == roomId && room.joined) &&
    match (c.localUserIds.lookup s.serverId).bind
      (fun userId => s.users.find? (fun user => user.userId == userId)) with
    | some user =>
      user.statusBits &&& chatStatusBanned == 0 &&
        user.roleBits &&& (chatRoleModerator ||| chatRoleAdmin) != 0
    | none => false

def omenchatPinActionForTarget (sessionId : ChatSessionId) (roomId : UInt32) (target : EventId) :
    Option PinAction := do
  guard (sessionId ∈ c.pinSessions ∧ sessionId ∈ c.durableSessions)
  guard (c.pinMutationIsPending sessionId roomId target = false)
  let s ← c.session? sessionId
  let key : Target := (s.serverId, roomId, target)
  guard (key ∈ c.authoritativePinTargets)
  guard (c.mayPin s roomId)
  guard (s.events.any (fun event => event.roomId == roomId && event.eventId.toNat == target &&
    chatEventSupportsPins event))
  if (c.pins.find? key).isSome then pure .unpin
  else do
    guard ((c.messageRevisions.find? key).all (fun revision => revision.action ≠ .tombstone))
    pure .pin

section
variable (intent : OutboundMutationIntent)

/-- The pins as they are known now allow the action the intent asks for. -/
def pinStillAllowed (sessionId : ChatSessionId) : Bool :=
  match PinRequest.fromFrameBody? intent.body, intent.roomId with
  | some request, some roomId =>
    c.omenchatPinActionForTarget sessionId roomId request.targetEventId == some request.action
  | _, _ => false

/-- What is asked of the session that was found. -/
def checkRetrySession (sessionId : ChatSessionId) : Except String Unit := do
  refuse (sessionId ∉ c.liveTransports)
    "the original OMENchat room has no live connection; the mutation was not sent"
  refuse (sessionId ∉ c.durableSessions)
    "the live OMENchat peer did not negotiate durable mutations; retry is unavailable"
  -- what an operation needs has to be negotiated now, whatever it was sent with
  refuse (intent.op = .roomMessage ∧ (RichMessageBody.fromFrameBody? intent.body).isSome ∧
      sessionId ∉ c.replyMentionsSessions)
    ("the live OMENchat peer did not negotiate reply-mentions-v1; this rich mutation was not " ++
      "retried")
  refuse (intent.op = .roomReaction ∧ sessionId ∉ c.reactionSessions)
    "the live OMENchat peer did not negotiate reactions-v1; this reaction was not retried"
  refuse (intent.op = .roomReaction ∧ (ReactionRequest.fromFrameBody? intent.body).isNone)
    "the recovered OMENchat reaction request is malformed; it was not sent"
  refuse (intent.op = .roomMessageRevision ∧ sessionId ∉ c.messageRevisionSessions)
    ("the live OMENchat peer did not negotiate message-revisions-v1; this revision was not " ++
      "retried")
  refuse (intent.op = .roomMessageRevision ∧
      (MessageRevisionRequest.fromFrameBody? intent.body).isNone)
    "the recovered OMENchat message revision request is malformed; it was not sent"
  refuse (intent.op = .roomPin ∧ sessionId ∉ c.pinSessions)
    "the live OMENchat peer did not negotiate room-pins-v1; this pin mutation was not retried"
  refuse (intent.op = .roomPin ∧ (PinRequest.fromFrameBody? intent.body).isNone)
    "the recovered OMENchat pin request is malformed; it was not sent"
  refuse (intent.op = .roomPin ∧ intent.roomId.isNone)
    "the recovered OMENchat pin request has no room identity; it was not sent"
  refuse (intent.op = .roomPin ∧ c.pinStillAllowed intent sessionId = false)
    ("the recovered OMENchat pin request no longer has authoritative permission evidence; " ++
      "it was not sent")
  refuse (c.durableMutationIsPending sessionId intent.mutationId)
    "this OMENchat mutation is already awaiting a response on the live session"

def recoveredOmenchatRetrySessionId (now : Int) : Except String ChatSessionId := do
  refuse (intent.state ≠ .prepared ∧ intent.state ≠ .sentUncertain)
    "recovered OMENchat mutation is not in a retryable state; no action was taken"
  refuse (intent.expiresAt ≤ now)
    "recovered OMENchat mutation is past its persisted expiry; finalize it instead"
  refuse (c.authenticatedIdentityHash ≠ some intent.authenticatedIdentityHash)
    ("recovered OMENchat mutation belongs to a different authenticated identity; it was not " ++
      "sent")
  refuse (c.clientInstanceId ≠ some intent.clientInstanceId)
    "recovered OMENchat mutation belongs to a different client instance; it was not sent"
  refuse (intent.op = .command ∧ ¬intent.commandName.any retryableCommands.contains)
    "this recovered OMENchat command is not enabled for durable retry"
  refuse (intent.commandName = some "create" ∧ intent.roomId.isSome)
    "recovered OMENchat room creation has an invalid room scope; it was not sent"
  refuse (intent.commandName ≠ some "create" ∧ intent.roomId.isNone)
    "recovered OMENchat mutation has no room identity; it was not sent"
  match c.sessions.find? intent.opensIn with
  | none => .error "open the original OMENchat server and room before retrying this mutation"
  | some s => do
    c.checkRetrySession intent s.sessionId
    pure s.sessionId

/-! What the gate lets through. -/

/-- The intent is of this identity and client instance, and is neither settled nor expired. -/
structure Current (now : Int) : Prop where
  nonterminal : intent.state = .prepared ∨ intent.state = .sentUncertain
  unexpired : now < intent.expiresAt
  identity : c.authenticatedIdentityHash = some intent.authenticatedIdentityHash
  clientInstance : c.clientInstanceId = some intent.clientInstanceId

/-- The capability of the operation, on this session. -/
def capable (sessionId : ChatSessionId) : Prop :=
  match intent.op with
  | .roomMessage => (∃ text, intent.body = .text text) ∨ sessionId ∈ c.replyMentionsSessions
  | .roomNotice => sessionId ∈ c.durableNoticeAckSessions
  | .roomReaction => sessionId ∈ c.reactionSessions
  | .roomMessageRevision => sessionId ∈ c.messageRevisionSessions
  | .roomPin => sessionId ∈ c.pinSessions
  | .nicknameColourSet => sessionId ∈ c.nicknameColourSessions
  | _ => True

/-- The session is live, with what the operation needs, and the mutation is not on its way. -/
structure Ready (s : OpenSession) : Prop where
  live : s.sessionId ∈ c.liveTransports
  durable : s.sessionId ∈ c.durableSessions
  capable : c.capable intent s.sessionId
  free : c.durableMutationIsPending s.sessionId intent.mutationId = false

end

variable {c} {now : Int} {s : OpenSession}
  {sessionId : ChatSessionId}

theorem checkRetrySession_ok : c.checkRetrySession intent sessionId = .ok () ↔
    sessionId ∈ c.liveTransports ∧ sessionId ∈ c.durableSessions ∧
    (intent.op = .roomMessage → (RichMessageBody.fromFrameBody? intent.body).isSome →
      sessionId ∈ c.replyMentionsSessions) ∧
    (intent.op = .roomReaction → sessionId ∈ c.reactionSessions) ∧
    (intent.op = .roomReaction → (ReactionRequest.fromFrameBody? intent.body).isSome) ∧
    (intent.op = .roomMessageRevision → sessionId ∈ c.messageRevisionSessions) ∧
    (intent.op = .roomMessageRevision →
      (MessageRevisionRequest.fromFrameBody? intent.body).isSome) ∧
    (intent.op = .roomPin → sessionId ∈ c.pinSessions) ∧
    (intent.op = .roomPin → (PinRequest.fromFrameBody? intent.body).isSome) ∧
    (intent.op = .roomPin → intent.roomId.isSome) ∧
    (intent.op = .roomPin → c.pinStillAllowed intent sessionId = true) ∧
    c.durableMutationIsPending sessionId intent.mutationId = false := by
  simp only [checkRetrySession, refuse_bind_ok, refuse_ok, not_and, Decidable.not_not,
    Option.isNone_eq_false_iff, Bool.not_eq_false, Bool.not_eq_true]

theorem retry_ok : c.recoveredOmenchatRetrySessionId intent now = .ok sessionId ↔
    c.Current intent now ∧
    (intent.op = .command → intent.commandName.any retryableCommands.contains = true) ∧
    (intent.commandName = some "create" ↔ intent.roomId = none) ∧
    ∃ s, c.sessions.find? intent.opensIn = some s ∧ s.sessionId = sessionId ∧
      c.checkRetrySession intent sessionId = .ok () := by
  simp only [recoveredOmenchatRetrySessionId, refuse_bind_ok]
  refine ⟨fun ⟨hstate, hexpiry, hidentity, hinstance, hcommand, hscoped, hscope, h⟩ => ?_,
    fun ⟨hcurrent, hcommand, hscope, s, hs, hid, hcheck⟩ => ?_⟩
  · have hfound : ∃ s, c.sessions.find? intent.opensIn = some s ∧ s.sessionId = sessionId ∧
        c.checkRetrySession intent sessionId = .ok () := by
      cases hs : c.sessions.find? intent.opensIn with
      | none => rw [hs] at h; cases h
      | some s =>
        rw [hs] at h
        obtain ⟨hcheck, hid⟩ := check_ok.mp h
        cases hid
        exact ⟨s, rfl, rfl, hcheck⟩
    refine ⟨⟨?_, by omega, not_not.mp hidentity, not_not.mp hinstance⟩, ?_, ⟨?_, ?_⟩, hfound⟩
    · exact (Classical.not_and_iff_not_or_not.mp hstate).imp not_not.mp not_not.mp
    · exact fun hop => not_not.mp fun hnot => hcommand ⟨hop, hnot⟩
    · exact fun hname => Option.not_isSome_iff_eq_none.mp fun hsome => hscoped ⟨hname, hsome⟩
    · exact fun hroom => not_not.mp fun hname => hscope ⟨hname, Option.isNone_iff_eq_none.mpr hroom⟩
  · refine ⟨?_, by have := hcurrent.unexpired; omega, not_not.mpr hcurrent.identity,
      not_not.mpr hcurrent.clientInstance, fun h => h.2 (hcommand h.1), fun h => ?_, fun h => ?_, ?_⟩
    · exact fun h => hcurrent.nonterminal.elim h.1 h.2
    · exact Option.not_isSome_iff_eq_none.mpr (hscope.mp h.1) h.2
    · exact h.1 (hscope.mpr (Option.isNone_iff_eq_none.mp h.2))
    · rw [hs]
      exact check_ok.mpr ⟨hid ▸ hcheck, congrArg _ hid⟩

/-- A change of the colour is never let through. -/
theorem retry_nicknameColour (hop : intent.op = .nicknameColourSet) (hroom : intent.roomId = none) :
    c.recoveredOmenchatRetrySessionId intent now ≠ .ok sessionId := by
  intro h
  have hname := (retry_ok.mp h).2.2.1.mpr hroom
  simp [OutboundMutationIntent.commandName, hop] at hname

/-- A session that is ready passes the checks, if for a pin the pins still allow it. -/
theorem Ready.checks (h : c.Ready intent s) (hprepared : Prepares intent.op intent.roomId intent.body)
    (hpin : intent.op = .roomPin → c.pinStillAllowed intent s.sessionId = true) :
    c.checkRetrySession intent s.sessionId = .ok () := by
  obtain ⟨hreaction, hrevision, hrequest, hroom⟩ := hprepared.readable
  have hcapable := h.capable
  unfold DesktopChat.capable at hcapable
  refine checkRetrySession_ok.mpr ⟨h.live, h.durable, fun hop hrich => ?_, fun hop => ?_, hreaction,
    fun hop => ?_, hrevision, fun hop => ?_, hrequest, hroom, hpin, h.free⟩
  all_goals rw [hop] at hcapable
  · refine hcapable.resolve_left fun ⟨text, hbody⟩ => ?_
    rw [hbody] at hrich
    cases hrich
  · exact hcapable
  · exact hcapable
  · exact hcapable

theorem recovered_mutation_retried (hprepared : Prepares intent.op intent.roomId intent.body)
    (hcolour : intent.op ≠ .nicknameColourSet) (hcurrent : c.Current intent now)
    (hfirst : c.sessions.find? intent.opensIn = some s) (hready : c.Ready intent s)
    (hpin : intent.op = .roomPin → c.pinStillAllowed intent s.sessionId = true) :
    c.recoveredOmenchatRetrySessionId intent now = .ok s.sessionId ∧
      s.sessionId ∈ c.liveTransports ∧ s.serverDestination = intent.serverDestination := by
  obtain ⟨hcommand, hscope⟩ := hprepared.scoped hcolour
  refine ⟨retry_ok.mpr ⟨hcurrent, hcommand, hscope, s, hfirst, rfl, ?_⟩, hready.live, ?_⟩
  · exact hready.checks hprepared hpin
  · have hopens := List.find?_some hfirst
    exact beq_iff_eq.mp (Bool.and_eq_true_iff.mp hopens).1

/-! A pin whose acknowledgement was lost. -/

def lobbySession : OpenSession :=
  { sessionId := 1
    serverId := "s"
    serverDestination := "00112233445566778899aabbccddeeff"
    rooms := [{ roomId := 1, joined := true }]
    activeRoomId := 1
    users := [{ userId := 5, roleBits := 2, statusBits := 0 }]
    events :=
      [{ serverId := "s", roomId := 1, eventId := 7, actorUserId := some 6, actorDisplayName := none
         atUnix := 0, kind := .message "hello" }] }

def lobbyChat : DesktopChat :=
  { authenticatedIdentityHash := some [1]
    clientInstanceId := some ⟨.replicate 16 2, by decide⟩
    sessions := [lobbySession]
    liveTransports := {1}
    durableSessions := {1}
    durableNoticeAckSessions := ∅
    replyMentionsSessions := ∅
    reactionSessions := ∅
    messageRevisionSessions := ∅
    pinSessions := {1}
    nicknameColourSessions := ∅
    pendingLocalEchoes := []
    pendingPinConfirmations := ∅
    localUserIds := [("s", 5)]
    messageRevisions := Table.empty
    pins := Table.empty
    authoritativePinTargets := {("s", 1, 7)} }

/-- The same chat when the pin is known to be set. -/
def pinnedChat : DesktopChat :=
  { lobbyChat with
    pins := Table.empty.put
      { serverId := "s", roomId := 1, targetEventId := 7, pinEventId := 8, actorUserId := 5
        pinnedAtUnix := 1 } }

def pinIntent : OutboundMutationIntent :=
  { serverDestination := "00112233445566778899aabbccddeeff"
    authenticatedIdentityHash := [1]
    clientInstanceId := ⟨.replicate 16 2, by decide⟩
    mutationId := ⟨.replicate 16 3, rfl⟩
    requestHash := ⟨.replicate 32 4, rfl⟩
    op := .roomPin
    roomId := some 1
    body := .fields [.string roomPinBodyTag, .u64 7, .u64 1]
    state := .sentUncertain
    createdAt := 0
    expiresAt := 100
    correlationId := none }

theorem pinIntent_prepared : Prepares pinIntent.op pinIntent.roomId pinIntent.body :=
  .pin 1 (show PinRequest.intoFrameBody 7 .pin = .ok _ from rfl)

theorem pinIntent_current : lobbyChat.Current pinIntent 10 :=
  ⟨.inr rfl, by decide, rfl, rfl⟩

theorem pinIntent_ready : lobbyChat.Ready pinIntent lobbySession :=
  ⟨by decide, by decide, Finset.mem_singleton_self 1, rfl⟩

theorem pin_retried : lobbyChat.recoveredOmenchatRetrySessionId pinIntent 10 = .ok 1 ∧
    1 ∈ lobbyChat.liveTransports ∧
    lobbySession.serverDestination = pinIntent.serverDestination :=
  recovered_mutation_retried pinIntent_prepared (by decide) pinIntent_current rfl
    pinIntent_ready (fun _ => by decide)

theorem executed_pin_not_retried :
    Prepares pinIntent.op pinIntent.roomId pinIntent.body ∧ pinnedChat.Current pinIntent 10 ∧
    (lobbySession ∈ pinnedChat.sessions ∧
      lobbySession.serverDestination = pinIntent.serverDestination ∧
      some lobbySession.activeRoomId = pinIntent.roomId ∧ pinnedChat.Ready pinIntent lobbySession) ∧
    ∀ sessionId, pinnedChat.recoveredOmenchatRetrySessionId pinIntent 10 ≠ .ok sessionId := by
  refine ⟨pinIntent_prepared, ⟨.inr rfl, by decide, rfl, rfl⟩,
    ⟨List.mem_singleton_self _, rfl, rfl, ?_⟩, ?_⟩
  · exact ⟨by decide, by decide, Finset.mem_singleton_self 1, rfl⟩
  · intro sessionId hretry
    obtain ⟨-, -, -, s, hs, hid, hcheck⟩ := retry_ok.mp hretry
    have hallowed := (checkRetrySession_ok.mp hcheck).2.2.2.2.2.2.2.2.2.2.1 rfl
    cases hs
    cases hid
    exact absurd hallowed (by decide)

end DesktopChat

end Omen.Client
