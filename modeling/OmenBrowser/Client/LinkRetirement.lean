import OmenBrowser.Client.LocalEchoes
import OmenBrowser.Protocol.Projections

/- What the retirement of a link leaves in the tables of the client (`chat/live.rs`).

     `LiveChatClientState`         ↔ `LiveTables`
     `cancel_session_transfers`    ↔ `cancelSessionTransfers`
     `retire_session_link_state`   ↔ `LiveTables.retireSessionLinkState`
   Each table is a list of its entries with the session they belong to: a set of sessions has nothing
   else in an entry, and what is filed under a session and a number, or kept with its session in it,
   has the rest. The client's own identity and the counters of refusals are of no session.

   The tables are cleared by name, and one is not named (`link_retired_iff`). -/
namespace Omen.Client
open Wire Omen.Protocol

inductive LiveTable where
  | durableRequests
  | durableSessions
  | durableNoticeAckSessions
  | replyMentionsRequests
  | replyMentionsSessions
  | reactionRequests
  | reactionSessions
  | messageRevisionRequests
  | messageRevisionSessions
  | pinRequests
  | pinSessions
  | nicknameColourRequests
  | nicknameColourSessions
  | moderationAuditRequests
  | moderationAuditSessions
  | pendingModerationAuditRequests
  | announcementRoomRequests
  | announcementRoomSessions
  | slowModeRequests
  | slowModeSessions
  | roomMediaPolicyRequests
  | roomMediaPolicySessions
  | channelAttachmentSessions
  | serverUploadMaxFileBytes
  | localUserIds
  | nextSeqBySession
  | pendingLocalEchoes
  | pendingPinConfirmations
  | pendingNicknameColours
  | pendingUploads
  | pendingUploadPaths
  | pendingUploadDownloads
  deriving DecidableEq, Repr

/-- `PendingModerationAuditRequest`. -/
structure PendingModerationAuditRequest where
  seq : UInt32
  roomId : UInt32
  beforeAuditId : Option UInt64
  limit : UInt16
  resourceDeferred : Bool
  pageApplied : Bool
  endReceived : Bool

structure PendingLiveUpload where
  filename : String
  contentType : Option String
  bytes : Bytes

structure PendingLiveUploadDownload extends PendingLiveUpload where
  totalLen : Nat
  pendingChunks : List (Nat × Bytes)
  doneSeen : Bool

/-- What an entry of a table has besides its session. -/
def LiveTable.Entry : LiveTable → Type
  | .pendingModerationAuditRequests => PendingModerationAuditRequest
  | .serverUploadMaxFileBytes | .nextSeqBySession => UInt64
  | .localUserIds => UInt32
  | .pendingLocalEchoes => UInt32 × PendingLocalEcho
  | .pendingPinConfirmations => (UInt32 × UInt64) × PinAction
  | .pendingNicknameColours => MutationId × Option (UInt8 × UInt8 × UInt8)
  | .pendingUploads => UInt32 × PendingLiveUpload
  | .pendingUploadPaths => UInt32 × String × UInt64
  | .pendingUploadDownloads => String × PendingLiveUploadDownload
  | _ => Unit

abbrev LiveTables := (table : LiveTable) → List (ChatSessionId × table.Entry)

namespace LiveTables
variable (s : LiveTables) (sessionId : ChatSessionId)

def empty : LiveTables := fun _ => []

/-- What is left where the named tables forget the session. -/
def forget (tables : List LiveTable) : LiveTables := fun table =>
  if table ∈ tables then (s table).filter (fun entry => entry.1 != sessionId) else s table

def cancelSessionTransfers : LiveTables :=
  s.forget sessionId [.pendingLocalEchoes, .pendingUploads, .pendingUploadPaths,
    .pendingUploadDownloads, .pendingPinConfirmations, .pendingNicknameColours]

/-- The echoes whose mutations are sent again, and the tables without the session. -/
def retireSessionLinkState : List EventKey × LiveTables :=
  (((s .pendingLocalEchoes).filter (fun entry =>
      entry.1 == sessionId && entry.2.2.mutationId.isSome)).filterMap (fun entry =>
        entry.2.2.tempEventId.map (fun eventId => (entry.2.2.roomId, eventId))),
    (s.cancelSessionTransfers sessionId).forget sessionId [.nextSeqBySession, .durableRequests,
      .durableSessions, .durableNoticeAckSessions, .replyMentionsRequests, .replyMentionsSessions,
      .reactionRequests, .reactionSessions, .messageRevisionRequests, .messageRevisionSessions,
      .pinRequests, .pinSessions, .nicknameColourRequests, .nicknameColourSessions,
      .moderationAuditRequests, .moderationAuditSessions, .pendingModerationAuditRequests,
      .announcementRoomRequests, .announcementRoomSessions, .slowModeRequests, .slowModeSessions,
      .roomMediaPolicyRequests, .roomMediaPolicySessions, .serverUploadMaxFileBytes, .localUserIds])

/-- The entries of the sessions that are asked for. -/
def only (p : ChatSessionId → Bool) : LiveTables :=
  fun table => (s table).filter (fun entry => p entry.1)

/-- What is promised of a retirement. -/
structure LinkRetired : Prop where
  forgotten : (s.retireSessionLinkState sessionId).2.only (· == sessionId) = empty
  others : (s.retireSessionLinkState sessionId).2.only (· != sessionId) = s.only (· != sessionId)
  /-- The echoes of the session's durable mutations that stand in its history. -/
  echoes : ∀ key, key ∈ (s.retireSessionLinkState sessionId).1 ↔
    ∃ entry ∈ s .pendingLocalEchoes, entry.1 = sessionId ∧ entry.2.2.mutationId ≠ none ∧
      entry.2.2.tempEventId = some key.2 ∧ entry.2.2.roomId = key.1

variable {s sessionId}

/-- All tables but one are cleared. -/
theorem retired_table (table : LiveTable) : (s.retireSessionLinkState sessionId).2 table =
    if table = .channelAttachmentSessions then s table
    else (s table).filter (fun entry => entry.1 != sessionId) := by
  cases table <;> rfl

theorem forgotten_iff : (s.retireSessionLinkState sessionId).2.only (· == sessionId) = empty ↔
    ∀ entry ∈ s .channelAttachmentSessions, entry.1 ≠ sessionId := by
  have htable : ∀ table, (s.retireSessionLinkState sessionId).2.only (· == sessionId) table = [] ↔
      table = .channelAttachmentSessions → ∀ entry ∈ s table, entry.1 ≠ sessionId := by
    intro table
    rw [only, retired_table, List.filter_eq_nil_iff]
    split
    · next hkept => simp [hkept]
    · next hcleared =>
      refine iff_of_true (fun entry hentry hsame => ?_) fun h => absurd h hcleared
      exact bne_iff_ne.mp (List.mem_filter.mp hentry).2 (beq_iff_eq.mp hsame)
  constructor
  · intro h
    exact (htable _).mp (congrFun h _) rfl
  · intro h
    funext table
    exact (htable table).mpr fun htab => htab ▸ h

variable (s sessionId)

/-- A retired link leaves nothing behind exactly if the session has negotiated no attachments
over a channel. -/
theorem link_retired_iff :
    s.LinkRetired sessionId ↔ ∀ entry ∈ s .channelAttachmentSessions, entry.1 ≠ sessionId := by
  refine ⟨fun h => forgotten_iff.mp h.forgotten, fun h => ⟨forgotten_iff.mpr h, ?_, fun key => ?_⟩⟩
  · funext table
    rw [only, only, retired_table]
    split
    · rfl
    · rw [List.filter_filter]
      simp only [Bool.and_self]
  · unfold retireSessionLinkState
    rw [List.mem_filterMap]
    constructor
    · rintro ⟨entry, hentry, hkey⟩
      obtain ⟨hmem, hsame⟩ := List.mem_filter.mp hentry
      obtain ⟨hsession, hmutation⟩ := Bool.and_eq_true_iff.mp hsame
      obtain ⟨eventId, htemp, rfl⟩ := Option.map_eq_some_iff.mp hkey
      exact ⟨entry, hmem, beq_iff_eq.mp hsession, Option.isSome_iff_ne_none.mp hmutation, htemp, rfl⟩
    · rintro ⟨entry, hmem, hsession, hmutation, htemp, hroom⟩
      refine ⟨entry, List.mem_filter.mpr ⟨hmem, ?_⟩, ?_⟩
      · exact Bool.and_eq_true_iff.mpr ⟨beq_iff_eq.mpr hsession,
          Option.isSome_iff_ne_none.mpr hmutation⟩
      · rw [htemp, Option.map_some, hroom]

/-- A link that has negotiated attachments over a channel. -/
theorem attachments_survive :
    ¬LinkRetired (fun table => match table with
      | .channelAttachmentSessions => [(1, ())]
      | _ => []) 1 := by
  intro h
  exact forgotten_iff.mp h.forgotten (1, ()) (List.mem_singleton_self _) rfl

end LiveTables
end Omen.Client
