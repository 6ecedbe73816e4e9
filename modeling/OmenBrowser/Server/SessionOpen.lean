import OmenBrowser.Protocol.Negotiation
import OmenBrowser.Server.Rooms

/- How the server answers a session-open body (`handle_session_open` of
   `server/src/session.rs`): which of the requested capabilities it accepts, and the
   session-accept body it sends.

   What is selected is closed under the capability matrix for every request
   (`select_closed`). The body lists the stored rooms, and there is one if and only if each
   of them can be written (`sessionAcceptBody_iff`).

   Correspondence (Rust ↔ Lean):
     the engine's `*_enabled` fields, set by Cargo features   ↔ `EngineFeatures`
     the `*_requested` locals                                 ↔ the fields of `CapabilityFlags`
     `accepted_capabilities.push(..)` under a condition       ↔ `pushIf`
     `list_rooms`, written in the shape that was selected     ↔ `AcceptFields.rooms`, `roomValues`
   The stored rooms, the message of the day and the limits are parameters of the response; the
   text of a negotiation error is left out of the message that quotes it. -/
namespace Omen.Server
open Omen.Protocol

variable {c : String}

structure EngineFeatures where
  slowMode : Bool
  announcementRooms : Bool
  roomMediaPolicy : Bool
  moderationAudit : Bool

def replyMentionsServerEnabled : Bool := true
def reactionsServerEnabled : Bool := true
def messageRevisionsServerEnabled : Bool := true
def roomPinsServerEnabled : Bool := true

/-- `negotiation.as_ref().is_some_and(..)` with the name among those requested. -/
def requests (negotiation : Option SessionOpenNegotiation) (capability : String) : Bool :=
  match negotiation with
  | some negotiation => decide (capability ∈ negotiation.requestedCapabilities)
  | none => false

def hasInstance : Option SessionOpenNegotiation → Bool
  | some negotiation => negotiation.clientInstanceId.isSome
  | none => false

def select (features : EngineFeatures) (negotiation : Option SessionOpenNegotiation) :
    CapabilityFlags :=
  let durable := hasInstance negotiation && requests negotiation durableMutationCapability
  let slowMode := features.slowMode && durable && requests negotiation roomSlowModeCapability
  let announcementRooms :=
    features.announcementRooms && requests negotiation announcementRoomsCapability
  { durable
    slowMode
    announcementRooms
    roomMediaPolicy := features.roomMediaPolicy && durable && announcementRooms && slowMode &&
      requests negotiation roomMediaPolicyCapability
    channelAttachment := requests negotiation channelAttachmentCapability
    moderationAudit := features.moderationAudit && requests negotiation moderationAuditCapability
    noticeAck := durable && requests negotiation durableNoticeAckCapability
    replyMentions :=
      durable && requests negotiation replyMentionsCapability && replyMentionsServerEnabled
    reactions := durable && requests negotiation reactionsCapability && reactionsServerEnabled
    messageRevisions :=
      durable && requests negotiation messageRevisionsCapability && messageRevisionsServerEnabled
    pins := durable && requests negotiation roomPinsCapability && roomPinsServerEnabled
    nicknameColours := durable && requests negotiation nicknameColoursCapability }

variable (s : CapabilityFlags)

def roomCatalogShape : RoomCatalogShape :=
  if s.roomMediaPolicy then .mediaPolicy
  else if s.slowMode then .slowMode
  else if s.announcementRooms then .policyBits
  else .legacy

def pushIf (condition : Bool) (capability : String) (rest : List String) : List String :=
  if condition then capability :: rest else rest

def acceptedCapabilities : List String :=
  pushIf s.moderationAudit moderationAuditCapability <|
  pushIf s.announcementRooms announcementRoomsCapability <|
  pushIf s.slowMode roomSlowModeCapability <|
  pushIf s.roomMediaPolicy roomMediaPolicyCapability <|
  pushIf s.channelAttachment channelAttachmentCapability <|
  pushIf s.durable durableMutationCapability <|
  pushIf s.noticeAck durableNoticeAckCapability <|
  pushIf s.replyMentions replyMentionsCapability <|
  pushIf s.reactions reactionsCapability <|
  pushIf s.messageRevisions messageRevisionsCapability <|
  pushIf s.pins roomPinsCapability <|
  pushIf s.nicknameColours nicknameColoursCapability []

/-- What the six fields that every session-accept body has are made of. -/
structure AcceptFields where
  rooms : List StoredRoom
  serverMotd : Option String
  uploadQuotaBytes : UInt64
  pingIntervalSeconds : UInt64
  uploadMaxFileBytes : UInt64

def clampPing (seconds : UInt64) : UInt64 := max 5 (min seconds 600)

variable (fields : AcceptFields)

/-- The six fields, around the rooms as they are written. -/
def AcceptFields.values (rooms : List FrameValue) : List FrameValue :=
  [.string protocolName, .array rooms,
    (fields.serverMotd.map FrameValue.string).getD .nil, .u64 fields.uploadQuotaBytes,
    .u64 (clampPing fields.pingIntervalSeconds), .u64 fields.uploadMaxFileBytes]

/-- The accepted list goes behind the six fields, if there is one. -/
def withAccepted (s : CapabilityFlags) (body : FrameBody) :
    Except SessionNegotiationError FrameBody :=
  if s.durable || s.moderationAudit || s.announcementRooms || s.slowMode || s.roomMediaPolicy ||
      s.channelAttachment then
    withSessionAcceptNegotiation body { acceptedCapabilities := acceptedCapabilities s }
  else .ok body

/-- The body of the session-accept frame. -/
def sessionAcceptBody (s : CapabilityFlags) : Except ServerError FrameBody := do
  let rooms ← roomValues fields.rooms (roomCatalogShape s)
  (withAccepted s (.fields (fields.values rooms))).mapError fun _ =>
    .message "session capability response failed"

/-! The accepted list. -/

theorem mem_pushIf {b : Bool} {d : String} {rest : List String} :
    d ∈ pushIf b c rest ↔ (b = true ∧ d = c) ∨ d ∈ rest := by
  unfold pushIf
  split
  · next h => simp [h]
  · next h => simp [h]

theorem pushIf_sublist {b : Bool} {rest full : List String} (h : rest.Sublist full) :
    (pushIf b c rest).Sublist (c :: full) := by
  unfold pushIf
  split
  · exact h.cons_cons c
  · exact h.cons c

/-- Every capability the server knows, in the order it accepts them. -/
def acceptOrder : List String :=
  [moderationAuditCapability, announcementRoomsCapability, roomSlowModeCapability,
    roomMediaPolicyCapability, channelAttachmentCapability, durableMutationCapability,
    durableNoticeAckCapability, replyMentionsCapability, reactionsCapability,
    messageRevisionsCapability, roomPinsCapability, nicknameColoursCapability]

theorem accepted_sublist : (acceptedCapabilities s).Sublist acceptOrder := by
  iterate 12 apply pushIf_sublist
  exact List.Sublist.refl _

theorem acceptOrder_unique : acceptOrder.Nodup := by decide +kernel

theorem acceptOrder_names : ∀ c ∈ acceptOrder, isCapabilityName c = true := by decide +kernel

/-- A capability is accepted if and only if its flag is set. -/
theorem mem_accepted (c : Capability) : c.name ∈ acceptedCapabilities s ↔ s.has c = true := by
  simp only [acceptedCapabilities, mem_pushIf, List.not_mem_nil, or_false]
  cases c <;> simp [Capability.name, CapabilityFlags.has, moderationAuditCapability,
    announcementRoomsCapability, roomSlowModeCapability, roomMediaPolicyCapability,
    channelAttachmentCapability, durableMutationCapability, durableNoticeAckCapability,
    replyMentionsCapability, reactionsCapability, messageRevisionsCapability, roomPinsCapability,
    nicknameColoursCapability]

theorem exists_capability (h : c ∈ acceptedCapabilities s) : ∃ k : Capability, k.name = c := by
  have hall : ∀ c ∈ acceptOrder, ∃ k : Capability, k.name = c := by
    simp only [acceptOrder, List.forall_mem_cons]
    exact ⟨⟨.moderationAudit, rfl⟩, ⟨.announcementRooms, rfl⟩, ⟨.slowMode, rfl⟩,
      ⟨.roomMediaPolicy, rfl⟩, ⟨.channelAttachment, rfl⟩, ⟨.durable, rfl⟩, ⟨.noticeAck, rfl⟩,
      ⟨.replyMentions, rfl⟩, ⟨.reactions, rfl⟩, ⟨.messageRevisions, rfl⟩, ⟨.pins, rfl⟩,
      ⟨.nicknameColours, rfl⟩, fun _ h => absurd h List.not_mem_nil⟩
  exact hall c ((accepted_sublist s).subset h)

/-- Flags that are set only together with what the matrix names beside them. -/
def Closed : Prop :=
  ∀ c, s.has c = true → ∀ d ∈ c.acceptedWith, s.has d = true

/-- The accepted list passes the check the response is built and read under. -/
theorem accepted_list {s : CapabilityFlags} (h : Closed s) : CapabilityList (acceptedCapabilities s) := by
  have hsub := accepted_sublist s
  have hbeside : ∀ c : Capability, c.name ∈ acceptedCapabilities s →
      ∀ d ∈ c.acceptedWith, d.name ∈ acceptedCapabilities s := by
    intro c hc d hd
    exact (mem_accepted s d).mpr (h c ((mem_accepted s c).mp hc) d hd)
  refine ⟨?_, ?_, acceptOrder_unique.sublist hsub, ?_⟩
  · exact hsub.length_le.trans (by decide)
  · intro c hc
    exact acceptOrder_names c (hsub.subset hc)
  · simp only [listDependencies, List.forall_mem_cons, List.not_mem_nil, false_implies, implies_true,
      and_true]
    refine ⟨?_, ?_, ?_, ?_, ?_, ?_⟩
    · exact fun hc => hbeside .replyMentions hc .durable (by decide)
    · exact fun hc => hbeside .reactions hc .durable (by decide)
    · exact fun hc => hbeside .messageRevisions hc .durable (by decide)
    · exact fun hc => hbeside .nicknameColours hc .durable (by decide)
    · exact fun hc => hbeside .slowMode hc .durable (by decide)
    · intro hc
      exact ⟨hbeside .roomMediaPolicy hc .announcementRooms (by decide),
        hbeside .roomMediaPolicy hc .slowMode (by decide)⟩

/-- The list a session-accept body carries; a body without one accepts nothing. -/
def acceptedOf : Option SessionAcceptNegotiation → List String
  | some negotiation => negotiation.acceptedCapabilities
  | none => []

/-- The accepted list is put behind the six fields, and read back from there. -/
theorem withAccepted_parses {s : CapabilityFlags} (h : Closed s) (rooms : List FrameValue) :
    ∃ response read, withAccepted s (.fields (fields.values rooms)) = .ok response ∧
      parseSessionAcceptNegotiation response = .ok read ∧
      acceptedOf read = acceptedCapabilities s := by
  have hlist := accepted_list h
  unfold withAccepted
  split
  · refine ⟨.fields (padTo sessionAcceptCapabilitiesIndex (fields.values rooms) ++
      [capabilitiesValue (acceptedCapabilities s)]), some ⟨acceptedCapabilities s⟩, ?_, ?_, rfl⟩
    · exact Outcome.check_ok.mpr ⟨validateCapabilityList_ok.mpr hlist, rfl⟩
    · have hparse := parseCapabilities_value hlist
      refine Outcome.check_ok.mpr ⟨rfl, ?_⟩
      exact Outcome.bind_ok.mpr ⟨_, hparse, rfl⟩
  · next hnone =>
    refine ⟨_, none, rfl, rfl, ?_⟩
    simp only [Bool.or_eq_true, not_or, Bool.not_eq_true] at hnone
    obtain ⟨⟨⟨⟨⟨hd, hm⟩, ha⟩, hs⟩, hr⟩, hc⟩ := hnone
    -- nothing else is accepted without durable mutations
    have hno : ∀ k : Capability, s.has k = false := by
      intro k
      by_contra hk
      have hd' := h k (by simpa using hk) .durable
      have hk' : s.has k = true := by simpa using hk
      cases k <;> simp_all [CapabilityFlags.has, Capability.acceptedWith]
    refine (List.eq_nil_iff_forall_not_mem.mpr ?_).symm
    intro c hc
    obtain ⟨k, rfl⟩ := exists_capability s hc
    rw [mem_accepted, hno k] at hc
    cases hc

/-- A body that is built has the rooms in it, and is read back as the list it was built from. -/
theorem sessionAcceptBody_parses {s : CapabilityFlags} (h : Closed s) {response : FrameBody}
    (hbuilt : sessionAcceptBody fields s = .ok response) :
    ∃ read, parseSessionAcceptNegotiation response = .ok read ∧
      acceptedOf read = acceptedCapabilities s := by
  obtain ⟨rooms, _, hresponse⟩ := Outcome.bind_ok.mp hbuilt
  obtain ⟨response', read, hwith, hparse, hread⟩ := withAccepted_parses fields h rooms
  rw [Outcome.mapError_ok, hwith] at hresponse
  cases hresponse
  exact ⟨read, hparse, hread⟩

/-- The body is built if and only if every room that is listed can be written. -/
theorem sessionAcceptBody_iff {s : CapabilityFlags} (h : Closed s) :
    (∃ response, sessionAcceptBody fields s = .ok response) ↔
      ∀ r ∈ fields.rooms, r.room.Valid := by
  rw [← roomValues_ok (roomCatalogShape s)]
  constructor
  · intro ⟨_, hbuilt⟩
    obtain ⟨rooms, hrooms, _⟩ := Outcome.bind_ok.mp hbuilt
    exact ⟨rooms, hrooms⟩
  · intro ⟨rooms, hrooms⟩
    obtain ⟨response, _, hwith, _⟩ := withAccepted_parses fields h rooms
    exact ⟨response, Outcome.bind_ok.mpr ⟨rooms, hrooms, Outcome.mapError_ok.mpr hwith⟩⟩

/-! What the server selects. -/

variable (features : EngineFeatures) (negotiation : Option SessionOpenNegotiation)

section
variable (c : Capability) (h : (select features negotiation).has c = true)
include h

theorem select_requested : requests negotiation c.name = true := by
  cases c <;> simp only [select, CapabilityFlags.has, Bool.and_eq_true] at h <;>
    first | exact h | exact h.2 | exact h.1.2

/-- What is selected is selected with everything the matrix names beside it. -/
theorem select_closed : ∀ d ∈ c.acceptedWith, (select features negotiation).has d = true := by
  cases c <;> simp_all [select, CapabilityFlags.has, Capability.acceptedWith]

end

end Omen.Server
