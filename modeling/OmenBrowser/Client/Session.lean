import OmenBrowser.Server.SessionOpen

/- The client's side of capability negotiation (`chat/live.rs`): what it requests and
   records when it opens a session, and what it activates when the session is
   accepted; and the closure of the whole negotiation.

   Correspondence (Rust ↔ Lean):
     Cargo features `omenchat-*`                        ↔ `ClientFeatures`
     `state.*_requests.contains(&session_id)`           ↔ the fields of `ClientRequests`
     `state.*_sessions.contains(&session_id)` after it  ↔ `activate`
   The feature for media policies includes the two it needs, in `Cargo.toml`. -/
namespace Omen.Client
open Omen.Protocol Server
open Omen.Server (pushIf)

structure ClientFeatures where
  announcementRooms : Bool
  slowMode : Bool
  roomMediaPolicy : Bool
  moderationAudit : Bool
  media_includes : roomMediaPolicy = true → announcementRooms = true ∧ slowMode = true

/-- `BASE_DURABLE_SESSION_CAPABILITIES`. -/
def baseDurableSessionCapabilities : List String :=
  [durableMutationCapability, durableNoticeAckCapability, replyMentionsCapability,
    reactionsCapability, messageRevisionsCapability, roomPinsCapability, nicknameColoursCapability,
    channelAttachmentCapability]

variable (features : ClientFeatures)

def requestedCapabilities : List String :=
  baseDurableSessionCapabilities ++
    (pushIf features.announcementRooms announcementRoomsCapability <|
     pushIf features.slowMode roomSlowModeCapability <|
     pushIf features.roomMediaPolicy roomMediaPolicyCapability <|
     pushIf features.moderationAudit moderationAuditCapability [])

/-- The requests pending for a session. -/
structure ClientRequests where
  durable : Bool
  replyMentions : Bool
  reactions : Bool
  messageRevisions : Bool
  pins : Bool
  nicknameColours : Bool
  moderationAudit : Bool
  announcementRooms : Bool
  slowMode : Bool
  roomMediaPolicy : Bool

/-- What the client records after it has sent its request. -/
def recordRequests : ClientRequests :=
  { durable := true
    replyMentions := true
    reactions := true
    messageRevisions := true
    pins := true
    nicknameColours := true
    moderationAudit := features.moderationAudit
    announcementRooms := features.announcementRooms
    slowMode := features.slowMode
    roomMediaPolicy := features.roomMediaPolicy }

/-- The capabilities active for a session once a `SessionAccept` has been applied. -/
def activate (requests : ClientRequests) (clientInstanceId : Option ClientInstanceId)
    (alreadyAccepted : Bool) (accepted : List String) : CapabilityFlags :=
  let has := fun capability => decide (capability ∈ accepted)
  -- durable mutations stay active for a session that had them accepted before
  let durable := has durableMutationCapability && clientInstanceId.isSome &&
    (requests.durable || alreadyAccepted)
  let announcementRooms := requests.announcementRooms && has announcementRoomsCapability
  let slowMode := durable && requests.slowMode && has roomSlowModeCapability
  { durable
    noticeAck := durable && has durableNoticeAckCapability
    replyMentions := durable && (requests.replyMentions && has replyMentionsCapability)
    reactions := durable && (requests.reactions && has reactionsCapability)
    messageRevisions := durable && (requests.messageRevisions && has messageRevisionsCapability)
    pins := durable && (requests.pins && has roomPinsCapability)
    nicknameColours := durable && (requests.nicknameColours && has nicknameColoursCapability)
    moderationAudit := requests.moderationAudit && has moderationAuditCapability
    announcementRooms
    slowMode
    roomMediaPolicy := durable && announcementRooms && slowMode && requests.roomMediaPolicy &&
      has roomMediaPolicyCapability
    channelAttachment := has channelAttachmentCapability }

/-- `parse_session_accept_negotiation(..).ok().flatten()`: what cannot be read accepts nothing. -/
def acceptedCapabilitiesOf (body : FrameBody) : List String :=
  match parseSessionAcceptNegotiation body with
  | .ok read => acceptedOf read
  | .error _ => []

/-- The body the client opens a session with. -/
def sessionOpenBody (displayName : Option String) (clientInstanceId : ClientInstanceId) :
    Except SessionNegotiationError FrameBody :=
  withSessionOpenNegotiation
    (match displayName with
      | some name => .fields [.string protocolName, .string name]
      | none => .empty)
    { requestedCapabilities := requestedCapabilities features
      clientInstanceId := some clientInstanceId }

/-- The record the client keeps of a request; for two capabilities it keeps none. -/
def ClientRequests.recorded (requests : ClientRequests) : Capability → Option Bool
  | .durable => some requests.durable
  | .replyMentions => some requests.replyMentions
  | .reactions => some requests.reactions
  | .messageRevisions => some requests.messageRevisions
  | .pins => some requests.pins
  | .nicknameColours => some requests.nicknameColours
  | .moderationAudit => some requests.moderationAudit
  | .announcementRooms => some requests.announcementRooms
  | .slowMode => some requests.slowMode
  | .roomMediaPolicy => some requests.roomMediaPolicy
  | .noticeAck | .channelAttachment => none

/-- The client's record is of this very request. -/
structure Requested (negotiation : Option SessionOpenNegotiation) (requests : ClientRequests)
    (clientInstanceId : Option ClientInstanceId) : Prop where
  recorded : ∀ c b, requests.recorded c = some b → b = Server.requests negotiation c.name
  client : clientInstanceId.isSome = hasInstance negotiation

/-! The client's own request. -/

def requestOrder : List String :=
  baseDurableSessionCapabilities ++ [announcementRoomsCapability, roomSlowModeCapability,
    roomMediaPolicyCapability, moderationAuditCapability]

theorem requested_sublist : (requestedCapabilities features).Sublist requestOrder := by
  refine List.Sublist.append (List.Sublist.refl _) ?_
  iterate 4 apply pushIf_sublist
  exact List.Sublist.refl _

theorem mem_requested (c : Capability) :
    c.name ∈ requestedCapabilities features ↔
      ((recordRequests features).recorded c).getD true = true := by
  simp only [requestedCapabilities, List.mem_append, mem_pushIf, List.not_mem_nil, or_false,
    baseDurableSessionCapabilities, List.mem_cons]
  cases c <;> simp [Capability.name, recordRequests, ClientRequests.recorded,
    moderationAuditCapability, announcementRoomsCapability, roomSlowModeCapability,
    roomMediaPolicyCapability, channelAttachmentCapability, durableMutationCapability,
    durableNoticeAckCapability, replyMentionsCapability, reactionsCapability,
    messageRevisionsCapability, roomPinsCapability, nicknameColoursCapability]

theorem requested_list : CapabilityList (requestedCapabilities features) := by
  have hsub := requested_sublist features
  have hunique : requestOrder.Nodup := by decide +kernel
  have hnames : ∀ c ∈ requestOrder, isCapabilityName c = true := by decide +kernel
  have hdurable : durableMutationCapability ∈ requestedCapabilities features :=
    (mem_requested features .durable).mpr rfl
  refine ⟨hsub.length_le.trans (by decide), fun c hc => hnames c (hsub.subset hc),
    hunique.sublist hsub, ?_⟩
  simp only [listDependencies, List.forall_mem_cons, List.not_mem_nil, false_implies, implies_true,
    and_true]
  refine ⟨fun _ => hdurable, fun _ => hdurable, fun _ => hdurable, fun _ => hdurable,
    fun _ => hdurable, ?_⟩
  intro hc
  have hmedia := features.media_includes ((mem_requested features .roomMediaPolicy).mp hc)
  exact ⟨(mem_requested features .announcementRooms).mpr hmedia.1,
    (mem_requested features .slowMode).mpr hmedia.2⟩

/-- The client's request is sent, is read as it was meant, and is the one it has a record of. -/
theorem sessionOpenBody_parses (displayName : Option String) (id : ClientInstanceId) :
    ∃ body, sessionOpenBody features displayName id = .ok body ∧
      parseSessionOpenNegotiation body = .ok (some ⟨requestedCapabilities features, some id⟩) ∧
      Requested (some ⟨requestedCapabilities features, some id⟩) (recordRequests features)
        (some id) := by
  have hlist := requested_list features
  have hinstance : requireInstance ⟨requestedCapabilities features, some id⟩ = .ok () := by
    exact if_neg fun h => Option.some_ne_none _ h.2
  obtain ⟨body, hbody⟩ : ∃ body, sessionOpenBody features displayName id = .ok body := by
    cases displayName with
    | none | some => exact ⟨_, Outcome.check_ok.mpr ⟨validateCapabilityList_ok.mpr hlist,
        Outcome.check_ok.mpr ⟨hinstance, rfl⟩⟩⟩
  refine ⟨body, hbody, parse_withSessionOpenNegotiation hbody, ?_, rfl⟩
  intro c b hb
  have hmem := mem_requested features c
  rw [hb, Option.getD_some] at hmem
  show b = decide (c.name ∈ requestedCapabilities features)
  rw [Bool.eq_iff_iff, decide_eq_true_iff]
  exact hmem.symm

/-! The answer to the client's own request. -/

/-- What is accepted in answer to a request the client has a record of. -/
structure Answers (requests : ClientRequests) (clientInstanceId : Option ClientInstanceId)
    (s : CapabilityFlags) : Prop where
  client : s.durable = true → clientInstanceId.isSome = true
  recorded : ∀ c b, requests.recorded c = some b → s.has c = true → b = true
  closed : Server.Closed s

theorem select_answers {features : Server.EngineFeatures}
    {negotiation : Option SessionOpenNegotiation} {requests : ClientRequests}
    {clientInstanceId : Option ClientInstanceId}
    (hown : Requested negotiation requests clientInstanceId) :
    Answers requests clientInstanceId (select features negotiation) := by
  refine ⟨?_, ?_, select_closed features negotiation⟩
  · intro hd
    rw [hown.client]
    exact (Bool.and_eq_true_iff.mp hd).1
  · intro c b hb hc
    rw [hown.recorded c b hb]
    exact select_requested features negotiation c hc

theorem decide_accepted (s : CapabilityFlags) (c : Capability) :
    decide (c.name ∈ acceptedCapabilities s) = s.has c := by
  rw [Bool.eq_iff_iff, decide_eq_true_iff]
  exact mem_accepted s c

section
variable {requests : ClientRequests} {clientInstanceId : Option ClientInstanceId}
  {s : CapabilityFlags}

variable (h : Answers requests clientInstanceId s)
include h

/-- A capability that is activated if it was requested and is accepted. -/
theorem Answers.requested {c : Capability} {b : Bool}
    (hb : requests.recorded c = some b) :
    (b && decide (c.name ∈ acceptedCapabilities s)) = s.has c := by
  rw [decide_accepted]
  exact Bool.and_eq_right_iff_imp.mpr (h.recorded c b hb)

section
variable (alreadyAccepted : Bool)

theorem Answers.durable : (activate requests clientInstanceId alreadyAccepted
      (acceptedCapabilities s)).durable = s.durable := by
  have hd : decide (durableMutationCapability ∈ acceptedCapabilities s) = s.durable :=
    decide_accepted s .durable
  show (decide (durableMutationCapability ∈ acceptedCapabilities s) &&
    clientInstanceId.isSome && (requests.durable || alreadyAccepted)) = s.durable
  rw [hd, Bool.and_assoc, Bool.and_comm]
  refine Bool.and_eq_right_iff_imp.mpr fun hdurable => ?_
  rw [h.client hdurable, h.recorded .durable _ rfl hdurable]
  rfl

/-- A capability that is accepted only beside durable mutations. -/
theorem Answers.beside {c : Capability} (hc : .durable ∈ c.acceptedWith) {b : Bool}
    (hb : (b && decide (c.name ∈ acceptedCapabilities s)) = s.has c) :
    ((activate requests clientInstanceId alreadyAccepted (acceptedCapabilities s)).durable &&
      (b && decide (c.name ∈ acceptedCapabilities s))) = s.has c := by
  rw [hb, h.durable alreadyAccepted]
  exact Bool.and_eq_right_iff_imp.mpr fun hhas => h.closed c hhas .durable hc

theorem Answers.slowMode : (activate requests clientInstanceId alreadyAccepted
      (acceptedCapabilities s)).slowMode = s.slowMode := by
  have hslow := h.beside alreadyAccepted (c := .slowMode) (by decide) (h.requested rfl)
  rw [← Bool.and_assoc] at hslow
  exact hslow

/-- The media policy of rooms is activated with all that it needs. -/
theorem Answers.roomMediaPolicy : (activate requests clientInstanceId alreadyAccepted
      (acceptedCapabilities s)).roomMediaPolicy = s.roomMediaPolicy := by
  have hmedia : decide (roomMediaPolicyCapability ∈ acceptedCapabilities s) =
      s.roomMediaPolicy := decide_accepted s .roomMediaPolicy
  have hannounce : (requests.announcementRooms &&
      decide (announcementRoomsCapability ∈ acceptedCapabilities s)) = s.announcementRooms :=
    h.requested (c := .announcementRooms) rfl
  have hclosed := h.closed .roomMediaPolicy
  show ((activate requests clientInstanceId alreadyAccepted (acceptedCapabilities s)).durable &&
    (requests.announcementRooms &&
      decide (announcementRoomsCapability ∈ acceptedCapabilities s)) &&
    (activate requests clientInstanceId alreadyAccepted (acceptedCapabilities s)).slowMode &&
    requests.roomMediaPolicy &&
    decide (roomMediaPolicyCapability ∈ acceptedCapabilities s)) = s.roomMediaPolicy
  rw [hmedia, h.durable alreadyAccepted, hannounce, h.slowMode alreadyAccepted]
  refine Bool.and_eq_right_iff_imp.mpr fun hhas => ?_
  have hd : s.durable = true := hclosed hhas .durable (by decide)
  have ha : s.announcementRooms = true := hclosed hhas .announcementRooms (by decide)
  have hs : s.slowMode = true := hclosed hhas .slowMode (by decide)
  rw [hd, ha, hs, h.recorded .roomMediaPolicy _ rfl hhas]
  rfl

/-- What the client activates for its own request is what the server accepted. -/
theorem Answers.has_activate (c : Capability) :
    (activate requests clientInstanceId alreadyAccepted (acceptedCapabilities s)).has c =
      s.has c := by
  have hrequested : ∀ c b, .durable ∈ c.acceptedWith → requests.recorded c = some b →
      ((activate requests clientInstanceId alreadyAccepted
        (acceptedCapabilities s)).durable &&
          (b && decide (c.name ∈ acceptedCapabilities s))) = s.has c :=
    fun c b hc hb => h.beside alreadyAccepted hc (h.requested hb)
  cases c with
  | durable => exact h.durable alreadyAccepted
  | noticeAck =>
    -- the client keeps no record of this request
    have hack := h.beside alreadyAccepted (c := .noticeAck) (by decide)
      ((Bool.true_and _).trans (decide_accepted s .noticeAck))
    rw [Bool.true_and] at hack
    exact hack
  | replyMentions => exact hrequested .replyMentions _ (by decide) rfl
  | reactions => exact hrequested .reactions _ (by decide) rfl
  | messageRevisions => exact hrequested .messageRevisions _ (by decide) rfl
  | pins => exact hrequested .pins _ (by decide) rfl
  | nicknameColours => exact hrequested .nicknameColours _ (by decide) rfl
  | moderationAudit => exact h.requested (c := .moderationAudit) rfl
  | announcementRooms => exact h.requested (c := .announcementRooms) rfl
  | slowMode => exact h.slowMode alreadyAccepted
  | roomMediaPolicy => exact h.roomMediaPolicy alreadyAccepted
  | channelAttachment => exact decide_accepted s .channelAttachment

end

end

/-! The negotiation is closed. -/

section
variable (features : Server.EngineFeatures) (fields : Server.AcceptFields)
  (negotiation : Option SessionOpenNegotiation)

/-- What the server accepts of a request. -/
def selectedOf : List String := acceptedCapabilities (select features negotiation)

/-- A part of what was requested, without duplicates, each capability together with all that the
matrix names beside it. -/
structure SelectsClosed : Prop where
  requested : ∀ c ∈ selectedOf features negotiation, requests negotiation c = true
  unique : (selectedOf features negotiation).Nodup
  closed : ∀ c : Capability, c.name ∈ selectedOf features negotiation →
    ∀ d ∈ c.acceptedWith, d.name ∈ selectedOf features negotiation

/-- The response is built and read back as the accepted list, and a client whose request it
answers activates exactly the accepted capabilities. -/
def AnswersAccepted : Prop :=
  ∃ response, sessionAcceptBody fields (select features negotiation) = .ok response ∧
    acceptedCapabilitiesOf response = selectedOf features negotiation ∧
    ∀ requests clientInstanceId alreadyAccepted, Requested negotiation requests clientInstanceId →
      ∀ c, (activate requests clientInstanceId alreadyAccepted
        (acceptedCapabilitiesOf response)).has c = true ↔ c.name ∈ selectedOf features negotiation

theorem select_selectsClosed : SelectsClosed features negotiation := by
  have hclosed := select_closed features negotiation
  constructor
  · intro c hc
    obtain ⟨k, rfl⟩ := exists_capability _ hc
    exact select_requested features negotiation k ((mem_accepted _ k).mp hc)
  · exact (accepted_list hclosed).unique
  · intro c hc d hd
    exact (mem_accepted _ d).mpr (hclosed c ((mem_accepted _ c).mp hc) d hd)

/-- Whatever was requested, it is answered if and only if each listed room can be written. -/
theorem answersAccepted_iff :
    AnswersAccepted features fields negotiation ↔ ∀ r ∈ fields.rooms, r.room.Valid := by
  have hclosed := select_closed features negotiation
  rw [← sessionAcceptBody_iff fields hclosed]
  constructor
  · intro ⟨response, hbuilt, _⟩
    exact ⟨response, hbuilt⟩
  · intro ⟨response, hbuilt⟩
    obtain ⟨read, hparse, hread⟩ := sessionAcceptBody_parses fields hclosed hbuilt
    have hof : acceptedCapabilitiesOf response = selectedOf features negotiation := by
      rw [acceptedCapabilitiesOf, hparse]
      exact hread
    refine ⟨response, hbuilt, hof, ?_⟩
    intro requests clientInstanceId already hown c
    rw [hof, selectedOf, (select_answers hown).has_activate already c]
    exact (mem_accepted _ c).symm

end

/-- The negotiation is closed if and only if the rooms can be written. For every session-open body
that parses, the server selects a closed part of what was requested; the response is built, read
back and activated as that part if and only if every room it lists passes the check of the catalog.
The client's own request is one it answers. -/
theorem negotiation_closed_iff (features : Server.EngineFeatures) (fields : Server.AcceptFields) :
    (∀ body negotiation, parseSessionOpenNegotiation body = .ok negotiation →
      (SelectsClosed features negotiation ∧ AnswersAccepted features fields negotiation ↔
        ∀ r ∈ fields.rooms, r.room.Valid) ∧ SelectsClosed features negotiation) ∧
    ∀ client displayName id, ∃ body, sessionOpenBody client displayName id = .ok body ∧
      parseSessionOpenNegotiation body = .ok (some ⟨requestedCapabilities client, some id⟩) ∧
      Requested (some ⟨requestedCapabilities client, some id⟩) (recordRequests client) (some id) := by
  refine ⟨?_, sessionOpenBody_parses⟩
  intro body negotiation _
  have hselects := select_selectsClosed features negotiation
  refine ⟨?_, hselects⟩
  rw [answersAccepted_iff]
  exact and_iff_right hselects

/-! A lobby, and its topic. -/

def everyFeature : Server.EngineFeatures := ⟨true, true, true, true⟩

def lobbyRooms : Server.RoomTable :=
  ⟨[Server.StoredRoom.created 1 "lobby" none], by decide⟩

def acceptFieldsOf (rooms : Server.RoomTable) : Server.AcceptFields :=
  ⟨rooms.list, none, 1048576, 30, 1048576⟩

def durableRequest : FrameBody :=
  .fields [.string protocolName, .nil, .nil, .array [.string durableMutationCapability],
    .bytes (List.replicate 16 7)]

/-- The lobby has no topic, and a request for durable mutations is answered with them. -/
theorem negotiation_closed_lobby :
    ∃ negotiation, parseSessionOpenNegotiation durableRequest = .ok negotiation ∧
      selectedOf everyFeature negotiation = [durableMutationCapability] ∧
      SelectsClosed everyFeature negotiation ∧
      AnswersAccepted everyFeature (acceptFieldsOf lobbyRooms) negotiation := by
  have hparse : (parseSessionOpenNegotiation durableRequest).toOption.isSome = true := by
    decide +kernel
  obtain ⟨negotiation, hnegotiation⟩ := Option.isSome_iff_exists.mp hparse
  have hok := Outcome.toOption_eq_some.mp hnegotiation
  have hvalid : ∀ r ∈ (acceptFieldsOf lobbyRooms).rooms, r.room.Valid := by
    intro r hr
    obtain rfl := List.mem_singleton.mp (Server.RoomTable.mem_list.mp hr).1
    exact RoomCatalogEntry.validate_ok.mp (by decide +kernel)
  have hclosed := (((negotiation_closed_iff everyFeature (acceptFieldsOf lobbyRooms)).1 durableRequest
    negotiation hok).1.mpr hvalid)
  refine ⟨negotiation, hok, ?_, hclosed⟩
  have haccepted : ((parseSessionOpenNegotiation durableRequest).toOption.map
      (selectedOf everyFeature)) = some [durableMutationCapability] := by decide +kernel
  rw [hnegotiation] at haccepted
  exact Option.some.inj haccepted

/-- A topic of one byte more than a room in the catalog may have. -/
def longTopic : String := String.ofList (List.replicate 4097 'a')

theorem longTopic_bytes : longTopic.utf8ByteSize = 4097 := by
  have hbytes : ∀ n, (String.ofList (List.replicate n 'a')).utf8ByteSize = n := by
    intro n
    induction n with
    | zero => rfl
    | succ n ih =>
      rw [List.replicate_succ, String.ofList_cons, String.utf8ByteSize_append, ih]
      have hone : "a".utf8ByteSize = 1 := by decide +kernel
      simp [hone, Nat.add_comm]
  exact hbytes 4097

/-- The topic is stored, and from then on no session is accepted. -/
theorem long_topic_refuses_sessions :
    ∃ room rooms, Server.updateRoomTopic 1 (some longTopic) lobbyRooms = .ok (room, rooms) ∧
      parseSessionOpenNegotiation .empty = .ok none ∧
      sessionAcceptBody (acceptFieldsOf rooms) (select everyFeature none) = .error
        (.message "stored room cannot be encoded: room catalog topic is empty or exceeds 4096 bytes") ∧
      ¬ AnswersAccepted everyFeature (acceptFieldsOf rooms) none := by
  let lobby : Server.StoredRoom :=
    (Server.StoredRoom.created 1 "lobby" none).retopic (some longTopic)
  have hinvalid : lobby.room.validate = .error .invalidTopic := by
    refine RoomCatalogEntry.validate_long_topic (by decide) (by decide +kernel) rfl ?_
    rw [longTopic_bytes]
    decide
  have hvalue : ∀ shape, Server.roomToValueForShape lobby.room shape = .error (.message
      "stored room cannot be encoded: room catalog topic is empty or exceeds 4096 bytes") := by
    intro shape
    unfold Server.roomToValueForShape RoomCatalogEntry.intoFrameValueForShape
    rw [hinvalid]
    rfl
  have hrefused : sessionAcceptBody (acceptFieldsOf ⟨[lobby], List.nodup_singleton 1⟩)
      (select everyFeature none) = .error (.message
        "stored room cannot be encoded: room catalog topic is empty or exceeds 4096 bytes") := by
    have hlist : (acceptFieldsOf ⟨[lobby], List.nodup_singleton 1⟩).rooms = [lobby] := rfl
    unfold sessionAcceptBody Server.roomValues
    rw [hlist, List.mapM_cons, hvalue]
    rfl
  refine ⟨lobby.room, ⟨[lobby], List.nodup_singleton 1⟩, rfl, rfl, hrefused, ?_⟩
  intro ⟨response, hbuilt, _⟩
  rw [hrefused] at hbuilt
  cases hbuilt

end Omen.Client
