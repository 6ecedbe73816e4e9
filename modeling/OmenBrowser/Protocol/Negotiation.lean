import OmenBrowser.Protocol.Durable

/- Capability negotiation in `SessionOpen` and `SessionAccept`
   (`omenchat-protocol/src/negotiation.rs`).

   A capability is a name. The fourth field of a session-open body lists the names
   requested, the seventh of a session-accept body those accepted. Either list is
   held against the same rules: at most 64 well-formed names, no name twice, and
   some names only beside others. `validateCapabilityList_ok` says exactly what
   passes.

   Correspondence (Rust ↔ Lean):
     `unique: BTreeSet<&str>`     ↔ the list of the names seen
     `fields.get(INDEX)`          ↔ `fields[i]?`
     `while fields.len() <= i`    ↔ `padTo` -/
namespace Omen.Protocol
open Wire List Outcome

variable {capabilities : List String} {fields : List FrameValue}

def protocolName : String := "omenchat-v0.1"

def durableMutationCapability : String := "durable-mutations-v1"
def durableNoticeAckCapability : String := "durable-room-notice-ack-v1"
def replyMentionsCapability : String := "reply-mentions-v1"
def reactionsCapability : String := "reactions-v1"
def messageRevisionsCapability : String := "message-revisions-v1"
def roomPinsCapability : String := "room-pins-v1"
def announcementRoomsCapability : String := "announcement-rooms-v1"
def roomSlowModeCapability : String := "room-slow-mode-v1"
def roomMediaPolicyCapability : String := "room-media-policy-v1"
def moderationAuditCapability : String := "moderation-audit-v1"
def nicknameColoursCapability : String := "nickname-colours-v1"
def channelAttachmentCapability : String := "omenchat-channel-attachments-v1"

def sessionCapabilityMaxItems : Nat := 64
def sessionCapabilityMaxBytes : Nat := 128
/-- Where the negotiation stands behind the fields that every version has. -/
def sessionOpenCapabilitiesIndex : Nat := 3
def sessionOpenClientInstanceIndex : Nat := 4
def sessionAcceptCapabilitiesIndex : Nat := 6

/-- What a client asks for beside the fields every session has. -/
structure SessionOpenNegotiation where
  requestedCapabilities : List String
  clientInstanceId : Option ClientInstanceId

/-- What the server grants of it. -/
structure SessionAcceptNegotiation where
  acceptedCapabilities : List String

/-- Why a negotiation is refused. -/
inductive SessionNegotiationError where
  | protocolName
  | malformed (text : String)
  | capabilityCount
  | capabilityName
  | duplicateCapability
  | missingCapabilityDependency
  | missingReactionsDependency
  | missingMessageRevisionsDependency
  | missingNicknameColoursDependency
  | missingSlowModeDependency
  | missingMediaPolicyDependency
  | durable (error : DurableMutationError)
  deriving DecidableEq, Repr

/-! The rules for a list of capabilities. -/

/-- `byte.is_ascii_alphanumeric() || matches!(byte, b'-' | b'_' | b'.')`. -/
def isNameByte (byte : UInt8) : Bool :=
  (48 ≤ byte.toNat && byte.toNat ≤ 57) || (65 ≤ byte.toNat && byte.toNat ≤ 90) ||
    (97 ≤ byte.toNat && byte.toNat ≤ 122) || byte == 45 || byte == 95 || byte == 46

variable (capability : String)

/-- A capability is named by a short text of a few plain characters. -/
def isCapabilityName : Bool :=
  !(utf8 capability).isEmpty && (utf8 capability).length ≤ sessionCapabilityMaxBytes &&
    (utf8 capability).all isNameByte

def validateCapabilityName : Except SessionNegotiationError Unit :=
  if isCapabilityName capability then .ok () else .error .capabilityName

/-- The loop of `validate_capability_list`. -/
def validateEach (unique : List String) : List String → Except SessionNegotiationError Unit
  | [] => .ok ()
  | capability :: capabilities => do
    validateCapabilityName capability
    if capability ∈ unique then .error .duplicateCapability
    else validateEach (capability :: unique) capabilities

/-- `capability` is only allowed beside each of `needs`. -/
def requireBeside (unique : List String) (capability : String) (needs : List String)
    (error : SessionNegotiationError) : Except SessionNegotiationError Unit :=
  if capability ∈ unique ∧ ¬ ∀ need ∈ needs, need ∈ unique then .error error else .ok ()

/-- A bounded list of names, none of them twice, each beside those it needs. -/
def validateCapabilityList (capabilities : List String) : Except SessionNegotiationError Unit :=
  if capabilities.length > sessionCapabilityMaxItems then .error .capabilityCount
  else do
    validateEach [] capabilities
    requireBeside capabilities replyMentionsCapability [durableMutationCapability]
      .missingCapabilityDependency
    requireBeside capabilities reactionsCapability [durableMutationCapability]
      .missingReactionsDependency
    requireBeside capabilities messageRevisionsCapability [durableMutationCapability]
      .missingMessageRevisionsDependency
    requireBeside capabilities nicknameColoursCapability [durableMutationCapability]
      .missingNicknameColoursDependency
    requireBeside capabilities roomSlowModeCapability [durableMutationCapability]
      .missingSlowModeDependency
    requireBeside capabilities roomMediaPolicyCapability
      [announcementRoomsCapability, roomSlowModeCapability] .missingMediaPolicyDependency

/-! Bodies. -/

/-- The first field names the protocol. -/
def validateProtocolField (fields : List FrameValue) : Except SessionNegotiationError Unit :=
  match fields.head? with
  | some (.string protocol) => if protocol = protocolName then .ok () else .error .protocolName
  | _ => .error .protocolName

/-- The loop of `parse_capabilities`. -/
def capabilityNames : List FrameValue → Except SessionNegotiationError (List String)
  | [] => .ok []
  | .string capability :: values => do
    validateCapabilityName capability
    (capabilityNames values).map (capability :: ·)
  | _ :: _ => .error (.malformed "capability names must be strings")

/-- The list, each a name; what is no array of texts is malformed. -/
def parseCapabilities : FrameValue → Except SessionNegotiationError (List String)
  | .array values =>
    if values.length > sessionCapabilityMaxItems then .error .capabilityCount
    else do
      let capabilities ← capabilityNames values
      validateCapabilityList capabilities
      pure capabilities
  | _ => .error (.malformed "capabilities must be an array")

/-- A client instance is sixteen bytes, or nil, or not there. -/
def clientInstanceOf : Option FrameValue → Except SessionNegotiationError (Option ClientInstanceId)
  | none => .ok none
  | some .nil => .ok none
  | some (.bytes bytes) => ((Identifier.tryFrom "client_instance_id" 16 bytes).map some).mapError .durable
  | some _ => .error (.malformed "client instance id must be binary or nil")

/-- A durable request without a client instance is malformed, on either side. -/
def requireInstance (negotiation : SessionOpenNegotiation) : Except SessionNegotiationError Unit :=
  if durableMutationCapability ∈ negotiation.requestedCapabilities ∧
      negotiation.clientInstanceId = none then
    .error (.malformed "durable mutation capability requires a client instance id")
  else .ok ()

/-- `parse_session_open_negotiation`: a body without the fields asks for nothing. -/
def parseSessionOpenNegotiation :
    FrameBody → Except SessionNegotiationError (Option SessionOpenNegotiation)
  | .fields fields =>
    let capabilities := fields[sessionOpenCapabilitiesIndex]?
    let clientInstance := fields[sessionOpenClientInstanceIndex]?
    match capabilities with
    | none =>
      -- a legacy body, whatever protocol it names
      if clientInstance.isNone then .ok none
      else do
        validateProtocolField fields
        .error (.malformed "client instance requires a capability array")
    | some capabilities => do
      validateProtocolField fields
      let requested ← parseCapabilities capabilities
      let clientInstanceId ← clientInstanceOf clientInstance
      let negotiation :=
        { requestedCapabilities := requested, clientInstanceId }
      requireInstance negotiation
      pure (some negotiation)
  | _ => .ok none

/-- `parse_session_accept_negotiation`: the same of the answer. -/
def parseSessionAcceptNegotiation :
    FrameBody → Except SessionNegotiationError (Option SessionAcceptNegotiation)
  | .fields fields =>
    match fields[sessionAcceptCapabilitiesIndex]? with
    | none => .ok none
    | some capabilities => do
      validateProtocolField fields
      let accepted ← parseCapabilities capabilities
      pure (some { acceptedCapabilities := accepted })
  | _ => .ok none

def capabilitiesValue (capabilities : List String) : FrameValue :=
  .array (capabilities.map .string)

/-- Fields that are not given are nil. -/
def padTo (n : Nat) (fields : List FrameValue) : List FrameValue :=
  fields ++ replicate (n - fields.length) .nil

/-- The fields a session-open body starts with. -/
def openFields : FrameBody → List FrameValue
  | .empty => [.string protocolName]
  | .text displayName => [.string protocolName, .string displayName]
  | .fields [] => [.string protocolName]
  | .fields fields => fields

/-- The body with its negotiation, where it has room for it. -/
def withSessionOpenNegotiation (body : FrameBody) (negotiation : SessionOpenNegotiation) :
    Except SessionNegotiationError FrameBody := do
  validateCapabilityList negotiation.requestedCapabilities
  requireInstance negotiation
  let fields := openFields body
  if fields.length > sessionOpenCapabilitiesIndex then
    .error (.malformed "session open already contains negotiation fields")
  else do
    validateProtocolField fields
    pure (.fields (padTo sessionOpenCapabilitiesIndex fields ++
      [capabilitiesValue negotiation.requestedCapabilities,
        (negotiation.clientInstanceId.map (fun id => FrameValue.bytes id.bytes)).getD .nil]))

/-- The same of the answer. -/
def withSessionAcceptNegotiation (body : FrameBody) (negotiation : SessionAcceptNegotiation) :
    Except SessionNegotiationError FrameBody := do
  validateCapabilityList negotiation.acceptedCapabilities
  match body with
  | .fields fields =>
    if fields.length > sessionAcceptCapabilitiesIndex then
      .error (.malformed "session accept already contains negotiation fields")
    else do
      validateProtocolField fields
      pure (.fields (padTo sessionAcceptCapabilitiesIndex fields ++
        [capabilitiesValue negotiation.acceptedCapabilities]))
  | _ => .error (.malformed "session accept negotiation requires a fields body")

/-! What passes. -/

/-- The capabilities the list check allows only beside others. -/
def listDependencies : List (String × List String) :=
  [(replyMentionsCapability, [durableMutationCapability]),
    (reactionsCapability, [durableMutationCapability]),
    (messageRevisionsCapability, [durableMutationCapability]),
    (nicknameColoursCapability, [durableMutationCapability]),
    (roomSlowModeCapability, [durableMutationCapability]),
    (roomMediaPolicyCapability, [announcementRoomsCapability, roomSlowModeCapability])]

/-- A list of capabilities that passes the check. -/
structure CapabilityList (capabilities : List String) : Prop where
  count : capabilities.length ≤ sessionCapabilityMaxItems
  names : ∀ c ∈ capabilities, isCapabilityName c = true
  unique : capabilities.Nodup
  beside : ∀ row ∈ listDependencies, row.1 ∈ capabilities → ∀ need ∈ row.2, need ∈ capabilities

theorem validateCapabilityName_ok {c : String} :
    validateCapabilityName c = .ok () ↔ isCapabilityName c = true := by
  unfold validateCapabilityName
  split
  · next h => simp [h]
  · next h => simp [h]

theorem validateEach_ok : ∀ (capabilities unique : List String),
    validateEach unique capabilities = .ok () ↔ (∀ c ∈ capabilities, isCapabilityName c = true) ∧
      capabilities.Nodup ∧ ∀ c ∈ capabilities, c ∉ unique := by
  intro capabilities
  induction capabilities with
  | nil =>
    intro unique
    simp [validateEach]
  | cons c cs ih =>
    intro unique
    rw [validateEach, check_ok]
    by_cases hmem : c ∈ unique
    · simp only [if_pos hmem, reduceCtorEq, and_false, false_iff]
      intro ⟨_, _, hnot⟩
      exact hnot c mem_cons_self hmem
    · simp only [if_neg hmem, ih, forall_mem_cons, nodup_cons, validateCapabilityName_ok]
      refine ⟨?_, ?_⟩
      · intro ⟨hname, hnames, hnodup, hnew⟩
        refine ⟨⟨hname, hnames⟩, ⟨?_, hnodup⟩, hmem, ?_⟩
        · intro hc
          exact hnew c hc mem_cons_self
        · intro d hd hdu
          exact hnew d hd (mem_cons_of_mem _ hdu)
      · intro ⟨⟨hname, hnames⟩, ⟨hc, hnodup⟩, _, hnot⟩
        refine ⟨hname, hnames, hnodup, ?_⟩
        intro d hd hdu
        rcases mem_cons.mp hdu with rfl | hdu
        · exact hc hd
        · exact hnot d hd hdu

theorem requireBeside_ok {unique needs : List String} {c : String} {e : SessionNegotiationError} :
    requireBeside unique c needs e = .ok () ↔ (c ∈ unique → ∀ need ∈ needs, need ∈ unique) := by
  unfold requireBeside
  split
  · next h =>
    simp only [reduceCtorEq, false_iff]
    intro hall
    exact h.2 (hall h.1)
  · next h =>
    simp only [true_iff]
    intro hc
    by_contra hn
    exact h ⟨hc, hn⟩

theorem validateCapabilityList_ok :
    validateCapabilityList capabilities = .ok () ↔ CapabilityList capabilities := by
  unfold validateCapabilityList
  by_cases hcount : capabilities.length > sessionCapabilityMaxItems
  · rw [if_pos hcount]
    simp only [reduceCtorEq, false_iff]
    intro h
    exact absurd h.count (Nat.not_le.mpr hcount)
  · rw [if_neg hcount]
    simp only [check_ok, validateEach_ok, requireBeside_ok]
    refine ⟨?_, ?_⟩
    · intro ⟨⟨hnames, hnodup, _⟩, h₁, h₂, h₃, h₄, h₅, h₆⟩
      refine ⟨Nat.not_lt.mp hcount, hnames, hnodup, ?_⟩
      simp only [listDependencies, forall_mem_cons]
      exact ⟨by simpa using h₁, by simpa using h₂, by simpa using h₃, by simpa using h₄,
        by simpa using h₅, by simpa using h₆, by simp⟩
    · intro h
      have hb := h.beside
      simp only [listDependencies, forall_mem_cons] at hb
      refine ⟨⟨h.names, h.unique, fun _ _ => not_mem_nil⟩, ?_⟩
      exact ⟨by simpa using hb.1, by simpa using hb.2.1, by simpa using hb.2.2.1,
        by simpa using hb.2.2.2.1, by simpa using hb.2.2.2.2.1, by simpa using hb.2.2.2.2.2.1⟩

theorem capabilityNames_map : ∀ {capabilities : List String},
    (∀ c ∈ capabilities, isCapabilityName c = true) →
      capabilityNames (capabilities.map .string) = .ok capabilities := by
  intro capabilities
  induction capabilities with
  | nil =>
    intro _
    rfl
  | cons c cs ih =>
    intro h
    have hname := validateCapabilityName_ok.mpr (h c mem_cons_self)
    have hrest := ih fun d hd => h d (mem_cons_of_mem _ hd)
    simp only [map_cons, capabilityNames, hname, hrest]
    rfl

/-- A list that passes the check is read back from the value it is sent as. -/
theorem parseCapabilities_value (h : CapabilityList capabilities) :
    parseCapabilities (capabilitiesValue capabilities) = .ok capabilities := by
  have hlen : ¬ (capabilities.map FrameValue.string).length > sessionCapabilityMaxItems := by
    rw [length_map]
    exact Nat.not_lt.mpr h.count
  simp only [parseCapabilities, capabilitiesValue, if_neg hlen, capabilityNames_map h.names]
  exact check_ok.mpr ⟨validateCapabilityList_ok.mpr h, rfl⟩

theorem length_padTo {n : Nat} (h : fields.length ≤ n) : (padTo n fields).length = n := by
  rw [padTo, length_append, length_replicate]
  omega

theorem validateProtocolField_append {more : List FrameValue}
    (h : validateProtocolField fields = .ok ()) :
    validateProtocolField (fields ++ more) = .ok () := by
  cases fields with
  | nil => cases h
  | cons field fields => exact h

theorem clientInstanceOf_value (id : Option ClientInstanceId) :
    clientInstanceOf (some ((id.map (fun id => FrameValue.bytes id.bytes)).getD .nil)) = .ok id := by
  cases id with
  | none => rfl
  | some id =>
    have hid : Identifier.tryFrom "client_instance_id" 16 id.bytes = .ok id := dif_pos id.length_bytes
    simp only [Option.map_some, Option.getD_some, clientInstanceOf, hid]
    rfl

/-- A session-open body that could be built is read as the negotiation it was built from. -/
theorem parse_withSessionOpenNegotiation {body result : FrameBody}
    {negotiation : SessionOpenNegotiation}
    (h : withSessionOpenNegotiation body negotiation = .ok result) :
    parseSessionOpenNegotiation result = .ok (some negotiation) := by
  obtain ⟨hlist, h⟩ := check_ok.mp h
  obtain ⟨hinstance, h⟩ := check_ok.mp h
  dsimp only at h
  split at h
  · cases h
  · next hlen =>
    obtain ⟨hprotocol, h⟩ := check_ok.mp h
    cases h
    have hpad := length_padTo (Nat.not_lt.mp hlen)
    have hcaps : ∀ a b : FrameValue,
        (padTo sessionOpenCapabilitiesIndex (openFields body) ++ [a, b])[sessionOpenCapabilitiesIndex]? =
          some a := by
      intro a b
      rw [getElem?_append_right (Nat.le_of_eq hpad), hpad]
      rfl
    have hclient : ∀ a b : FrameValue,
        (padTo sessionOpenCapabilitiesIndex (openFields body) ++ [a, b])[sessionOpenClientInstanceIndex]? =
          some b := by
      intro a b
      have hle : (padTo sessionOpenCapabilitiesIndex (openFields body)).length ≤
          sessionOpenClientInstanceIndex := by
        rw [hpad]
        decide
      rw [getElem?_append_right hle, hpad]
      rfl
    simp only [parseSessionOpenNegotiation, hcaps, hclient]
    refine check_ok.mpr ⟨?_, bind_ok.mpr ⟨_, parseCapabilities_value
      (validateCapabilityList_ok.mp hlist), bind_ok.mpr ⟨_, clientInstanceOf_value _,
        check_ok.mpr ⟨hinstance, rfl⟩⟩⟩⟩
    exact validateProtocolField_append (validateProtocolField_append hprotocol)

/-! The vocabulary of the current protocol. -/

/-- `KNOWN_SESSION_CAPABILITIES`. -/
inductive Capability where
  | durable | noticeAck | replyMentions | reactions | messageRevisions | pins | announcementRooms
  | slowMode | roomMediaPolicy | moderationAudit | nicknameColours | channelAttachment
  deriving DecidableEq

def Capability.name : Capability → String
  | .durable => durableMutationCapability
  | .noticeAck => durableNoticeAckCapability
  | .replyMentions => replyMentionsCapability
  | .reactions => reactionsCapability
  | .messageRevisions => messageRevisionsCapability
  | .pins => roomPinsCapability
  | .announcementRooms => announcementRoomsCapability
  | .slowMode => roomSlowModeCapability
  | .roomMediaPolicy => roomMediaPolicyCapability
  | .moderationAudit => moderationAuditCapability
  | .nicknameColours => nicknameColoursCapability
  | .channelAttachment => channelAttachmentCapability

/-- The column "Server accepts" of the protocol's capability matrix: what a capability is only
accepted with. -/
def Capability.acceptedWith : Capability → List Capability
  | .noticeAck | .replyMentions | .reactions | .messageRevisions | .pins | .slowMode
  | .nicknameColours => [.durable]
  | .roomMediaPolicy => [.durable, .announcementRooms, .slowMode]
  | .durable | .announcementRooms | .moderationAudit | .channelAttachment => []

/-- One flag for each capability. -/
structure CapabilityFlags where
  durable : Bool
  noticeAck : Bool
  replyMentions : Bool
  reactions : Bool
  messageRevisions : Bool
  pins : Bool
  announcementRooms : Bool
  slowMode : Bool
  roomMediaPolicy : Bool
  moderationAudit : Bool
  nicknameColours : Bool
  channelAttachment : Bool

/-- The flag of each capability. -/
def CapabilityFlags.has (flags : CapabilityFlags) : Capability → Bool
  | .durable => flags.durable
  | .noticeAck => flags.noticeAck
  | .replyMentions => flags.replyMentions
  | .reactions => flags.reactions
  | .messageRevisions => flags.messageRevisions
  | .pins => flags.pins
  | .announcementRooms => flags.announcementRooms
  | .slowMode => flags.slowMode
  | .roomMediaPolicy => flags.roomMediaPolicy
  | .moderationAudit => flags.moderationAudit
  | .nicknameColours => flags.nicknameColours
  | .channelAttachment => flags.channelAttachment

end Omen.Protocol
