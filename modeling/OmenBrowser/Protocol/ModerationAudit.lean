import OmenBrowser.Protocol.Snapshots

/- The moderation audit (`omenchat-protocol/src/moderation_audit.rs`): a record of one action,
   and a page of records, newest first.

   A record has a result that fits its action: none for a kick, the status of the target after
   a ban or a mute and their opposites, its role after a change of role. The reader makes the
   same checks as the writer, and some of them twice. -/
namespace Omen.Protocol
open Wire Ints RoundTrip Outcome

variable {r : ModerationAuditRecord} {page : ModerationAuditPage}

def moderationAuditPageMaxEntries : Nat := 256
def moderationAuditDisplayNameMaxBytes : Nat := 256
def moderationAuditPageMaxRetainedBytes : Nat := 512 * 1024
def moderationAuditRoleBitsMask : UInt64 := 0b111
def moderationAuditStatusBitsMask : UInt32 := 0b11
/-- What a record is charged beside its texts. -/
def moderationAuditRetainedRowOverheadBytes : Nat := 64

/-- Why a record or a page is refused. -/
inductive ModerationAuditError where
  | invalidAuditId
  | invalidRoomId
  | invalidUserId
  | unknownAction
  | invalidRecordShape
  | missingTarget
  | invalidDisplayName
  | invalidTimestamp
  | actionResultMismatch
  | invalidRoleBits
  | invalidStatusBits
  | tooManyPageEntries
  | pageBytesExceeded
  | nonCanonicalPageOrder
  | pageRoomMismatch
  deriving DecidableEq, Repr

def ModerationAuditError.text : ModerationAuditError → String
  | .invalidAuditId => "moderation-audit id must be nonzero"
  | .invalidRoomId => "moderation-audit room id must be nonzero and fit u32"
  | .invalidUserId => "moderation-audit user id must be nonzero and fit u32"
  | .unknownAction => "moderation-audit action is unknown"
  | .invalidRecordShape => "moderation-audit record must use the exact ten-field shape"
  | .missingTarget => "moderation-audit target identity and display name are required"
  | .invalidDisplayName =>
    s!"moderation-audit display name must be nonempty and at most {moderationAuditDisplayNameMaxBytes} bytes"
  | .invalidTimestamp => "moderation-audit timestamp must be a nonnegative i64"
  | .actionResultMismatch => "moderation-audit action and result fields disagree"
  | .invalidRoleBits => "moderation-audit role bits contain an unknown flag"
  | .invalidStatusBits => "moderation-audit status bits contain an unknown flag"
  | .tooManyPageEntries =>
    s!"moderation-audit page exceeds {moderationAuditPageMaxEntries} records"
  | .pageBytesExceeded =>
    s!"moderation-audit page exceeds {moderationAuditPageMaxRetainedBytes} retained bytes"
  | .nonCanonicalPageOrder =>
    "moderation-audit page records must be strictly newest-first by unique audit id"
  | .pageRoomMismatch => "moderation-audit page contains a record for another room"

/-- What a moderator can do. -/
inductive ModerationAuditAction where
  | kick
  | ban
  | unban
  | mute
  | unmute
  | roleChange
  deriving DecidableEq, Repr

/-- `self as u8`. -/
def ModerationAuditAction.code : ModerationAuditAction → Nat
  | .kick => 1
  | .ban => 2
  | .unban => 3
  | .mute => 4
  | .unmute => 5
  | .roleChange => 6

def ModerationAuditAction.tryFrom (value : UInt64) :
    Except ModerationAuditError ModerationAuditAction :=
  if value = 1 then .ok .kick
  else if value = 2 then .ok .ban
  else if value = 3 then .ok .unban
  else if value = 4 then .ok .mute
  else if value = 5 then .ok .unmute
  else if value = 6 then .ok .roleChange
  else .error .unknownAction

theorem ModerationAuditAction.tryFrom_code (action : ModerationAuditAction) :
    ModerationAuditAction.tryFrom (UInt64.ofNat action.code) = .ok action := by
  cases action <;> rfl

/-! Fields. -/

def validateRoomId (roomId : UInt32) : Except ModerationAuditError Unit :=
  validateUserId .invalidRoomId roomId

def parseRoomId (value : UInt64) : Except ModerationAuditError UInt32 :=
  parseUserId .invalidRoomId value

/-- A name is never empty, and of a bounded size. -/
def validateDisplayName (value : String) : Except ModerationAuditError Unit :=
  refuse (value = "" ∨ value.utf8ByteSize > moderationAuditDisplayNameMaxBytes) .invalidDisplayName

/-- A missing field is nil, here and in the three that follow. -/
def optionalUserIdValue : Option UInt32 → FrameValue
  | some userId => .u64 userId.toUInt64
  | none => .nil

def parseOptionalUserId : FrameValue → Except ModerationAuditError (Option UInt32)
  | .nil => .ok none
  | .u64 userId => do
    let userId ← parseUserId .invalidUserId userId
    pure (some userId)
  | _ => .error .invalidRecordShape

def optionalNameValue : Option String → FrameValue
  | some name => .string name
  | none => .nil

def parseOptionalName : FrameValue → Except ModerationAuditError (Option String)
  | .nil => .ok none
  | .string value => .ok (some value)
  | _ => .error .invalidRecordShape

def roleBitsValue : Option UInt64 → FrameValue
  | some bits => .u64 bits
  | none => .nil

/-- Bits that no role has are refused. -/
def parseOptionalRoleBits : FrameValue → Except ModerationAuditError (Option UInt64)
  | .nil => .ok none
  | .u64 bits =>
    if bits &&& ~~~moderationAuditRoleBitsMask = 0 then .ok (some bits) else .error .invalidRoleBits
  | _ => .error .invalidRecordShape

def statusBitsValue : Option UInt32 → FrameValue
  | some bits => .u64 bits.toUInt64
  | none => .nil

def parseOptionalStatusBits : FrameValue → Except ModerationAuditError (Option UInt32)
  | .nil => .ok none
  | .u64 bits =>
    if bits.toNat ≤ u32Max then
      if bits.toUInt32 &&& ~~~moderationAuditStatusBitsMask ≠ 0 then .error .invalidStatusBits
      else .ok (some bits.toUInt32)
    else .error .invalidStatusBits
  | _ => .error .invalidRecordShape

/-! Records. -/

/-- One action of a moderator, with what it left the target with. -/
structure ModerationAuditRecord where
  auditId : UInt64
  roomId : UInt32
  actorUserId : UInt32
  actorDisplayNameAtAction : String
  targetUserId : Option UInt32
  targetDisplayNameAtAction : Option String
  action : ModerationAuditAction
  committedAtUnix : Int64
  resultRoleBits : Option UInt64
  resultStatusBits : Option UInt32
  deriving DecidableEq, Repr

namespace ModerationAuditRecord

section
variable (r : ModerationAuditRecord)

/-- Which results an action has. -/
def hasResultOfAction : Bool :=
  match r.action with
  | .kick => r.resultRoleBits.isNone && r.resultStatusBits.isNone
  | .ban | .unban | .mute | .unmute => r.resultRoleBits.isNone && r.resultStatusBits.isSome
  | .roleChange => r.resultRoleBits.isSome && r.resultStatusBits.isNone

/-- The record has a role bit that no role has. -/
def hasUnknownRoleBits : Bool :=
  r.resultRoleBits.any (fun bits => bits &&& ~~~moderationAuditRoleBitsMask != 0)

def hasUnknownStatusBits : Bool :=
  r.resultStatusBits.any (fun bits => bits &&& ~~~moderationAuditStatusBitsMask != 0)

/-- What the action says of the bits it leaves. -/
def bitsFitAction : Bool :=
  match r.action, r.resultRoleBits, r.resultStatusBits with
  | .ban, _, some bits => bits &&& 0b01 != 0
  | .unban, _, some bits => bits &&& 0b01 == 0
  | .mute, _, some bits => bits &&& 0b10 != 0
  | .unmute, _, some bits => bits &&& 0b10 == 0
  | .roleChange, some bits, _ => bits == 0 || bits == 0b001 || bits == 0b011 || bits == 0b111
  | _, _, _ => true

/-- A target has an id and a name, or neither. -/
def validateTarget : Except ModerationAuditError Unit := do
  match r.targetUserId with
  | none => throw .missingTarget
  | some targetUserId => validateUserId .invalidUserId targetUserId
  match r.targetDisplayNameAtAction with
  | none => throw .missingTarget
  | some name => validateDisplayName name

/-- `validate`: the ids, the names, the target, the time and the bits that go with the action. -/
def validate : Except ModerationAuditError Unit := do
  validateEventId .invalidAuditId r.auditId
  validateRoomId r.roomId
  validateUserId .invalidUserId r.actorUserId
  validateDisplayName r.actorDisplayNameAtAction
  r.validateTarget
  validateTimestamp .invalidTimestamp r.committedAtUnix
  refuse (r.hasResultOfAction = false) .actionResultMismatch
  refuse (r.hasUnknownRoleBits = true) .invalidRoleBits
  refuse (r.hasUnknownStatusBits = true) .invalidStatusBits
  refuse (r.bitsFitAction = false) .actionResultMismatch

/-- A record that is written passes the check first. -/
def intoFrameValue : Except ModerationAuditError FrameValue := do
  r.validate
  let committedAt ← timestampValue .invalidTimestamp r.committedAtUnix
  pure (.array [.u64 r.auditId, .u64 r.roomId.toUInt64, .u64 r.actorUserId.toUInt64,
    .string r.actorDisplayNameAtAction, optionalUserIdValue r.targetUserId,
    optionalNameValue r.targetDisplayNameAtAction, .u64 (UInt64.ofNat r.action.code), committedAt,
    roleBitsValue r.resultRoleBits, statusBitsValue r.resultStatusBits])

end

/-- The ten fields of a record; a record that is read passes the check. -/
def fromFrameValue : FrameValue → Except ModerationAuditError ModerationAuditRecord
  | .array [.u64 auditId, .u64 roomId, .u64 actorUserId, .string actorDisplayName, targetUserId,
      targetDisplayName, .u64 action, committedAt, resultRoleBits, resultStatusBits] => do
    let roomId ← parseRoomId roomId
    let actorUserId ← parseUserId .invalidUserId actorUserId
    let targetUserId ← parseOptionalUserId targetUserId
    let targetDisplayName ← parseOptionalName targetDisplayName
    let action ← ModerationAuditAction.tryFrom action
    let committedAtUnix ← parseTimestamp .invalidTimestamp committedAt
    let resultRoleBits ← parseOptionalRoleBits resultRoleBits
    let resultStatusBits ← parseOptionalStatusBits resultStatusBits
    let record : ModerationAuditRecord :=
      { auditId
        roomId
        actorUserId
        actorDisplayNameAtAction := actorDisplayName
        targetUserId
        targetDisplayNameAtAction := targetDisplayName
        action
        committedAtUnix
        resultRoleBits
        resultStatusBits }
    record.validate
    pure record
  | _ => .error .invalidRecordShape

/-- What the record is charged in a page. -/
def retainedBytes (r : ModerationAuditRecord) : Nat :=
  moderationAuditRetainedRowOverheadBytes + r.actorDisplayNameAtAction.utf8ByteSize +
    (r.targetDisplayNameAtAction.map String.utf8ByteSize).getD 0

end ModerationAuditRecord

/-! Pages. -/

/-- Records, the latest first. -/
structure ModerationAuditPage where
  records : List ModerationAuditRecord
  deriving DecidableEq, Repr

namespace ModerationAuditPage

/-- The loop over the records of a page, behind `retained` bytes. -/
def validateRecords : Nat → List ModerationAuditRecord → Except ModerationAuditError Unit
  | _, [] => pure ()
  | retained, r :: rest => do
    r.validate
    refuse (retained + r.retainedBytes > moderationAuditPageMaxRetainedBytes) .pageBytesExceeded
    validateRecords (retained + r.retainedBytes) rest

/-- The records are bounded in number and in size, and their ids fall. -/
def validate (page : ModerationAuditPage) : Except ModerationAuditError Unit := do
  refuse (page.records.length > moderationAuditPageMaxEntries) .tooManyPageEntries
  validateRecords 0 page.records
  refuse (anyWindow (fun a b => decide (a.auditId ≤ b.auditId)) page.records = true)
    .nonCanonicalPageOrder

def intoFrameValues (page : ModerationAuditPage) : Except ModerationAuditError (List FrameValue) := do
  page.validate
  page.records.mapM ModerationAuditRecord.intoFrameValue

def fromFrameValues (values : List FrameValue) : Except ModerationAuditError ModerationAuditPage := do
  refuse (values.length > moderationAuditPageMaxEntries) .tooManyPageEntries
  let records ← values.mapM ModerationAuditRecord.fromFrameValue
  validate { records }
  pure { records }

/-- Every record is of the room that was asked for. -/
def validateRoom (page : ModerationAuditPage) (roomId : UInt32) :
    Except ModerationAuditError Unit := do
  validateRoomId roomId
  refuse (page.records.any (fun r => r.roomId != roomId) = true) .pageRoomMismatch

end ModerationAuditPage

/-! Round trips. -/

theorem parseOptionalUserId_value {userId : Option UInt32} (h : userId ≠ some 0) :
    parseOptionalUserId (optionalUserIdValue userId) = .ok userId := by
  cases userId with
  | none => rfl
  | some userId =>
    have hnonzero : userId ≠ 0 := fun hzero => h (by rw [hzero])
    exact bind_ok.mpr ⟨_, parseUserId_toUInt64 hnonzero, rfl⟩

theorem parseOptionalName_value (name : Option String) :
    parseOptionalName (optionalNameValue name) = .ok name := by
  cases name <;> rfl

namespace ModerationAuditRecord

theorem validateTarget_ok (h : r.validateTarget = .ok ()) : r.targetUserId ≠ some 0 := by
  intro hzero
  unfold validateTarget at h
  rw [hzero] at h
  exact validateUserId_ok.mp (check_ok.mp h).1 rfl

theorem parseOptionalRoleBits_value (h : ¬r.hasUnknownRoleBits = true) :
    parseOptionalRoleBits (roleBitsValue r.resultRoleBits) = .ok r.resultRoleBits := by
  unfold hasUnknownRoleBits at h
  cases hbits : r.resultRoleBits with
  | none => rfl
  | some bits =>
    rw [hbits] at h
    have hknown : bits &&& ~~~moderationAuditRoleBitsMask = 0 := by simpa using h
    simp only [roleBitsValue, parseOptionalRoleBits, if_pos hknown]

theorem parseOptionalStatusBits_value (h : ¬r.hasUnknownStatusBits = true) :
    parseOptionalStatusBits (statusBitsValue r.resultStatusBits) = .ok r.resultStatusBits := by
  unfold hasUnknownStatusBits at h
  cases hbits : r.resultStatusBits with
  | none => rfl
  | some bits =>
    rw [hbits] at h
    have hknown : bits &&& ~~~moderationAuditStatusBitsMask = 0 := by simpa using h
    have hle : bits.toUInt64.toNat ≤ u32Max := by
      have := bits.toNat_lt
      rw [UInt32.toNat_toUInt64]
      unfold u32Max
      omega
    simp only [statusBitsValue, parseOptionalStatusBits, if_pos hle, UInt32.toUInt32_toUInt64,
      hknown, ne_eq, not_true_eq_false, if_false]

theorem readsBack (r : ModerationAuditRecord) : ReadsBack intoFrameValue fromFrameValue r := by
  intro value h
  obtain ⟨hvalid, h⟩ := check_ok.mp h
  obtain ⟨committedAt, htime, h⟩ := bind_ok.mp h
  cases h
  have hchecks := hvalid
  obtain ⟨_, hchecks⟩ := check_ok.mp hchecks
  obtain ⟨hroom, hchecks⟩ := check_ok.mp hchecks
  obtain ⟨hactor, hchecks⟩ := check_ok.mp hchecks
  obtain ⟨_, hchecks⟩ := check_ok.mp hchecks
  obtain ⟨htarget, hchecks⟩ := check_ok.mp hchecks
  obtain ⟨_, hchecks⟩ := check_ok.mp hchecks
  obtain ⟨_, hchecks⟩ := refuse_bind_ok.mp hchecks
  obtain ⟨hrole, hchecks⟩ := refuse_bind_ok.mp hchecks
  obtain ⟨hstatus, _⟩ := refuse_bind_ok.mp hchecks
  refine bind_ok.mpr ⟨_, parseUserId_toUInt64 (validateUserId_ok.mp hroom), ?_⟩
  refine bind_ok.mpr ⟨_, parseUserId_toUInt64 (validateUserId_ok.mp hactor), ?_⟩
  refine bind_ok.mpr ⟨_, parseOptionalUserId_value (validateTarget_ok htarget), ?_⟩
  refine bind_ok.mpr ⟨_, parseOptionalName_value _, ?_⟩
  refine bind_ok.mpr ⟨_, ModerationAuditAction.tryFrom_code _, ?_⟩
  refine bind_ok.mpr ⟨_, parseTimestamp_value htime, ?_⟩
  refine bind_ok.mpr ⟨_, parseOptionalRoleBits_value hrole, ?_⟩
  refine bind_ok.mpr ⟨_, parseOptionalStatusBits_value hstatus, ?_⟩
  exact check_ok.mpr ⟨hvalid, rfl⟩

theorem exists_intoFrameValue (h : r.validate = .ok ()) :
    ∃ value, r.intoFrameValue = .ok value := by
  have hchecks := h
  obtain ⟨_, hchecks⟩ := check_ok.mp hchecks
  obtain ⟨_, hchecks⟩ := check_ok.mp hchecks
  obtain ⟨_, hchecks⟩ := check_ok.mp hchecks
  obtain ⟨_, hchecks⟩ := check_ok.mp hchecks
  obtain ⟨_, hchecks⟩ := check_ok.mp hchecks
  obtain ⟨htime, _⟩ := check_ok.mp hchecks
  obtain ⟨committedAt, hvalue⟩ := exists_timestampValue (validateTimestamp_ok.mp htime)
  exact ⟨_, check_ok.mpr ⟨h, bind_ok.mpr ⟨committedAt, hvalue, rfl⟩⟩⟩

end ModerationAuditRecord

namespace ModerationAuditPage

theorem validateRecords_ok {retained : Nat} {records : List ModerationAuditRecord}
    (h : validateRecords retained records = .ok ()) : ∀ r ∈ records, r.validate = .ok () := by
  induction records generalizing retained with
  | nil =>
    intro r hr
    cases hr
  | cons r rest ih =>
    obtain ⟨hr, h⟩ := check_ok.mp h
    obtain ⟨_, h⟩ := refuse_bind_ok.mp h
    exact List.forall_mem_cons.mpr ⟨hr, ih h⟩

theorem validate_ok (h : page.validate = .ok ()) :
    page.records.length ≤ moderationAuditPageMaxEntries ∧
      ∀ r ∈ page.records, r.validate = .ok () := by
  obtain ⟨hlength, h⟩ := refuse_bind_ok.mp h
  obtain ⟨hrecords, _⟩ := check_ok.mp h
  exact ⟨Nat.le_of_not_gt hlength, validateRecords_ok hrecords⟩

theorem readsBack (page : ModerationAuditPage) :
    ReadsBack intoFrameValues fromFrameValues page := by
  intro values h
  obtain ⟨hvalid, hvalues⟩ := check_ok.mp h
  have hlength := (validate_ok hvalid).1
  rw [← length_mapM hvalues] at hlength
  refine refuse_bind_ok.mpr ⟨Nat.not_lt.mpr hlength, ?_⟩
  refine bind_ok.mpr ⟨_, mapM_readsBack (fun r _ => r.readsBack) hvalues, ?_⟩
  exact check_ok.mpr ⟨hvalid, rfl⟩

theorem exists_intoFrameValues (h : page.validate = .ok ()) :
    ∃ values, page.intoFrameValues = .ok values := by
  obtain ⟨values, hvalues⟩ :
      ∃ values, page.records.mapM ModerationAuditRecord.intoFrameValue = .ok values :=
    mapM_writes fun r hr => ModerationAuditRecord.exists_intoFrameValue ((validate_ok h).2 r hr)
  exact ⟨values, check_ok.mpr ⟨h, hvalues⟩⟩

theorem rewrites (values : List FrameValue) : Rewrites intoFrameValues fromFrameValues values := by
  refine rewrites_of_writes ?_ fun page _ => page.readsBack
  intro page h
  obtain ⟨_, h⟩ := refuse_bind_ok.mp h
  obtain ⟨records, _, h⟩ := bind_ok.mp h
  obtain ⟨hvalid, h⟩ := check_ok.mp h
  cases h
  exact exists_intoFrameValues hvalid

end ModerationAuditPage
end Omen.Protocol
