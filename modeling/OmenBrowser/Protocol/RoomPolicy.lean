import OmenBrowser.Lib.Outcome
import OmenBrowser.Lib.Text
import OmenBrowser.Lib.Wire
import OmenBrowser.Protocol.Frame

/- The room catalog in its four shapes (`omenchat-protocol/src/room_policy.rs`).

   A shape is the first fields of the next larger one, and a decoder wants exactly its own number of
   fields. What is read is the entry without the fields the shape leaves out
   (`fromFrameValue_into`). An entry is checked before it is written, in every shape:
   `intoFrameValue_ok` says exactly which entries can be.

   Correspondence (Rust ↔ Lean):
     `RoomCatalogEntry::validate`                 ↔ `RoomCatalogEntry.validate`, `RoomCatalogEntry.Valid`
     `into_frame_value_for_shape`                 ↔ `RoomCatalogEntry.intoFrameValueForShape`
     `from_frame_value_for_shape`                 ↔ `RoomCatalogEntry.fromFrameValueForShape`
     `policy_projection_for_shape`                ↔ `RoomCatalogEntry.policyProjectionForShape`
     the texts of `#[error(..)]`                  ↔ `RoomPolicyError.text` -/
namespace Omen.Protocol
open Text Outcome

/-- How much of a room a session's frames say, the smallest first. -/
inductive RoomCatalogShape where
  | legacy
  | policyBits
  | slowMode
  | mediaPolicy
  deriving DecidableEq

/-- The bits that a policy can have: announcement-only. -/
def roomPolicyKnownMask : UInt64 := 0x01
def roomSlowModeMaxSeconds : UInt32 := 86400
def roomUploadMaxFileBytes : UInt64 := 10 * 1024 * 1024
def roomNameMaxBytes : Nat := 64
def roomTopicMaxBytes : Nat := 4 * 1024

/-- Why a room cannot be written or read. -/
inductive RoomPolicyError where
  | invalidShape
  | invalidRoomId
  | invalidName
  | invalidTopic
  | unknownPolicyBits (bits : UInt64)
  | invalidSlowMode
  | invalidUploadMaxFileBytes
  deriving DecidableEq, Repr

/-- `{0:x}`. -/
def hexDigits (bits : UInt64) : String := String.ofList (Nat.toDigits 16 bits.toNat)

def RoomPolicyError.text : RoomPolicyError → String
  | .invalidShape => "room catalog value has an invalid shape"
  | .invalidRoomId => "room catalog id must be a nonzero u32"
  | .invalidName => "room catalog name is empty or exceeds 64 bytes"
  | .invalidTopic => "room catalog topic is empty or exceeds 4096 bytes"
  | .unknownPolicyBits bits => "room catalog policy contains unknown bits 0x" ++ hexDigits bits
  | .invalidSlowMode => "room catalog slow mode exceeds 86400 seconds"
  | .invalidUploadMaxFileBytes => "room upload maximum must be nil or no more than 10485760 bytes"

/-- What a room says of the size of uploads. -/
inductive RoomUploadPolicyProjection where
  | inherit
  | disabled
  | maximumFileBytes (bytes : UInt64)
  deriving DecidableEq, Repr

/-- No limit of its own, no uploads at all, or a limit within the protocol's. -/
def RoomUploadPolicyProjection.fromConfiguredMaxFileBytes :
    Option UInt64 → Except RoomPolicyError RoomUploadPolicyProjection
  | none => .ok .inherit
  | some bytes =>
    if bytes = 0 then .ok .disabled
    else if bytes ≤ roomUploadMaxFileBytes then .ok (.maximumFileBytes bytes)
    else .error .invalidUploadMaxFileBytes

/-- The policy of a room, as a session is told. -/
structure RoomPolicyProjection where
  policyBits : UInt64
  slowModeSeconds : UInt32
  uploadPolicy : Option RoomUploadPolicyProjection
  deriving DecidableEq, Repr

/-- A projection holds known bits, a slow mode of at most a day and a limit that an upload can
reach. -/
def RoomPolicyProjection.newWithUploadPolicy (policyBits : UInt64) (slowModeSeconds : UInt32)
    (uploadMaxFileBytes : Option (Option UInt64)) : Except RoomPolicyError RoomPolicyProjection :=
  if policyBits &&& ~~~roomPolicyKnownMask ≠ 0 then .error (.unknownPolicyBits policyBits)
  else if slowModeSeconds > roomSlowModeMaxSeconds then .error .invalidSlowMode
  else do
    let uploadPolicy ← match uploadMaxFileBytes with
      | none => .ok none
      | some configured =>
        (RoomUploadPolicyProjection.fromConfiguredMaxFileBytes configured).map some
    .ok { policyBits, slowModeSeconds, uploadPolicy }

/-- A room in the catalog. -/
structure RoomCatalogEntry where
  roomId : UInt32
  name : String
  topic : Option String
  roomRevision : UInt64
  policyBits : UInt64
  slowModeSeconds : UInt32
  uploadMaxFileBytes : Option UInt64
  deriving DecidableEq, Repr

namespace RoomCatalogEntry

variable {e : RoomCatalogEntry} {shape : RoomCatalogShape} {value : FrameValue}

section
variable (e : RoomCatalogEntry)

/-- The check before an entry is written, and after it is read. -/
def validate : Except RoomPolicyError Unit :=
  if e.roomId = 0 then .error .invalidRoomId
  else if (trim e.name).isEmpty ∨ e.name.utf8ByteSize > roomNameMaxBytes then .error .invalidName
  else if e.topic.any (fun topic => (trim topic).isEmpty ||
      decide (topic.utf8ByteSize > roomTopicMaxBytes)) then .error .invalidTopic
  else if e.policyBits &&& ~~~roomPolicyKnownMask ≠ 0 then .error (.unknownPolicyBits e.policyBits)
  else if e.slowModeSeconds > roomSlowModeMaxSeconds then .error .invalidSlowMode
  else if e.uploadMaxFileBytes.any (fun bytes => decide (bytes > roomUploadMaxFileBytes)) then
    .error .invalidUploadMaxFileBytes
  else .ok ()

/-- The policy a session of this shape is told. -/
def policyProjectionForShape :
    RoomCatalogShape → Except RoomPolicyError (Option RoomPolicyProjection)
  | .legacy => .ok none
  | .policyBits | .slowMode =>
    (RoomPolicyProjection.newWithUploadPolicy e.policyBits e.slowModeSeconds none).map some
  | .mediaPolicy =>
    (RoomPolicyProjection.newWithUploadPolicy e.policyBits e.slowModeSeconds
      (some e.uploadMaxFileBytes)).map some

/-- The fields behind the four that every shape has. -/
def policyFields : RoomCatalogShape → List FrameValue
  | .legacy => []
  | .policyBits => [.u64 e.policyBits]
  | .slowMode => [.u64 e.policyBits, .u64 e.slowModeSeconds.toUInt64]
  | .mediaPolicy => [.u64 e.policyBits, .u64 e.slowModeSeconds.toUInt64,
      (e.uploadMaxFileBytes.map FrameValue.u64).getD .nil]

/-- The value of an entry that passes its check. -/
def intoFrameValueForShape (shape : RoomCatalogShape) : Except RoomPolicyError FrameValue := do
  e.validate
  .ok (.array (.u64 e.roomId.toUInt64 :: .string e.name ::
    (e.topic.map FrameValue.string).getD .nil :: .u64 e.roomRevision :: e.policyFields shape))
end

/-- `LEGACY_ROOM_VALUE_FIELDS` and its siblings. -/
def shapeFields : RoomCatalogShape → Nat
  | .legacy => 4
  | .policyBits => 5
  | .slowMode => 6
  | .mediaPolicy => 7

/-- `u32::try_from`. -/
def tryU32 (value : UInt64) : Option UInt32 :=
  if value.toNat < 2 ^ 32 then some (UInt32.ofNat value.toNat) else none

/-- A number of 32 bits, with an error of its own. -/
def slowModeField (seconds : UInt64) : Except RoomPolicyError UInt32 :=
  match tryU32 seconds with
  | some seconds => .ok seconds
  | none => .error .invalidSlowMode

def roomIdField (roomId : UInt64) : Except RoomPolicyError UInt32 :=
  match tryU32 roomId with
  | some roomId => .ok roomId
  | none => .error .invalidRoomId

/-- No limit of its own is nil. -/
def uploadField : FrameValue → Except RoomPolicyError (Option UInt64)
  | .nil => .ok none
  | .u64 bytes => .ok (some bytes)
  | _ => .error .invalidUploadMaxFileBytes

/-- The policy bits, the seconds of the slow mode and the limit of uploads. -/
def readPolicy : RoomCatalogShape → List FrameValue →
    Except RoomPolicyError (UInt64 × UInt32 × Option UInt64)
  | .legacy, [] => .ok (0, 0, none)
  | .policyBits, [.u64 policyBits] => .ok (policyBits, 0, none)
  | .slowMode, [.u64 policyBits, .u64 seconds] => do
    let seconds ← slowModeField seconds
    .ok (policyBits, seconds, none)
  | .mediaPolicy, [.u64 policyBits, .u64 seconds, upload] => do
    let seconds ← slowModeField seconds
    let upload ← uploadField upload
    .ok (policyBits, seconds, upload)
  | _, _ => .error .invalidShape

def topicField : FrameValue → Except RoomPolicyError (Option String)
  | .nil => .ok none
  | .string topic => .ok (some topic)
  | _ => .error .invalidShape

/-- The entry of a value that has exactly the fields of the shape. -/
def fromFrameValueForShape (value : FrameValue) (shape : RoomCatalogShape) :
    Except RoomPolicyError RoomCatalogEntry :=
  match value with
  | .array fields =>
    if fields.length ≠ shapeFields shape then .error .invalidShape
    else
      match fields with
      | .u64 roomId :: .string name :: topic :: .u64 roomRevision :: rest => do
        let (policyBits, slowModeSeconds, uploadMaxFileBytes) ← readPolicy shape rest
        let roomId ← roomIdField roomId
        let topic ← topicField topic
        let entry : RoomCatalogEntry :=
          { roomId, name, topic, roomRevision, policyBits, slowModeSeconds, uploadMaxFileBytes }
        entry.validate
        .ok entry
      | _ => .error .invalidShape
  | _ => .error .invalidShape

end RoomCatalogEntry

/-! Projections. -/

namespace RoomCatalogEntry
variable {e : RoomCatalogEntry} {shape : RoomCatalogShape} {value : FrameValue}

/-- The entry without the fields that the shape leaves out. -/
def project (e : RoomCatalogEntry) : RoomCatalogShape → RoomCatalogEntry
  | .legacy => { e with policyBits := 0, slowModeSeconds := 0, uploadMaxFileBytes := none }
  | .policyBits => { e with slowModeSeconds := 0, uploadMaxFileBytes := none }
  | .slowMode => { e with uploadMaxFileBytes := none }
  | .mediaPolicy => e

/-- The policy that the shape shows of an entry. -/
def shownPolicy (e : RoomCatalogEntry) : RoomCatalogShape → Option RoomPolicyProjection
  | .legacy => none
  | .policyBits => some ⟨e.policyBits, 0, none⟩
  | .slowMode => some ⟨e.policyBits, e.slowModeSeconds, none⟩
  | .mediaPolicy => some ⟨e.policyBits, e.slowModeSeconds, some (match e.uploadMaxFileBytes with
      | none => .inherit
      | some bytes => if bytes = 0 then .disabled else .maximumFileBytes bytes)⟩

/-- An entry that passes its check. -/
structure Valid (e : RoomCatalogEntry) : Prop where
  roomId : e.roomId ≠ 0
  name : ¬((trim e.name).isEmpty = true ∨ e.name.utf8ByteSize > roomNameMaxBytes)
  topic : e.topic.any (fun topic => (trim topic).isEmpty ||
    decide (topic.utf8ByteSize > roomTopicMaxBytes)) = false
  policyBits : e.policyBits &&& ~~~roomPolicyKnownMask = 0
  slowMode : e.slowModeSeconds ≤ roomSlowModeMaxSeconds
  upload : ∀ bytes, e.uploadMaxFileBytes = some bytes → bytes ≤ roomUploadMaxFileBytes

theorem validate_ok : e.validate = .ok () ↔ e.Valid := by
  have hupload : e.uploadMaxFileBytes.any (fun bytes => decide (bytes > roomUploadMaxFileBytes)) = true ↔
      ¬∀ bytes, e.uploadMaxFileBytes = some bytes → bytes ≤ roomUploadMaxFileBytes := by
    cases e.uploadMaxFileBytes with
    | none | some => simp
  unfold validate
  constructor
  · intro h
    split at h
    · cases h
    · next hroom =>
      split at h
      · cases h
      · next hname =>
        split at h
        · cases h
        · next htopic =>
          split at h
          · cases h
          · next hbits =>
            split at h
            · cases h
            · next hslow =>
              split at h
              · cases h
              · next hbytes =>
                exact ⟨hroom, hname, Bool.eq_false_iff.mpr htopic, not_not.mp hbits,
                  UInt32.not_lt.mp hslow, not_not.mp fun hnot => hbytes (hupload.mpr hnot)⟩
  · intro h
    rw [if_neg h.roomId, if_neg h.name, if_neg (Bool.eq_false_iff.mp h.topic),
      if_neg (not_not.mpr h.policyBits), if_neg (UInt32.not_lt.mpr h.slowMode),
      if_neg fun hbytes => hupload.mp hbytes h.upload]

/-- A topic that is too long is found, whatever follows it. -/
theorem validate_long_topic {topic : String} (hroom : e.roomId ≠ 0)
    (hname : ¬((trim e.name).isEmpty = true ∨ e.name.utf8ByteSize > roomNameMaxBytes))
    (htopic : e.topic = some topic) (hlong : topic.utf8ByteSize > roomTopicMaxBytes) :
    e.validate = .error .invalidTopic := by
  unfold validate
  rw [if_neg hroom, if_neg hname, htopic, if_pos]
  simp [hlong]

/-- Leaving fields out keeps an entry valid. -/
theorem Valid.project (h : e.Valid) (shape : RoomCatalogShape) : (e.project shape).Valid := by
  have hbits : (0 : UInt64) &&& ~~~roomPolicyKnownMask = 0 := by decide
  have hslow : (0 : UInt32) ≤ roomSlowModeMaxSeconds := by decide
  cases shape with
  | legacy => exact ⟨h.roomId, h.name, h.topic, hbits, hslow, nofun⟩
  | policyBits => exact ⟨h.roomId, h.name, h.topic, h.policyBits, hslow, nofun⟩
  | slowMode => exact ⟨h.roomId, h.name, h.topic, h.policyBits, h.slowMode, nofun⟩
  | mediaPolicy => exact h

theorem intoFrameValue_ok :
    e.intoFrameValueForShape shape = .ok value ↔ e.Valid ∧
      value = .array (.u64 e.roomId.toUInt64 :: .string e.name ::
        (e.topic.map FrameValue.string).getD .nil :: .u64 e.roomRevision :: e.policyFields shape) := by
  rw [← validate_ok]
  refine check_ok.trans (and_congr_right fun _ => ?_)
  exact ⟨fun h => (Except.ok.inj h).symm, fun h => congrArg Except.ok h.symm⟩

theorem policyFields_length (e : RoomCatalogEntry) (shape : RoomCatalogShape) :
    (e.policyFields shape).length + 4 = shapeFields shape := by
  cases shape <;> rfl

theorem shapeFields_inj {a b : RoomCatalogShape} (h : shapeFields a = shapeFields b) : a = b := by
  cases a <;> cases b <;> first | rfl | cases h

theorem tryU32_toUInt64 (value : UInt32) : tryU32 value.toUInt64 = some value := by
  have hlt := value.toNat_lt
  unfold tryU32
  rw [UInt32.toNat_toUInt64, if_pos hlt, UInt32.ofNat_toNat]

theorem topicField_getD (topic : Option String) :
    topicField ((topic.map FrameValue.string).getD .nil) = .ok topic := by
  cases topic <;> rfl

theorem uploadField_getD (upload : Option UInt64) :
    uploadField ((upload.map FrameValue.u64).getD .nil) = .ok upload := by
  cases upload <;> rfl

/-- What a shape writes of the policy, it reads. -/
theorem readPolicy_policyFields (e : RoomCatalogEntry) (shape : RoomCatalogShape) :
    readPolicy shape (e.policyFields shape) = .ok ((e.project shape).policyBits,
      (e.project shape).slowModeSeconds, (e.project shape).uploadMaxFileBytes) := by
  have hslow : slowModeField e.slowModeSeconds.toUInt64 = .ok e.slowModeSeconds := by
    unfold slowModeField
    rw [tryU32_toUInt64]
  cases shape with
  | legacy | policyBits => rfl
  | slowMode =>
    refine bind_ok.mpr ⟨_, hslow, rfl⟩
  | mediaPolicy =>
    exact bind_ok.mpr ⟨_, hslow, bind_ok.mpr ⟨_, uploadField_getD _, rfl⟩⟩

/-- What is read in the shape it was written in is the projection to that shape. -/
theorem fromFrameValue_into (h : e.intoFrameValueForShape shape = .ok value) :
    fromFrameValueForShape value shape = .ok (e.project shape) := by
  obtain ⟨hvalid, rfl⟩ := intoFrameValue_ok.mp h
  have hlength := e.policyFields_length shape
  have hroom : roomIdField e.roomId.toUInt64 = .ok e.roomId := by
    unfold roomIdField
    rw [tryU32_toUInt64]
  have hentry : ({ roomId := e.roomId, name := e.name, topic := e.topic, roomRevision := e.roomRevision
                   policyBits := (e.project shape).policyBits
                   slowModeSeconds := (e.project shape).slowModeSeconds
                   uploadMaxFileBytes := (e.project shape).uploadMaxFileBytes } : RoomCatalogEntry) =
      e.project shape := by
    cases shape <;> rfl
  unfold fromFrameValueForShape
  simp only [List.length_cons]
  rw [if_neg (by omega)]
  refine bind_ok.mpr ⟨_, e.readPolicy_policyFields shape, ?_⟩
  refine bind_ok.mpr ⟨_, hroom, bind_ok.mpr ⟨_, topicField_getD e.topic, ?_⟩⟩
  simp only [hentry]
  exact check_ok.mpr ⟨validate_ok.mpr (hvalid.project shape), rfl⟩

/-- No other shape reads it. -/
theorem fromFrameValue_other {other : RoomCatalogShape}
    (h : e.intoFrameValueForShape shape = .ok value) (hother : other ≠ shape) :
    fromFrameValueForShape value other = .error .invalidShape := by
  obtain ⟨_, rfl⟩ := intoFrameValue_ok.mp h
  have hlength := e.policyFields_length shape
  unfold fromFrameValueForShape
  simp only [List.length_cons]
  rw [if_pos]
  exact fun heq => hother (shapeFields_inj (by omega))

/-- A projection to a larger shape leaves in what a smaller one leaves in. -/
theorem project_project (e : RoomCatalogEntry) {small large : RoomCatalogShape}
    (h : shapeFields small ≤ shapeFields large) : (e.project large).project small = e.project small := by
  cases large <;> cases small <;> first | rfl | exact absurd h (by decide)

theorem newWithUploadPolicy_valid (h : e.Valid) {upload : Option (Option UInt64)}
    {p : Option RoomUploadPolicyProjection} (hpolicy : (match upload with
      | none => .ok none
      | some configured =>
        (RoomUploadPolicyProjection.fromConfiguredMaxFileBytes configured).map some) =
      Except.ok p) :
    RoomPolicyProjection.newWithUploadPolicy e.policyBits e.slowModeSeconds upload =
      .ok ⟨e.policyBits, e.slowModeSeconds, p⟩ := by
  unfold RoomPolicyProjection.newWithUploadPolicy
  rw [if_neg (not_not.mpr h.policyBits), if_neg (UInt32.not_lt.mpr h.slowMode)]
  cases upload with
  | none =>
    cases hpolicy
    rfl
  | some configured => exact bind_ok.mpr ⟨p, hpolicy, rfl⟩

/-- The policy of what is read is the one the shape shows. -/
theorem policyProjection_project (h : e.Valid) (shape : RoomCatalogShape) :
    (e.project shape).policyProjectionForShape shape = .ok (e.shownPolicy shape) := by
  have hproject := h.project shape
  cases shape with
  | legacy => rfl
  | policyBits | slowMode => exact map_ok.mpr ⟨_, newWithUploadPolicy_valid hproject rfl, rfl⟩
  | mediaPolicy =>
    refine map_ok.mpr ⟨_, newWithUploadPolicy_valid hproject (p := some
      (match e.uploadMaxFileBytes with
        | none => .inherit
        | some bytes => if bytes = 0 then .disabled else .maximumFileBytes bytes)) ?_, rfl⟩
    show (RoomUploadPolicyProjection.fromConfiguredMaxFileBytes e.uploadMaxFileBytes).map some = _
    cases hupload : e.uploadMaxFileBytes with
    | none => rfl
    | some bytes =>
      simp only [RoomUploadPolicyProjection.fromConfiguredMaxFileBytes]
      by_cases hzero : bytes = 0
      · rw [if_pos hzero, if_pos hzero]
        rfl
      · rw [if_neg hzero, if_neg hzero, if_pos (h.upload bytes hupload)]
        rfl

end RoomCatalogEntry

end Omen.Protocol
