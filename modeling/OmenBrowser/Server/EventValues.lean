import OmenBrowser.Server.StoredEvents

/- Events as values (`server/src/session.rs`).

   An event is six fields, an upload nine, and the metadata of a message two more. Every event that
   an append writes can be read and sent, also when its reply has been cleared. -/
namespace Omen.Server
open Wire Sql Ints Outcome Omen.Protocol

variable {e : RoomEventRow}

/-- `human_bytes`. -/
abbrev HumanBytes := UInt64 → String

section Values
variable (humanBytes : HumanBytes)

/-- The kind, the text and the further fields of an event. -/
def eventParts : ServerRoomEventKind → UInt64 × String × List FrameValue
  | .message body => (1, body, [])
  | .action body => (2, body, [])
  | .notice body => (3, body, [])
  | .system body => (4, body, [])
  | .upload resourceId filename bytes =>
    (5, "uploaded " ++ filename ++ " (" ++ humanBytes (UInt64.ofNat bytes) ++ ")",
      [.string resourceId, .string filename, .u64 (UInt64.ofNat bytes)])

def eventFields (event : ServerRoomEvent) : List FrameValue :=
  let (kind, body, upload) := eventParts humanBytes event.kind
  [.u64 (UInt64.ofNat event.eventId), .u64 kind,
    event.actorUserId.elim .nil (fun userId => .u64 userId.toUInt64),
    .i64 (Int64.ofInt event.atUnix), .string body, event.actorDisplayName.elim .nil .string] ++ upload

def eventToValue (event : ServerRoomEvent) : Except ServerError FrameValue :=
  match event.metadata with
  | none => .ok (.array (eventFields humanBytes event))
  | some metadata =>
    match appendRichMessageEventMetadata (eventFields humanBytes event) metadata with
    | .ok fields => .ok (.array fields)
    | .error error =>
      let text := error.text
      .error (.message s!"stored rich message metadata is invalid: {text}")

end Values

/-- The id of an event, the first field of its value. -/
def valueEventId : FrameValue → Option UInt64
  | .array (.u64 eventId :: _) => some eventId
  | _ => none

section
variable {humanBytes : HumanBytes} {event : ServerRoomEvent} {value : FrameValue}

theorem eventToValue_id (h : eventToValue humanBytes event = .ok value) :
    valueEventId value = some (UInt64.ofNat event.eventId) := by
  unfold eventToValue at h
  split at h
  · cases h
    rfl
  · split at h
    · next hfields =>
      obtain ⟨_, _, rfl⟩ := append_ok.mp hfields
      cases h
      rfl
    · cases h

theorem eventToValue_of_valid
    (h : ∀ metadata, event.metadata = some metadata →
      metadata.validate = .ok () ∧ isMessage event.kind = true) :
    ∃ value, eventToValue humanBytes event = .ok value := by
  unfold eventToValue
  cases hmetadata : event.metadata with
  | none => exact ⟨_, rfl⟩
  | some metadata =>
    obtain ⟨hvalid, hmessage⟩ := h metadata hmetadata
    have hlength : (eventFields humanBytes event).length = legacyRoomEventFields := by
      unfold eventFields
      cases hkind : event.kind with
      | message body => rfl
      | _ =>
        rw [hkind] at hmessage
        cases hmessage
    simp only [append_ok.mpr ⟨hlength, hvalid, rfl⟩]
    exact ⟨_, rfl⟩

end

/-! Events that can be sent. -/

/-- The row can be read and sent, with its reply and without it. -/
structure RoomEventRow.Readable (e : RoomEventRow) : Prop where
  fits : e.eventId ≤ i64Max
  read : ∀ reply, reply = e.replyToEventId ∨ reply = none →
    ∃ metadata, decodeStoredEventMetadata reply e.mentionUserIds = .ok metadata ∧
      ∀ m, metadata = some m →
        Server.isMessage (decodeEventKind e.eventKind (e.payload.getD [])) = true

theorem storedMetadata_valid {reply : Option Int} {mentions : Option Bytes}
    {metadata : RichMessageEventMetadata}
    (h : decodeStoredEventMetadata reply mentions = .ok (some metadata)) :
    metadata.validate = .ok () := by
  unfold decodeStoredEventMetadata at h
  split at h
  · cases h
  · obtain ⟨_, _, h⟩ := bind_ok.mp h
    obtain ⟨_, _, h⟩ := bind_ok.mp h
    obtain ⟨_, hvalid, h⟩ := bind_ok.mp h
    cases h
    exact mapError_ok.mp hvalid

theorem RoomEventRow.Readable.clearReply (h : e.Readable) : e.clearReply.Readable := by
  refine ⟨h.fits, fun reply hreply => h.read reply (.inr ?_)⟩
  rcases hreply with rfl | rfl
  · rfl
  · rfl

theorem RoomEventRow.Readable.forgetReply (h : e.Readable) (roomId : RoomId) (removed : List Int) :
    (e.forgetReply roomId removed).Readable := by
  unfold RoomEventRow.forgetReply
  split
  · exact h.clearReply
  · exact h

/-- What an append writes can be read. -/
theorem RoomEventRow.Written.readable (h : e.Written) : e.Readable := by
  obtain ⟨eventId, actorUserId, kind, atUnix, metadata, reply, mentions, hencode, hmessage, hfits,
    hrow⟩ := h
  obtain ⟨hdecode, hcleared, _⟩ := decodeMetadata_encode hencode
  have hkind : ∀ m, metadata = some m →
      Server.isMessage (decodeEventKind e.eventKind (e.payload.getD [])) = true := by
    rintro m rfl
    rw [hrow]
    cases kind with
    | message body => simp [eventRow, encodeEventKind, decodeEventKind, Server.isMessage]
    | _ => exact absurd ⟨rfl, rfl⟩ hmessage
  constructor
  · rw [hrow]
    exact hfits
  · have hreplyOf : e.replyToEventId = reply := congrArg RoomEventRow.replyToEventId hrow
    have hmentionsOf : e.mentionUserIds = mentions := congrArg RoomEventRow.mentionUserIds hrow
    rw [hreplyOf, hmentionsOf]
    rintro _ (rfl | rfl)
    · exact ⟨metadata, hdecode, hkind⟩
    · refine ⟨metadata.bind RichMessageEventMetadata.clearReply, hcleared, fun m hm => ?_⟩
      obtain ⟨m', hm', _⟩ := Option.bind_eq_some_iff.mp hm
      exact hkind m' hm'

theorem RoomEventRow.Readable.eventToValue (humanBytes : HumanBytes) (db : Database)
    (h : e.Readable) :
    e.read db = .ok (e.asRead db) ∧ ∃ value, Server.eventToValue humanBytes (e.asRead db) = .ok value := by
  obtain ⟨metadata, hmetadata, hmessage⟩ := h.read _ (.inl rfl)
  have hread : e.read db = .ok (e.asRead db) := by
    unfold RoomEventRow.read RoomEventRow.asRead
    rw [hmetadata]
    rfl
  refine ⟨hread, eventToValue_of_valid fun m hm => ?_⟩
  have hm : metadata = some m := by
    rw [← hm]
    simp only [RoomEventRow.asRead, hmetadata]
    rfl
  subst hm
  exact ⟨storedMetadata_valid hmetadata, hmessage m rfl⟩

end Omen.Server
