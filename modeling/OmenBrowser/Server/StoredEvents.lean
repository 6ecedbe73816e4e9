import OmenBrowser.Lib.Parsing
import OmenBrowser.Protocol.EventMetadata
import OmenBrowser.Server.HistoryMoves
import OmenBrowser.Server.ProjectionSnapshots
import OmenBrowser.Server.UploadSession

/- Stored events, read back (`server/src/store.rs`).

   An event is stored as a code and some bytes, its reply and mentions as two columns that may be
   null. What is read back is what was written, but for two things: an upload is one string of three
   parts, which are trimmed and of which the name has its separators replaced; and a compaction clears
   the reply of an event to one that it removes.

   Correspondence (Rust ↔ Lean):
     `decode_stored_event_metadata`               ↔ `decodeStoredEventMetadata`
     `query_events`                               ↔ `queryEvents`
     `latest_events`, `events_before`             ↔ `Database.latestEvents`, `Database.eventsBefore` -/
namespace Omen.Server
open Wire Sql Ints Text Omen.Protocol List Machine Option

variable {metadata : Option RichMessageEventMetadata} {events : List ServerRoomEvent}
  {actorUserId : Option UserId} {kind : ServerRoomEventKind}
  {retention : RoomHistoryRetentionPolicy} {clock : Clock}

/-! Decoding. -/

/-- `splitn(3, '\u{1f}')`, the parts trimmed. -/
def decodeUploadEventKind (body : String) : Option ServerRoomEventKind := do
  let (resourceId, rest) ← splitOnce '\x1f' body.toList
  let (filename, bytes) ← splitOnce '\x1f' rest
  let bytes ← parseU64 (trimChars bytes)
  if trimChars resourceId = [] ∨ trimChars filename = [] then none
  else some (.upload (String.ofList (trimChars resourceId)) (String.ofList (trimChars filename)) bytes)

def decodeEventKind (kind : Int) (payload : Bytes) : ServerRoomEventKind :=
  let body := fromUtf8Lossy payload
  if kind = 1 then .message body
  else if kind = 2 then .action body
  else if kind = 3 then .notice body
  else if kind = 5 then (decodeUploadEventKind body).getD (.system body)
  else .system body

/-- An event of `query_events`; the display name is from the joined `users`. -/
def RoomEventRow.read (db : Database) (e : RoomEventRow) : Except ServerError ServerRoomEvent := do
  let metadata ← decodeStoredEventMetadata e.replyToEventId e.mentionUserIds
  pure
    { roomId := e.roomId
      eventId := e.eventId.toNat
      kind := decodeEventKind e.eventKind (e.payload.getD [])
      actorUserId := e.actorUserId.map UInt32.ofInt
      actorDisplayName := (e.actorUserId.bind db.users.table.find?).map UserRow.displayName
      atUnix := e.atUnix
      metadata }

/-- `ORDER BY e.event_id DESC LIMIT ?`, reversed. -/
def queryEvents (db : Database) (p : RoomEventRow → Bool) (limit : Nat) :
    Except ServerError (List ServerRoomEvent) := do
  let events ← (db.roomEvents.batch (fun a b => compare b.eventId a.eventId) p limit).mapM
    (RoomEventRow.read db)
  pure events.reverse

def Database.latestEvents (db : Database) (roomId : RoomId) (limit : Nat) :
    Except ServerError (List ServerRoomEvent) :=
  queryEvents db (fun e => e.roomId == roomId && !e.deleted) limit

def Database.eventsBefore (db : Database) (roomId : RoomId) (beforeEventId : Nat) (limit : Nat) :
    Except ServerError (List ServerRoomEvent) :=
  queryEvents db (fun e => e.roomId == roomId && decide (e.eventId < beforeEventId) && !e.deleted) limit

/-! Kinds. -/

/-- An upload's parts are separated, and come back as they are. -/
def ServerRoomEventKind.ReadsBack : ServerRoomEventKind → Prop
  | .upload resourceId filename bytes =>
    ('\x1f' ∉ resourceId.toList ∧ trim resourceId = resourceId ∧ resourceId ≠ "") ∧
      ('\x1f' ∉ filename.toList ∧ trim filename = filename ∧ filename ≠ "") ∧ bytes < 2 ^ 64
  | _ => True

theorem replaceSeparator_notMem (filename : String) : '\x1f' ∉ (replaceSeparator filename).toList := by
  unfold replaceSeparator
  rw [String.toList_map]
  intro h
  obtain ⟨c, _, hc⟩ := mem_map.mp h
  split at hc
  · exact absurd hc (by decide)
  · next hne => exact hne hc

variable {filename resourceId : String} {db' : Database}

theorem replaceSeparator_eq : replaceSeparator filename = filename ↔ '\x1f' ∉ filename.toList := by
  constructor
  · intro h
    rw [← h]
    exact replaceSeparator_notMem filename
  · intro h
    apply String.toList_inj.mp
    unfold replaceSeparator
    rw [String.toList_map]
    conv_rhs => rw [← map_id filename.toList]
    refine map_congr_left fun c hc => ?_
    have hne : c ≠ '\x1f' := fun heq => h (heq ▸ hc)
    exact if_neg hne

theorem trim_eq_empty {s : String} : trim s = "" ↔ trimChars s.toList = [] := by
  rw [trim, ← String.toList_inj, String.toList_ofList]
  rfl

/-- The three parts of an upload, where its id has no separator. -/
theorem decodeUpload_parts (h : '\x1f' ∉ resourceId.toList) (filename : String) (bytes : Nat) :
    decodeUploadEventKind
        (resourceId ++ "\x1f" ++ replaceSeparator filename ++ "\x1f" ++ toString bytes) =
      if bytes < 2 ^ 64 ∧ trim resourceId ≠ "" ∧ trim (replaceSeparator filename) ≠ "" then
        some (.upload (trim resourceId) (trim (replaceSeparator filename)) bytes)
      else none := by
  have hlist : (resourceId ++ "\x1f" ++ replaceSeparator filename ++ "\x1f" ++ toString bytes).toList =
      resourceId.toList ++ '\x1f' :: ((replaceSeparator filename).toList ++
        '\x1f' :: bytes.repr.toList) := by
    simp [String.toList_append, toString]
  unfold decodeUploadEventKind
  rw [hlist, splitOnce_append h]
  simp only [bind_eq_bind, bind_some,
    splitOnce_append (replaceSeparator_notMem filename), trimChars_repr, parseU64_repr,
    ne_eq, trim_eq_empty]
  by_cases hbytes : bytes < 2 ^ 64
  · rw [if_pos hbytes, bind_some]
    by_cases hparts : trimChars resourceId.toList = [] ∨
        trimChars (replaceSeparator filename).toList = []
    · rw [if_pos hparts, if_neg]
      rintro ⟨_, hid, hname⟩
      rcases hparts with hempty | hempty
      · exact hid hempty
      · exact hname hempty
    · rw [if_neg hparts, if_pos ⟨hbytes, not_or.mp hparts⟩]
      rfl
  · rw [if_neg hbytes, if_neg fun h => hbytes h.1]
    rfl

/-- The id of a decoded upload has no separator. -/
theorem decodeUpload_notMem {body : String} {bytes : Nat}
    (h : decodeUploadEventKind body = some (.upload resourceId filename bytes)) :
    '\x1f' ∉ resourceId.toList := by
  obtain ⟨⟨before, rest⟩, hbefore, h⟩ := bind_eq_some_iff.mp h
  obtain ⟨⟨name, size⟩, _, h⟩ := bind_eq_some_iff.mp h
  obtain ⟨value, _, h⟩ := bind_eq_some_iff.mp h
  split at h
  · cases h
  · obtain ⟨rfl, _, _⟩ := ServerRoomEventKind.upload.inj (some.inj h)
    rw [String.toList_ofList]
    exact fun hmem => splitOnce_notMem hbefore (mem_trimChars hmem)

theorem decodeEventKind_encode (kind : ServerRoomEventKind) :
    decodeEventKind (encodeEventKind kind).1 (encodeEventKind kind).2 = kind ↔ kind.ReadsBack := by
  cases kind with
  | message | action | notice | system =>
    simp [decodeEventKind, encodeEventKind, ServerRoomEventKind.ReadsBack]
  | upload resourceId filename bytes =>
    have hdecode : decodeEventKind (encodeEventKind (.upload resourceId filename bytes)).1
        (encodeEventKind (.upload resourceId filename bytes)).2 =
        (decodeUploadEventKind (resourceId ++ "\x1f" ++ replaceSeparator filename ++ "\x1f" ++
          toString bytes)).getD (.system (resourceId ++ "\x1f" ++ replaceSeparator filename ++
            "\x1f" ++ toString bytes)) := by
      simp [decodeEventKind, encodeEventKind]
    rw [hdecode]
    constructor
    · intro h
      have hsome : decodeUploadEventKind (resourceId ++ "\x1f" ++ replaceSeparator filename ++
          "\x1f" ++ toString bytes) = some (.upload resourceId filename bytes) := by
        cases hkind : decodeUploadEventKind (resourceId ++ "\x1f" ++ replaceSeparator filename ++
            "\x1f" ++ toString bytes) with
        | some kind => rw [hkind] at h; exact congrArg some h
        | none => rw [hkind] at h; cases h
      have hid := decodeUpload_notMem hsome
      rw [decodeUpload_parts hid] at hsome
      split at hsome
      · next hparts =>
        obtain ⟨hresource, hname, _⟩ := ServerRoomEventKind.upload.inj (some.inj hsome)
        -- the name that is read has no separator, so none was replaced
        have hclean : '\x1f' ∉ filename.toList := by
          rw [← hname, trim, String.toList_ofList]
          exact fun hmem => replaceSeparator_notMem filename (mem_trimChars hmem)
        rw [replaceSeparator_eq.mpr hclean] at hname hparts
        exact ⟨⟨hid, hresource, hresource ▸ hparts.2.1⟩, ⟨hclean, hname, hname ▸ hparts.2.2⟩, hparts.1⟩
      · cases hsome
    · rintro ⟨⟨hid, hresource, hne⟩, ⟨hclean, hname, hnamed⟩, hbytes⟩
      rw [decodeUpload_parts hid, replaceSeparator_eq.mpr hclean, hresource, hname,
        if_pos ⟨hbytes, hne, hnamed⟩]
      rfl

/-! Metadata. -/

theorem mentionedIds_be (userId : UserId) (rest : Bytes) :
    mentionedIds (be 4 userId.toNat ++ rest) = userId :: mentionedIds rest := by
  have hlt := userId.toNat_lt
  have hvalue : (((userId.toNat / 256 ^ 3 % 256) * 256 + userId.toNat / 256 ^ 2 % 256) * 256 +
      userId.toNat / 256 ^ 1 % 256) * 256 + userId.toNat / 256 ^ 0 % 256 = userId.toNat := by omega
  simp only [be, cons_append, nil_append, mentionedIds, UInt8.toNat_ofNat']
  rw [hvalue, UInt32.ofNat_toNat]

theorem mentionedIds_flatMap (ids : List UserId) :
    mentionedIds (ids.flatMap (fun userId => be 4 userId.toNat)) = ids := by
  induction ids with
  | nil => rfl
  | cons userId ids ih => rw [flatMap_cons, mentionedIds_be, ih]

theorem length_flatMap_be (ids : List UserId) :
    (ids.flatMap (fun userId => be 4 userId.toNat)).length = ids.length * 4 := by
  induction ids with
  | nil => rfl
  | cons userId ids ih =>
    rw [flatMap_cons, length_append, ih, length_be, length_cons]
    omega

theorem storedMentions_encode {ids : List UserId} (h : ids.length ≤ richMessageMaxMentions) :
    storedMentions (encodeMentions ids) = .ok ids := by
  cases ids with
  | nil => rfl
  | cons userId ids =>
    have hlength := length_flatMap_be (userId :: ids)
    have hne : ((userId :: ids).flatMap (fun userId => be 4 userId.toNat)).isEmpty = false := by
      rw [isEmpty_eq_false_iff]
      intro hnil
      rw [hnil, length_cons] at hlength
      cases hlength
    unfold encodeMentions storedMentions
    rw [isEmpty_cons, if_neg Bool.false_ne_true]
    simp only
    rw [if_pos, mentionedIds_flatMap]
    simp only [hne, hlength, Bool.not_false, Bool.true_and, Bool.and_eq_true, decide_eq_true_eq,
      beq_iff_eq]
    exact ⟨Nat.mul_le_mul_right 4 h, Nat.mul_mod_left _ _⟩

/-- What is left of the metadata when its reply is cleared. -/
def RichMessageEventMetadata.clearReply (metadata : RichMessageEventMetadata) :
    Option RichMessageEventMetadata :=
  if metadata.mentionedUserIds.isEmpty then none else some { metadata with replyToEventId := none }

theorem decodeMetadata_of_valid {metadata : RichMessageEventMetadata}
    (hvalid : metadata.validate = .ok ()) :
    decodeStoredEventMetadata (metadata.replyToEventId.map (fun eventId : EventId => (eventId : Int)))
      (encodeMentions metadata.mentionedUserIds) = .ok (some metadata) := by
  obtain ⟨_, hpresent, hmentions⟩ := metadata_validate_ok.mp hvalid
  have hstored := storedMentions_encode (validateMentions_length hmentions)
  have hreply : storedReply (metadata.replyToEventId.map (fun eventId : EventId => (eventId : Int))) =
      .ok metadata.replyToEventId := by
    cases metadata.replyToEventId with
    | none => rfl
    | some eventId => simp [storedReply]
  have hsome : ((metadata.replyToEventId.map (fun eventId : EventId => (eventId : Int))).isNone &&
      (encodeMentions metadata.mentionedUserIds).isNone) = false := by
    rw [isNone_map, Bool.and_eq_false_iff]
    cases hr : metadata.replyToEventId with
    | some _ => exact .inl rfl
    | none =>
      right
      cases hm : metadata.mentionedUserIds with
      | nil => exact absurd ⟨hr, hm⟩ hpresent
      | cons userId ids => rfl
  unfold decodeStoredEventMetadata
  rw [hsome, if_neg Bool.false_ne_true, hreply, hstored]
  have hself : ({ replyToEventId := metadata.replyToEventId
                  mentionedUserIds := metadata.mentionedUserIds } : RichMessageEventMetadata).validate =
      .ok () := hvalid
  simp only [bind, Except.bind, hself]
  rfl

theorem decodeMetadata_encode {reply : Option Int} {mentions : Option Bytes}
    (h : encodeStoredEventMetadata metadata = .ok (reply, mentions)) :
    decodeStoredEventMetadata reply mentions = .ok metadata ∧
      decodeStoredEventMetadata none mentions =
        .ok (metadata.bind RichMessageEventMetadata.clearReply) ∧
      reply = (metadata.bind RichMessageEventMetadata.replyToEventId).map
        (fun eventId : EventId => (eventId : Int)) := by
  cases metadata with
  | none =>
    cases h
    exact ⟨rfl, rfl, rfl⟩
  | some metadata =>
    have hencoded : metadata.validate = .ok () ∧ mentions = encodeMentions metadata.mentionedUserIds ∧
        reply = metadata.replyToEventId.map (fun eventId : EventId => (eventId : Int)) := by
      unfold encodeStoredEventMetadata at h
      cases hvalid : metadata.validate with
      | error e => simp only [hvalid] at h; cases h
      | ok _ =>
        simp only [hvalid] at h
        cases hreply : metadata.replyToEventId with
        | none =>
          simp only [hreply] at h
          cases h
          exact ⟨rfl, rfl, rfl⟩
        | some eventId =>
          simp only [hreply] at h
          cases hid : toI64 eventId with
          | none => simp only [hid] at h; cases h
          | some id =>
            simp only [hid] at h
            cases h
            exact ⟨rfl, rfl, congrArg some (toI64_some.mp hid).1⟩
    obtain ⟨hvalid, rfl, rfl⟩ := hencoded
    refine ⟨decodeMetadata_of_valid hvalid, ?_, rfl⟩
    obtain ⟨_, _, hmentions⟩ := metadata_validate_ok.mp hvalid
    rw [bind_some, RichMessageEventMetadata.clearReply]
    -- without its reply, a text that mentions nobody has no metadata
    cases hm : metadata.mentionedUserIds with
    | nil => rfl
    | cons userId ids =>
      have hcleared : ({ metadata with replyToEventId := none } : RichMessageEventMetadata).validate =
          .ok () := by
        refine metadata_validate_ok.mpr ⟨some_ne_none _ ∘ Eq.symm, ?_, hmentions⟩
        rintro ⟨_, hnil⟩
        rw [hm] at hnil
        cases hnil
      have hdecoded := decodeMetadata_of_valid hcleared
      simp only [hm] at hdecoded
      exact hdecoded

/-! Reads. -/

variable {db : Database} {roomId : RoomId} {row : RoomEventRow} {event e : ServerRoomEvent}

theorem ofInt_toNat (userId : UserId) : UInt32.ofInt userId.toNat = userId := by
  have hlt := userId.toNat_lt
  have hmod : (userId.toNat : Int) % 2 ^ 32 = userId.toNat := by omega
  rw [UInt32.ofInt, hmod]
  simp

/-- What a row is read as, where it can be read. -/
def RoomEventRow.asRead (db : Database) (e : RoomEventRow) : ServerRoomEvent :=
  { roomId := e.roomId
    eventId := e.eventId.toNat
    kind := decodeEventKind e.eventKind (e.payload.getD [])
    actorUserId := e.actorUserId.map UInt32.ofInt
    actorDisplayName := (e.actorUserId.bind db.users.table.find?).map UserRow.displayName
    atUnix := e.atUnix
    metadata := (decodeStoredEventMetadata e.replyToEventId e.mentionUserIds).toOption.getD none }

theorem read_asRead (h : row.read db = .ok e) : e = row.asRead db := by
  obtain ⟨metadata, hmetadata, h⟩ := Outcome.bind_ok.mp h
  cases h
  unfold RoomEventRow.asRead
  rw [hmetadata]
  rfl

theorem queryEvents_ok {p : RoomEventRow → Bool} {limit : Nat}
    (h : queryEvents db p limit = .ok events) :
    events = ((db.roomEvents.batch (fun a b => compare b.eventId a.eventId) p limit).map
      (RoomEventRow.asRead db)).reverse := by
  obtain ⟨read, hread, h⟩ := Outcome.bind_ok.mp h
  cases h
  rw [Outcome.mapM_ok (fun _ _ => read_asRead) hread]

/-- A read of the stored events of a room. -/
inductive EventRead where
  | latest (roomId : RoomId) (limit : Nat)
  | before (roomId : RoomId) (beforeEventId limit : Nat)

def EventRead.answer (db : Database) : EventRead → Except ServerError (List ServerRoomEvent)
  | .latest roomId limit => db.latestEvents roomId limit
  | .before roomId beforeEventId limit => db.eventsBefore roomId beforeEventId limit

variable {read : EventRead}

/-- An event that is read is a row of the room. -/
theorem answer_mem (h : read.answer db = .ok events) (he : e ∈ events) :
    ∃ row ∈ db.history e.roomId, e = row.asRead db := by
  have hrow : ∀ {p : RoomEventRow → Bool} {limit : Nat}, queryEvents db p limit = .ok events →
      ∃ row ∈ db.history e.roomId, e = row.asRead db := by
    intro p limit h
    rw [queryEvents_ok h, mem_reverse] at he
    obtain ⟨row, hrow, rfl⟩ := mem_map.mp he
    exact ⟨row, mem_history.mpr ⟨(Table.mem_of_mem_batch hrow).1, rfl⟩, rfl⟩
  cases read with
  | latest | before => exact hrow h

/-! Events over a run. -/

/-- Behind an append, what was appended stands under its id. -/
theorem stands_of_append (hinv : HistoryInv db)
    (h : appendEventWithMetadataInTransaction roomId actorUserId kind metadata retention clock db =
      .ok (event, db')) :
    ∃ reply mentions, encodeStoredEventMetadata metadata = .ok (reply, mentions) ∧
      Stands db' roomId (eventRow roomId event.eventId actorUserId kind clock.appended reply
        mentions) := by
  obtain ⟨reply, mentions, db₁, db₂, n, c, hencode, hrecorded, hadvance, henforce⟩ := append_cases h
  refine ⟨reply, mentions, hencode, ?_⟩
  have hinv₁ := hinv.recorded hrecorded
  have hinv₂ := hinv₁.advanceBackfill hadvance
  have hhistory : db₂.history roomId = db.history roomId ++
      [eventRow roomId event.eventId actorUserId kind clock.appended reply mentions] :=
    (advanceBackfill_history hinv₁ hadvance).trans (hrecorded.history hinv)
  have hstands : Stands db₂ roomId
      (eventRow roomId event.eventId actorUserId kind clock.appended reply mentions) := by
    have hmem : eventRow roomId event.eventId actorUserId kind clock.appended reply mentions ∈
        db₂.history roomId := by
      rw [hhistory]
      exact mem_append_right _ mem_cons_self
    refine ⟨spent_of_stored hinv₂ hmem, fun e he hid => .inl ?_⟩
    exact inj_on_of_nodup_map (ascending_history db₂ roomId).nodup he hmem hid
  have hmovesOn : MovesOn db₂ db' roomId :=
    movesOn_of_enforce [] (forall_mem_nil _) (forall_mem_nil _) (append_nil _).symm
      henforce
  obtain ⟨added, k, hmoves⟩ := hmovesOn
  exact hstands.moves hinv₂ hmoves fun id hspent => hspent.enforce henforce

theorem append_fields
    (h : appendEventWithMetadataInTransaction roomId actorUserId kind metadata retention clock db =
      .ok (event, db')) :
    event.roomId = roomId ∧ event.kind = kind ∧ event.actorUserId = actorUserId ∧
      event.atUnix = clock.appended ∧ event.metadata = metadata := by
  obtain ⟨_, h⟩ := require_bind_ok.mp h
  obtain ⟨⟨reply, mentions⟩, _, h⟩ := Txn.lift_bind_ok.mp h
  obtain ⟨_, _, _, h⟩ := Txn.bind_ok.mp h
  obtain ⟨_, _, h⟩ := Txn.lift_bind_ok.mp h
  obtain ⟨_, _, h⟩ := sql_bind_ok.mp h
  obtain ⟨_, _, _, h⟩ := Txn.bind_ok.mp h
  obtain ⟨_, _, _, h⟩ := Txn.bind_ok.mp h
  obtain ⟨_, _, _, h⟩ := Txn.bind_ok.mp h
  obtain ⟨_, _, _, h⟩ := Txn.bind_ok.mp h
  rw [Txn.query_bind] at h
  obtain ⟨rfl, _⟩ := Txn.pure_eq_ok h
  exact ⟨rfl, rfl, rfl, rfl, rfl⟩

/-- The event that is read is the one that was appended, but for a reply to what is gone. -/
structure ReadBack (db : Database) (event e : ServerRoomEvent) : Prop where
  kind : event.kind.ReadsBack → e.kind = event.kind
  actor : e.actorUserId = event.actorUserId
  at_ : e.atUnix = event.atUnix
  metadata : e.metadata = event.metadata ∨
    (e.metadata = event.metadata.bind RichMessageEventMetadata.clearReply ∧
      ∃ target : EventId, (event.metadata.bind RichMessageEventMetadata.replyToEventId) = some target ∧
        Forgotten db event.roomId target)

/-- What is read under the id of an appended event, through every run of the store. -/
theorem read_of_appended {s : OmenchatStore} (hs : HistoryInv s.database)
    (before after : List StoreInput) (happend : (storeStep (run storeStep s before).2
      (.history (.append roomId actorUserId kind metadata clock))).1 = .appended event)
      (hread : read.answer (run storeStep s (before ++
      .history (.append roomId actorUserId kind metadata clock) :: after)).2.database = .ok events)
    (he : e ∈ events) (hroom : e.roomId = event.roomId) (hid : e.eventId = event.eventId) :
    e.kind = decodeEventKind (encodeEventKind event.kind).1 (encodeEventKind event.kind).2 ∧
      e.actorUserId = event.actorUserId ∧ e.atUnix = event.atUnix ∧
      (e.metadata = event.metadata ∨
        (e.metadata = event.metadata.bind RichMessageEventMetadata.clearReply ∧
          ∃ target : EventId,
            (event.metadata.bind RichMessageEventMetadata.replyToEventId) = some target ∧
            Forgotten (run storeStep s (before ++ .history (.append roomId actorUserId kind
              metadata clock) :: after)).2.database event.roomId target)) := by
  have hinv := storeRun_inv hs before
  have hdone := historyStep_appended happend
  obtain ⟨rfl, rfl, rfl, hat, rfl⟩ := append_fields hdone
  obtain ⟨reply, mentions, hencode, hstands⟩ := stands_of_append hinv hdone
  rw [run_append] at hread ⊢
  have hafter := storeStep_inv (run storeStep s before).2
    (.history (.append event.roomId event.actorUserId event.kind event.metadata clock)) hinv
  have hrun := storeRun_stands after hafter hstands
  have hinvAfter := storeRun_inv hafter after
  obtain ⟨row, hrow, rfl⟩ := answer_mem hread he
  rw [hroom] at hrow
  -- ids are positive, so the number that is read back is the one of the row
  have hpositive := (hinvAfter event.roomId).positive row hrow
  have hrowId : row.eventId = event.eventId := by
    rw [← hid]
    exact (Int.toNat_of_nonneg (Int.le_of_lt hpositive)).symm
  obtain ⟨hdecode, hcleared, hreply⟩ := decodeMetadata_encode hencode
  have hactor : (event.actorUserId.map fun userId => (userId.toNat : Int)).map UInt32.ofInt =
      event.actorUserId := by
    cases event.actorUserId with
    | none => rfl
    | some userId => exact congrArg some (ofInt_toNat userId)
  -- the row is as it was appended, or its reply was cleared with the event it names
  rcases hrun.2 row hrow hrowId with rfl | ⟨rfl, target, htarget, hforgotten⟩
  · refine ⟨rfl, hactor, hat.symm, .inl ?_⟩
    show (decodeStoredEventMetadata reply mentions).toOption.getD none = _
    rw [hdecode]
    rfl
  · refine ⟨rfl, hactor, hat.symm, .inr ⟨?_, ?_⟩⟩
    · show (decodeStoredEventMetadata none mentions).toOption.getD none = _
      rw [hcleared]
      rfl
    · rw [show (eventRow event.roomId event.eventId event.actorUserId event.kind clock.appended
          reply mentions).replyToEventId = reply from rfl, hreply] at htarget
      obtain ⟨eventId, heventId, rfl⟩ := map_eq_some_iff.mp htarget
      exact ⟨eventId, heventId, hforgotten⟩

/-- A stored event is read back as it was appended, through every run of the store: in its kind, if
its parts are separated, its actor, its time and its metadata; a reply may be cleared, if what it was
to is not stored any more. -/
theorem stored_events_read_back (s : OmenchatStore) (hs : Migrated s.database)
    (before after : List StoreInput) (roomId : RoomId) (actorUserId : Option UserId)
    (kind : ServerRoomEventKind) (metadata : Option RichMessageEventMetadata) (clock : Clock)
    (event : ServerRoomEvent)
    (happend : (storeStep (run storeStep s before).2
      (.history (.append roomId actorUserId kind metadata clock))).1 = .appended event)
    (read : EventRead) (events : List ServerRoomEvent)
    (hread : read.answer (run storeStep s (before ++
      .history (.append roomId actorUserId kind metadata clock) :: after)).2.database = .ok events)
    (e : ServerRoomEvent) (he : e ∈ events) (hroom : e.roomId = event.roomId)
    (hid : e.eventId = event.eventId) :
    ReadBack (run storeStep s (before ++
      .history (.append roomId actorUserId kind metadata clock) :: after)).2.database event e := by
  obtain ⟨hkind, hactor, hat, hmetadata⟩ :=
    read_of_appended hs.historyInv before after happend hread he hroom hid
  exact ⟨fun hreads => hkind.trans ((decodeEventKind_encode _).mpr hreads), hactor, hat, hmetadata⟩

/-! Two appended events. -/

/-- A reply to the message 5 of the room. -/
def replyTo5 : RichMessageEventMetadata := { replyToEventId := some 5, mentionedUserIds := [] }

def appendReply : HistoryInput := .append 1 none (.message "b") (some replyTo5) ⟨20, 20, 20⟩

def appendedReply : ServerRoomEvent := ⟨1, 6, .message "b", none, none, 20, some replyTo5⟩

theorem stored_events_read_back_reply :
    ReadBack (run storeStep ⟨legacyDatabase, .disabled⟩
      ([] ++ .history appendReply :: [.history (.advance 1)])).2.database appendedReply
      appendedReply := by
  refine stored_events_read_back ⟨legacyDatabase, .disabled⟩ legacyDatabase_migrated []
    [.history (.advance 1)] 1 none (.message "b") (some replyTo5) ⟨20, 20, 20⟩ appendedReply rfl
    (.before 1 7 1) [appendedReply] ?_ appendedReply mem_cons_self rfl rfl
  rfl

/-- What is read of an appended event is, in some respect, what was appended. -/
def SameWhenRead (same : ServerRoomEvent → ServerRoomEvent → Prop) : Prop :=
  ∀ (s : OmenchatStore), Migrated s.database → ∀ (before after : List StoreInput) (roomId : RoomId)
    (actorUserId : Option UserId) (kind : ServerRoomEventKind)
    (metadata : Option RichMessageEventMetadata) (clock : Clock) (event : ServerRoomEvent),
    (storeStep (run storeStep s before).2
      (.history (.append roomId actorUserId kind metadata clock))).1 = .appended event →
    ∀ (read : EventRead) (events : List ServerRoomEvent),
      read.answer (run storeStep s (before ++
        .history (.append roomId actorUserId kind metadata clock) :: after)).2.database = .ok events →
      ∀ e ∈ events, e.roomId = event.roomId → e.eventId = event.eventId → same event e

/-- An upload whose name starts with a blank. -/
def blankUpload : ServerRoomEventKind := .upload "upload:1:1:1:0123456789abcdef" " a" 5

def appendUpload : StoreInput := .history (.append 1 none blankUpload none ⟨20, 20, 20⟩)

/-- The id of an event that was appended. -/
def appendedId : HistoryOutput → Option EventId
  | .appended event => some event.eventId
  | _ => none

/-- The rooms and ids of events that were read. -/
def readIds (r : Except ServerError (List ServerRoomEvent)) : List (RoomId × EventId) :=
  (r.toOption.getD []).map (fun e => (e.roomId, e.eventId))

theorem appendUpload_appended : ∃ event, event.eventId = 6 ∧
    (storeStep ⟨legacyDatabase, .disabled⟩ appendUpload).1 = .appended event := by
  have hid : appendedId (storeStep ⟨legacyDatabase, .disabled⟩ appendUpload).1 = some 6 := by
    decide +kernel
  cases h : (storeStep ⟨legacyDatabase, .disabled⟩ appendUpload).1 with
  | appended event =>
    rw [h] at hid
    exact ⟨event, some.inj hid, rfl⟩
  | _ =>
    rw [h] at hid
    cases hid

theorem appendUpload_read : ∃ events e, e ∈ events ∧ e.roomId = 1 ∧ e.eventId = 6 ∧
    EventRead.answer (run storeStep ⟨legacyDatabase, .disabled⟩ [appendUpload]).2.database
      (.latest 1 1) = .ok events := by
  have hids : readIds (EventRead.answer (run storeStep ⟨legacyDatabase, .disabled⟩
      [appendUpload]).2.database (.latest 1 1)) = [(1, 6)] := by decide +kernel
  cases h : EventRead.answer (run storeStep ⟨legacyDatabase, .disabled⟩
      [appendUpload]).2.database (.latest 1 1) with
  | error error =>
    rw [h] at hids
    cases hids
  | ok events =>
    rw [h] at hids
    have hmem : (1, 6) ∈ readIds (.ok events) := hids ▸ mem_cons_self
    obtain ⟨e, he, heq⟩ := mem_map.mp hmem
    obtain ⟨hroom, hid⟩ := Prod.mk.inj heq
    exact ⟨events, e, he, hroom, hid, rfl⟩

/-- The reply is cleared when the message 5 is compacted away, and the blank is trimmed. -/
theorem stored_events_change :
    ¬SameWhenRead (fun event e => e.metadata = event.metadata) ∧
      ¬SameWhenRead (fun event e => e.kind = event.kind) := by
  constructor
  · intro h
    have hmetadata := h ⟨legacyDatabase, .disabled⟩ legacyDatabase_migrated []
      [.history (.compact 1 5 64 30)] 1 none (.message "b") (some replyTo5) ⟨20, 20, 20⟩ appendedReply
      rfl (.latest 1 10) [{ appendedReply with metadata := none }] rfl
      { appendedReply with metadata := none } mem_cons_self rfl rfl
    cases hmetadata
  · intro h
    obtain ⟨event, hid, happend⟩ := appendUpload_appended
    obtain ⟨events, e, he, hroom, heId, hread⟩ := appendUpload_read
    obtain ⟨hroomId, heventKind, _⟩ := append_fields (historyStep_appended happend)
    have hsame : e.kind = event.kind := h ⟨legacyDatabase, .disabled⟩ legacyDatabase_migrated [] [] 1
      none blankUpload none
      ⟨20, 20, 20⟩ event happend (.latest 1 1) events hread e he (hroom.trans hroomId.symm)
      (heId.trans hid.symm)
    obtain ⟨hkind, _⟩ := read_of_appended legacyDatabase_migrated.historyInv [] [] happend hread he
      (hroom.trans hroomId.symm) (heId.trans hid.symm)
    rw [heventKind] at hkind hsame
    have hreads := (decodeEventKind_encode blankUpload).mp (hkind.symm.trans hsame)
    have hname : trim " a" = " a" := hreads.2.1.2.1
    exact absurd hname (by decide)

end Omen.Server
