import OmenBrowser.Client.History
import OmenBrowser.Server.Batches
import OmenBrowser.Server.CodecRoundTrip
import OmenBrowser.Server.HistoryPaging

/- Fingerprints of a room's recent history (`chat/live.rs`, `server/src/session.rs`).

   The client sends a checksum over the events it has, the server computes one over the events it
   would send, and where they agree it sends none. The two mix the same fields of an event, but for a
   reply and mentions, which only the client mixes; and what the client has of an event is what it
   parsed: a trimmed and bounded name, and an upload of bounded texts. The client looks at the last
   fifty events.

   Correspondence (Rust ↔ Lean):
     `chat_event_fingerprint`                     ↔ `chatEventFingerprint`
     `recent_history_fingerprint`                 ↔ `recentHistoryFingerprint`
   What the server does with it is `historyRecent`. -/
namespace Omen.Client
open Wire Sql Ints Fnv Text Outcome Omen.Protocol List Server Server.FrameValue UInt64
open Omen.Server (ServerRoomEvent ServerRoomEventKind ServerUser ServerError Database HumanBytes Found
  PlainFrame HistoryFingerprint eventToValue errorFrame onWireAll mixRoomKind mixRoomEvent
  serverHistoryFingerprint historyFingerprintBody historyFingerprintBody_body historyCurrent historyRecent)

/-! The client. -/

variable (checksum : UInt64)

def mixMetadata (metadata : ChatMessageMetadata) : UInt64 :=
  metadata.mentionedUserIds.foldl (fun checksum userId => mixU64 checksum userId.toUInt64)
    (mixU64 checksum (metadata.replyToEventId.getD 0))

def mixChatKind : ChatEventKind → UInt64
  | .message body => mixBytes (mixU64 checksum 1) body
  | .richMessage body metadata => mixMetadata (mixBytes (mixU64 checksum 1) body) metadata
  | .action body => mixBytes (mixU64 checksum 2) body
  | .notice body => mixBytes (mixU64 checksum 3) body
  | .system body => mixBytes (mixU64 checksum 4) body
  | .upload resourceId filename bytes =>
    mixU64 (mixBytes (mixBytes (mixU64 checksum 5) resourceId) filename) bytes

def mixChatEvent (event : ChatEvent) : UInt64 :=
  let checksum := mixU64 checksum event.eventId
  let checksum := mixU64 checksum event.roomId.toUInt64
  let checksum := mixU64 checksum (event.actorUserId.getD 0).toUInt64
  let checksum := mixU64 checksum event.atUnix.toUInt64
  let checksum := mixBytes checksum (event.actorDisplayName.getD "")
  mixChatKind checksum event.kind

def chatEventFingerprint (events : List ChatEvent) : HistoryFingerprint :=
  { firstEventId := (events.head?.map ChatEvent.eventId).getD 0
    lastEventId := (events.getLast?.map ChatEvent.eventId).getD 0
    eventCount := ofNat events.length
    checksum := events.foldl mixChatEvent offsetBasis }

def defaultJoinBacklogEvents : Nat := 50

def chatEventId (event : ChatEvent) : Int := event.eventId.toNat

def recentHistoryFingerprint (session : ChatSessionView) : HistoryFingerprint :=
  let events := orderBy (byKey chatEventId)
    (session.events.filter (fun event => event.roomId == session.activeRoomId))
  chatEventFingerprint (events.drop (events.length - defaultJoinBacklogEvents))

/-! An event on both sides. -/

/-- What the client has of the event is what the server has. -/
structure HashesAlike (event : ServerRoomEvent) : Prop where
  metadata : event.metadata = none
  name : ∀ name, event.actorDisplayName = some name →
    trim name = name ∧ (utf8 name).length ≤ chatActorDisplayMaxBytes
  upload : ∀ resourceId filename bytes, event.kind = .upload resourceId filename bytes →
    resourceId ≠ "" ∧ (utf8 resourceId).length ≤ chatResourceIdMaxBytes ∧
      (utf8 filename).length ≤ chatUploadFilenameMaxBytes

def chatKindOf : ServerRoomEventKind → ChatEventKind
  | .message body => .message body
  | .action body => .action body
  | .notice body => .notice body
  | .system body => .system body
  | .upload resourceId filename bytes => .upload resourceId filename (ofNat bytes)

/-- The event as the client has it. -/
def chatEventOf (serverId : String) (roomId : UInt32) (event : ServerRoomEvent) : ChatEvent :=
  { serverId
    roomId
    eventId := ofNat event.eventId
    actorUserId := event.actorUserId
    actorDisplayName := event.actorDisplayName.filter (fun name => decide (name ≠ ""))
    atUnix := Int64.ofInt event.atUnix
    kind := chatKindOf event.kind }

theorem fieldI64_onWire (value : Int64) :
    fieldI64 (onWire (.i64 value)) = some value := by
  rw [onWire]
  split
  · next hnonneg =>
    have hhi := value.toInt_lt
    have hsize : value.toInt.toNat < 2 ^ 64 := by omega
    have hnat : (ofNat value.toInt.toNat).toNat = value.toInt.toNat :=
      toNat_ofNat_of_lt' hsize
    have hlt : (ofNat value.toInt.toNat).toNat < 2 ^ 63 := by omega
    have hback : (ofNat value.toInt.toNat).toInt64 = value := by
      rw [toInt64_ofNat', ← Int64.ofInt_eq_ofNat, Int.toNat_of_nonneg hnonneg,
        Int64.ofInt_toInt]
    rw [fieldI64, if_pos hlt, hback]
  · rfl

theorem parseActor_value (actorUserId : Option UserId) :
    parseActor (some (onWire
      (actorUserId.elim .nil (fun userId => .u64 userId.toUInt64)))) = some actorUserId := by
  cases actorUserId with
  | none => rfl
  | some userId => simp [onWire, parseActor, fieldU64]

theorem parseActorDisplayName_value {actorDisplayName : Option String}
    (h : ∀ name, actorDisplayName = some name →
      trim name = name ∧ (utf8 name).length ≤ chatActorDisplayMaxBytes) :
    parseActorDisplayName (some (onWire (actorDisplayName.elim .nil .string))) =
      actorDisplayName.filter (fun name => decide (name ≠ "")) := by
  cases actorDisplayName with
  | none => rfl
  | some name =>
    obtain ⟨htrim, hfits⟩ := h name rfl
    by_cases hempty : name = ""
    · subst hempty
      rfl
    · simp [onWire, parseActorDisplayName, htrim, hempty,
        boundedChatText_of_fits hfits, Option.filter]

variable {humanBytes : HumanBytes} {event : ServerRoomEvent} {roomId : UInt32}
  {events : List ServerRoomEvent}

/-- The value of an event is parsed as the event. -/
theorem parseEvent_value {value : FrameValue} (h : HashesAlike event)
    (hvalue : eventToValue humanBytes event = .ok value) (serverId : String) (roomId : UInt32) :
    parseEvent serverId roomId (onWire value) =
      some (chatEventOf serverId roomId event) := by
  unfold eventToValue at hvalue
  rw [h.metadata] at hvalue
  cases hvalue
  have hactor := parseActor_value event.actorUserId
  have hname := parseActorDisplayName_value h.name
  have hat := fieldI64_onWire (Int64.ofInt event.atUnix)
  have hkind : ∀ fields, fields = onWireAll (eventFields humanBytes event) →
      ∃ kindId body, fields[1]?.bind fieldU64 = some kindId ∧ fields[4]?.bind fieldStr = some body ∧
        parseEventKind fields kindId body = some (chatKindOf event.kind) := by
    rintro fields rfl
    unfold eventFields
    cases hk : event.kind with
    | upload resourceId filename bytes =>
      obtain ⟨hne, hid, hfile⟩ := h.upload resourceId filename bytes hk
      refine ⟨5, _, rfl, rfl, ?_⟩
      simp [parseEventKind, parseUploadKind, eventParts, onWireAll, onWire,
        fieldStr, fieldU64, hne, chatTextFits, hid, boundedChatText_of_fits hfile, chatKindOf]
    | message body => exact ⟨1, body, rfl, rfl, rfl⟩
    | action body => exact ⟨2, body, rfl, rfl, rfl⟩
    | notice body => exact ⟨3, body, rfl, rfl, rfl⟩
    | system body => exact ⟨4, body, rfl, rfl, rfl⟩
  obtain ⟨kindId, body, hkindId, hbody, hparsed⟩ := hkind _ rfl
  have hid : (onWireAll (eventFields humanBytes event))[0]?.bind fieldU64 =
      some (ofNat event.eventId) := rfl
  have hactorField : (onWireAll (eventFields humanBytes event))[2]? =
      some (onWire
        (event.actorUserId.elim .nil (fun userId => .u64 userId.toUInt64))) := rfl
  have hatField : (onWireAll (eventFields humanBytes event))[3]? =
      some (onWire (.i64 (Int64.ofInt event.atUnix))) := rfl
  have hnameField : (onWireAll (eventFields humanBytes event))[5]? =
      some (onWire (event.actorDisplayName.elim .nil .string)) := rfl
  rw [onWire]
  unfold parseEvent
  simp only [fieldArray, Option.bind_eq_bind, Option.bind_some, hkindId, hbody, hparsed, hid,
    hactorField, hactor, hatField, hat, hnameField, hname]
  rfl

/-! The same checksum. -/

theorem mixChatEvent_of (hroom : event.roomId = roomId.toNat) (serverId : String)
    (checksum : UInt64) :
    mixChatEvent checksum (chatEventOf serverId roomId event) = mixRoomEvent checksum event := by
  have hname : (event.actorDisplayName.filter (fun name => decide (name ≠ ""))).getD "" =
      event.actorDisplayName.getD "" := by
    cases hd : event.actorDisplayName with
    | none => rfl
    | some name =>
      by_cases hempty : name = ""
      · subst hempty
        rfl
      · simp [Option.filter, hempty]
  have hkind : ∀ checksum, mixChatKind checksum (chatKindOf event.kind) =
      mixRoomKind checksum event.kind := by
    intro checksum
    cases event.kind with
    | _ => rfl
  have hid : ofNat event.roomId = roomId.toUInt64 := by
    rw [hroom]
    exact ofNat_uInt32ToNat roomId
  unfold mixChatEvent mixRoomEvent chatEventOf
  simp only [hname, hkind, hid]

theorem fingerprint_of (hroom : ∀ event ∈ events, event.roomId = roomId.toNat) (serverId : String) :
    chatEventFingerprint (events.map (chatEventOf serverId roomId)) =
      serverHistoryFingerprint events := by
  have hmix : ∀ checksum, (events.map (chatEventOf serverId roomId)).foldl mixChatEvent checksum =
      events.foldl mixRoomEvent checksum := by
    induction events with
    | nil => exact fun _ => rfl
    | cons event events ih =>
      intro checksum
      rw [map_cons, foldl_cons, foldl_cons,
        mixChatEvent_of (hroom event mem_cons_self)]
      exact ih (fun later hlater => hroom later (mem_cons_of_mem event hlater)) _
  unfold chatEventFingerprint serverHistoryFingerprint
  rw [hmix, length_map, head?_map, getLast?_map]
  congr 1
  · cases events.head? with
    | none | some => rfl
  · cases events.getLast? with
    | none | some => rfl

/-! A batch that was applied. -/

/-- The values of events are parsed as the events. -/
theorem parse_values {values : List FrameValue}
    (hvalues : events.mapM (eventToValue humanBytes) = .ok values)
    (halike : ∀ event ∈ events, HashesAlike event) (serverId : String) (roomId : UInt32) :
    (onWireAll values).filterMap (parseEvent serverId roomId) =
      events.map (chatEventOf serverId roomId) := by
  induction events generalizing values with
  | nil =>
    cases hvalues
    rfl
  | cons event events ih =>
    rw [mapM_cons] at hvalues
    obtain ⟨value, hvalue, hvalues⟩ := bind_ok.mp hvalues
    obtain ⟨rest, hrest, hvalues⟩ := bind_ok.mp hvalues
    cases hvalues
    have hparsed := parseEvent_value (halike event mem_cons_self) hvalue serverId roomId
    rw [onWireAll, filterMap_cons_some hparsed, map_cons,
      ih hrest fun later hlater => halike later (mem_cons_of_mem event hlater)]

/-- The events of a room, in the order of their ids. -/
structure Recent (roomId : UInt32) (events : List ServerRoomEvent) : Prop where
  room : ∀ event ∈ events, event.roomId = roomId.toNat
  fits : ∀ event ∈ events, event.eventId < 2 ^ 64
  ascending : events.Pairwise (fun a b => a.eventId < b.eventId)

theorem Recent.chatEvents (h : Recent roomId events) (serverId : String) :
    Ascending chatEventId (events.map (chatEventOf serverId roomId)) := by
  refine pairwise_map.mpr (h.ascending.imp_of_mem ?_)
  intro a b ha hb hlt
  have hleft : (ofNat a.eventId).toNat = a.eventId := toNat_ofNat_of_lt' (h.fits a ha)
  have hright : (ofNat b.eventId).toNat = b.eventId := toNat_ofNat_of_lt' (h.fits b hb)
  show ((ofNat a.eventId).toNat : Int) < (ofNat b.eventId).toNat
  rw [hleft, hright]
  exact Int.ofNat_lt.mpr hlt

/-- What the session has of the room is the batch, within the window that is hashed. -/
theorem recentHistoryFingerprint_of {session : ChatSessionView} (hrecent : Recent roomId events)
    (hactive : session.activeRoomId = roomId) (hlength : events.length ≤ defaultJoinBacklogEvents)
    {serverId : String}
    (hevents : (session.events.filter (fun event => event.roomId == roomId)).Perm
      (events.map (chatEventOf serverId roomId))) :
    recentHistoryFingerprint session = serverHistoryFingerprint events := by
  have hordered : orderBy (byKey chatEventId)
      (session.events.filter (fun event => event.roomId == roomId)) =
      events.map (chatEventOf serverId roomId) :=
    orderBy_eq hevents.symm (hrecent.chatEvents serverId)
  have hall : (events.map (chatEventOf serverId roomId)).length - defaultJoinBacklogEvents = 0 := by
    rw [length_map]
    omega
  unfold recentHistoryFingerprint
  simp only [hactive, hordered, hall, drop_zero]
  exact fingerprint_of hrecent.room serverId

/-- The latest events of a room that a reachable store gives. -/
theorem recent_latestEvents {db : Database} (hinv : Server.HistoryInv db)
    (hread : ∀ e ∈ db.history roomId.toNat, e.Readable) {n : Nat}
    (hevents : db.latestEvents roomId.toNat n = .ok events) : Recent roomId events := by
  rw [latestEvents_eq hread] at hevents
  cases hevents
  have hmem : ∀ e ∈ (db.undeleted roomId.toNat).drop ((db.undeleted roomId.toNat).length - n),
      e ∈ db.history roomId.toNat := fun e he => (mem_undeleted.mp (mem_of_mem_drop he)).1
  have hrange : ∀ e ∈ db.history roomId.toNat, 0 < e.eventId ∧ e.eventId ≤ i64Max := fun e he =>
    ⟨(hinv roomId.toNat).positive e he, (hread e he).fits⟩
  constructor
  case room =>
    intro event hevent
    obtain ⟨e, he, rfl⟩ := mem_map.mp hevent
    exact (mem_history.mp (hmem e he)).2
  case fits =>
    intro event hevent
    obtain ⟨e, he, rfl⟩ := mem_map.mp hevent
    obtain ⟨hpos, hle⟩ := hrange e (hmem e he)
    show e.eventId.toNat < 2 ^ 64
    simp only [i64Max] at hle
    omega
  case ascending =>
    have hasc : Ascending Server.RoomEventRow.eventId
        ((db.undeleted roomId.toNat).drop ((db.undeleted roomId.toNat).length - n)) :=
      List.Pairwise.sublist (drop_sublist _ _) (ascending_undeleted db roomId.toNat)
    refine pairwise_map.mpr (hasc.imp_of_mem ?_)
    intro a b ha hb hlt
    have hpos := (hrange a (hmem a ha)).1
    show a.eventId.toNat < b.eventId.toNat
    omega

def plainEvent : ServerRoomEvent := ⟨1, 5, .message "a", none, none, 10, none⟩

def plainValue : FrameValue := .array [.u64 5, .u64 1, .nil, .i64 10, .string "a", .nil]

def lobbySession : ChatSessionView := ⟨"server", 1, []⟩

/-- The value of a reply to the message. -/
def replyValue : FrameValue :=
  .array [.u64 6, .u64 1, .nil, .i64 20, .string "b", .nil, .u64 5, .array []]

end Omen.Client
