import OmenBrowser.Server.RoomLeaving

/- Frames in the shape a link has negotiated (`shape_room_frame_for_catalog_shape` and
   `shape_user_delta_for_colour_capability` of `server/src/session.rs`).

   A frame that shows rooms or a user is written anew for a link that has negotiated more than the
   first clients knew: each room and the user are looked up by the id in the frame, and written as
   they are stored. So a frame can be shaped if and only if what it shows is stored, and a room
   only if it still passes the check it is written by.

   Correspondence (Rust ↔ Lean):
     `authoritative_room_value`                  ↔ `authoritativeRoomValue`
     `shape_room_frame_for_catalog_shape`        ↔ `shapeRoomFrameForCatalogShape`
     `shape_user_delta_for_colour_capability`    ↔ `shapeUserDeltaForColourCapability`
     `user_by_id`                                ↔ `Database.userById?` -/
namespace Omen.Server
open Wire Sql Omen.Protocol

variable {τ ρ : Type}

/-! A room. -/

/-- The id a room value begins with. -/
def roomValueId : FrameValue → Except ServerError UInt32
  | .array (.u64 roomId :: _) =>
    if roomId.toNat < 2 ^ 32 then .ok roomId.toUInt32
    else .error (.message "server-generated room id exceeded u32")
  | .array _ => .error (.message "server-generated room value omitted its id")
  | _ => .error (.message "server-generated room value was not an array")

/-- The stored room of the value's id, in the shape. -/
def authoritativeRoomValue (rooms : RoomTable) (shape : RoomCatalogShape) (value : FrameValue) :
    Except ServerError FrameValue := do
  let roomId ← roomValueId value
  match rooms.byId? roomId with
  | none => .error (.message s!"room {roomId} disappeared")
  | some row => roomToValueForShape row.room shape

/-! A frame that shows rooms. -/

/-- `{:?}` of the operations whose frames show one room. -/
def roomOpName : ChatOp → String
  | .joinAccept => "JoinAccept"
  | _ => "RoomDelta"

/-- The body with the first field written anew. -/
def shapeFirst (op : ChatOp) (shapeRoom : FrameValue → Except ServerError FrameValue) :
    FrameBody → Except ServerError FrameBody
  | .fields (room :: fields) => (shapeRoom room).map fun room => .fields (room :: fields)
  | .fields [] => .error (.message s!"{roomOpName op} response omitted its room")
  | _ => .error (.message s!"{roomOpName op} response did not contain fields")

/-- The body of a command's result, with the rooms in it written anew. -/
def shapeResult (shapeRoom : FrameValue → Except ServerError FrameValue) (body : FrameBody) :
    Except ServerError FrameBody :=
  match body with
  | .fields (.string command :: fields) =>
    if command = "rooms" then
      match fields with
      | .array rooms :: fields =>
        (rooms.mapM shapeRoom).map fun rooms => .fields (.string command :: .array rooms :: fields)
      | _ => .error (.message "rooms command result omitted its catalog")
    else if command = "create" ∨ command = "topic" ∨ command = "part" then
      match fields with
      | room :: fields => (shapeRoom room).map fun room => .fields (.string command :: room :: fields)
      | [] => .error (.message s!"{command} command result omitted its room")
    else .ok body
  | _ => .ok body

def shapeRoomFrameForCatalogShape (rooms : RoomTable) (frame : Frame) (shape : RoomCatalogShape) :
    Except ServerError Frame :=
  match frame.op with
  | .joinAccept | .roomDelta =>
    (shapeFirst frame.op (authoritativeRoomValue rooms shape) frame.body).map fun body =>
      { frame with body }
  | .commandResult =>
    (shapeResult (authoritativeRoomValue rooms shape) frame.body).map fun body => { frame with body }
  | _ => .ok frame

/-! A user. -/

/-- `SELECT .. FROM users WHERE user_id = ?1`. -/
def Database.userById? (db : Database) (userId : UInt32) : Option UserRow :=
  db.users.table.find? userId.toNat

/-- The id the user value of a delta begins with. -/
def deltaUserId : FrameBody → Option UInt32
  | .fields (.array (.u64 userId :: _) :: _) =>
    if userId.toNat < 2 ^ 32 then some userId.toUInt32 else none
  | _ => none

def shapeUserDeltaForColourCapability (db : Database) (frame : Frame) : Except ServerError Frame :=
  if frame.op = .userDelta then
    match deltaUserId frame.body with
    | none => .error (.message "user delta shape is invalid")
    | some userId =>
      match db.userById? userId with
      | none => .error (.message "user delta target is unavailable")
      | some row =>
        .ok { frame with body := .fields [userToValueForColourCapability row.toUser true] }
  else .ok frame

/-! What is published. -/

/-- `room_ids_for_identity`: the rooms an identity is a member of, in order. -/
def Database.roomIdsForIdentity (db : Database) (identityHash : Bytes) : List UInt32 :=
  match db.users.byIdentity? identityHash with
  | none => []
  | some row =>
    let member := db.roomMembers.rows.filter fun m => m.userId == (row.readId.toNat : Int)
    (orderBy compare (member.map RoomMemberRow.roomId)).map UInt32.ofNat

/-- What is published, with the rooms of the tables. -/
def Publishing.ofRooms (c : RoomSettings τ) (publishing : Publishing τ ρ) : Publishing τ ρ :=
  { publishing with
    roomIdsForIdentity := fun identityHash rest => .ok (rest.1.roomIdsForIdentity identityHash)
    shapeUserDelta := fun frame rest => shapeUserDeltaForColourCapability rest.1 frame
    shapeRoomFrame := fun frame shape rest =>
      shapeRoomFrameForCatalogShape (c.rooms rest.2.1) frame shape }

/-- The engine, with its rooms. -/
abbrev roomEngine (c : BatchConfig) (settings : RoomSettings τ) (reading : Reading τ ρ)
    (serving : Serving τ ρ) (durable : DurableServing τ ρ) (publishing : Publishing τ ρ) :
    SessionEngine (SessionState τ (PendingResourceStore × ρ)) :=
  parkingEngine c (reading.ofRooms settings) (serving.ofRooms settings) (durable.ofRooms settings)
    (publishing.ofRooms settings)

/-! A server with one room, for runs on given inputs. -/

/-- The rooms are all the other tables there are. -/
def roomSettings : RoomSettings RoomTable where
  humanBytes := fun _ => ""
  limits := ⟨50, 50, 4096, 1048576⟩
  serverMotd := none
  pingIntervalSeconds := 30
  uploadMaxFileBytes := 1048576
  historyRetention := .disabled
  rooms := id

def lobby : RoomTable := ⟨[StoredRoom.created 1 "lobby" none], List.nodup_singleton _⟩

/-- Nobody is a moderator, and nothing was uploaded; the rooms are read by their handlers. -/
def Reading.bare : Reading τ ρ where
  joinRoom := fun _ _ _ _ _ => pure (.answered [])
  historyBefore := fun _ _ _ _ => pure (.answered [])
  historyRecent := fun _ _ _ _ => pure (.answered [])
  moderationAuditBefore := fun _ seq roomId _ =>
    pure (.answered [⟨errorFrame seq (some roomId) .permissionDenied
      "moderation audit requires moderator or administrator role", rfl⟩])
  uploadFetch := fun _ seq roomId _ =>
    pure (.answered [⟨errorFrame seq (some roomId) .resourceUnavailable
      "upload resource is unavailable", rfl⟩])
  fingerprint := fun _ _ => "0"

def annInLobby : FrameValue := .array [.u64 1, .string "ann", .u64 0, .u64 0, .bool false]

def bobInLobby : FrameValue := .array [.u64 2, .string "bob", .u64 0, .u64 0, .bool false]

def cidInLobby : FrameValue := .array [.u64 3, .string "cid", .u64 0, .u64 0, .bool false]

/-- The lists of the room's users, as they join it and after the first has parted. -/
def memberRecordings : List (Bytes × Bytes) :=
  [recording [annInLobby]
    (be 40 0x425a68393141592653593c629ec60000034134600020012200080010002000220627a84302164e50 ++
      be 12 0x03c5dc914e14240f18a7b180),
  recording [annInLobby, bobInLobby]
    (be 40 0x425a6839314159265359e2b4e88a000006413470003001920008001000200021a00d34201a69a2ae ++
      be 18 0x011c5e8e24fc90f177245385090e2b4e88a0),
  recording [annInLobby, bobInLobby, cidInLobby]
    (be 40 0x425a6839314159265359106fc47b000009413478003c218a00080010002000223481ea0f24298000 ++
      be 22 0x3c37083530915baa984e98f8bb9229c28480837e23d8),
  recording [bobInLobby]
    (be 40 0x425a683931415926535931ea5f92000003413450001000a200080010002000220647a10c08dce7ec ++
      be 12 0x020bb9229c284818f52fc900)]

def memberBatches : BatchConfig where
  rmpv := Rmpv.reference
  bzip2 := Bzip2.recorded memberRecordings (by decide +kernel) (by decide +kernel)
  largeBatchThresholdBytes := 4096
  resourceAudit := false

/-- The room, and nothing else. -/
def lobbyDatabase : Database :=
  { Database.empty with rooms := ⟨[⟨1⟩], List.Pairwise.cons nofun .nil⟩ }

/-- A session's engine over the lobby. -/
def lobbyState (database : Database) : SessionState RoomTable (PendingResourceStore × Unit) :=
  SessionState.bare database lobby (PendingResourceStore.empty, ())

/-- The engine of a server in which nobody publishes. -/
abbrev bareEngine : SessionEngine (SessionState RoomTable (PendingResourceStore × Unit)) :=
  roomEngine memberBatches roomSettings Reading.bare Serving.bare DurableServing.bare Publishing.bare

end Omen.Server
