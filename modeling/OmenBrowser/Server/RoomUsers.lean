import OmenBrowser.Server.DurableSession
import OmenBrowser.Server.SlowMode

/- The users of a room, as its links are shown them (`server/src/session.rs`,
   `server/src/store.rs`).

   A list of users is made of the peers that are active in the room. Making it writes to the
   store: each identity among them is seen again, and is a member of the room from then on.
   What a list may change is `Refreshed`, and every list keeps to it.

   Correspondence (Rust ↔ Lean):
     `users_for_room`                      ↔ `Database.usersForRoom`
     `seen_hashes` and the loop over peers ↔ the arguments of `seenUsers`
     `users.sort_by(..)`                   ↔ `byNameThenId`
     `nickname_colours_negotiated`         ↔ `coloured`
   The role and the status of a membership are never written, so they are read as 0. -/
namespace Omen.Server
open Wire Sql Omen.Protocol Act

variable {τ ρ : Type} {α : Type}

/-! Users in frames. -/

def userFields (user : ServerUser) : List FrameValue :=
  [.u64 user.userId.toUInt64, .string user.displayName, .u64 (UInt64.ofNat user.roleBits),
    .u64 user.statusBits.toUInt64, .bool user.lxmfDestination.isSome]

def userToValueForColourCapability (user : ServerUser) (coloured : Bool) : FrameValue :=
  .array (userFields user ++ if coloured then [colourValue user.nicknameColourRgb] else [])

/-! The members of a room. -/

/-- The user of a row of `users`, as a member of a room. -/
def UserRow.member (r : UserRow) : ServerUser :=
  { r.toUser with roleBits := 0, statusBits := 0 }

/-- `SELECT .. FROM room_members m JOIN users u .. ORDER BY u.display_name`. -/
def Database.usersForRoom (db : Database) (roomId : RoomId) : List ServerUser :=
  let members := (db.roomMembers.rows.filter (fun m => m.roomId == roomId)).map RoomMemberRow.userId
  (orderBy (fun a b => compareBytes (utf8 a.displayName) (utf8 b.displayName))
    (db.users.rows.filter fun r => members.contains r.userId)).map UserRow.member

/-! The users of the active peers. -/

/-- `left.display_name.cmp(..).then_with(|| left.user_id.cmp(..))`. -/
def byNameThenId (a b : ServerUser) : Ordering :=
  (compareBytes (utf8 a.displayName) (utf8 b.displayName)).then
    (compare a.userId.toNat b.userId.toNat)

/-- The peer's user, a member of the room from now on. -/
def seenUser (roomId : UInt32) (peer : ServerPeer) : Session τ ρ ServerUser := do
  let user ← ensurePeer peer
  onStore (inDatabase (joinRoomOn roomId.toNat user.userId))
  pure user

/-- One user for each identity among the peers but the empty one. -/
def seenUsers (roomId : UInt32) : List Bytes → List ServerPeer → Session τ ρ (List ServerUser)
  | _, [] => pure []
  | seen, peer :: peers =>
    if peer.identityHash = [] ∨ peer.identityHash ∈ seen then seenUsers roomId seen peers
    else do
      let user ← seenUser roomId peer
      let users ← seenUsers roomId (peer.identityHash :: seen) peers
      pure (user :: users)

def userValuesForActivePeers (roomId : UInt32) (peers : List ServerPeer) (coloured : Bool) :
    Session τ ρ (List FrameValue) := do
  let users ← seenUsers roomId [] peers
  pure ((orderBy byNameThenId users).map (userToValueForColourCapability · coloured))

/-- The value is of this user. -/
def FrameValue.isOfUser (userId : UserId) : FrameValue → Bool
  | .array (.u64 value :: _) => value == userId.toUInt64
  | _ => false

def userValuesForJoin (roomId : UInt32) (joined : ServerUser) (peers : List ServerPeer)
    (coloured : Bool) : Session τ ρ (List FrameValue) :=
  if peers.isEmpty then
    Act.read fun s => (s.database.usersForRoom roomId.toNat).map
      (userToValueForColourCapability · coloured)
  else do
    let users ← userValuesForActivePeers roomId peers coloured
    pure (if users.any (FrameValue.isOfUser joined.userId) then users
      else users ++ [userToValueForColourCapability joined coloured])

/-! What a list of users leaves in the store. -/

/-- The row, with another name, address or time at which the user was seen. -/
def UserRow.SeenAgain (r r' : UserRow) : Prop :=
  r' = { r with
    displayName := r'.displayName
    lxmfDestination := r'.lxmfDestination
    lastSeenAt := r'.lastSeenAt }

/-- Some of the peers were seen in the room, and nothing else has changed. -/
structure Database.Refreshed (roomId : RoomId) (peers : List ServerPeer) (db db' : Database) :
    Prop where
  others : db' = { db with users := db'.users, roomMembers := db'.roomMembers }
  strangers : ∀ identityHash, (∀ peer ∈ peers, peer.identityHash ≠ identityHash) →
    db'.users.byIdentity? identityHash = db.users.byIdentity? identityHash
  users : ∀ identityHash r, db.users.byIdentity? identityHash = some r →
    ∃ r', db'.users.byIdentity? identityHash = some r' ∧ r.SeenAgain r'
  members : ∀ k m, db.roomMembers.find? k = some m → db'.roomMembers.find? k = some m
  joined : ∀ k m, db'.roomMembers.find? k = some m → db.roomMembers.find? k = some m ∨
    m.roomId = roomId ∧ ∃ peer ∈ peers, ∃ r,
      db'.users.byIdentity? peer.identityHash = some r ∧ m.userId = r.readId.toNat

namespace Database.Refreshed

variable {roomId : RoomId} {peers : List ServerPeer}

theorem refl (db : Database) : Refreshed roomId peers db db where
  others := rfl
  strangers := fun _ _ => rfl
  users := fun _ r h => ⟨r, h, rfl⟩
  members := fun _ _ h => h
  joined := fun _ _ h => .inl h

theorem trans (db db' db'' : Database) (h : Refreshed roomId peers db db')
    (h' : Refreshed roomId peers db' db'') : Refreshed roomId peers db db'' where
  others := by
    rw [h'.others, h.others]
  strangers := fun identityHash hnone =>
    (h'.strangers identityHash hnone).trans (h.strangers identityHash hnone)
  users := by
    intro identityHash r hr
    obtain ⟨r', hr', hseen⟩ := h.users identityHash r hr
    obtain ⟨r'', hr'', hseen'⟩ := h'.users identityHash r' hr'
    refine ⟨r'', hr'', ?_⟩
    unfold UserRow.SeenAgain at hseen hseen' ⊢
    rw [hseen', hseen]
  members := fun k m hm => h'.members k m (h.members k m hm)
  joined := by
    intro k m hm
    rcases h'.joined k m hm with hm | hnew
    · rcases h.joined k m hm with hm | ⟨hroom, peer, hpeer, r, hr, hid⟩
      · exact .inl hm
      · -- the user's row may have been written since, but its id is the same
        obtain ⟨r', hr', hseen⟩ := h'.users _ r hr
        refine .inr ⟨hroom, peer, hpeer, r', hr', ?_⟩
        rw [hid, hseen]
        rfl
    · exact .inr hnew

end Database.Refreshed

theorem Users.byIdentity?_upsert {db db' : Database} {peer : ServerPeer} {now : Int}
    (h : db.upsertUser peer now = .ok db') (identityHash : Bytes) :
    db'.users.byIdentity? identityHash =
      if peer.identityHash = identityHash then
        some (((db.users.byIdentity? identityHash).map (UserRow.seen peer now)).getD
          (UserRow.created db.users.nextId peer now))
      else db.users.byIdentity? identityHash := by
  obtain ⟨_, ⟨hfound, hrows⟩ | ⟨hnone, hrows⟩⟩ := upsertUser_ok h
  · have hkey : ((fun r : UserRow => r.identityHash == identityHash) ∘ fun r =>
        if r.identityHash == peer.identityHash then r.seen peer now else r) =
        fun r => r.identityHash == identityHash := by
      funext r
      simp only [Function.comp]
      split
      · rfl
      · rfl
    unfold Users.byIdentity? at hfound ⊢
    rw [hrows, List.find?_map, hkey]
    cases hrow : db.users.rows.find? (fun r => r.identityHash == identityHash) with
    | none =>
      split
      · next hsame => exact absurd (hsame ▸ hrow) hfound
      · rfl
    | some r =>
      have hidentity : r.identityHash = identityHash := by simpa using List.find?_some hrow
      have hsame : (r.identityHash == peer.identityHash) = true ↔ peer.identityHash = identityHash := by
        rw [hidentity, beq_iff_eq]
        exact eq_comm
      simp only [Option.map_some, Option.getD_some, hsame]
      split
      · rfl
      · rfl
  · unfold Users.byIdentity? at hnone ⊢
    rw [hrows, List.find?_cons]
    by_cases hsame : peer.identityHash = identityHash
    · subst hsame
      rw [hnone, if_pos rfl]
      simp [UserRow.created]
    · have hother : ((UserRow.created db.users.nextId peer now).identityHash == identityHash) = false :=
        beq_eq_false_iff_ne.mpr hsame
      rw [if_neg hsame, hother]

theorem upsertUser_refreshed {db db' : Database} {peer : ServerPeer} {now : Int} {roomId : RoomId}
    {peers : List ServerPeer} (hpeer : peer ∈ peers) (h : db.upsertUser peer now = .ok db') :
    Database.Refreshed roomId peers db db' := by
  have hothers := (upsertUser_ok h).1
  have hmembers : db'.roomMembers = db.roomMembers := by rw [hothers]
  refine ⟨?_, ?_, ?_, ?_, ?_⟩
  · rw [hmembers]
    exact hothers
  · intro identityHash hnone
    rw [Users.byIdentity?_upsert h, if_neg (hnone peer hpeer)]
  · intro identityHash r hr
    rw [Users.byIdentity?_upsert h, hr]
    split
    · exact ⟨_, rfl, rfl⟩
    · exact ⟨r, rfl, rfl⟩
  · intro k m hm
    rw [hmembers]
    exact hm
  · intro k m hm
    rw [hmembers] at hm
    exact .inl hm

theorem joinRoomOn_refreshed {db : Database} {roomId : RoomId} {userId : UserId}
    {peers : List ServerPeer} {peer : ServerPeer} (hpeer : peer ∈ peers)
    (hresolves : db.Resolves userId peer.identityHash) : Database.Refreshed roomId peers db
      { db with roomMembers := db.roomMembers.insertOrIgnore ⟨roomId, userId.toNat⟩ } := by
  obtain ⟨r, hr, hid, hidentity⟩ := hresolves
  have hfind := Table.find?_insertOrIgnore (t := db.roomMembers) ⟨roomId, userId.toNat⟩
  refine ⟨rfl, fun _ _ => rfl, fun _ r hr => ⟨r, hr, rfl⟩, ?_, ?_⟩
  · intro k m hm
    rw [hfind]
    split
    · rw [hm, Option.getD_some]
    · exact hm
  · intro k m hm
    rw [hfind] at hm
    split at hm
    · cases hmember : db.roomMembers.find? k with
      | some m' =>
        rw [hmember] at hm
        exact .inl hm
      | none =>
        rw [hmember] at hm
        obtain rfl := Option.some.inj hm
        refine .inr ⟨rfl, peer, hpeer, r, Users.byIdentity?_eq_some.mpr ⟨hr, hidentity⟩, ?_⟩
        show (userId.toNat : Int) = _
        rw [hid]
    · exact .inl hm

/-- A session's engine after a list of users: the tables are refreshed, and only they. -/
structure SessionState.Refreshed (roomId : UInt32) (peers : List ServerPeer)
    (e e' : SessionState τ ρ) : Prop where
  database : Database.Refreshed roomId.toNat peers e.database e'.database
  rest : e'.store.rest.2 = e.store.rest.2
  results : e'.store.results = e.store.results
  clients : e'.store.clients = e.store.clients
  clock : e'.clock = e.clock

namespace SessionState.Refreshed

variable {roomId : UInt32} {peers : List ServerPeer}

theorem refl (e : SessionState τ ρ) : Refreshed roomId peers e e where
  database := .refl _
  rest := rfl
  results := rfl
  clients := rfl
  clock := rfl

theorem trans (e e' e'' : SessionState τ ρ) (h : Refreshed roomId peers e e')
    (h' : Refreshed roomId peers e' e'') : Refreshed roomId peers e e'' where
  database := .trans _ _ _ h.database h'.database
  rest := h'.rest.trans h.rest
  results := h'.results.trans h.results
  clients := h'.clients.trans h.clients
  clock := h'.clock.trans h.clock

instance : IsPreorder (SessionState τ ρ) (Refreshed roomId peers) where
  refl := refl
  trans := trans

end SessionState.Refreshed

section Lists
variable {roomId : UInt32} {peers : List ServerPeer}

/-- A transaction that refreshes the database does no more to the session. -/
theorem withDatabase_refreshed {e : SessionState τ ρ} {database : Database}
    (h : Database.Refreshed roomId.toNat peers e.database database) :
    SessionState.Refreshed roomId peers e (e.withDatabase database) := ⟨h, rfl, rfl, rfl, rfl⟩

variable (roomId) in
/-- Seeing a peer refreshes the tables, and its id stands for it from then on. -/
theorem ensurePeer_seen {peer : ServerPeer} (hpeer : peer ∈ peers) (e : SessionState τ ρ) :
    SessionState.Refreshed roomId peers e (ensurePeer peer e).2 ∧
      ∀ user, (ensurePeer peer e).1 = .ok user →
        (ensurePeer peer e).2.database.Resolves user.userId peer.identityHash := by
  unfold ensurePeer
  split
  · exact ⟨.refl e, nofun⟩
  · let read : SessionState τ ρ := { e with readings := e.readings + 1 }
    have hread : SessionState.Refreshed roomId peers e read := ⟨.refl _, rfl, rfl, rfl, rfl⟩
    have hbind : (currentUnixSeconds >>= fun now => onStore (inDatabase (ensureUserOn peer now))) e =
        onStore (inDatabase (ensureUserOn peer (e.clock e.readings))) read := rfl
    rw [hbind]
    obtain ⟨user, database, hensured, hrun⟩ | ⟨error, _, hrun⟩ :=
      inDatabase_cases (ensureUserOn peer (e.clock e.readings)) read
    · rw [hrun]
      obtain ⟨hupsert, _, hresolves⟩ := ensureUserOn_ok hensured
      refine ⟨.trans _ _ _ hread (withDatabase_refreshed (upsertUser_refreshed hpeer hupsert)), ?_⟩
      intro user' huser
      rw [← Except.ok.inj huser]
      exact hresolves
    · rw [hrun]
      exact ⟨hread, nofun⟩

theorem seenUser_refreshed {peer : ServerPeer} (hpeer : peer ∈ peers) :
    Act.Steps (SessionState.Refreshed (τ := τ) (ρ := ρ) roomId peers) (seenUser roomId peer) := by
  intro e
  obtain ⟨hseen, hresolves⟩ := ensurePeer_seen roomId hpeer e
  rcases hrun : ensurePeer peer e with ⟨result, e₁⟩
  rw [hrun] at hseen hresolves
  unfold seenUser
  cases result with
  | error error =>
    rw [bind_error hrun]
    exact hseen
  | ok user =>
    rw [bind_ok hrun]
    have hjoined : SessionState.Refreshed roomId peers e₁ (e₁.withDatabase _) :=
      withDatabase_refreshed (joinRoomOn_refreshed hpeer (hresolves user rfl))
    exact .trans _ _ _ hseen hjoined

theorem seenUsers_refreshed (rest : List ServerPeer) (hrest : ∀ peer ∈ rest, peer ∈ peers)
    (seen : List Bytes) : Act.Steps (SessionState.Refreshed (τ := τ) (ρ := ρ) roomId peers)
      (seenUsers roomId seen rest) := by
  induction rest generalizing seen with
  | nil => exact .pure _
  | cons peer rest ih =>
    have ih := ih fun p hp => hrest p (List.mem_cons_of_mem peer hp)
    refine .ite (ih seen) ?_
    refine .bind (seenUser_refreshed (hrest peer List.mem_cons_self)) fun user => ?_
    exact .bind (ih _) fun users => .pure _

/-- A list of users changes no more of the tables than what it says of its peers. -/
theorem userValues_refreshed (roomId : UInt32) (peers : List ServerPeer) (coloured : Bool) :
    Act.Steps (SessionState.Refreshed (τ := τ) (ρ := ρ) roomId peers)
      (userValuesForActivePeers roomId peers coloured) :=
  .bind (seenUsers_refreshed peers (fun _ h => h) []) fun _ => .pure _

end Lists

end Omen.Server
