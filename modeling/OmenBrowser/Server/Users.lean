import OmenBrowser.Server.HistoryRetention

/- The users of the server (`server/src/store.rs`).

   A user is made the first time its identity is seen and found by the identity from then on.
   The numeric id is the row id SQLite gives the new row, one more than the largest in use,
   so the id of a deleted user may be given out again; it is read back with `as u32`.

   Correspondence (Rust ↔ Lean):
     `ensure_user_on`                       ↔ `ensureUserOn`, its statement `Database.upsertUser`
     `delete_users`                         ↔ the body of its transaction
   A row id past the largest `i64` is a full table (SQLite then looks for a free id at random);
   the colour of a nickname is within 24 bits by its `CHECK`, so reading it does not fail. -/
namespace Omen.Server
open Wire Sql Ints Omen.Protocol

variable {identityHash : Bytes} {userId : UserId}

/-- Who a session speaks for. -/
structure ServerPeer where
  identityHash : Bytes
  displayName : String
  lxmfDestination : Option String
  deriving DecidableEq

structure ServerUser where
  userId : UserId
  identityHash : Bytes
  displayName : String
  roleBits : Nat
  statusBits : UInt32
  lxmfDestination : Option String
  profileRevision : Nat
  nicknameColourRgb : Option Nat
  deriving DecidableEq, Repr

variable (r : UserRow)

/-- `row.get::<_, i64>(0)? as UserId`. -/
def UserRow.readId : UserId := UInt32.ofInt r.userId

/-- `user_from_row`. -/
def UserRow.toUser : ServerUser :=
  { userId := r.readId
    identityHash := r.identityHash
    displayName := r.displayName
    roleBits := r.roleBits
    statusBits := UInt32.ofNat r.statusBits
    lxmfDestination := r.lxmfDestination
    profileRevision := r.profileRevision
    nicknameColourRgb := r.nicknameColourRgb }

/-- A user seen for the first time. -/
def UserRow.created (userId : Int) (peer : ServerPeer) (now : Int) : UserRow :=
  { userId
    identityHash := peer.identityHash
    displayName := peer.displayName
    roleBits := 0
    statusBits := 0
    profileRevision := 0
    nicknameColourRgb := none
    lxmfDestination := peer.lxmfDestination
    firstSeenAt := now
    lastSeenAt := some now }

/-- A user seen again. -/
def UserRow.seen (peer : ServerPeer) (now : Int) (r : UserRow) : UserRow :=
  { r with
    displayName := peer.displayName
    lxmfDestination := peer.lxmfDestination.or r.lxmfDestination
    lastSeenAt := some now }

/-- `INSERT INTO users .. ON CONFLICT(rns_identity_hash) DO UPDATE`. -/
def Database.upsertUser (db : Database) (peer : ServerPeer) (now : Int) : Except Sql.Error Database :=
  match db.users.byIdentity? peer.identityHash with
  | some _ => .ok { db with
      users := db.users.updateWhere (fun r => r.identityHash == peer.identityHash)
        (UserRow.seen peer now) (fun _ => rfl) (fun _ => rfl) }
  | none =>
    if db.users.nextId > i64Max then .error .databaseFull
    else (db.users.insert (UserRow.created db.users.nextId peer now)).map
      (fun users => { db with users })

def ensureUserOn (peer : ServerPeer) (now : Int) : Txn Database ServerError ServerUser := do
  sql (fun db => db.upsertUser peer now)
  let row ← Txn.query (fun db : Database => db.users.byIdentity? peer.identityHash)
  match row with
  | some r => pure r.toUser
  | none => fail "user was not created"

/-- `DELETE FROM room_members WHERE user_id = ?1` and `DELETE FROM users WHERE user_id = ?1`. -/
def Database.deleteUser (db : Database) (userId : UserId) : Database :=
  { db with
    roomMembers := db.roomMembers.deleteWhere (fun m => m.userId == (userId.toNat : Int))
    users := db.users.delete userId.toNat }

/-- The loop of `delete_users`, behind `deleted` users. -/
def deleteUsers : List UserId → Nat → Txn Database ServerError Nat
  | [], deleted => pure deleted
  | userId :: userIds, deleted => do
    let changed ← Txn.query (fun db : Database =>
      db.users.rows.countP (fun r => r.userId == (userId.toNat : Int)))
    Txn.execute (·.deleteUser userId)
    deleteUsers userIds (saturatingCount deleted changed)

/-! Whom an id stands for. -/

/-- A user with this identity is read with this id. -/
def Database.Resolves (db : Database) (userId : UserId) (identityHash : Bytes) : Prop :=
  ∃ r ∈ db.users.rows, r.readId = userId ∧ r.identityHash = identityHash

/-- The id the identity has, or gets when it is seen next. -/
def Database.userIdOf (db : Database) (identityHash : Bytes) : UserId :=
  match db.users.byIdentity? identityHash with
  | some r => r.readId
  | none => UInt32.ofInt db.users.nextId

namespace Users

theorem byIdentity?_eq_some {u : Users} {r : UserRow} :
    u.byIdentity? identityHash = some r ↔ r ∈ u.rows ∧ r.identityHash = identityHash := by
  constructor
  · intro h
    exact ⟨List.mem_of_find?_eq_some h, by simpa using List.find?_some h⟩
  · rintro ⟨hmem, rfl⟩
    cases hf : u.byIdentity? r.identityHash with
    | none => simpa using List.find?_eq_none.mp hf r hmem
    | some q =>
      have hq : q.identityHash = r.identityHash := by simpa using List.find?_some hf
      rw [List.inj_on_of_nodup_map u.identities (List.mem_of_find?_eq_some hf) hmem hq]

theorem insert_ok {u u' : Users} {r : UserRow} (h : u.insert r = .ok u') : u'.rows = r :: u.rows := by
  unfold Users.insert at h
  split at h
  · cases h
  · next t ht =>
    split at h
    · cases h
    · injection h with h
      rw [← h]
      exact (Table.insert_ok.mp ht).1

end Users

section
variable {db db' : Database} {peer : ServerPeer} {now : Int}

variable (h : db.upsertUser peer now = .ok db')
include h

/-- An identity that is seen again keeps its row; a new one gets a row with the next id. -/
theorem upsertUser_ok :
    db' = { db with users := db'.users } ∧
    ((db.users.byIdentity? peer.identityHash ≠ none ∧ db'.users.rows = db.users.rows.map
        (fun r => if r.identityHash == peer.identityHash then r.seen peer now else r)) ∨
     (db.users.byIdentity? peer.identityHash = none ∧
        db'.users.rows = UserRow.created db.users.nextId peer now :: db.users.rows)) := by
  unfold Database.upsertUser at h
  cases hfound : db.users.byIdentity? peer.identityHash with
  | some r =>
    simp only [hfound] at h
    injection h with h
    rw [← h]
    exact ⟨rfl, .inl ⟨Option.some_ne_none r, rfl⟩⟩
  | none =>
    simp only [hfound] at h
    split at h
    · cases h
    · obtain ⟨users, husers, rfl⟩ := Outcome.map_ok.mp h
      exact ⟨rfl, .inr ⟨rfl, Users.insert_ok husers⟩⟩

/-- What an id stands for after an upsert it stood for before, apart from the one the new user
gets. -/
theorem upsertUser_resolves
    (hr : db'.Resolves userId identityHash) :
    db.Resolves userId identityHash ∨
      db.users.byIdentity? peer.identityHash = none ∧ userId = db.userIdOf peer.identityHash ∧
        identityHash = peer.identityHash := by
  obtain ⟨r, hmem, hid, hidentity⟩ := hr
  obtain ⟨_, ⟨_, hrows⟩ | ⟨hnone, hrows⟩⟩ := upsertUser_ok h
  · rw [hrows] at hmem
    obtain ⟨q, hq, rfl⟩ := List.mem_map.mp hmem
    refine .inl ⟨q, hq, ?_, ?_⟩
    · rw [← hid]
      split
      · rfl
      · rfl
    · rw [← hidentity]
      split
      · rfl
      · rfl
  · rw [hrows] at hmem
    rcases List.mem_cons.mp hmem with rfl | hmem
    · refine .inr ⟨hnone, ?_, hidentity.symm⟩
      rw [← hid, Database.userIdOf, hnone]
      rfl
    · exact .inl ⟨r, hmem, hid, hidentity⟩

/-- An identity keeps its id. -/
theorem upsertUser_keeps
    (hr : db.Resolves userId identityHash) : db'.Resolves userId identityHash := by
  obtain ⟨r, hmem, hid, hidentity⟩ := hr
  rcases (upsertUser_ok h).2 with ⟨_, hrows⟩ | ⟨_, hrows⟩
  · refine ⟨if r.identityHash == peer.identityHash then r.seen peer now else r, ?_, ?_, ?_⟩
    · rw [hrows]
      exact List.mem_map_of_mem hmem
    · split
      · exact hid
      · exact hid
    · split
      · exact hidentity
      · exact hidentity
  · refine ⟨r, ?_, hid, hidentity⟩
    rw [hrows]
    exact List.mem_cons_of_mem _ hmem

omit h

/-- The user `ensureUserOn` returns has the id of the identity, and this id stands for it. -/
theorem ensureUserOn_ok {user : ServerUser} (h : ensureUserOn peer now db = .ok (user, db')) :
    db.upsertUser peer now = .ok db' ∧ user.userId = db.userIdOf peer.identityHash ∧
      db'.Resolves user.userId peer.identityHash := by
  obtain ⟨db₁, hupsert, h⟩ := sql_bind_ok.mp h
  rw [Txn.query_bind] at h
  cases hfound : db₁.users.byIdentity? peer.identityHash with
  | none =>
    simp only [hfound] at h
    exact (fail_ok.mp h).elim
  | some r =>
    simp only [hfound] at h
    obtain ⟨rfl, rfl⟩ := Txn.pure_eq_ok h
    obtain ⟨hmem, hidentity⟩ := Users.byIdentity?_eq_some.mp hfound
    refine ⟨hupsert, ?_, r, hmem, rfl, hidentity⟩
    rcases upsertUser_resolves hupsert ⟨r, hmem, rfl, hidentity⟩ with ⟨q, hq, hid, hq'⟩ | ⟨_, hid, _⟩
    · rw [Database.userIdOf, Users.byIdentity?_eq_some.mpr ⟨hq, hq'⟩]
      exact hid.symm
    · exact hid

end

theorem deleteUser_resolves {db : Database} {uid : UserId}
    (h : (db.deleteUser userId).Resolves uid identityHash) : db.Resolves uid identityHash := by
  obtain ⟨r, hmem, hid, hidentity⟩ := h
  exact ⟨r, (Table.mem_deleteWhere.mp hmem).1, hid, hidentity⟩

/-- After a deletion an id stands for nobody it did not stand for before. -/
theorem deleteUsers_ok {userIds : List UserId} {deleted n : Nat} {db db' : Database}
    (h : deleteUsers userIds deleted db = .ok (n, db')) :
    db' = { db with roomMembers := db'.roomMembers, users := db'.users } ∧
      ∀ uid identityHash, db'.Resolves uid identityHash → db.Resolves uid identityHash := by
  induction userIds generalizing deleted db with
  | nil =>
    obtain ⟨_, rfl⟩ := Txn.pure_eq_ok h
    exact ⟨rfl, fun _ _ hr => hr⟩
  | cons userId userIds ih =>
    rw [deleteUsers, Txn.query_bind, Txn.execute_bind] at h
    obtain ⟨hrest, hresolves⟩ := ih h
    refine ⟨?_, fun uid a hr => deleteUser_resolves (hresolves uid a hr)⟩
    rw [hrest]
    rfl

end Omen.Server
