import OmenBrowser.Lib.Ints
import OmenBrowser.Protocol.Durable
import OmenBrowser.Server.Codec
import OmenBrowser.Server.Store

/- The durable replay store (`server/src/store/durable_replay.rs`).

   A mutation is run at most once: its result is kept under the identity, the client
   instance and the mutation id, and a repeated request is answered from it. Space is
   made by deleting the oldest results, and whoever's result is deleted is retired as a
   client instance for good.

   The replay tables are `ReplayStore`; `rest` stands for all other tables, on which the
   callback of a commit works. SQLite refuses to grow a file beyond `maxDatabaseBytes`;
   here an insertion fails at the latest when the replay tables alone would need more.

   Correspondence (Rust ↔ Lean):
     `durable_mutation_results`, `durable_mutation_clients`  ↔ `ReplayStore.results`, `.clients`
     `CHECK(length(..) = 16)` columns                        ↔ `Identifier 16`
     the two loops of `prune_for_admission`                  ↔ `pruneExpired`, `pruneOver`
     a round of the second loop                              ↔ `pruneRound`
   One removal deletes one row, so the loops count down the removals that are left. -/
namespace Omen.Server
open Wire Sql Ints Omen.Protocol Txn

def maxDurableResultBytes : Nat := 64 * 1024
def maxIdentityHashBytes : Nat := 64
def maxPrunedPerCommit : Nat := 128

/-- A client instance of an authenticated identity. -/
structure ClientKey where
  identityHash : Bytes
  clientInstanceId : ClientInstanceId
  deriving DecidableEq

structure DurableMutationKey where
  identityHash : Bytes
  clientInstanceId : ClientInstanceId
  mutationId : MutationId
  deriving DecidableEq

def DurableMutationKey.client (key : DurableMutationKey) : ClientKey :=
  ⟨key.identityHash, key.clientInstanceId⟩

inductive DurableReplayCommit where
  | stored (resultFrame : Bytes) (pruned : Nat)
  | replayed (resultFrame : Bytes)
  | conflict
  | expired
  deriving DecidableEq, Repr

structure RetentionLimits where
  ageSeconds : Int
  globalItems : Int
  globalBytes : Int
  identityItems : Int
  identityBytes : Int
  globalClientInstances : Int
  identityClientInstances : Int
  maxPruned : Nat

def productionLimits : RetentionLimits :=
  { ageSeconds := 30 * 24 * 60 * 60
    globalItems := 100000
    globalBytes := 64 * 1024 * 1024
    identityItems := 10000
    identityBytes := 8 * 1024 * 1024
    globalClientInstances := 100000
    identityClientInstances := 1024
    maxPruned := maxPrunedPerCommit }

/-! The tables. -/

structure ResultRow where
  identityHash : Bytes
  clientInstanceId : ClientInstanceId
  mutationId : MutationId
  requestHash : RequestHash
  resultFrame : Bytes
  retainedBytes : Nat
  createdAt : Int
  lastSeenAt : Int

def ResultRow.key (r : ResultRow) : DurableMutationKey :=
  ⟨r.identityHash, r.clientInstanceId, r.mutationId⟩

structure ClientRow where
  identityHash : Bytes
  clientInstanceId : ClientInstanceId
  firstSeenAt : Int
  lastSeenAt : Int
  retiredAt : Option Int

def ClientRow.key (c : ClientRow) : ClientKey := ⟨c.identityHash, c.clientInstanceId⟩

/-- The bytes of a row's blobs. -/
def ResultRow.fileBytes (r : ResultRow) : Nat := r.identityHash.length + 64 + r.resultFrame.length
def ClientRow.fileBytes (c : ClientRow) : Nat := c.identityHash.length + 16

structure ReplayStore (σ : Type) where
  results : Table ResultRow.key
  clients : Table ClientRow.key
  rest : σ

variable {σ : Type}

/-- What the two tables take of the file at least. -/
def ReplayStore.fileBytes (s : ReplayStore σ) : Nat :=
  (s.results.rows.map ResultRow.fileBytes).sum + (s.clients.rows.map ClientRow.fileBytes).sum

def ReplayStore.insertResult (s : ReplayStore σ) (row : ResultRow) :
    Except Sql.Error (ReplayStore σ) :=
  if s.fileBytes + row.fileBytes > maxDatabaseBytes then .error .databaseFull
  else (s.results.insert row).map (fun t => { s with results := t })

def ReplayStore.insertClient (s : ReplayStore σ) (row : ClientRow) :
    Except Sql.Error (ReplayStore σ) :=
  if s.fileBytes + row.fileBytes > maxDatabaseBytes then .error .databaseFull
  else (s.clients.insert row).map (fun t => { s with clients := t })

/-! Checks. -/

def validateKey (key : DurableMutationKey) : Except ServerError Unit :=
  if key.identityHash = [] ∨ key.identityHash.length > maxIdentityHashBytes then
    .error (.message "durable mutation identity hash must contain 1..=64 bytes")
  else .ok ()

def validateLimits (limits : RetentionLimits) : Except ServerError Unit :=
  if limits.ageSeconds < 0 ∨ limits.globalItems ≤ 0 ∨ limits.globalBytes ≤ 0 ∨
      limits.identityItems ≤ 0 ∨ limits.identityBytes ≤ 0 ∨ limits.globalClientInstances ≤ 0 ∨
      limits.identityClientInstances ≤ 0 ∨ limits.maxPruned > maxPrunedPerCommit then
    .error (.message "durable mutation replay retention limits are invalid")
  else .ok ()

def validateResultFrame (rmpv : Rmpv) (resultFrame : Bytes) : Except ServerError Unit :=
  if resultFrame = [] ∨ resultFrame.length > maxDurableResultBytes then
    .error (.message "durable mutation result must contain 1..=65536 bytes")
  else
    match decodeFrame rmpv resultFrame with
    | .ok _ => .ok ()
    | .error _ =>
      .error (.message "durable mutation result is not a valid bounded OMENchat frame")

def retainedBytes (identityBytes resultBytes : Nat) : Except ServerError Nat :=
  match (checkedAdd identityBytes (16 + 16 + 32)).bind (checkedAdd · resultBytes) with
  | some bytes =>
    if (bytes : Int) ≤ i64Max then .ok bytes
    else .error (.message "durable mutation retained-byte overflow")
  | none => .error (.message "durable mutation retained-byte overflow")

/-! Client instances. -/

/-- `UPDATE durable_mutation_clients SET last_seen_at = ?3`. -/
def touchClient (key : ClientKey) (now : Int) (s : ReplayStore σ) : ReplayStore σ :=
  { s with
    clients := s.clients.updateWhere (fun c => c.key == key) (fun c => { c with lastSeenAt := now })
      (fun _ => rfl) }

/-- `UPDATE durable_mutation_results SET last_seen_at = ?4`. -/
def touchResult (key : DurableMutationKey) (now : Int) (s : ReplayStore σ) : ReplayStore σ :=
  { s with
    results := s.results.updateWhere (fun r => r.key == key) (fun r => { r with lastSeenAt := now })
      (fun _ => rfl) }

/-- Whether the client instance is retired; one that is not known is registered. -/
def ensureClientInstance (key : DurableMutationKey) (now : Int) (limits : RetentionLimits) :
    Txn (ReplayStore σ) ServerError Bool := do
  match ← query (fun s : ReplayStore σ => s.clients.find? key.client) with
  | some c =>
    execute (touchClient key.client now)
    pure c.retiredAt.isSome
  | none =>
    let global ← query (fun s : ReplayStore σ => (s.clients.rows.length : Int))
    let identity ← query (fun s : ReplayStore σ =>
      (s.clients.rows.countP (fun c => c.identityHash == key.identityHash) : Int))
    if saturatingAdd global 1 > limits.globalClientInstances ∨
        saturatingAdd identity 1 > limits.identityClientInstances then
      fail "durable mutation client-instance capacity is exhausted"
    else
      sql (fun s => s.insertClient ⟨key.identityHash, key.clientInstanceId, now, now, none⟩)
      pure false

def clientInstanceIsRetired (key : DurableMutationKey) : Txn (ReplayStore σ) ServerError Bool := do
  match ← query (fun s : ReplayStore σ => s.clients.find? key.client) with
  | some c => pure c.retiredAt.isSome
  | none => abort (.sqlite .noRows)

/-! Pruning. -/

def byCreated (a b : ResultRow) : Ordering :=
  (compare a.createdAt b.createdAt).then ((compareBytes a.identityHash b.identityHash).then
    ((compareBytes a.clientInstanceId.bytes b.clientInstanceId.bytes).then
      (compareBytes a.mutationId.bytes b.mutationId.bytes)))

/-- The rows a removal may choose from. -/
inductive PruneSelector where
  | identity (identityHash : Bytes)
  | olderThan (cutoff : Int)
  | all

/-- The oldest of the selected rows. Within one identity the identity's place in the order
changes nothing. -/
def pruneCandidate (selector : PruneSelector) (rows : List ResultRow) : Option ResultRow :=
  match selector with
  | .identity identityHash => first? byCreated (rows.filter (fun r => r.identityHash == identityHash))
  | .olderThan cutoff => first? byCreated (rows.filter (fun r => r.createdAt < cutoff))
  | .all => first? byCreated rows

/-- `INSERT INTO durable_mutation_clients .. ON CONFLICT .. DO UPDATE`: retire the client
instance, keeping an earlier retirement. -/
def ReplayStore.retireClient (s : ReplayStore σ) (identityHash : Bytes)
    (clientInstanceId : ClientInstanceId) (now : Int) : Except Sql.Error (ReplayStore σ) :=
  match s.clients.find? ⟨identityHash, clientInstanceId⟩ with
  | none => s.insertClient ⟨identityHash, clientInstanceId, now, now, some now⟩
  | some _ => .ok { s with
      clients := s.clients.updateWhere (fun c => c.key == ⟨identityHash, clientInstanceId⟩)
        (fun c => { c with
          lastSeenAt := max c.lastSeenAt now
          retiredAt := c.retiredAt.orElse fun _ => some now })
        (fun _ => rfl) }

/-- The number of rows removed: one, or none if no row is selected. -/
def retireAndDeleteOldest (selector : PruneSelector) (now : Int) :
    Txn (ReplayStore σ) ServerError Nat := do
  match ← query (fun s : ReplayStore σ => pruneCandidate selector s.results.rows) with
  | none => pure 0
  | some r =>
    if r.identityHash = [] ∨ r.identityHash.length > maxIdentityHashBytes then
      fail "stored durable mutation identity hash is invalid; refusing retention work"
    else
      sql (fun s => s.retireClient r.identityHash r.clientInstanceId now)
      execute (fun s => { s with results := s.results.deleteWhere (fun q => q.key == r.key) })
      pure 1

/-- The results, or those of one identity. -/
def ReplayStore.retained (s : ReplayStore σ) : Option Bytes → List ResultRow
  | some identityHash => s.results.rows.filter (fun r => r.identityHash == identityHash)
  | none => s.results.rows

def ReplayStore.items (s : ReplayStore σ) (identityHash : Option Bytes) : Nat :=
  (s.retained identityHash).length

def ReplayStore.bytes (s : ReplayStore σ) (identityHash : Option Bytes) : Nat :=
  ((s.retained identityHash).map ResultRow.retainedBytes).sum

/-- `SUM` fails on overflow. -/
def replayUsage (identityHash : Option Bytes) : Txn (ReplayStore σ) ServerError (Int × Int) := do
  let items ← query (fun s : ReplayStore σ => (s.items identityHash : Int))
  let bytes ← query (fun s : ReplayStore σ => (s.bytes identityHash : Int))
  if bytes > i64Max then abort (.sqlite .integerOverflow)
  else pure (items, bytes)

/-- One more result would exceed the items or the bytes. -/
def overLimit (usage : Int × Int) (incomingBytes maxItems maxBytes : Int) : Bool :=
  saturatingAdd usage.1 1 > maxItems || saturatingAdd usage.2 incomingBytes > maxBytes

def pruneExpired (cutoff now : Int) : Nat → Nat → Txn (ReplayStore σ) ServerError Nat
  | 0, pruned => pure pruned
  | budget + 1, pruned => do
    let removed ← retireAndDeleteOldest (.olderThan cutoff) now
    if removed = 0 then pure pruned
    else pruneExpired cutoff now budget (pruned + removed)

/-- One round of the second loop. `next` are the rounds after it, if a removal is left. -/
def pruneRound (identityHash : Bytes) (incomingBytes now : Int) (limits : RetentionLimits)
    (next : Option (Nat → Txn (ReplayStore σ) ServerError Nat)) (pruned : Nat) :
    Txn (ReplayStore σ) ServerError Nat := do
  let global ← replayUsage none
  let identity ← replayUsage (some identityHash)
  let identityOver := overLimit identity incomingBytes limits.identityItems limits.identityBytes
  let globalOver := overLimit global incomingBytes limits.globalItems limits.globalBytes
  if !identityOver && !globalOver then pure pruned
  else
    match next with
    | none => fail "durable mutation replay retention capacity is exhausted"
    | some next => do
      let removed ← retireAndDeleteOldest
        (if identityOver then .identity identityHash else .all) now
      if removed = 0 then fail "durable mutation replay retention capacity is exhausted"
      else next (pruned + removed)

def pruneOver (identityHash : Bytes) (incomingBytes now : Int) (limits : RetentionLimits) :
    Nat → Nat → Txn (ReplayStore σ) ServerError Nat
  | 0 => pruneRound identityHash incomingBytes now limits none
  | budget + 1 => pruneRound identityHash incomingBytes now limits
      (some (pruneOver identityHash incomingBytes now limits budget))

def pruneForAdmission (identityHash : Bytes) (incomingBytes now : Int) (limits : RetentionLimits) :
    Txn (ReplayStore σ) ServerError Nat := do
  let cutoff := saturatingSub now limits.ageSeconds
  let pruned ← pruneExpired cutoff now limits.maxPruned 0
  pruneOver identityHash incomingBytes now limits (limits.maxPruned - pruned) pruned

/-! The commit. -/

/-- The callback runs on the other tables. -/
def onRest {α : Type} (build : Txn σ ServerError α) : Txn (ReplayStore σ) ServerError α :=
  zoom ReplayStore.rest (fun rest s => { s with rest }) build

section
variable (rmpv : Rmpv) (key : DurableMutationKey) (requestHash : RequestHash) (now : Int)
  (limits : RetentionLimits) (buildResult : Txn σ ServerError Bytes)

/-- The part of a commit after the lookup found no row: make room, run, store. -/
def admitDurableMutation : Txn (ReplayStore σ) ServerError DurableReplayCommit := do
  let reservedBytes ← lift (retainedBytes key.identityHash.length maxDurableResultBytes)
  let pruned ← pruneForAdmission key.identityHash reservedBytes now limits
  if ← clientInstanceIsRetired key then
    pure .expired
  else
    let resultFrame ← onRest buildResult
    lift (validateResultFrame rmpv resultFrame)
    let retained ← lift (retainedBytes key.identityHash.length resultFrame.length)
    sql (fun s => s.insertResult ⟨key.identityHash, key.clientInstanceId, key.mutationId, requestHash,
      resultFrame, retained, now, now⟩)
    pure (.stored resultFrame pruned)

/-- The part of a commit after the client instance is known to be in use: answer from the
stored row, or admit the mutation. -/
def replayOrAdmit : Txn (ReplayStore σ) ServerError DurableReplayCommit := do
  match ← query (fun s : ReplayStore σ => s.results.find? key) with
  | some r =>
    if r.requestHash ≠ requestHash then pure .conflict
    else
      lift (validateResultFrame rmpv r.resultFrame)
      execute (touchResult key now)
      execute (touchClient key.client now)
      pure (.replayed r.resultFrame)
  | none => admitDurableMutation rmpv key requestHash now limits buildResult

/-- `commit_durable_mutation_result_with_limits`, as the body of its transaction. The two
checks come before the transaction begins. -/
def commitDurableMutationResultWithLimits :
    Txn (ReplayStore σ) ServerError DurableReplayCommit := do
  lift (validateKey key)
  lift (validateLimits limits)
  if ← ensureClientInstance key now limits then pure .expired
  else replayOrAdmit rmpv key requestHash now limits buildResult

end

/-! What the parts of a commit do. -/

variable {s s' : ReplayStore σ} {now incomingBytes : Int} {limits : RetentionLimits}
  {selector : PruneSelector} {n pruned : Nat} {identityHash : Bytes} {rmpv : Rmpv}
  {hash : RequestHash} {build : Txn σ ServerError Bytes} {out : DurableReplayCommit}

theorem insertClient_ok {row : ClientRow} (h : s.insertClient row = .ok s') :
    s'.results = s.results ∧ s'.clients.rows = row :: s.clients.rows ∧
      s.fileBytes + row.fileBytes ≤ maxDatabaseBytes := by
  unfold ReplayStore.insertClient at h
  split at h
  · cases h
  · next hfull =>
    obtain ⟨t, ht, rfl⟩ := Outcome.map_ok.mp h
    exact ⟨rfl, (Table.insert_ok.mp ht).1, Nat.not_lt.mp hfull⟩

theorem insertResult_ok {row : ResultRow} (h : s.insertResult row = .ok s') :
    s'.clients = s.clients ∧ s'.results.rows = row :: s.results.rows ∧
      s.fileBytes + row.fileBytes ≤ maxDatabaseBytes := by
  unfold ReplayStore.insertResult at h
  split at h
  · cases h
  · next hfull =>
    obtain ⟨t, ht, rfl⟩ := Outcome.map_ok.mp h
    exact ⟨rfl, (Table.insert_ok.mp ht).1, Nat.not_lt.mp hfull⟩

theorem ensureClientInstance_cases {key : DurableMutationKey} {b : Bool}
    (h : ensureClientInstance key now limits s = .ok (b, s')) :
    (∃ c, s.clients.find? key.client = some c ∧ b = c.retiredAt.isSome ∧
      s' = touchClient key.client now s) ∨
    (s.clients.find? key.client = none ∧ b = false ∧
      saturatingAdd s.clients.rows.length 1 ≤ limits.globalClientInstances ∧
      saturatingAdd (s.clients.rows.countP (fun c => c.identityHash == key.identityHash)) 1 ≤
        limits.identityClientInstances ∧
      s.insertClient ⟨key.identityHash, key.clientInstanceId, now, now, none⟩ = .ok s') := by
  rw [ensureClientInstance, query_bind] at h
  cases hf : s.clients.find? key.client with
  | some c =>
    simp only [hf, execute_bind] at h
    obtain ⟨rfl, rfl⟩ := pure_eq_ok h
    exact .inl ⟨c, rfl, rfl, rfl⟩
  | none =>
    simp only [hf, query_bind] at h
    split at h
    · exact (fail_ok.mp h).elim
    · next hroom =>
      obtain ⟨s₁, hi, h⟩ := sql_bind_ok.mp h
      obtain ⟨rfl, rfl⟩ := pure_eq_ok h
      simp only [not_or, Int.not_lt] at hroom
      exact .inr ⟨rfl, rfl, hroom.1, hroom.2, hi⟩

theorem retireAndDeleteOldest_cases (h : retireAndDeleteOldest selector now s = .ok (n, s')) :
    (pruneCandidate selector s.results.rows = none ∧ n = 0 ∧ s' = s) ∨
    (∃ r s₁, pruneCandidate selector s.results.rows = some r ∧
      s.retireClient r.identityHash r.clientInstanceId now = .ok s₁ ∧ n = 1 ∧
      s' = { s₁ with results := s₁.results.deleteWhere (fun q => q.key == r.key) }) := by
  rw [retireAndDeleteOldest, query_bind] at h
  cases hc : pruneCandidate selector s.results.rows with
  | none =>
    simp only [hc] at h
    obtain ⟨rfl, rfl⟩ := pure_eq_ok h
    exact .inl ⟨rfl, rfl, rfl⟩
  | some r =>
    simp only [hc] at h
    split at h
    · exact (fail_ok.mp h).elim
    · obtain ⟨s₁, hr, h⟩ := sql_bind_ok.mp h
      rw [execute_bind] at h
      obtain ⟨rfl, rfl⟩ := pure_eq_ok h
      exact .inr ⟨r, s₁, rfl, hr, rfl, rfl⟩

theorem pruneCandidate_mem {rows : List ResultRow} {r : ResultRow}
    (h : pruneCandidate selector rows = some r) : r ∈ rows := by
  cases selector with
  | identity | olderThan => exact (List.mem_filter.mp (first?_mem h)).1
  | all => exact first?_mem h

theorem replayUsage_bind_ok {β : Type} {identityHash : Option Bytes}
    {g : Int × Int → Txn (ReplayStore σ) ServerError β} {r : β × ReplayStore σ} :
    (replayUsage identityHash >>= g) s = .ok r ↔
      (s.bytes identityHash : Int) ≤ i64Max ∧
        g (s.items identityHash, s.bytes identityHash) s = .ok r := by
  rw [bind_ok]
  simp only [replayUsage, query_bind]
  by_cases hb : (s.bytes identityHash : Int) > i64Max
  · simp only [if_pos hb, abort_ok, false_and, exists_false, false_iff, not_and]
    omega
  · rw [if_neg hb]
    refine ⟨?_, ?_⟩
    · rintro ⟨u, s', hu, hg⟩
      obtain ⟨rfl, rfl⟩ := pure_eq_ok hu
      exact ⟨Int.not_lt.mp hb, hg⟩
    · rintro ⟨_, hg⟩
      exact ⟨_, _, pure_ok.mpr rfl, hg⟩

/-- There is room for one more result of the identity. -/
structure HasRoom (s : ReplayStore σ) (identityHash : Bytes) (incomingBytes : Int)
    (limits : RetentionLimits) : Prop where
  identity : overLimit (s.items (some identityHash), s.bytes (some identityHash)) incomingBytes
    limits.identityItems limits.identityBytes = false
  global : overLimit (s.items none, s.bytes none) incomingBytes limits.globalItems
    limits.globalBytes = false

/-- One round of the second loop: there is room, or a row is removed and the loop goes on. -/
theorem pruneRound_cases {next : Option (Nat → Txn (ReplayStore σ) ServerError Nat)}
    (h : pruneRound identityHash incomingBytes now limits next pruned s = .ok (n, s')) :
    (HasRoom s identityHash incomingBytes limits ∧ n = pruned ∧ s' = s) ∨
    (∃ next' selector removed s₁, next = some next' ∧
      retireAndDeleteOldest selector now s = .ok (removed, s₁) ∧
      next' (pruned + removed) s₁ = .ok (n, s')) := by
  obtain ⟨_, h⟩ := replayUsage_bind_ok.mp h
  obtain ⟨_, h⟩ := replayUsage_bind_ok.mp h
  split at h
  · next hroom =>
    obtain ⟨rfl, rfl⟩ := pure_eq_ok h
    simp only [Bool.and_eq_true, Bool.not_eq_true'] at hroom
    exact .inl ⟨⟨hroom.1, hroom.2⟩, rfl, rfl⟩
  · cases next with
    | none => exact (fail_ok.mp h).elim
    | some next =>
      obtain ⟨removed, s₁, hr, h⟩ := bind_ok.mp h
      split at h
      · exact (fail_ok.mp h).elim
      · exact .inr ⟨next, _, removed, s₁, rfl, hr, h⟩

theorem retireAndDeleteOldest_le (h : retireAndDeleteOldest selector now s = .ok (n, s')) :
    n ≤ 1 := by
  rcases retireAndDeleteOldest_cases h with ⟨_, rfl, _⟩ | ⟨_, _, _, _, rfl, _⟩
  · exact Nat.zero_le 1
  · exact Nat.le_refl 1

section Pruning
variable {R : Nat → ReplayStore σ → ReplayStore σ → Prop} {now : Int}
  (hrefl : ∀ s, R 0 s s)
  (htrans : ∀ m n s₁ s₂ s₃, R m s₁ s₂ → R n s₂ s₃ → R (m + n) s₁ s₃)
  (hstep : ∀ selector s n s', retireAndDeleteOldest selector now s = .ok (n, s') → R n s s')
include hrefl htrans hstep

/-- The first loop removes at most its budget. -/
theorem pruneExpired_rel {cutoff : Int} {budget : Nat}
    (h : pruneExpired cutoff now budget pruned s = .ok (n, s')) :
    ∃ m, n = pruned + m ∧ m ≤ budget ∧ R m s s' := by
  induction budget generalizing pruned s with
  | zero =>
    obtain ⟨rfl, rfl⟩ := pure_eq_ok h
    exact ⟨0, rfl, Nat.le_refl 0, hrefl _⟩
  | succ budget ih =>
    obtain ⟨removed, s₁, hr, h⟩ := bind_ok.mp h
    have hle := retireAndDeleteOldest_le hr
    split at h
    · -- nothing was left to remove
      next hzero =>
      obtain ⟨rfl, rfl⟩ := pure_eq_ok h
      exact ⟨removed, by rw [hzero, Nat.add_zero], by omega, hstep _ _ _ _ hr⟩
    · obtain ⟨m, rfl, hm, hR⟩ := ih h
      exact ⟨removed + m, Nat.add_assoc _ _ _, by omega, htrans _ _ _ _ _ (hstep _ _ _ _ hr) hR⟩

/-- So does the second, and it ends where there is room. -/
theorem pruneOver_rel {budget : Nat}
    (h : pruneOver identityHash incomingBytes now limits budget pruned s = .ok (n, s')) :
    ∃ m, n = pruned + m ∧ m ≤ budget ∧ HasRoom s' identityHash incomingBytes limits ∧ R m s s' := by
  induction budget generalizing pruned s with
  | zero =>
    rcases pruneRound_cases h with ⟨hroom, rfl, rfl⟩ | ⟨_, _, _, _, hnext, _⟩
    · exact ⟨0, rfl, Nat.le_refl 0, hroom, hrefl _⟩
    · cases hnext
  | succ budget ih =>
    rcases pruneRound_cases h with ⟨hroom, rfl, rfl⟩ | ⟨_, _, removed, _, hnext, hr, h⟩
    · exact ⟨0, rfl, Nat.zero_le _, hroom, hrefl _⟩
    · obtain rfl := Option.some.inj hnext
      have hle := retireAndDeleteOldest_le hr
      obtain ⟨m, rfl, hm, hroom, hR⟩ := ih h
      exact ⟨removed + m, Nat.add_assoc _ _ _, by omega, hroom,
        htrans _ _ _ _ _ (hstep _ _ _ _ hr) hR⟩

/-- Pruning stays within its budget and ends where there is room; what `n` removals do to the
store, if it follows from what each of them does, is what pruning that removed `n` rows does. -/
theorem pruneForAdmission_rel
    (h : pruneForAdmission identityHash incomingBytes now limits s = .ok (n, s')) :
    n ≤ limits.maxPruned ∧ HasRoom s' identityHash incomingBytes limits ∧ R n s s' := by
  obtain ⟨pruned, s₁, he, h⟩ := bind_ok.mp h
  obtain ⟨m₁, rfl, hle₁, h₁⟩ := pruneExpired_rel hrefl htrans hstep he
  obtain ⟨m₂, rfl, hle₂, hroom, h₂⟩ := pruneOver_rel hrefl htrans hstep h
  rw [Nat.zero_add] at hle₂ ⊢
  exact ⟨by omega, hroom, htrans _ _ _ _ _ h₁ h₂⟩

end Pruning

theorem clientInstanceIsRetired_ok {key : DurableMutationKey} {b : Bool}
    (h : clientInstanceIsRetired key s = .ok (b, s')) :
    s' = s ∧ ∃ c, s.clients.find? key.client = some c ∧ b = c.retiredAt.isSome := by
  rw [clientInstanceIsRetired, query_bind] at h
  cases hf : s.clients.find? key.client with
  | none =>
    simp only [hf] at h
    exact (abort_ok.mp h).elim
  | some c =>
    simp only [hf] at h
    obtain ⟨rfl, rfl⟩ := pure_eq_ok h
    exact ⟨rfl, c, rfl, rfl⟩

/-- Making room, then refusing a client instance this has retired, or running and storing. -/
theorem admitDurableMutation_cases {key : DurableMutationKey}
    (h : admitDurableMutation rmpv key hash now limits build s = .ok (out, s')) :
    ∃ reserved pruned s₁ c,
      retainedBytes key.identityHash.length maxDurableResultBytes = .ok reserved ∧
      pruneForAdmission key.identityHash reserved now limits s = .ok (pruned, s₁) ∧
      s₁.clients.find? key.client = some c ∧
      ((c.retiredAt.isSome = true ∧ out = .expired ∧ s' = s₁) ∨
       (c.retiredAt.isSome = false ∧ ∃ frame rest retained,
          build s₁.rest = .ok (frame, rest) ∧
          validateResultFrame rmpv frame = .ok () ∧
          retainedBytes key.identityHash.length frame.length = .ok retained ∧
          ReplayStore.insertResult { s₁ with rest } ⟨key.identityHash, key.clientInstanceId,
            key.mutationId, hash, frame, retained, now, now⟩ = .ok s' ∧
          out = .stored frame pruned)) := by
  obtain ⟨reserved, hres, h⟩ := lift_bind_ok.mp h
  obtain ⟨pruned, s₁, hp, h⟩ := bind_ok.mp h
  obtain ⟨b, s₂, hb, h⟩ := bind_ok.mp h
  obtain ⟨rfl, c, hc, rfl⟩ := clientInstanceIsRetired_ok hb
  refine ⟨reserved, pruned, s₂, c, hres, hp, hc, ?_⟩
  cases hret : c.retiredAt.isSome with
  | true =>
    simp only [hret, if_true] at h
    obtain ⟨rfl, rfl⟩ := pure_eq_ok h
    exact .inl ⟨rfl, rfl, rfl⟩
  | false =>
    simp only [hret, Bool.false_eq_true, if_false] at h
    obtain ⟨frame, s₃, hbuild, h⟩ := bind_ok.mp h
    obtain ⟨rest, hrun, rfl⟩ := zoom_ok.mp hbuild
    obtain ⟨_, hv, h⟩ := lift_bind_ok.mp h
    obtain ⟨retained, hr, h⟩ := lift_bind_ok.mp h
    obtain ⟨s₄, hi, h⟩ := sql_bind_ok.mp h
    obtain ⟨rfl, rfl⟩ := pure_eq_ok h
    exact .inr ⟨rfl, frame, rest, retained, hrun, hv, hr, hi, rfl⟩

theorem commit_of_ensure {key : DurableMutationKey} {s₁ : ReplayStore σ} {b : Bool}
    (hk : validateKey key = .ok ()) (hl : validateLimits limits = .ok ())
    (he : ensureClientInstance key now limits s = .ok (b, s₁)) :
    commitDurableMutationResultWithLimits rmpv key hash now limits build s =
      (if b then pure .expired else replayOrAdmit rmpv key hash now limits build) s₁ := by
  rw [commitDurableMutationResultWithLimits, hk, hl]
  exact bind_run he

/-- The ways a commit ends well. -/
theorem commit_cases {key : DurableMutationKey}
    (h : commitDurableMutationResultWithLimits rmpv key hash now limits build s = .ok (out, s')) :
    validateKey key = .ok () ∧ validateLimits limits = .ok () ∧
    ∃ b s₁, ensureClientInstance key now limits s = .ok (b, s₁) ∧
      ((b = true ∧ out = .expired ∧ s' = s₁) ∨
       (b = false ∧ ∃ r, s₁.results.find? key = some r ∧ r.requestHash ≠ hash ∧ out = .conflict ∧
          s' = s₁) ∨
       (b = false ∧ ∃ r, s₁.results.find? key = some r ∧ r.requestHash = hash ∧
          out = .replayed r.resultFrame ∧
          s' = touchClient key.client now (touchResult key now s₁)) ∨
       (b = false ∧ s₁.results.find? key = none ∧
          admitDurableMutation rmpv key hash now limits build s₁ = .ok (out, s'))) := by
  obtain ⟨_, hk, h⟩ := lift_bind_ok.mp h
  obtain ⟨_, hl, h⟩ := lift_bind_ok.mp h
  obtain ⟨b, s₁, he, h⟩ := bind_ok.mp h
  refine ⟨hk, hl, b, s₁, he, ?_⟩
  cases b with
  | true =>
    -- a retired instance
    obtain ⟨rfl, rfl⟩ := pure_eq_ok h
    exact .inl ⟨rfl, rfl, rfl⟩
  | false =>
    simp only [Bool.false_eq_true, if_false, replayOrAdmit, query_bind] at h
    cases hf : s₁.results.find? key with
    | none =>
      simp only [hf] at h
      exact .inr (.inr (.inr ⟨rfl, rfl, h⟩))
    | some r =>
      simp only [hf] at h
      by_cases hh : r.requestHash = hash
      · rw [if_neg (not_not.mpr hh)] at h
        obtain ⟨_, _, h⟩ := lift_bind_ok.mp h
        obtain ⟨rfl, rfl⟩ := pure_eq_ok h
        exact .inr (.inr (.inl ⟨rfl, r, rfl, hh, rfl, rfl⟩))
      · rw [if_pos hh] at h
        obtain ⟨rfl, rfl⟩ := pure_eq_ok h
        exact .inr (.inl ⟨rfl, r, rfl, hh, rfl, rfl⟩)

end Omen.Server
