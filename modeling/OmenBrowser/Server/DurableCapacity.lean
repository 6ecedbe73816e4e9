import Mathlib.Algebra.Order.BigOperators.Group.List
import Mathlib.Data.Finset.Card
import OmenBrowser.Server.DurableSafety

/- The replay store stays within its limits.

   Before a result is stored, rows are removed until the limits leave room for a result
   of the largest admitted size, so the row that is then inserted fits. `Capacity` is
   the invariant: the counts and byte sums are within the limits, every row's client
   instance is registered (so retiring it adds no client row), and every row is counted
   with its own size. `Lessens` says of everything but the two insertions that it adds
   nothing to any count or sum.

   `lostKeys` are the keys a step deletes; each of the removals a commit counts deletes
   one. -/
namespace Omen.Server
open Wire Sql Ints Omen.Protocol List ReplayStore
variable {σ : Type}
  {s s' : ReplayStore σ} {limits : RetentionLimits} {selector : PruneSelector} {now : Int}
  {key : DurableMutationKey} {rmpv : Rmpv} {hash : RequestHash} {build : Txn σ ServerError Bytes}
  {out : DurableReplayCommit}

/-! Counts and sums. -/

/-- The identity and the size of each result, all that the limits look at. -/
def ReplayStore.sizes (s : ReplayStore σ) : List (Bytes × Nat) :=
  s.results.rows.map (fun r => (r.identityHash, r.retainedBytes))

/-- The client rows of an identity. -/
def ReplayStore.instances (s : ReplayStore σ) (identityHash : Bytes) : Nat :=
  s.clients.rows.countP (fun c => c.identityHash == identityHash)

variable (identityHash : Option Bytes)

/-- The sizes counted for one identity, or all of them. -/
def sizesOf (sizes : List (Bytes × Nat)) : List Nat :=
  match identityHash with
  | some identityHash => (sizes.filter (fun p => p.1 == identityHash)).map Prod.snd
  | none => sizes.map Prod.snd

section
variable (s : ReplayStore σ) (identityHash : Option Bytes)

theorem retained_sizes :
    (s.retained identityHash).map ResultRow.retainedBytes = sizesOf identityHash s.sizes := by
  cases identityHash with
  | none => simp only [retained, sizesOf, sizes, map_map]; rfl
  | some id =>
    simp only [retained, sizesOf, sizes, filter_map, map_map]
    rfl

theorem items_eq : s.items identityHash = (sizesOf identityHash s.sizes).length := by
  rw [← retained_sizes, length_map]
  rfl

theorem bytes_eq : s.bytes identityHash = (sizesOf identityHash s.sizes).sum := by
  rw [← retained_sizes]
  rfl

end

theorem sizesOf_sublist {l l' : List (Bytes × Nat)} (h : l'.Sublist l) (identityHash : Option Bytes) :
    (sizesOf identityHash l').Sublist (sizesOf identityHash l) := by
  cases identityHash with
  | none => exact h.map _
  | some id => exact (h.filter _).map _

theorem sizesOf_cons (p : Bytes × Nat) (l : List (Bytes × Nat)) :
    sizesOf identityHash (p :: l) =
      if identityHash = none ∨ identityHash = some p.1 then p.2 :: sizesOf identityHash l
      else sizesOf identityHash l := by
  cases identityHash with
  | none => rfl
  | some id =>
    by_cases h : p.1 = id
    · subst h
      simp [sizesOf]
    · have hne : id ≠ p.1 := fun e => h e.symm
      simp [sizesOf, h, hne]

/-! The invariant. -/

/-- The store is within the limits, and every result is counted with its own size. -/
structure Bounded (limits : RetentionLimits) (s : ReplayStore σ) : Prop where
  items : (s.items none : Int) ≤ limits.globalItems
  bytes : (s.bytes none : Int) ≤ limits.globalBytes
  identityItems : ∀ identityHash, (s.items (some identityHash) : Int) ≤ limits.identityItems
  identityBytes : ∀ identityHash, (s.bytes (some identityHash) : Int) ≤ limits.identityBytes
  instances : (s.clients.rows.length : Int) ≤ limits.globalClientInstances
  identityInstances : ∀ identityHash,
    (s.instances identityHash : Int) ≤ limits.identityClientInstances
  sized : ∀ r ∈ s.results.rows, r.retainedBytes = r.fileBytes

/-- What keeps it so. -/
structure Capacity (limits : RetentionLimits) (s : ReplayStore σ) : Prop where
  bounded : Bounded limits s
  registered : ∀ r ∈ s.results.rows, Registered s r.key.client
  file : s.fileBytes ≤ maxDatabaseBytes

/-- Nothing is added to a count or a sum, and client instances stay registered. -/
structure Lessens (s s' : ReplayStore σ) : Prop where
  rows : ∀ r' ∈ s'.results.rows, ∃ r ∈ s.results.rows,
    r'.key = r.key ∧ r'.retainedBytes = r.retainedBytes ∧ r'.resultFrame = r.resultFrame
  sizes : s'.sizes.Sublist s.sizes
  clients : s'.clients.rows.map ClientRow.key = s.clients.rows.map ClientRow.key
  file : s'.fileBytes ≤ s.fileBytes

theorem Lessens.trans {s₁ s₂ s₃ : ReplayStore σ} (h₁ : Lessens s₁ s₂) (h₂ : Lessens s₂ s₃) :
    Lessens s₁ s₃ := by
  refine ⟨?_, h₂.sizes.trans h₁.sizes, h₂.clients.trans h₁.clients, Nat.le_trans h₂.file h₁.file⟩
  intro r₃ hr₃
  obtain ⟨r₂, hr₂, hk₂, hb₂, hf₂⟩ := h₂.rows r₃ hr₃
  obtain ⟨r₁, hr₁, hk₁, hb₁, hf₁⟩ := h₁.rows r₂ hr₂
  exact ⟨r₁, hr₁, hk₂.trans hk₁, hb₂.trans hb₁, hf₂.trans hf₁⟩

theorem registered_iff {client : ClientKey} :
    Registered s client ↔ client ∈ s.clients.rows.map ClientRow.key := by
  simp only [Registered, mem_map]

theorem instances_eq (s : ReplayStore σ) (identityHash : Bytes) :
    s.instances identityHash =
      (s.clients.rows.map ClientRow.key).countP (fun k => k.identityHash == identityHash) := by
  rw [countP_map]
  rfl

theorem Lessens.items (h : Lessens s s') (identityHash : Option Bytes) :
    s'.items identityHash ≤ s.items identityHash := by
  rw [items_eq, items_eq]
  exact (sizesOf_sublist h.sizes identityHash).length_le

theorem Lessens.bytes (h : Lessens s s') (identityHash : Option Bytes) :
    s'.bytes identityHash ≤ s.bytes identityHash := by
  rw [bytes_eq, bytes_eq]
  exact (sizesOf_sublist h.sizes identityHash).sum_le_sum fun _ _ => Nat.zero_le _

theorem Capacity.lessens (hc : Capacity limits s) (h : Lessens s s') : Capacity limits s' := by
  have hb := hc.bounded
  refine ⟨⟨?_, ?_, ?_, ?_, ?_, ?_, ?_⟩, ?_, Nat.le_trans h.file hc.file⟩
  · exact Int.le_trans (Int.ofNat_le.mpr (h.items none)) hb.items
  · exact Int.le_trans (Int.ofNat_le.mpr (h.bytes none)) hb.bytes
  · exact fun id => Int.le_trans (Int.ofNat_le.mpr (h.items (some id))) (hb.identityItems id)
  · exact fun id => Int.le_trans (Int.ofNat_le.mpr (h.bytes (some id))) (hb.identityBytes id)
  · have hlen := congrArg length h.clients
    rw [length_map, length_map] at hlen
    rw [hlen]
    exact hb.instances
  · intro id
    rw [instances_eq, h.clients, ← instances_eq]
    exact hb.identityInstances id
  · intro r' hr'
    obtain ⟨r, hr, hk, hbytes, hframe⟩ := h.rows r' hr'
    have hid : r'.identityHash = r.identityHash := congrArg DurableMutationKey.identityHash hk
    rw [hbytes, hb.sized r hr, ResultRow.fileBytes, ResultRow.fileBytes, hid, hframe]
  · intro r' hr'
    obtain ⟨r, hr, hk, _⟩ := h.rows r' hr'
    rw [hk, registered_iff, h.clients, ← registered_iff]
    exact hc.registered r hr

/-! Everything but the insertions. -/

theorem clientFile_eq (rows : List ClientRow) :
    rows.map ClientRow.fileBytes =
      (rows.map ClientRow.key).map (fun k => k.identityHash.length + 16) := by
  rw [map_map]
  rfl

/-- An update of client rows outside their key. -/
theorem Lessens.updateClients {p : ClientRow → Bool} {f : ClientRow → ClientRow}
    {hf : ∀ c, (f c).key = c.key} :
    Lessens s { s with clients := s.clients.updateWhere p f hf } := by
  have hkeys : (s.clients.updateWhere p f hf).rows.map ClientRow.key =
      s.clients.rows.map ClientRow.key := by
    rw [Table.map_key_updateWhere]
  refine ⟨fun r hr => ⟨r, hr, rfl, rfl, rfl⟩, List.Sublist.refl _, hkeys, ?_⟩
  rw [fileBytes, fileBytes, clientFile_eq, clientFile_eq, hkeys]

/-- What does not look at `last_seen_at` is left alone. -/
theorem touchResult_map {β : Type} (key : DurableMutationKey) (now : Int) (s : ReplayStore σ)
    (g : ResultRow → β) (hg : ∀ r, g { r with lastSeenAt := now } = g r) :
    (touchResult key now s).results.rows.map g = s.results.rows.map g := by
  simp only [touchResult, Table.updateWhere, map_map]
  apply map_congr_left
  intro r _
  simp only [Function.comp]
  split
  · exact hg r
  · rfl

theorem Lessens.touchResult (key : DurableMutationKey) (now : Int) (s : ReplayStore σ) :
    Lessens s (Omen.Server.touchResult key now s) := by
  refine ⟨?_, ?_, rfl, ?_⟩
  · intro r' hr'
    obtain ⟨r, hr, rfl⟩ := mem_map.mp hr'
    refine ⟨r, hr, ?_⟩
    split <;> exact ⟨rfl, rfl, rfl⟩
  · rw [ReplayStore.sizes, touchResult_map key now s _ fun _ => rfl]
    exact List.Sublist.refl _
  · rw [fileBytes, touchResult_map key now s ResultRow.fileBytes fun _ => rfl]
    exact Nat.le_refl _

theorem Lessens.deleteWhere {p : ResultRow → Bool} :
    Lessens s { s with results := s.results.deleteWhere p } := by
  refine ⟨?_, filter_sublist.map _, rfl, ?_⟩
  · exact fun r hr => ⟨r, (Table.mem_deleteWhere.mp hr).1, rfl, rfl, rfl⟩
  · apply Nat.add_le_add_right
    exact (filter_sublist.map _).sum_le_sum fun _ _ => Nat.zero_le _

/-- A removal adds nothing, because the client instance it retires is registered. -/
theorem Lessens.retireAndDeleteOldest {n : Nat} (hc : Capacity limits s)
    (h : retireAndDeleteOldest selector now s = .ok (n, s')) : Lessens s s' := by
  rcases retireAndDeleteOldest_cases h with ⟨_, _, rfl⟩ | ⟨r, s₁, hr, hret, _, rfl⟩
  · exact ⟨fun r hr => ⟨r, hr, rfl, rfl, rfl⟩, List.Sublist.refl _, rfl, Nat.le_refl _⟩
  · refine Lessens.trans ?_ Lessens.deleteWhere
    obtain ⟨c, hmem, hkey⟩ := hc.registered r (pruneCandidate_mem hr)
    have hfind : s.clients.find? ⟨r.identityHash, r.clientInstanceId⟩ = some c :=
      Table.find?_eq_some.mpr ⟨hmem, hkey⟩
    rw [retireClient, hfind] at hret
    cases hret
    exact Lessens.updateClients

/-! The insertions. -/

theorem length_le_fileBytes {α : Type} {f : α → Nat} (hf : ∀ a, 1 ≤ f a) (rows : List α) :
    rows.length ≤ (rows.map f).sum := by
  have h := length_le_sum_of_one_le (rows.map f) fun n hn => by
    obtain ⟨a, _, rfl⟩ := mem_map.mp hn
    exact hf a
  rwa [length_map] at h

/-- A file that can be stored keeps every counter far below the end of `i64`. -/
theorem maxDatabaseBytes_lt : (maxDatabaseBytes : Int) + 65664 ≤ i64Max := by decide

/-- Registering a client instance is guarded by the two limits. -/
theorem Capacity.ensureClientInstance {b : Bool} (hc : Capacity limits s)
    (h : ensureClientInstance key now limits s = .ok (b, s')) : Capacity limits s' := by
  rcases ensureClientInstance_cases h with ⟨c, _, _, rfl⟩ | ⟨_, _, hglobal, hidentity, hi⟩
  · exact hc.lessens Lessens.updateClients
  · obtain ⟨hres, hrows, hfile⟩ := insertClient_ok hi
    have hb := hc.bounded
    have hmax := maxDatabaseBytes_lt
    have hlen : s.clients.rows.length ≤ s.fileBytes :=
      Nat.le_trans (length_le_fileBytes (f := ClientRow.fileBytes)
        (fun c => by rw [ClientRow.fileBytes]; omega) _) (Nat.le_add_left _ _)
    have hcount : s.instances key.identityHash ≤ s.clients.rows.length := countP_le_length
    have hglobal' := saturatingAdd_le (by omega) hglobal
    have hidentity' := saturatingAdd_le (a := s.instances key.identityHash) (by omega) hidentity
    -- the results are as they were; one instance is counted more
    have hretained : ∀ id, s'.retained id = s.retained id := by
      intro id
      cases id <;> simp only [retained, hres]
    have hitems : ∀ id, s'.items id = s.items id := fun id => by
      rw [items, items, hretained]
    have hbytes : ∀ id, s'.bytes id = s.bytes id := fun id => by
      rw [bytes, bytes, hretained]
    refine ⟨⟨?_, ?_, ?_, ?_, ?_, ?_, ?_⟩, ?_, ?_⟩
    · rw [hitems]
      exact hb.items
    · rw [hbytes]
      exact hb.bytes
    · intro id
      rw [hitems]
      exact hb.identityItems id
    · intro id
      rw [hbytes]
      exact hb.identityBytes id
    · rw [hrows, length_cons]
      omega
    · intro id
      rw [instances, hrows, countP_cons]
      by_cases hid : key.identityHash = id
      · subst hid
        rw [if_pos (beq_self_eq_true _)]
        exact hidentity'
      · rw [if_neg (fun e => hid (beq_iff_eq.mp e))]
        exact hb.identityInstances id
    · rw [hres]
      exact hb.sized
    · intro r hr
      rw [hres] at hr
      obtain ⟨c, hmem, hk⟩ := hc.registered r hr
      exact ⟨c, by rw [hrows]; exact mem_cons_of_mem _ hmem, hk⟩
    · rw [fileBytes, hres, hrows, map_cons, sum_cons]
      have : s.fileBytes = (s.results.rows.map ResultRow.fileBytes).sum +
        (s.clients.rows.map ClientRow.fileBytes).sum := rfl
      omega

theorem retainedBytes_ok {identityBytes resultBytes n : Nat}
    (h : retainedBytes identityBytes resultBytes = .ok n) : n = identityBytes + 64 + resultBytes := by
  unfold retainedBytes at h
  split at h
  · next bytes hsum =>
    split at h
    · cases h
      obtain ⟨m, hm, hn⟩ := Option.bind_eq_some_iff.mp hsum
      rw [(checkedAdd_some.mp hn).1, (checkedAdd_some.mp hm).1]
    · cases h
  · cases h

theorem validateKey_length (h : validateKey key = .ok ()) : key.identityHash.length ≤ 64 := by
  unfold validateKey at h
  split at h
  · cases h
  · next hno =>
    simp only [not_or, Nat.not_lt] at hno
    exact hno.2

theorem validateResultFrame_length {frame : Bytes} (h : validateResultFrame rmpv frame = .ok ()) :
    frame.length ≤ maxDurableResultBytes := by
  unfold validateResultFrame at h
  split at h
  · cases h
  · next hno =>
    simp only [not_or, Nat.not_lt] at hno
    exact hno.2

/-- Where there is room by the saturating comparison there is room. -/
theorem overLimit_false {items bytes : Nat} {incoming maxItems maxBytes : Int}
    (h : overLimit (items, bytes) incoming maxItems maxBytes = false)
    (hi : (items : Int) + 1 ≤ i64Max) (hb : (bytes : Int) + incoming ≤ i64Max) :
    (items : Int) + 1 ≤ maxItems ∧ (bytes : Int) + incoming ≤ maxBytes := by
  simp only [overLimit, Bool.or_eq_false_iff, decide_eq_false_iff_not, Int.not_lt] at h
  exact ⟨saturatingAdd_le hi h.1, saturatingAdd_le hb h.2⟩

theorem sizesOf_sublist_all (l : List (Bytes × Nat)) :
    (sizesOf identityHash l).Sublist (sizesOf none l) := by
  cases identityHash with
  | none => exact List.Sublist.refl _
  | some id => exact filter_sublist.map _

variable (hc : Capacity limits s)
include hc

/-- The counters of a state that can be stored are far below the end of `i64`. -/
theorem Capacity.counters (identityHash : Option Bytes) :
    s.items identityHash ≤ maxDatabaseBytes ∧ s.bytes identityHash ≤ maxDatabaseBytes := by
  have hsub := sizesOf_sublist_all identityHash s.sizes
  have hbytes : s.bytes none = (s.results.rows.map ResultRow.fileBytes).sum := by
    rw [bytes, retained]
    congr 1
    exact map_congr_left hc.bounded.sized
  have hfile : (s.results.rows.map ResultRow.fileBytes).sum ≤ s.fileBytes := Nat.le_add_right _ _
  have hrows : s.items none ≤ (s.results.rows.map ResultRow.fileBytes).sum :=
    length_le_fileBytes (fun r => by rw [ResultRow.fileBytes]; omega) _
  have hmax := hc.file
  have hitems : s.items identityHash ≤ s.items none := by
    rw [items_eq, items_eq]
    exact hsub.length_le
  have hsum : s.bytes identityHash ≤ s.bytes none := by
    rw [bytes_eq, bytes_eq]
    exact hsub.sum_le_sum fun _ _ => Nat.zero_le _
  exact ⟨by omega, by omega⟩

/-- A result that is stored where there is room for the largest one. -/
theorem Capacity.insertResult {row : ResultRow} {reserved : Nat}
    (hroom : HasRoom s row.identityHash reserved limits) (hres : reserved ≤ 65664)
    (hsize : row.retainedBytes ≤ reserved) (hown : row.retainedBytes = row.fileBytes)
    (hreg : Registered s row.key.client) (h : s.insertResult row = .ok s') :
    Capacity limits s' := by
  obtain ⟨hcl, hrows, hfile⟩ := insertResult_ok h
  have hb := hc.bounded
  have hmax := maxDatabaseBytes_lt
  have hsizes : s'.sizes = (row.identityHash, row.retainedBytes) :: s.sizes := by
    rw [sizes, hrows, map_cons]
    rfl
  obtain ⟨hi, hby⟩ := hc.counters (some row.identityHash)
  obtain ⟨hi', hby'⟩ := hc.counters none
  obtain ⟨hidItems, hidBytes⟩ := overLimit_false hroom.identity (by omega) (by omega)
  obtain ⟨hglItems, hglBytes⟩ := overLimit_false hroom.global (by omega) (by omega)
  -- one more row counts for its own identity and for the store as a whole
  have hcounts : ∀ id, (s'.items id = s.items id ∧ s'.bytes id = s.bytes id) ∨
      ((id = none ∨ id = some row.identityHash) ∧ s'.items id = s.items id + 1 ∧
        s'.bytes id = s.bytes id + row.retainedBytes) := by
    intro id
    rw [items_eq, bytes_eq, hsizes, sizesOf_cons, items_eq, bytes_eq]
    split
    · next hid => exact .inr ⟨hid, rfl, by rw [sum_cons, Nat.add_comm]⟩
    · exact .inl ⟨rfl, rfl⟩
  refine ⟨⟨?_, ?_, ?_, ?_, ?_, ?_, ?_⟩, ?_, ?_⟩
  · rcases hcounts none with ⟨he, _⟩ | ⟨_, he, _⟩ <;> rw [he]
    · exact hb.items
    · exact hglItems
  · rcases hcounts none with ⟨_, he⟩ | ⟨_, _, he⟩ <;> rw [he]
    · exact hb.bytes
    · omega
  · intro id
    rcases hcounts (some id) with ⟨he, _⟩ | ⟨hid, he, _⟩ <;> rw [he]
    · exact hb.identityItems id
    · obtain rfl : id = row.identityHash := Option.some.inj (hid.resolve_left (by simp))
      exact hidItems
  · intro id
    rcases hcounts (some id) with ⟨_, he⟩ | ⟨hid, _, he⟩ <;> rw [he]
    · exact hb.identityBytes id
    · obtain rfl : id = row.identityHash := Option.some.inj (hid.resolve_left (by simp))
      omega
  · rw [hcl]
    exact hb.instances
  · intro id
    rw [instances, hcl]
    exact hb.identityInstances id
  · intro r hr
    rw [hrows] at hr
    rcases mem_cons.mp hr with rfl | hr
    · exact hown
    · exact hb.sized r hr
  · intro r hr
    rw [hrows] at hr
    rw [Registered, hcl]
    rcases mem_cons.mp hr with rfl | hr
    · exact hreg
    · exact hc.registered r hr
  · rw [fileBytes, hcl, hrows, map_cons, sum_cons]
    have : s.fileBytes = (s.results.rows.map ResultRow.fileBytes).sum +
      (s.clients.rows.map ClientRow.fileBytes).sum := rfl
    omega

theorem Capacity.admitDurableMutation (hk : validateKey key = .ok ())
    (h : admitDurableMutation rmpv key hash now limits build s = .ok (out, s')) :
    Capacity limits s' := by
  obtain ⟨reserved, _, s₁, c, hres, hp, hfind, hend⟩ := admitDurableMutation_cases h
  obtain ⟨_, hroom, hkeep⟩ := pruneForAdmission_rel
    (R := fun _ s s' => Capacity limits s → Capacity limits s')
    (fun _ hs => hs) (fun _ _ _ _ _ h₁ h₂ hs => h₂ (h₁ hs))
    (fun _ _ _ _ hr hs => hs.lessens (Lessens.retireAndDeleteOldest hs hr)) hp
  have hprune : Capacity limits s₁ := hkeep hc
  rcases hend with ⟨_, _, rfl⟩ | ⟨_, frame, rest, retained, _, hv, hret, hi, _⟩
  · exact hprune
  · have hreserved := retainedBytes_ok hres
    have hretained := retainedBytes_ok hret
    have hid := validateKey_length hk
    have hframe := validateResultFrame_length hv
    have hlargest : maxDurableResultBytes = 65536 := rfl
    obtain ⟨hmem, hkey⟩ := Table.find?_eq_some.mp hfind
    -- the callback's tables are not counted
    have hrest : Capacity limits { s₁ with rest } :=
      ⟨⟨hprune.bounded.items, hprune.bounded.bytes, hprune.bounded.identityItems,
        hprune.bounded.identityBytes, hprune.bounded.instances, hprune.bounded.identityInstances,
        hprune.bounded.sized⟩, hprune.registered, hprune.file⟩
    have hroom' : HasRoom { s₁ with rest } key.identityHash reserved limits :=
      ⟨hroom.identity, hroom.global⟩
    refine Capacity.insertResult hrest hroom' (by omega) ?_ ?_ ?_ hi
    · show retained ≤ reserved
      omega
    · exact hretained
    · exact ⟨c, hmem, hkey⟩

theorem Capacity.commit
    (h : commitDurableMutationResultWithLimits rmpv key hash now limits build s = .ok (out, s')) :
    Capacity limits s' := by
  obtain ⟨hk, _, b, s₁, he, hend⟩ := commit_cases h
  have hensure := hc.ensureClientInstance he
  rcases hend with ⟨_, _, rfl⟩ | ⟨_, _, _, _, _, rfl⟩ | ⟨_, _, _, _, _, rfl⟩ | ⟨_, _, hadmitted⟩
  · exact hensure
  · exact hensure
  · exact hensure.lessens ((Lessens.touchResult key now s₁).trans Lessens.updateClients)
  · exact hensure.admitDurableMutation hk hadmitted

omit hc

/-! Deleted rows. -/

def ReplayStore.keys (s : ReplayStore σ) : Finset DurableMutationKey :=
  (s.results.rows.map ResultRow.key).toFinset

/-- The keys whose results a step deletes. -/
def lostKeys (s s' : ReplayStore σ) : Finset DurableMutationKey := s.keys \ s'.keys

theorem lostKeys_of_subset (h : s.keys ⊆ s'.keys) : (lostKeys s s').card = 0 := by
  rw [lostKeys, Finset.sdiff_eq_empty_iff_subset.mpr h, Finset.card_empty]

theorem lostKeys_trans (s₁ s₂ s₃ : ReplayStore σ) :
    (lostKeys s₁ s₃).card ≤ (lostKeys s₁ s₂).card + (lostKeys s₂ s₃).card := by
  refine Nat.le_trans (Finset.card_le_card ?_) (Finset.card_union_le _ _)
  intro k hk
  simp only [lostKeys, Finset.mem_union, Finset.mem_sdiff] at hk ⊢
  by_cases h : k ∈ s₂.keys
  · exact .inr ⟨h, hk.2⟩
  · exact .inl ⟨hk.1, h⟩

/-- A removal deletes the one row it counts. -/
theorem lostKeys_retireAndDeleteOldest {n : Nat}
    (h : retireAndDeleteOldest selector now s = .ok (n, s')) : (lostKeys s s').card ≤ n := by
  rcases retireAndDeleteOldest_cases h with ⟨_, _, rfl⟩ | ⟨r, s₁, _, hret, rfl, rfl⟩
  · rw [lostKeys_of_subset (Finset.Subset.refl _)]
    exact Nat.zero_le _
  · have hsub : lostKeys s { s₁ with results := s₁.results.deleteWhere (fun q => q.key == r.key) } ⊆
        {r.key} := by
      intro k hk
      simp only [lostKeys, ReplayStore.keys, Finset.mem_sdiff, mem_toFinset, mem_map,
        Table.mem_deleteWhere, (retireClient_ok hret).1] at hk
      obtain ⟨⟨q, hq, rfl⟩, hlost⟩ := hk
      rw [Finset.mem_singleton]
      by_contra hne
      exact hlost ⟨q, ⟨hq, beq_eq_false_iff_ne.mpr hne⟩, rfl⟩
    exact Nat.le_trans (Finset.card_le_card hsub) (by rw [Finset.card_singleton])

theorem lostKeys_commit
    (h : commitDurableMutationResultWithLimits rmpv key hash now limits build s = .ok (out, s')) :
    (lostKeys s s').card ≤ limits.maxPruned := by
  obtain ⟨_, _, b, s₁, he, hend⟩ := commit_cases h
  -- registering the client loses no result, so only an admission may
  have hensure : s₁.keys = s.keys := by
    rcases ensureClientInstance_cases he with ⟨c, _, _, rfl⟩ | ⟨_, _, _, _, hi⟩
    · rfl
    · rw [ReplayStore.keys, (insertClient_ok hi).1]
      rfl
  have hnone : ∀ s' : ReplayStore σ, s₁.keys ⊆ s'.keys → (lostKeys s s').card ≤ limits.maxPruned := by
    intro s' hsub
    rw [lostKeys_of_subset (hensure ▸ hsub)]
    exact Nat.zero_le _
  rcases hend with ⟨_, _, rfl⟩ | ⟨_, _, _, _, _, rfl⟩ | ⟨_, _, _, _, _, rfl⟩ | ⟨_, _, hadmitted⟩
  · exact hnone _ (Finset.Subset.refl _)
  · exact hnone _ (Finset.Subset.refl _)
  · apply hnone
    have hkeys : (touchClient key.client now (touchResult key now s₁)).keys = s₁.keys :=
      congrArg toFinset (touchResult_map key now s₁ ResultRow.key fun _ => rfl)
    rw [hkeys]
  · obtain ⟨reserved, pruned, s₂, c, _, hp, _, hadmitted⟩ := admitDurableMutation_cases hadmitted
    obtain ⟨hbudget, _, hprune⟩ := pruneForAdmission_rel
      (R := fun n s s' => (lostKeys s s').card ≤ n)
      (fun s => by rw [lostKeys_of_subset (Finset.Subset.refl _)])
      (fun _ _ s₁ s₂ s₃ h₁ h₂ => Nat.le_trans (lostKeys_trans s₁ s₂ s₃) (Nat.add_le_add h₁ h₂))
      (fun _ _ _ _ => lostKeys_retireAndDeleteOldest) hp
    have hkept : s₂.keys ⊆ s'.keys := by
      rcases hadmitted with ⟨_, _, rfl⟩ | ⟨_, _, _, _, _, _, _, hi, _⟩
      · exact Finset.Subset.refl _
      · intro k hk
        rw [ReplayStore.keys, (insertResult_ok hi).2.1, map_cons, toFinset_cons]
        exact Finset.mem_insert_of_mem hk
    calc (lostKeys s s').card
        = (lostKeys s₁ s').card := by rw [lostKeys, lostKeys, hensure]
      _ ≤ (lostKeys s₁ s₂).card + (lostKeys s₂ s').card := lostKeys_trans s₁ s₂ s'
      _ ≤ pruned + 0 := Nat.add_le_add hprune (Nat.le_of_eq (lostKeys_of_subset hkept))
      _ ≤ limits.maxPruned := hbudget

/-! Runs. -/

def ReplayStore.empty (rest : σ) : ReplayStore σ := ⟨Table.empty, Table.empty, rest⟩

/-- The input is a call under these limits, or is no commit. -/
def ReplayInput.Under (limits : RetentionLimits) : ReplayInput σ → Prop
  | .call c => c.limits = limits
  | _ => True

theorem capacity_empty (hl : validateLimits limits = .ok ()) (rest : σ) :
    Capacity limits (empty rest) := by
  unfold validateLimits at hl
  split at hl
  · cases hl
  · next h =>
    simp only [not_or, Int.not_le, Int.not_lt, Nat.not_lt] at h
    obtain ⟨_, h₁, h₂, h₃, h₄, h₅, h₆, _⟩ := h
    refine ⟨⟨?_, ?_, fun _ => ?_, fun _ => ?_, ?_, fun _ => ?_,
      fun r hr => absurd hr not_mem_nil⟩, fun r hr => absurd hr not_mem_nil, Nat.zero_le _⟩
    · exact Int.le_of_lt h₁
    · exact Int.le_of_lt h₂
    · exact Int.le_of_lt h₃
    · exact Int.le_of_lt h₄
    · exact Int.le_of_lt h₅
    · exact Int.le_of_lt h₆

/-- From an empty store, after any run under valid limits, the store is within them, and no
commit from there deletes more results than the limits allow. -/
theorem durable_capacity (rmpv : Rmpv) {limits : RetentionLimits}
    (hl : validateLimits limits = .ok ()) (rest : σ) (is : List (ReplayInput σ))
    (hfixed : ∀ i ∈ is, i.Under limits) :
    Bounded limits (Machine.run (replayStep rmpv) (empty rest) is).2 ∧
    ∀ i : ReplayInput σ, i.Under limits →
      (lostKeys (Machine.run (replayStep rmpv) (empty rest) is).2
        (replayStep rmpv (Machine.run (replayStep rmpv) (empty rest) is).2 i).2).card ≤
          limits.maxPruned := by
  refine ⟨?_, ?_⟩
  · refine (Machine.run_invariant (I := Capacity limits) ?_ _ is (Machine.meets_of_forall hfixed)
      (capacity_empty hl rest)).bounded
    intro s i hs hi
    cases i with
    | call c =>
      have hlim : c.limits = limits := hi
      subst hlim
      exact Txn.atomically_preserves (fun _ _ h => hs.commit h) hs
    | fault | restart => exact hs
  · intro i hi
    generalize (Machine.run (replayStep rmpv) (empty rest) is).2 = s
    have hsame : (lostKeys s s).card ≤ limits.maxPruned := by
      rw [lostKeys_of_subset (Finset.Subset.refl _)]
      exact Nat.zero_le _
    cases i with
    | call c =>
      have hlim : c.limits = limits := hi
      subst hlim
      exact Txn.atomically_preserves (I := fun s' => (lostKeys s s').card ≤ c.limits.maxPruned)
        (fun _ _ h => lostKeys_commit h) hsame
    | fault | restart => exact hsame

/-- A call under the limits of the running server whose callback answers with a ping. -/
def pingCall : DurableCall Unit where
  key := ⟨[1], ⟨replicate 16 7, rfl⟩, ⟨replicate 16 2, rfl⟩⟩
  requestHash := ⟨replicate 32 3, rfl⟩
  now := 0
  limits := productionLimits
  buildResult := pure [0x96, 1, 100, 0, 0, 0xc0, 0xc0]

theorem durable_capacity_production :
    validateLimits productionLimits = .ok () ∧
    Bounded productionLimits
      (Machine.run (replayStep Rmpv.reference) (empty ()) [.call pingCall, .restart]).2 := by
  refine ⟨rfl, (durable_capacity Rmpv.reference rfl () [.call pingCall, .restart] ?_).1⟩
  intro i hi
  rcases mem_cons.mp hi with rfl | hi
  · rfl
  · rw [mem_singleton.mp hi]
    trivial

end Omen.Server
