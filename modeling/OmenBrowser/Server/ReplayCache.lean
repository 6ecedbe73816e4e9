import OmenBrowser.Lib.KeyedLog
import OmenBrowser.Server.LiveTables

/- The replay cache as the server keeps it (`LinkReplayCache` of `server/src/live.rs`).

   The cache is four tables: the entries by link and sequence number, the keys in the order
   of insertion, what the entries of each link take, and what all of them take. `Live` has
   one list of entries in its place. `Holds` says that tables and a list are the same cache,
   every operation keeps it, and with it what the operations answer: the tables never
   disagree, the loops that make room end by having made room, and what they evict is the
   oldest entry of the link, or of all, that is in excess.

   A request the cache has an answer to does not reach the engine, whatever its content.

   Correspondence (Rust ↔ Lean):
     `BTreeMap<(LinkId, u32), ReplayEntry>`   ↔ `entries`, a map in the order of the pairs; an
                                                 entry of `Live` carries its key
     `VecDeque<(LinkId, u32)>`                ↔ `insertionOrder`
     `usize`                                  ↔ `Nat`, with `saturating_add` at 64 bits
     a `while` with a `return false` in it    ↔ `evictWhile`, which ends as there are ever fewer keys
-/
namespace Omen.Server
open Wire Ints Omen.Protocol KeyedLog List LinkReplayCache

variable {linkId : LinkId} {n : Nat} {full : ReplayTables → Bool}

/-- Tuples are compared from the left. -/
instance : Ord (LinkId × UInt32) := lexOrd

instance : Std.TransCmp (compare : LinkId × UInt32 → LinkId × UInt32 → Ordering) := inferInstance

structure ReplayTables where
  entries : Std.ExtTreeMap (LinkId × UInt32) ReplayEntry
  insertionOrder : List (LinkId × UInt32)
  linkUsage : LinkMap (Nat × Nat)
  retainedBytes : Nat

namespace ReplayTables

def default : ReplayTables := ⟨∅, [], ∅, 0⟩

def remove (key : LinkId × UInt32) (t : ReplayTables) : ReplayTables :=
  match t.entries[key]? with
  | none => { t with insertionOrder := t.insertionOrder.filter (· != key) }
  | some entry =>
    { entries := t.entries.erase key
      insertionOrder := t.insertionOrder.filter (· != key)
      linkUsage := discount t.linkUsage key.1 entry.retainedBytes
      retainedBytes := t.retainedBytes - entry.retainedBytes }

theorem remove_insertionOrder (key : LinkId × UInt32) (t : ReplayTables) :
    (t.remove key).insertionOrder = t.insertionOrder.filter (· != key) := by
  unfold remove
  split
  · rfl
  · rfl

theorem remove_length {key : LinkId × UInt32} {t : ReplayTables} (h : key ∈ t.insertionOrder) :
    (t.remove key).insertionOrder.length < t.insertionOrder.length := by
  rw [remove_insertionOrder]
  exact length_filter_lt_length_iff_exists.mpr ⟨key, h, by simp⟩

/-- While there is too much, the first key that may go goes; whether room was made. -/
def evictWhile (beyond : ReplayTables → Bool) (may : LinkId × UInt32 → Bool) (t : ReplayTables) :
    Bool × ReplayTables :=
  if beyond t then
    match _h : t.insertionOrder.find? may with
    | none => (false, t)
    | some oldest => evictWhile beyond may (t.remove oldest)
  else (true, t)
termination_by t.insertionOrder.length
decreasing_by exact remove_length (mem_of_find?_eq_some _h)

section EvictWhile
variable {beyond : ReplayTables → Bool} {may : LinkId × UInt32 → Bool} {t : ReplayTables}

theorem evictWhile_room (h : beyond t = false) : t.evictWhile beyond may = (true, t) := by
  rw [evictWhile, if_neg (by simp [h])]

theorem evictWhile_none (h : beyond t = true) (hnone : t.insertionOrder.find? may = none) :
    t.evictWhile beyond may = (false, t) := by
  rw [evictWhile, if_pos h]
  split
  · rfl
  · next hsome => cases hnone.symm.trans hsome

theorem evictWhile_oldest (h : beyond t = true) {oldest : LinkId × UInt32}
    (hsome : t.insertionOrder.find? may = some oldest) :
    t.evictWhile beyond may = (t.remove oldest).evictWhile beyond may := by
  rw [evictWhile, if_pos h]
  split
  · next hnone => cases hnone.symm.trans hsome
  · next _ hfound =>
    cases hfound.symm.trans hsome
    rfl

end EvictWhile

def linkFull (linkId : LinkId) (bytes : Nat) (t : ReplayTables) : Bool :=
  match t.linkUsage[linkId]? with
  | none => false
  | some (items, used) =>
    items ≥ replayCacheMaxItemsPerLink || saturatingCount used bytes > replayCacheMaxBytesPerLink

def totalFull (bytes : Nat) (t : ReplayTables) : Bool :=
  t.entries.size ≥ replayCacheMaxItems ||
    saturatingCount t.retainedBytes bytes > replayCacheMaxBytes

/-- The entry comes into every table. -/
def push (entry : ReplayEntry) (t : ReplayTables) : ReplayTables :=
  let usage := t.linkUsage[entry.linkId]?.getD (0, 0)
  { entries := t.entries.insert (entry.linkId, entry.seq) entry
    insertionOrder := t.insertionOrder ++ [(entry.linkId, entry.seq)]
    linkUsage := t.linkUsage.insert entry.linkId
      (saturatingCount usage.1 1, saturatingCount usage.2 entry.retainedBytes)
    retainedBytes := saturatingCount t.retainedBytes entry.retainedBytes }

def insert (linkId : LinkId) (seq : UInt32) (request : Bytes) (originResponses : List Frame)
    (bytes : Nat) (t : ReplayTables) : Bool × ReplayTables :=
  if bytes > replayCacheMaxEntryBytes ∨ bytes > replayCacheMaxBytesPerLink ∨
      bytes > replayCacheMaxBytes then (false, t)
  else if t.entries.contains (linkId, seq) then (false, t)
  else
    match evictWhile (linkFull linkId bytes) (fun key => key.1 == linkId) t with
    | (false, t) => (false, t)
    | (true, t) =>
      match evictWhile (totalFull bytes) (fun _ => true) t with
      | (false, t) => (false, t)
      | (true, t) => (true, t.push ⟨linkId, seq, request, originResponses, bytes⟩)

/-- `remove_link` ends when there is no key of the link left. -/
def removeLink (linkId : LinkId) (t : ReplayTables) : ReplayTables :=
  (evictWhile (fun _ => true) (fun key => key.1 == linkId) t).2

/-- The entries in the order of insertion. -/
def log (t : ReplayTables) : List ReplayEntry := t.insertionOrder.filterMap (t.entries[·]?)

end ReplayTables

/-- What is done with the cache. -/
inductive ReplayOp where
  | lookup (linkId : LinkId) (seq : UInt32) (request : Bytes)
  | insert (linkId : LinkId) (seq : UInt32) (request : Bytes) (originResponses : List Frame)
      (bytes : Nat)
  | removeLink (linkId : LinkId)

def ReplayTables.apply (t : ReplayTables) : ReplayOp → ReplayTables
  | .lookup _ _ _ => t
  | .insert linkId seq request originResponses bytes =>
    (t.insert linkId seq request originResponses bytes).2
  | .removeLink linkId => t.removeLink linkId

variable (ops : List ReplayOp)

/-- The tables after the operations, in their order. -/
def ReplayTables.after : ReplayTables :=
  ops.foldl ReplayTables.apply ReplayTables.default

/-! Tables and list are the same cache. -/

def replayKey (e : ReplayEntry) : LinkId × UInt32 := (e.linkId, e.seq)

/-- The tables are those of these entries, the oldest first. -/
structure ReplayTables.Holds (t : ReplayTables) (cache : LinkReplayCache) : Prop where
  views : Views replayKey t.entries t.insertionOrder cache
  usage : Tallies ReplayEntry.linkId ReplayEntry.retainedBytes t.linkUsage cache
  total : t.retainedBytes = LinkReplayCache.retainedBytes cache

namespace ReplayTables
variable {t : ReplayTables} {cache before after : LinkReplayCache} {e : ReplayEntry}

theorem Holds.default : ReplayTables.default.Holds [] := ⟨Views.empty, Tallies.empty, rfl⟩

theorem Holds.remove (h : t.Holds (before ++ e :: after)) :
    (t.remove (replayKey e)).Holds (before ++ after) := by
  have hfound : t.entries[replayKey e]? = some e :=
    (h.views.lookup (replayKey e) e).mpr ⟨by simp, rfl⟩
  unfold ReplayTables.remove
  rw [hfound]
  refine ⟨h.views.erase, h.usage.erase, ?_⟩
  have htotal := h.total
  simp only [LinkReplayCache.retainedBytes, map_append, map_cons, sum_append,
    sum_cons] at htotal ⊢
  omega

theorem isKey_iff {seq : UInt32} (e : ReplayEntry) :
    (e.linkId == linkId && e.seq == seq) = true ↔ replayKey e = (linkId, seq) := by
  simp [replayKey]

variable (h : t.Holds cache)
include h

theorem Holds.contains (linkId : LinkId) (seq : UInt32) :
    t.entries.contains (linkId, seq) = cache.any (fun e => e.linkId == linkId && e.seq == seq) := by
  rw [Bool.eq_iff_iff, h.views.contains, any_eq_true]
  exact exists_congr fun e => and_congr_right fun _ => (isKey_iff e).symm

theorem Holds.log_eq : t.log = cache := by
  unfold log
  rw [h.views.order_eq, filterMap_map]
  have hself : ∀ e ∈ cache, (t.entries[replayKey e]?) = some e :=
    fun e he => (h.views.lookup (replayKey e) e).mpr ⟨he, rfl⟩
  calc cache.filterMap (fun e => t.entries[replayKey e]?)
      = cache.filterMap some := filterMap_congr hself
    _ = cache := filterMap_some

/-! Both see the same excess. -/

theorem Holds.linkFull (linkId : LinkId) (bytes : Nat) :
    t.linkFull linkId bytes = LinkReplayCache.linkOver linkId bytes cache := by
  unfold ReplayTables.linkFull LinkReplayCache.linkOver
  rw [h.usage linkId]
  cases cache.filter (fun e => e.linkId == linkId) with
  | nil => rfl
  | cons e own =>
    have hbytes : ∀ used, (replayCacheMaxBytesPerLink < saturatingCount used bytes) ↔
        replayCacheMaxBytesPerLink < used + bytes := fun used => lt_saturatingCount (by decide)
    simp [tally, LinkReplayCache.retainedBytes, hbytes]

theorem Holds.totalFull (bytes : Nat) :
    t.totalFull bytes = totalOver bytes cache := by
  have hbytes : (replayCacheMaxBytes < saturatingCount t.retainedBytes bytes) ↔
      replayCacheMaxBytes < t.retainedBytes + bytes := lt_saturatingCount (by decide)
  unfold ReplayTables.totalFull totalOver
  rw [h.views.size, ← h.total]
  simp [hbytes]

/-! Making room. -/

theorem Holds.oldest (may : LinkId × UInt32 → Bool) :
    t.insertionOrder.find? may = (cache.find? (fun e => may (replayKey e))).map replayKey := by
  rw [h.views.order_eq, find?_map]
  rfl

omit h

section MakingRoom
variable {beyond : LinkReplayCache → Bool} {may : ReplayEntry → Bool}

theorem makeRoom_room (h : beyond cache = false) (n : Nat) :
    LinkReplayCache.makeRoom beyond may n cache = (true, cache) := by
  cases n with
  | zero | succ => simp [LinkReplayCache.makeRoom, h]

theorem makeRoom_none (h : beyond cache = true) (hnone : cache.find? may = none) (n : Nat) :
    LinkReplayCache.makeRoom beyond may n cache = (false, cache) := by
  cases n with
  | zero => simp [LinkReplayCache.makeRoom, h]
  | succ n => simp [LinkReplayCache.makeRoom, h, hnone]

/-- A round of the loop, on the list. -/
theorem makeRoom_oldest (hkeys : ((before ++ e :: after).map replayKey).Nodup)
    (hover : beyond (before ++ e :: after) = true) (hbefore : ∀ x ∈ before, ¬ may x = true)
    (he : may e = true) :
    LinkReplayCache.makeRoom beyond may (n + 1) (before ++ e :: after) =
      LinkReplayCache.makeRoom beyond may n (before ++ after) := by
  have hfind : (before ++ e :: after).find? may = some e :=
    find?_eq_some_iff_append.mpr ⟨he, before, after, rfl, fun x hx => by simpa using hbefore x hx⟩
  have hfilter : (before ++ e :: after).filter
      (fun x => !(x.linkId == e.linkId && x.seq == e.seq)) = before ++ after :=
    filter_key hkeys fun x => by simp [replayKey, imp_iff_not_or]
  rw [LinkReplayCache.makeRoom, if_pos hover, hfind]
  dsimp only
  rw [hfilter]

theorem find?_split (h : cache.find? may = some e) : ∃ before after, cache = before ++ e :: after ∧
    (∀ x ∈ before, ¬ may x = true) ∧ may e = true := by
  obtain ⟨he, before, after, hcache, hbefore⟩ := find?_eq_some_iff_append.mp h
  exact ⟨before, after, hcache, fun x hx => by simpa using hbefore x hx, he⟩

/-- The loop on the tables is the loop on the list, which has rounds enough. -/
theorem Holds.evictWhile (may : LinkId × UInt32 → Bool)
    (hover : ∀ t cache, Holds t cache → full t = beyond cache) (h : t.Holds cache)
    (hn : cache.length ≤ n) :
    (t.evictWhile full may).1 =
      (LinkReplayCache.makeRoom beyond (fun e => may (replayKey e)) n cache).1 ∧
    (t.evictWhile full may).2.Holds
      (LinkReplayCache.makeRoom beyond (fun e => may (replayKey e)) n cache).2 := by
  induction n generalizing t cache with
  | zero =>
    obtain rfl := eq_nil_of_length_eq_zero (Nat.le_zero.mp hn)
    cases hc : beyond [] with
    | false =>
      rw [evictWhile_room ((hover t [] h).trans hc), makeRoom_room hc]
      exact ⟨rfl, h⟩
    | true =>
      rw [evictWhile_none ((hover t [] h).trans hc) (h.oldest may), makeRoom_none hc rfl]
      exact ⟨rfl, h⟩
  | succ n ih =>
    have holdest := h.oldest may
    cases hc : beyond cache with
    | false =>
      rw [evictWhile_room ((hover t cache h).trans hc), makeRoom_room hc]
      exact ⟨rfl, h⟩
    | true =>
      cases hfind : cache.find? (fun e => may (replayKey e)) with
      | none =>
        rw [hfind] at holdest
        rw [evictWhile_none ((hover t cache h).trans hc) holdest, makeRoom_none hc hfind]
        exact ⟨rfl, h⟩
      | some e =>
        rw [hfind] at holdest
        obtain ⟨before, after, rfl, hbefore, he⟩ := find?_split hfind
        rw [evictWhile_oldest ((hover t _ h).trans hc) holdest,
          makeRoom_oldest h.views.nodup hc hbefore he]
        refine ih h.remove ?_
        rw [length_append, length_cons] at hn
        rw [length_append]
        omega

/-- Where too much means that something may go, the loop ends with room. -/
theorem makeRoom_evicts (hgoes : ∀ cache, beyond cache = true → ∃ e ∈ cache, may e = true)
    (hkeys : (cache.map replayKey).Nodup) (hn : cache.length ≤ n) :
    ∃ cache', LinkReplayCache.makeRoom beyond may n cache = (true, cache') ∧
      Evicts (beyond · = true) (may · = true) cache cache' := by
  induction n generalizing cache with
  | zero =>
    obtain rfl := eq_nil_of_length_eq_zero (Nat.le_zero.mp hn)
    cases hc : beyond [] with
    | false => exact ⟨[], makeRoom_room hc 0, .room (by simp [hc])⟩
    | true =>
      obtain ⟨e, he, _⟩ := hgoes [] hc
      cases he
  | succ n ih =>
    cases hc : beyond cache with
    | false => exact ⟨cache, makeRoom_room hc (n + 1), .room (by simp [hc])⟩
    | true =>
      obtain ⟨x, hx, hmayx⟩ := hgoes cache hc
      obtain ⟨e, hfind⟩ := Option.isSome_iff_exists.mp (find?_isSome.mpr ⟨x, hx, hmayx⟩)
      obtain ⟨before, after, rfl, hbefore, he⟩ := find?_split hfind
      have hsub : (before ++ after).Sublist (before ++ e :: after) :=
        (sublist_cons_self _ _).append_left _
      have hn : (before ++ after).length ≤ n := by
        rw [length_append, length_cons] at hn
        rw [length_append]
        omega
      obtain ⟨cache', hmade, hevicts⟩ := ih (hkeys.sublist (hsub.map _)) hn
      rw [makeRoom_oldest hkeys hc hbefore he]
      exact ⟨cache', hmade, .oldest hc hbefore he hevicts⟩

/-- Both loops make room, and evict the same. -/
theorem Holds.makesRoom (may : LinkId × UInt32 → Bool)
    (hover : ∀ t cache, Holds t cache → full t = beyond cache)
    (hgoes : ∀ cache, beyond cache = true → ∃ e ∈ cache, may (replayKey e) = true) (h : t.Holds cache) :
    ∃ t' cache', t.evictWhile full may = (true, t') ∧
      LinkReplayCache.makeRoom beyond (fun e => may (replayKey e)) cache.length cache = (true, cache') ∧
      t'.Holds cache' ∧ Evicts (beyond · = true) (fun e => may (replayKey e) = true) cache cache' := by
  obtain ⟨hmade, hholds⟩ := h.evictWhile may hover le_rfl
  obtain ⟨cache', hroom, hevicts⟩ := makeRoom_evicts hgoes h.views.nodup le_rfl
  rw [hroom] at hmade hholds
  exact ⟨_, cache', Prod.ext hmade rfl, hroom, hholds, hevicts⟩

/-- A loop without a bound takes everything that may go. -/
theorem makeRoom_all (hkeys : (cache.map replayKey).Nodup) (hn : cache.length ≤ n) :
    (LinkReplayCache.makeRoom (fun _ => true) may n cache).2 = cache.filter (fun e => !may e) := by
  induction n generalizing cache with
  | zero =>
    obtain rfl := eq_nil_of_length_eq_zero (Nat.le_zero.mp hn)
    rfl
  | succ n ih =>
    cases hfind : cache.find? may with
    | none =>
      rw [makeRoom_none rfl hfind]
      exact (filter_eq_self.mpr fun e he => by simpa using find?_eq_none.mp hfind e he).symm
    | some e =>
      obtain ⟨before, after, rfl, hbefore, he⟩ := find?_split hfind
      have hsub : (before ++ after).Sublist (before ++ e :: after) :=
        (sublist_cons_self _ _).append_left _
      rw [makeRoom_oldest hkeys rfl hbefore he, ih (hkeys.sublist (hsub.map _))]
      · rw [filter_append, filter_append, filter_cons_of_neg (by simp [he])]
      · rw [length_append, length_cons] at hn
        rw [length_append]
        omega

end MakingRoom

end ReplayTables

/-! The bounds. -/

/-- The entries of a link. -/
def ownEntries (linkId : LinkId) (cache : LinkReplayCache) : LinkReplayCache :=
  cache.filter (fun e => e.linkId == linkId)

structure ReplayBounded (cache : LinkReplayCache) : Prop where
  items : cache.length ≤ replayCacheMaxItems
  bytes : LinkReplayCache.retainedBytes cache ≤ replayCacheMaxBytes
  linkItems : ∀ linkId, (ownEntries linkId cache).length ≤ replayCacheMaxItemsPerLink
  linkBytes : ∀ linkId,
    LinkReplayCache.retainedBytes (ownEntries linkId cache) ≤ replayCacheMaxBytesPerLink
  entry : ∀ e ∈ cache, e.retainedBytes ≤ replayCacheMaxEntryBytes

section Bounds
variable {cache cache' : LinkReplayCache} {e : ReplayEntry}

theorem retainedBytes_sublist (h : cache'.Sublist cache) :
    LinkReplayCache.retainedBytes cache' ≤ LinkReplayCache.retainedBytes cache :=
  (h.map _).sum_le_sum fun _ _ => Nat.zero_le _

theorem ReplayBounded.nil : ReplayBounded [] :=
  ⟨Nat.zero_le _, Nat.zero_le _, fun _ => Nat.zero_le _, fun _ => Nat.zero_le _, fun _ he => nomatch he⟩

theorem ReplayBounded.sublist (h : ReplayBounded cache) (hsub : cache'.Sublist cache) :
    ReplayBounded cache' where
  items := hsub.length_le.trans h.items
  bytes := (retainedBytes_sublist hsub).trans h.bytes
  linkItems linkId := (hsub.filter _).length_le.trans (h.linkItems linkId)
  linkBytes linkId := (retainedBytes_sublist (hsub.filter _)).trans (h.linkBytes linkId)
  entry e he := h.entry e (hsub.subset he)

/-- There is room for one more entry of the link. -/
theorem not_linkOver {bytes : Nat} (hbytes : bytes ≤ replayCacheMaxEntryBytes)
    (h : ¬ linkOver linkId bytes cache = true) :
    (ownEntries linkId cache).length + 1 ≤ replayCacheMaxItemsPerLink ∧
      LinkReplayCache.retainedBytes (ownEntries linkId cache) + bytes ≤ replayCacheMaxBytesPerLink := by
  unfold linkOver at h
  unfold ownEntries
  unfold replayCacheMaxItemsPerLink replayCacheMaxBytesPerLink at *
  unfold replayCacheMaxEntryBytes at hbytes
  cases hown : cache.filter (fun e => e.linkId == linkId) with
  | nil => simp [LinkReplayCache.retainedBytes]; omega
  | cons e own =>
    rw [hown] at h
    simp at h ⊢
    omega

theorem not_totalOver {bytes : Nat} (h : ¬ totalOver bytes cache = true) :
    cache.length + 1 ≤ replayCacheMaxItems ∧
      LinkReplayCache.retainedBytes cache + bytes ≤ replayCacheMaxBytes := by
  unfold totalOver at h
  simp at h
  omega

theorem retainedBytes_append (cache : LinkReplayCache) (e : ReplayEntry) :
    LinkReplayCache.retainedBytes (cache ++ [e]) =
      LinkReplayCache.retainedBytes cache + e.retainedBytes := by
  simp [LinkReplayCache.retainedBytes]

theorem ownEntries_append_self (cache : LinkReplayCache) (e : ReplayEntry) :
    ownEntries e.linkId (cache ++ [e]) = ownEntries e.linkId cache ++ [e] := by
  simp [ownEntries]

theorem ownEntries_append_ne (h : e.linkId ≠ linkId) :
    ownEntries linkId (cache ++ [e]) = ownEntries linkId cache := by
  simp [ownEntries, h]

theorem ReplayBounded.append (h : ReplayBounded cache)
    (hentry : e.retainedBytes ≤ replayCacheMaxEntryBytes)
    (hlink : ¬ linkOver e.linkId e.retainedBytes cache = true)
    (htotal : ¬ totalOver e.retainedBytes cache = true) :
    ReplayBounded (cache ++ [e]) := by
  obtain ⟨hitems, hbytes⟩ := not_totalOver htotal
  obtain ⟨hown, hownBytes⟩ := not_linkOver hentry hlink
  refine ⟨?_, ?_, fun linkId => ?_, fun linkId => ?_, fun x hx => ?_⟩
  · rwa [length_append]
  · rwa [retainedBytes_append]
  · by_cases hid : e.linkId = linkId
    · subst hid
      rwa [ownEntries_append_self, length_append]
    · rw [ownEntries_append_ne hid]
      exact h.linkItems linkId
  · by_cases hid : e.linkId = linkId
    · subst hid
      rwa [ownEntries_append_self, retainedBytes_append]
    · rw [ownEntries_append_ne hid]
      exact h.linkBytes linkId
  · rcases mem_append.mp hx with hx | hx
    · exact h.entry x hx
    · rwa [mem_singleton.mp hx]

end Bounds

/-! The operations. -/

/-- Room is made for the entry: the oldest entries of its link go while the link has too many, then
the oldest of all. -/
def MakesRoom (e : ReplayEntry) (cache cache' : LinkReplayCache) : Prop :=
  ∃ between,
    Evicts (linkOver e.linkId e.retainedBytes · = true)
      (fun x => x.linkId = e.linkId) cache between ∧
    Evicts (totalOver e.retainedBytes · = true) (fun _ => True) between cache'

section Operations
variable {t : ReplayTables} {cache cache' : LinkReplayCache} {e : ReplayEntry} {linkId : LinkId}
  {seq : UInt32} {request : Bytes} {originResponses : List Frame} {bytes : Nat}

/-- The entry is too large, or there is one under its key. -/
def Unwelcome (cache : LinkReplayCache) (linkId : LinkId) (seq : UInt32) (bytes : Nat) : Prop :=
  replayCacheMaxEntryBytes < bytes ∨ ∃ e ∈ cache, replayKey e = (linkId, seq)

theorem MakesRoom.sublist (h : MakesRoom e cache cache') : cache'.Sublist cache := by
  obtain ⟨between, hlink, htotal⟩ := h
  exact htotal.sublist.trans hlink.sublist

theorem MakesRoom.not_totalOver (h : MakesRoom e cache cache') :
    ¬ totalOver e.retainedBytes cache' = true := by
  obtain ⟨between, hlink, htotal⟩ := h
  exact htotal.not_full

/-- Room for the link is still there when room was made for all. -/
theorem MakesRoom.not_linkOver (h : MakesRoom e cache cache') :
    ¬ linkOver e.linkId e.retainedBytes cache' = true := by
  obtain ⟨between, hlink, htotal⟩ := h
  have hsub : (ownEntries e.linkId cache').Sublist (ownEntries e.linkId between) :=
    htotal.sublist.filter _
  have hbytes := retainedBytes_sublist hsub
  have hitems := hsub.length_le
  have hroom := hlink.not_full
  unfold ownEntries at hsub hbytes hitems
  unfold linkOver at hroom ⊢
  simp only [Bool.and_eq_true, Bool.not_eq_true', Bool.or_eq_true, decide_eq_true_eq, not_and, not_or,
    isEmpty_eq_false_iff] at hroom ⊢
  intro hne
  have := hroom fun hnil => hne (sublist_nil.mp (hnil ▸ hsub))
  omega

/-- A link without entries has room for one. -/
theorem linkOver_goes (linkId : LinkId) (bytes : Nat) (cache : LinkReplayCache)
    (h : linkOver linkId bytes cache = true) :
    ∃ e ∈ cache, (e.linkId == linkId) = true := by
  unfold linkOver at h
  rw [Bool.and_eq_true] at h
  simpa using h.1

/-- An empty cache has room for one entry. -/
theorem totalOver_goes (hbytes : bytes ≤ replayCacheMaxEntryBytes) (cache : LinkReplayCache)
    (h : totalOver bytes cache = true) : ∃ e ∈ cache, true = true := by
  cases cache with
  | nil =>
    unfold replayCacheMaxEntryBytes at hbytes
    unfold totalOver replayCacheMaxItems replayCacheMaxBytes at h
    simp [LinkReplayCache.retainedBytes] at h
    omega
  | cons e cache => exact ⟨e, by simp, rfl⟩

/-- The two guards of an insertion, together. -/
theorem not_unwelcome_iff : ¬ Unwelcome cache linkId seq bytes ↔
    ¬ (bytes > replayCacheMaxEntryBytes ∨ bytes > replayCacheMaxBytesPerLink ∨
      bytes > replayCacheMaxBytes) ∧
    ¬ cache.any (fun e => e.linkId == linkId && e.seq == seq) = true := by
  unfold Unwelcome
  rw [not_or, any_eq_true]
  refine and_congr ?_ (not_congr (exists_congr fun e => and_congr_right fun _ =>
    (ReplayTables.isKey_iff e).symm))
  unfold replayCacheMaxEntryBytes replayCacheMaxBytesPerLink replayCacheMaxBytes
  omega

theorem insert_unwelcome (h : Unwelcome cache linkId seq bytes) :
    insert cache linkId seq request originResponses bytes = (false, cache) := by
  unfold LinkReplayCache.insert
  split
  · rfl
  · next hfits =>
    split
    · rfl
    · next hnew => exact absurd h (not_unwelcome_iff.mpr ⟨hfits, hnew⟩)

/-- An entry that is welcome is kept, and the loops that make room for it do make it. -/
theorem insert_welcome (h : ¬ Unwelcome cache linkId seq bytes)
    (hkeys : (cache.map replayKey).Nodup) :
    ∃ cache', MakesRoom ⟨linkId, seq, request, originResponses, bytes⟩ cache cache' ∧
      insert cache linkId seq request originResponses bytes =
        (true, cache' ++ [⟨linkId, seq, request, originResponses, bytes⟩]) := by
  obtain ⟨hfits, hnew⟩ := not_unwelcome_iff.mp h
  obtain ⟨between, hmade, hlink⟩ := ReplayTables.makeRoom_evicts (linkOver_goes linkId bytes) hkeys
    le_rfl
  obtain ⟨cache', hmade', htotal⟩ := ReplayTables.makeRoom_evicts
    (totalOver_goes (Nat.le_of_not_lt (not_or.mp h).1)) (hkeys.sublist (hlink.sublist.map _)) le_rfl
  refine ⟨cache', ⟨between, by simpa only [beq_iff_eq] using hlink, by simpa only using htotal⟩, ?_⟩
  unfold LinkReplayCache.insert
  rw [if_neg hfits, if_neg hnew, hmade]
  dsimp only
  rw [hmade']

theorem ReplayBounded.insert (h : ReplayBounded cache) (hkeys : (cache.map replayKey).Nodup) :
    ReplayBounded (insert cache linkId seq request originResponses bytes).2 := by
  by_cases hwelcome : Unwelcome cache linkId seq bytes
  · rw [insert_unwelcome hwelcome]
    exact h
  · obtain ⟨cache', hroom, hinsert⟩ := insert_welcome hwelcome hkeys
    rw [hinsert]
    exact (h.sublist hroom.sublist).append (Nat.le_of_not_lt (not_or.mp hwelcome).1)
      hroom.not_linkOver hroom.not_totalOver

/-- No counter is near the end of its range when there is room for the entry. -/
theorem ReplayTables.Holds.push (h : t.Holds cache) (hnew : ∀ x ∈ cache, replayKey x ≠ replayKey e)
    (hentry : e.retainedBytes ≤ replayCacheMaxEntryBytes)
    (hlink : ¬ linkOver e.linkId e.retainedBytes cache = true)
    (htotal : ¬ totalOver e.retainedBytes cache = true) :
    (t.push e).Holds (cache ++ [e]) := by
  obtain ⟨_, hbytes⟩ := not_totalOver htotal
  obtain ⟨hown, hownBytes⟩ := not_linkOver hentry hlink
  have hmax : replayCacheMaxBytes ≤ u64Max ∧ replayCacheMaxItemsPerLink ≤ u64Max ∧
      replayCacheMaxBytesPerLink ≤ u64Max := by decide
  have husage : t.linkUsage[e.linkId]?.getD (0, 0) = ((ownEntries e.linkId cache).length,
      LinkReplayCache.retainedBytes (ownEntries e.linkId cache)) := by
    rw [h.usage e.linkId, tally_getD]
    rfl
  unfold ReplayTables.push
  rw [husage]
  dsimp only
  rw [saturatingCount_eq (by omega), saturatingCount_eq (by omega), saturatingCount_eq]
  · refine ⟨h.views.insert hnew, h.usage.insert husage, ?_⟩
    rw [retainedBytes_append, h.total]
  · rw [h.total]
    omega

/-- An insertion into the tables is an insertion into the list, with the same answer. -/
theorem ReplayTables.Holds.insert (h : t.Holds cache) (linkId : LinkId) (seq : UInt32)
    (request : Bytes) (originResponses : List Frame) (bytes : Nat) :
    (t.insert linkId seq request originResponses bytes).1 =
      (LinkReplayCache.insert cache linkId seq request originResponses bytes).1 ∧
    (t.insert linkId seq request originResponses bytes).2.Holds
      (LinkReplayCache.insert cache linkId seq request originResponses bytes).2 := by
  unfold ReplayTables.insert LinkReplayCache.insert
  rw [h.contains]
  split
  · exact ⟨rfl, h⟩
  · next hfits =>
    split
    · exact ⟨rfl, h⟩
    · next hnew =>
      obtain ⟨hsize, hfresh⟩ := not_or.mp (not_unwelcome_iff.mpr ⟨hfits, hnew⟩)
      obtain ⟨t₁, between, hfirst, hmade, h₁, hlink⟩ := h.makesRoom (fun key => key.1 == linkId)
        (fun _ _ h => h.linkFull linkId bytes) (linkOver_goes linkId bytes)
      obtain ⟨t₂, cache', hsecond, hmade', h₂, htotal⟩ := h₁.makesRoom (fun _ => true)
        (fun _ _ h => h.totalFull bytes) (totalOver_goes (Nat.le_of_not_lt hsize))
      have hmade : LinkReplayCache.makeRoom (linkOver linkId bytes)
        (fun e => e.linkId == linkId) cache.length cache = (true, between) := hmade
      rw [hfirst, hmade]
      dsimp only
      rw [hsecond, hmade']
      have hroom : MakesRoom ⟨linkId, seq, request, originResponses, bytes⟩ cache cache' :=
        ⟨between, by simpa only [replayKey, beq_iff_eq] using hlink, by simpa only using htotal⟩
      refine ⟨rfl, h₂.push (fun x hx hkey => ?_) (Nat.le_of_not_lt hsize) hroom.not_linkOver
        hroom.not_totalOver⟩
      exact hfresh ⟨x, hroom.sublist.subset hx, hkey⟩

/-- `remove_link` leaves the entries of the other links. -/
theorem ReplayTables.Holds.removeLink (h : t.Holds cache) (linkId : LinkId) :
    (t.removeLink linkId).Holds (LinkReplayCache.removeLink cache linkId) := by
  obtain ⟨_, hholds⟩ := h.evictWhile (fun key => key.1 == linkId) (fun _ _ _ => rfl) le_rfl
  rwa [ReplayTables.makeRoom_all h.views.nodup le_rfl] at hholds

end Operations

/-! Runs. -/

/-- What an operation does to the list. -/
def LinkReplayCache.apply (cache : LinkReplayCache) : ReplayOp → LinkReplayCache
  | .lookup _ _ _ => cache
  | .insert linkId seq request originResponses bytes =>
    (insert cache linkId seq request originResponses bytes).2
  | .removeLink linkId => removeLink cache linkId

def LinkReplayCache.after : LinkReplayCache :=
  ops.foldl apply []

section Runs
variable {t : ReplayTables} {cache : LinkReplayCache}

theorem ReplayTables.Holds.apply (h : t.Holds cache) (op : ReplayOp) :
    (t.apply op).Holds (cache.apply op) := by
  cases op with
  | lookup linkId seq request => exact h
  | insert linkId seq request originResponses bytes =>
    exact (h.insert linkId seq request originResponses bytes).2
  | removeLink linkId => exact h.removeLink linkId

theorem ReplayBounded.apply (h : ReplayBounded cache) (hkeys : (cache.map replayKey).Nodup)
    (op : ReplayOp) : ReplayBounded (cache.apply op) := by
  cases op with
  | lookup linkId seq request => exact h
  | insert linkId seq request originResponses bytes => exact h.insert hkeys
  | removeLink linkId => exact h.sublist filter_sublist

/-- After any operations, tables and list are the same cache, and it is within its bounds. -/
theorem after_holds :
    (ReplayTables.after ops).Holds (after ops) ∧
      ReplayBounded (after ops) := by
  suffices h : ∀ (t : ReplayTables) (cache : LinkReplayCache), t.Holds cache → ReplayBounded cache →
      (ops.foldl ReplayTables.apply t).Holds (ops.foldl apply cache) ∧
        ReplayBounded (ops.foldl apply cache) from
    h _ _ ReplayTables.Holds.default ReplayBounded.nil
  induction ops with
  | nil => exact fun _ _ h hbounded => ⟨h, hbounded⟩
  | cons op ops ih =>
    intro t cache h hbounded
    exact ih _ _ (h.apply op) (hbounded.apply h.views.nodup op)

/-- What an insertion does: an entry that is too large or repeats a key changes nothing; any other is
kept, behind what is left when room was made for it. -/
structure ReplayTables.InsertsAs (t : ReplayTables) (entry : ReplayEntry) (kept : Bool)
    (t' : ReplayTables) : Prop where
  unwelcome : Unwelcome t.log entry.linkId entry.seq entry.retainedBytes → kept = false ∧ t' = t
  welcome : ¬ Unwelcome t.log entry.linkId entry.seq entry.retainedBytes →
    kept = true ∧ ∃ left, MakesRoom entry t.log left ∧ t'.log = left ++ [entry]

theorem ReplayTables.Holds.insertsAs (h : t.Holds cache) (linkId : LinkId) (seq : UInt32)
    (request : Bytes) (originResponses : List Frame) (bytes : Nat) :
    t.InsertsAs ⟨linkId, seq, request, originResponses, bytes⟩
      (t.insert linkId seq request originResponses bytes).1
      (t.insert linkId seq request originResponses bytes).2 := by
  obtain ⟨hkept, hholds⟩ := h.insert linkId seq request originResponses bytes
  constructor
  · intro hunwelcome
    rw [h.log_eq] at hunwelcome
    unfold ReplayTables.insert
    rw [h.contains]
    split
    · exact ⟨rfl, rfl⟩
    · next hfits =>
      split
      · exact ⟨rfl, rfl⟩
      · next hnew => exact absurd hunwelcome (not_unwelcome_iff.mpr ⟨hfits, hnew⟩)
  · intro hwelcome
    rw [h.log_eq] at hwelcome ⊢
    obtain ⟨left, hroom, hinsert⟩ := insert_welcome hwelcome h.views.nodup
    rw [hinsert] at hkept hholds
    exact ⟨hkept, left, hroom, hholds.log_eq⟩

/-- The tables agree with each other. -/
structure ReplayTables.Exact (t : ReplayTables) : Prop where
  nodup : t.insertionOrder.Nodup
  keys : t.insertionOrder.Perm t.entries.keys
  usage : ∀ linkId, t.linkUsage[linkId]? =
    tally (fun p => p.2.retainedBytes) (t.entries.toList.filter (fun p => p.1.1 == linkId))
  total : t.retainedBytes = (t.entries.toList.map (fun p => p.2.retainedBytes)).sum

/-- The tables are within their bounds. -/
structure ReplayTables.Bounded (t : ReplayTables) : Prop where
  items : t.entries.size ≤ replayCacheMaxItems
  bytes : t.retainedBytes ≤ replayCacheMaxBytes
  link : ∀ (linkId : LinkId) (items bytes : Nat), t.linkUsage[linkId]? = some (items, bytes) →
    items ≤ replayCacheMaxItemsPerLink ∧ bytes ≤ replayCacheMaxBytesPerLink
  entry : ∀ (key : LinkId × UInt32) (e : ReplayEntry), t.entries[key]? = some e →
    e.retainedBytes ≤ replayCacheMaxEntryBytes

theorem ReplayTables.Holds.exact (h : t.Holds cache) : t.Exact where
  nodup := by
    rw [h.views.order_eq]
    exact h.views.nodup
  keys := h.views.keys_perm
  usage linkId := by
    have hperm := h.views.toList_perm.filter fun p => p.1.1 == linkId
    rw [h.usage linkId, tally_perm hperm, filter_map, tally_map]
    rfl
  total := by
    have hperm := h.views.toList_perm.map fun p => p.2.retainedBytes
    rw [h.total, hperm.sum_eq, map_map]
    rfl

theorem ReplayTables.Holds.bounded (h : t.Holds cache) (hbounded : ReplayBounded cache) : t.Bounded where
  items := by
    rw [h.views.size]
    exact hbounded.items
  bytes := by
    rw [h.total]
    exact hbounded.bytes
  link linkId items bytes husage := by
    have hown : (ownEntries linkId cache).length = items ∧
        LinkReplayCache.retainedBytes (ownEntries linkId cache) = bytes := by
      have hsome := congrArg (fun usage => usage.getD (0, 0)) ((h.usage linkId).symm.trans husage)
      rw [tally_getD] at hsome
      exact Prod.mk.inj hsome
    rw [← hown.1, ← hown.2]
    exact ⟨hbounded.linkItems linkId, hbounded.linkBytes linkId⟩
  entry key e he := hbounded.entry e ((h.views.lookup key e).mp he).1

end Runs

end Omen.Server
