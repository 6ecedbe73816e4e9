import OmenBrowser.Lib.KeyedLog
import OmenBrowser.Server.Live

/- The resources kept for links until they are sent (`PendingResourceStore` of
   `server/src/session.rs`).

   What is put under a resource id takes the place of what was there. The store refuses what
   would take it over one of its three bounds, and then stays as it is. `Bounded` is what
   holds of every store that is only put into and taken from: it counts its bytes exactly,
   and it is within its bounds. -/
namespace Omen.Server
open Wire Ints Omen.Protocol

def pendingResourceMaxItems : Nat := 64
def pendingResourceMaxBytes : Nat := 16 * 1024 * 1024
def pendingResourceMaxEntryBytes : Nat := 4 * 1024 * 1024

structure PendingResourceStore where
  entries : Std.ExtTreeMap String Bytes
  retainedBytes : Nat
  rejected : Nat

namespace PendingResourceStore

def empty : PendingResourceStore := { entries := ∅, retainedBytes := 0, rejected := 0 }

section
variable (s : PendingResourceStore) (resourceId : String) (payload : Bytes)

/-- The items and the bytes there would be with this payload under this id. -/
def projected : Nat × Nat :=
  (s.entries.size + (if s.entries.contains resourceId then 0 else 1),
    saturatingCount (s.retainedBytes - (s.entries[resourceId]?.map List.length).getD 0)
      payload.length)

def admits : Bool :=
  payload.length ≤ pendingResourceMaxEntryBytes &&
    (s.projected resourceId payload).1 ≤ pendingResourceMaxItems &&
    (s.projected resourceId payload).2 ≤ pendingResourceMaxBytes

def rejection : String :=
  let (items, bytes) := s.projected resourceId payload
  s!"pending resource admission rejected: items={items}/{pendingResourceMaxItems} " ++
    s!"bytes={bytes}/{pendingResourceMaxBytes} " ++
    s!"entry_bytes={payload.length}/{pendingResourceMaxEntryBytes}"

/-- The store with the payload under this id. -/
def put : PendingResourceStore :=
  { s with
    entries := s.entries.insert resourceId payload
    retainedBytes := (s.projected resourceId payload).2 }

end

def insert (resourceId : String) (payload : Bytes) : Act PendingResourceStore ServerError Unit :=
  fun s =>
    if s.admits resourceId payload then (.ok (), s.put resourceId payload)
    else (.error (.message (s.rejection resourceId payload)),
      { s with rejected := saturatingCount s.rejected 1 })

def get (s : PendingResourceStore) (resourceId : String) : Option Bytes := s.entries[resourceId]?

/-- The store after `take`. -/
def take (s : PendingResourceStore) (resourceId : String) : PendingResourceStore :=
  match s.entries[resourceId]? with
  | none => s
  | some payload =>
    { s with
      entries := s.entries.erase resourceId
      retainedBytes := s.retainedBytes - payload.length }

variable {s s' : PendingResourceStore} {resourceId other : String} {payload : Bytes}

theorem insert_ok {u : Unit} : insert resourceId payload s = (.ok u, s') ↔
    s.admits resourceId payload = true ∧ s' = s.put resourceId payload := by
  unfold insert
  split
  · next h => simp [h, eq_comm]
  · next h => simp [h]

/-- A store with room for one more item and for its bytes takes it. -/
theorem admits_of_room (hentry : payload.length ≤ pendingResourceMaxEntryBytes)
    (hitems : s.entries.size < pendingResourceMaxItems)
    (hbytes : s.retainedBytes + payload.length ≤ pendingResourceMaxBytes) :
    s.admits resourceId payload = true := by
  have hone : (s.projected resourceId payload).1 ≤ pendingResourceMaxItems := by
    show s.entries.size + (if s.entries.contains resourceId then 0 else 1) ≤ _
    split <;> omega
  have hall : (s.projected resourceId payload).2 ≤ pendingResourceMaxBytes := by
    show min u64Max (s.retainedBytes - _ + payload.length) ≤ _
    omega
  simp only [admits, hentry, hone, hall, decide_true, Bool.and_true]

@[simp] theorem get_put : (s.put resourceId payload).get other =
    if resourceId = other then some payload else s.get other := by
  show (s.entries.insert resourceId payload)[other]? = _
  rw [Std.ExtTreeMap.getElem?_insert]
  simp only [Std.compare_eq_iff_eq]
  rfl

@[simp] theorem get_take : (s.take resourceId).get other =
    if resourceId = other then none else s.get other := by
  unfold take get
  cases h : s.entries[resourceId]? with
  | none =>
    dsimp only
    split
    · next heq => rw [← heq, h]
    · rfl
  | some payload =>
    rw [Std.ExtTreeMap.getElem?_erase]
    simp only [Std.compare_eq_iff_eq]

/-! The bounds. -/

/-- The bytes are counted exactly, and the three bounds hold. -/
structure Bounded (s : PendingResourceStore) : Prop where
  exact_bytes : s.retainedBytes = KeyedLog.weight List.length s.entries
  items : s.entries.size ≤ pendingResourceMaxItems
  bytes : s.retainedBytes ≤ pendingResourceMaxBytes
  entry : ∀ resourceId payload, s.get resourceId = some payload →
    payload.length ≤ pendingResourceMaxEntryBytes

theorem empty_bounded : empty.Bounded where
  exact_bytes := rfl
  items := by
    show (∅ : Std.ExtTreeMap String Bytes).size ≤ _
    simp
  bytes := Nat.zero_le _
  entry := by
    intro resourceId payload h
    simp [get, empty] at h

/-- Below the bound nothing saturates. -/
theorem Bounded.projected_bytes (h : s.Bounded)
    (hadmits : s.admits resourceId payload = true) :
    (s.projected resourceId payload).2 =
      payload.length + KeyedLog.weight List.length (s.entries.erase resourceId) := by
  simp only [admits, Bool.and_eq_true, decide_eq_true_eq] at hadmits
  obtain ⟨_, hbytes⟩ := hadmits
  have hsum : s.retainedBytes - (s.entries[resourceId]?.map List.length).getD 0 =
      KeyedLog.weight List.length (s.entries.erase resourceId) := by
    rw [h.exact_bytes, KeyedLog.weight_erase_getD]
  unfold projected pendingResourceMaxBytes saturatingCount u64Max at *
  omega

theorem Bounded.put (h : s.Bounded) (hadmits : s.admits resourceId payload = true) :
    (s.put resourceId payload).Bounded := by
  have hexact := h.projected_bytes hadmits
  simp only [admits, Bool.and_eq_true, decide_eq_true_eq] at hadmits
  obtain ⟨⟨hentry, hitems⟩, hbytes⟩ := hadmits
  refine ⟨?_, ?_, hbytes, fun k p hp => ?_⟩
  · show (s.projected resourceId payload).2 = KeyedLog.weight List.length (s.entries.insert resourceId payload)
    rw [hexact, KeyedLog.weight_insert]
  · show (s.entries.insert resourceId payload).size ≤ _
    rw [Std.ExtTreeMap.size_insert]
    have hnew : s.entries.size + (if s.entries.contains resourceId then 0 else 1) ≤
        pendingResourceMaxItems := hitems
    cases hin : s.entries.contains resourceId with
    | true =>
      rw [if_pos rfl]
      exact h.items
    | false => simpa [hin] using hnew
  · rw [get_put] at hp
    split at hp
    · rwa [← Option.some.inj hp]
    · exact h.entry k p hp

theorem Bounded.take (h : s.Bounded) (resourceId : String) : (s.take resourceId).Bounded := by
  refine ⟨?_, ?_, ?_, fun k p hp => ?_⟩
  · unfold PendingResourceStore.take
    cases hfound : s.entries[resourceId]? with
    | none => exact h.exact_bytes
    | some payload =>
      have hweight : KeyedLog.weight List.length s.entries = _ := KeyedLog.weight_erase hfound
      have hexact := h.exact_bytes
      dsimp only
      omega
  · unfold PendingResourceStore.take
    split
    · exact h.items
    · exact Nat.le_trans Std.ExtTreeMap.size_erase_le h.items
  · unfold PendingResourceStore.take
    split
    · exact h.bytes
    · exact Nat.le_trans (Nat.sub_le _ _) h.bytes
  · rw [get_take] at hp
    split at hp
    · cases hp
    · exact h.entry k p hp

/-- Whatever comes of putting something in. -/
theorem Bounded.insert (h : s.Bounded) (resourceId : String) (payload : Bytes) :
    (insert resourceId payload s).2.Bounded := by
  unfold PendingResourceStore.insert
  split
  · next hadmits => exact h.put hadmits
  · exact ⟨h.exact_bytes, h.items, h.bytes, h.entry⟩

end PendingResourceStore
end Omen.Server
