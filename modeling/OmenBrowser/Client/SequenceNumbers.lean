import OmenBrowser.Client.EventIdentity
import OmenBrowser.Client.Projections

/- The sequence numbers of a link and the ids of the echoes made of them (`chat/live.rs`).

   A link of a session begins with no counter, and its requests take the numbers 1, 2, 3, .. one or
   two at a time (`handed_out`), up to the last number of 32 bits. An echo is told from an event of
   the server by the size of its id, and the copies of that test know a million ids only: the echoes
   of all numbers handed out are recognised iff fewer than a million are asked for
   (`sequenced_iff`). -/
namespace Omen.Client
open Wire Ints Machine List

variable {c : LiveClient} {sessionId : ChatSessionId}

/-- By the time a conversion fails, the numbers are taken. -/
def reserveSeqPair (c : LiveClient) (sessionId : ChatSessionId) :
    Option (UInt32 × UInt32) × LiveClient :=
  match reserveSequenceRange c sessionId 2 with
  | none => (none, c)
  | some (first, c) =>
    match toU32 first, toU32 (saturatingCount first 1) with
    | some first, some second => (some (first, second), c)
    | _, _ => (none, c)

def isLocalEchoEventId (eventId : UInt64) : Bool := decide (u64Max - 1000000 < eventId.toNat)

/-! The run. -/

inductive Reservation where
  | single
  | paired
  deriving DecidableEq, Repr

def Reservation.count : Reservation → Nat
  | .single => 1
  | .paired => 2

/-- The numbers a request gets, or `SequenceSpaceExhausted`. -/
def seqStep (sessionId : ChatSessionId) (c : LiveClient) :
    Reservation → Option (List UInt32) × LiveClient
  | .single =>
    match reserveSeq c sessionId with
    | none => (none, c)
    | some (seq, c) => (some [seq], c)
  | .paired =>
    let r := reserveSeqPair c sessionId
    (r.1.map (fun pair => [pair.1, pair.2]), r.2)

/-- How many numbers are asked for. -/
def asked (inputs : List Reservation) : Nat := (inputs.map Reservation.count).sum

def handedOut (history : List (Reservation × Option (List UInt32))) : List UInt32 :=
  history.flatMap (fun entry => entry.2.getD [])

variable (c sessionId) (inputs : List Reservation) in
/-- What is promised of the numbers of a link and of the echoes made of them. -/
structure Sequenced : Prop where
  nonzero : ∀ seq ∈ handedOut (run (seqStep sessionId) c inputs).1, seq ≠ 0
  increasing : (handedOut (run (seqStep sessionId) c inputs).1).Pairwise (· < ·)
  exhausted : Meets (seqStep sessionId)
    (fun c r => (seqStep sessionId c r).1 = none → (seqStep sessionId c r).2 = c) c inputs
  echoes : ∀ seq ∈ handedOut (run (seqStep sessionId) c inputs).1,
    isLocalEchoEventId (localEchoEventId seq) = true ∧
      isTransientLocalEventId (localEchoEventId seq) = true
  served : ∀ eventId, IsServerId eventId →
    isLocalEchoEventId eventId = false ∧ isTransientLocalEventId eventId = false

/-! Steps. -/

variable {count first : Nat} {c' : LiveClient}

theorem reserveSequenceRange_none (hcount : count ≠ 0) (hnext : nextSeq c sessionId ≠ 0)
    (h : reserveSequenceRange c sessionId count = none) :
    u32Max + 1 < nextSeq c sessionId + count := by
  unfold reserveSequenceRange checkedAdd at h
  dsimp only at h
  split at h
  · next hnone =>
    split at hnone
    · cases hnone
    · unfold u64Max at *
      unfold u32Max
      omega
  · next last hlast =>
    split at hlast
    · cases hlast
      split at h
      · omega
      · cases h
    · cases hlast

theorem reserveSequenceRange_last (h : reserveSequenceRange c sessionId count = some (first, c')) :
    first + count ≤ u32Max + 1 := by
  unfold reserveSequenceRange at h
  dsimp only at h
  split at h
  · cases h
  · next last hlast =>
    obtain ⟨rfl, _⟩ := checkedAdd_some.mp hlast
    split at h
    · cases h
    · cases h
      omega

theorem reserveSeqPair_of_some (h : reserveSequenceRange c sessionId 2 = some (first, c')) :
    reserveSeqPair c sessionId = (some (UInt32.ofNat first, UInt32.ofNat (first + 1)), c') := by
  have hlast := reserveSequenceRange_last h
  have hsecond : saturatingCount first 1 = first + 1 := by
    unfold saturatingCount u64Max
    unfold u32Max at hlast
    omega
  have hfits : ∀ n : Nat, n ≤ u32Max → toU32 n = some (UInt32.ofNat n) := by
    intro n hn
    exact if_pos ⟨Int.natCast_nonneg n, Int.ofNat_le.mpr hn⟩
  unfold reserveSeqPair
  rw [h]
  dsimp only
  rw [hsecond, hfits first (by omega), hfits (first + 1) (by omega)]

/-- A request takes the numbers it asks for, the next ones, or finds too few and takes none. -/
theorem seqStep_cases (c : LiveClient) (sessionId : ChatSessionId) (r : Reservation) :
    seqStep sessionId c r = (none, c) ∧
        (nextSeq c sessionId ≠ 0 → u32Max + 1 < nextSeq c sessionId + r.count) ∨
      ∃ numbers c', seqStep sessionId c r = (some numbers, c') ∧
        numbers.map UInt32.toNat = range' (nextSeq c sessionId) r.count ∧
        nextSeq c sessionId + r.count ≤ u32Max + 1 ∧
        nextSeq c' sessionId = nextSeq c sessionId + r.count := by
  have hfits : ∀ n, n + 1 ≤ u32Max + 1 → (UInt32.ofNat n).toNat = n := by
    intro n hn
    exact UInt32.toNat_ofNat_of_lt' (Nat.lt_of_lt_of_le hn (by decide))
  have hcount : r.count ≠ 0 := by cases r <;> decide
  cases hrange : reserveSequenceRange c sessionId r.count with
  | none =>
    refine .inl ⟨?_, fun hnext => reserveSequenceRange_none hcount hnext hrange⟩
    cases r with
    | single =>
      change reserveSequenceRange c sessionId 1 = none at hrange
      simp only [seqStep, reserveSeq, hrange, Option.map_none]
    | paired =>
      change reserveSequenceRange c sessionId 2 = none at hrange
      simp only [seqStep, reserveSeqPair, hrange, Option.map_none]
  | some taken =>
    obtain ⟨first, c'⟩ := taken
    have hlast := reserveSequenceRange_last hrange
    obtain ⟨rfl, _, _, _, hcounter⟩ := reserveSequenceRange_some hrange
    have hcounter := (hcounter sessionId).trans (if_pos rfl)
    cases r with
    | single =>
      change reserveSequenceRange c sessionId 1 = _ at hrange
      refine .inr ⟨[UInt32.ofNat (nextSeq c sessionId)], c', ?_, ?_, hlast, hcounter⟩
      · simp only [seqStep, reserveSeq, hrange, Option.map_some]
      · rw [map_singleton, hfits _ hlast]
        rfl
    | paired =>
      have hlast' : nextSeq c sessionId + 2 ≤ u32Max + 1 := hlast
      refine .inr ⟨[UInt32.ofNat (nextSeq c sessionId), UInt32.ofNat (nextSeq c sessionId + 1)], c',
        ?_, ?_, hlast, hcounter⟩
      · simp only [seqStep, reserveSeqPair_of_some hrange, Option.map_some]
      · rw [map_cons, map_singleton, hfits _ (by omega), hfits _ (by omega)]
        rfl

/-! Runs. -/

/-- The numbers of a link are 1, 2, 3, .., as many as are asked for or as there are. -/
theorem handed_out (inputs : List Reservation) (hfresh : nextSeq c sessionId = 1) :
    ∃ n, (handedOut (run (seqStep sessionId) c inputs).1).map UInt32.toNat = range' 1 n ∧
      n ≤ u32Max ∧ (n = asked inputs ∨ n ≤ asked inputs ∧ u32Max ≤ n + 1) := by
  suffices hfrom : ∀ (inputs : List Reservation) (c : LiveClient) (n : Nat),
      nextSeq c sessionId = n + 1 → n ≤ u32Max →
      ∃ m, (handedOut (run (seqStep sessionId) c inputs).1).map UInt32.toNat =
          range' (n + 1) m ∧ n + m ≤ u32Max ∧
        (m = asked inputs ∨ m ≤ asked inputs ∧ u32Max ≤ n + m + 1) by
    obtain ⟨m, hnumbers, hmax, hasked⟩ := hfrom inputs c 0 hfresh (Nat.zero_le _)
    exact ⟨m, hnumbers, by omega, by omega⟩
  intro inputs
  induction inputs with
  | nil => exact fun c n _ hn => ⟨0, rfl, hn, .inl rfl⟩
  | cons r inputs ih =>
    intro c n hnext hn
    have hsum : asked (r :: inputs) = r.count + asked inputs := sum_cons
    have hrun : handedOut (run (seqStep sessionId) c (r :: inputs)).1 =
        (seqStep sessionId c r).1.getD [] ++
          handedOut (run (seqStep sessionId) (seqStep sessionId c r).2 inputs).1 := rfl
    obtain ⟨hstep, hfew⟩ | ⟨numbers, c', hstep, hnumbers, hlast, hcounter⟩ :=
      seqStep_cases c sessionId r
    · have hcount : r.count ≤ 2 := by cases r <;> decide
      have := hfew (by omega)
      obtain ⟨m, hlater, hmax, hasked⟩ := ih c n hnext hn
      refine ⟨m, ?_, hmax, by omega⟩
      rw [hrun, hstep]
      exact hlater
    · obtain ⟨m, hlater, hmax, hasked⟩ := ih c' (n + r.count) (by omega) (by omega)
      refine ⟨r.count + m, ?_, by omega, by omega⟩
      rw [hrun, hstep, map_append, Option.getD_some, hnumbers, hnext, hlater,
        Nat.add_right_comm n r.count 1, range'_append_1]

/-- Both tests know the echoes of the first 999999 numbers. -/
theorem recognised_iff {seq : UInt32} :
    (isLocalEchoEventId (localEchoEventId seq) = true ∧
      isTransientLocalEventId (localEchoEventId seq) = true) ↔ seq.toNat ≤ 999999 := by
  unfold isLocalEchoEventId isTransientLocalEventId
  rw [localEchoEventId_toNat, and_self, decide_eq_true_iff]
  unfold u64Max
  omega

theorem not_recognised {eventId : UInt64} (h : IsServerId eventId) :
    isLocalEchoEventId eventId = false ∧ isTransientLocalEventId eventId = false := by
  unfold IsServerId i64Max at h
  unfold isLocalEchoEventId isTransientLocalEventId
  rw [and_self, decide_eq_false_iff_not]
  unfold u64Max
  omega

theorem nextSeq_retired (c : LiveClient) (sessionId : ChatSessionId) :
    nextSeq (retireSessionLinkState c sessionId) sessionId = 1 := by
  show (if sessionId = sessionId then none else c.nextSeqBySession sessionId).getD 1 = 1
  rw [if_pos rfl]
  rfl

/-- The millionth number, if there is one, has an echo that is not recognised. -/
theorem Sequenced.few {inputs : List Reservation}
    (h : Sequenced (retireSessionLinkState c sessionId) sessionId inputs) :
    asked inputs ≤ 999999 := by
  obtain ⟨n, hnumbers, _, hasked⟩ := handed_out inputs (nextSeq_retired c sessionId)
  refine Nat.le_of_not_lt fun hmany => ?_
  have hin : 1000000 ∈ range' 1 n := by
    rw [mem_range'_1]
    unfold u32Max at hasked
    omega
  rw [← hnumbers] at hin
  obtain ⟨seq, hseq, hvalue⟩ := mem_map.mp hin
  have hknown := recognised_iff.mp (h.echoes seq hseq)
  omega

/-- On a link that began with no number taken, the promise is kept iff fewer than a million
numbers are asked for. -/
theorem sequenced_iff (c : LiveClient) (sessionId : ChatSessionId) (inputs : List Reservation) :
    Sequenced (retireSessionLinkState c sessionId) sessionId inputs ↔ asked inputs ≤ 999999 := by
  refine ⟨Sequenced.few, fun hfew => ?_⟩
  obtain ⟨n, hnumbers, _, hasked⟩ := handed_out inputs (nextSeq_retired c sessionId)
  have hmem : ∀ seq : UInt32, seq ∈ handedOut
      (run (seqStep sessionId) (retireSessionLinkState c sessionId) inputs).1 →
      1 ≤ seq.toNat ∧ seq.toNat ≤ 999999 := by
    intro seq hseq
    have hin : seq.toNat ∈ (handedOut _).map UInt32.toNat := mem_map_of_mem hseq
    rw [hnumbers, mem_range'_1] at hin
    omega
  have hexhausted : ∀ (c : LiveClient) r, (seqStep sessionId c r).1 = none →
      (seqStep sessionId c r).2 = c := by
    intro c r hnone
    obtain ⟨hstep, _⟩ | ⟨numbers, c', hstep, _⟩ := seqStep_cases c sessionId r
    · rw [hstep]
    · rw [hstep] at hnone
      cases hnone
  refine ⟨?_, ?_, ?_, ?_, fun _ => not_recognised⟩
  · intro seq hseq hzero
    have hpos := (hmem seq hseq).1
    rw [hzero] at hpos
    exact absurd hpos (by decide)
  · have hsorted : (range' 1 n).Pairwise (· < ·) := pairwise_lt_range'
    rw [← hnumbers, pairwise_map] at hsorted
    exact hsorted.imp UInt32.lt_iff_toNat_lt.mpr
  · exact (meets_congr fun c r => iff_true_intro (hexhausted c r)).mpr (meets_true _ _)
  · exact fun seq hseq => recognised_iff.mpr (hmem seq hseq).2

/-- A million requests of a fresh link, and the echo of the last is taken for an event of the
server. -/
theorem millionth_echo_unrecognised :
    ¬Sequenced (retireSessionLinkState .new 1) 1 (replicate 1000000 .single) := by
  intro h
  have hfew := h.few
  unfold asked at hfew
  rw [map_replicate, sum_replicate] at hfew
  exact absurd hfew (by decide)

end Omen.Client
