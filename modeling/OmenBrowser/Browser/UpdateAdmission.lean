import Mathlib.Algebra.BigOperators.Group.List.Basic
import OmenBrowser.Browser.UpdatePointer
import OmenBrowser.Lib.Txn

/- What holds of admitted update notices in every run of the owner's operations.

   Totals are exact, stores are within their bounds, and each notice is wanted by a followed target
   (`AdmissionOwner.Sound`). The rate of a publisher is a matter of a run: `Rated` says that the rate
   records cover the admissions of the last window, so long as nothing is cleared. -/
namespace Omen.Browser
open Machine List

variable {pointer : UpdatePointer} {publisher : String} {evidence : PublisherEvidence}
  {owner' : AdmissionOwner}

/-! Removals. -/

section
variable {α : Type} {p : α → Bool}

variable (bytes : α → Nat) (n : Nat) (xs : List α)

theorem removeUpTo_sublist : (removeUpTo p n xs).2.Sublist xs := by
  induction xs generalizing n with
  | nil => cases n <;> exact List.Sublist.refl _
  | cons x xs ih =>
    cases n with
    | zero => exact List.Sublist.refl _
    | succ n =>
      unfold removeUpTo
      split
      · exact (ih n).cons x
      · exact (ih (n + 1)).cons_cons x

/-- What is not to go stays. -/
theorem filter_removeUpTo {q : α → Bool} (hq : ∀ x, p x = true → q x = false) (n : Nat)
    (xs : List α) : (removeUpTo p n xs).2.filter q = xs.filter q := by
  induction xs generalizing n with
  | nil => cases n <;> rfl
  | cons x xs ih =>
    cases n with
    | zero => rfl
    | succ n =>
      unfold removeUpTo
      split
      · next hx =>
        rw [filter_cons_of_neg (by rw [hq x hx]; exact Bool.false_ne_true)]
        exact ih n
      · simp only [filter_cons, ih]

/-- What goes and what stays are all there was. -/
theorem sum_removeUpTo :
    ((removeUpTo p n xs).1.map bytes).sum + ((removeUpTo p n xs).2.map bytes).sum =
      (xs.map bytes).sum := by
  induction xs generalizing n with
  | nil => cases n <;> rfl
  | cons x xs ih =>
    cases n with
    | zero => simp [removeUpTo]
    | succ n =>
      unfold removeUpTo
      split
      · have hsum := ih n
        simp only [map_cons, sum_cons]
        omega
      · have hsum := ih (n + 1)
        simp only [map_cons, sum_cons]
        omega

theorem sum_filter_add :
    ((xs.filter p).map bytes).sum + ((xs.filter fun x => !p x).map bytes).sum =
      (xs.map bytes).sum := by
  induction xs with
  | nil => rfl
  | cons x xs ih =>
    cases hp : p x <;> simp only [filter_cons, hp, Bool.not_false, Bool.not_true, if_true,
      Bool.false_eq_true, if_false, map_cons, sum_cons] <;> omega

end

theorem release_eq (total : Nat) (removed : List UpdateNotice) :
    AdmissionOwner.release total removed = total - (removed.map UpdateNotice.accountedBytes).sum := by
  unfold AdmissionOwner.release
  induction removed generalizing total with
  | nil => rfl
  | cons notice removed ih =>
    rw [foldl_cons, ih, map_cons, sum_cons]
    omega

namespace AdmissionOwner
variable {toVec : UpdatePointer → Option Wire.Bytes} {owner : AdmissionOwner}

/-! What holds of an owner. -/

/-- What the owner has counted is what it keeps, within the limits. -/
structure Sound (toVec : UpdatePointer → Option Wire.Bytes) (owner : AdmissionOwner) : Prop where
  followedBytes : owner.followedAccountedBytes = (owner.followed.map FollowTarget.accountedBytes).sum
  followedItems : owner.followed.length ≤ updateFollowMaxItems
  followedLimit : owner.followedAccountedBytes ≤ updateFollowMaxAccountedBytes
  noticeBytes : owner.noticeAccountedBytes = (owner.notices.map UpdateNotice.accountedBytes).sum
  noticeItems : owner.notices.length ≤ updateNoticeMaxItems
  noticeLimit : owner.noticeAccountedBytes ≤ updateNoticeMaxAccountedBytes
  accounted : ∀ notice ∈ owner.notices, ∃ encoded, toVec notice.pointer = some encoded ∧
    notice.accountedBytes = encoded.length + notice.publisherDestination.utf8ByteSize
  unique : (owner.notices.map (·.pointer.deduplicationKey)).Nodup
  wanted : ∀ notice ∈ owner.notices, ∃ target ∈ owner.followed,
    target.matched notice.pointer = true
  rateItems : owner.rateRecords.length ≤ updateRateRecordMaxItems

theorem sound_empty : Sound toVec empty where
  followedBytes := rfl
  followedItems := Nat.zero_le _
  followedLimit := Nat.zero_le _
  noticeBytes := rfl
  noticeItems := Nat.zero_le _
  noticeLimit := Nat.zero_le _
  accounted := fun _ h => absurd h not_mem_nil
  unique := nodup_nil
  wanted := fun _ h => absurd h not_mem_nil
  rateItems := Nat.zero_le _

variable (h : Sound toVec owner)
include h

/-- Fewer notices, all of them still wanted, and fewer rate records. -/
theorem Sound.reduce {notices : List UpdateNotice}
    {records : List PublisherRateRecord} (hnotices : notices.Sublist owner.notices)
    (hrecords : records.Sublist owner.rateRecords) :
    Sound toVec
      { owner with
        notices
        noticeAccountedBytes := (notices.map UpdateNotice.accountedBytes).sum
        rateRecords := records } where
  followedBytes := h.followedBytes
  followedItems := h.followedItems
  followedLimit := h.followedLimit
  noticeBytes := rfl
  noticeItems := hnotices.length_le.trans h.noticeItems
  noticeLimit := by
    have hsum := (hnotices.map UpdateNotice.accountedBytes).sum_le_sum fun _ _ => Nat.zero_le _
    have hbytes := h.noticeBytes
    have hlimit := h.noticeLimit
    rw [← hbytes] at hsum
    exact hsum.trans hlimit
  accounted := fun notice hmem => h.accounted notice (hnotices.subset hmem)
  unique := h.unique.sublist (hnotices.map _)
  wanted := fun notice hmem => h.wanted notice (hnotices.subset hmem)
  rateItems := hrecords.length_le.trans h.rateItems

variable (target : FollowTarget)

theorem Sound.follow : Sound toVec (owner.follow target).2 := by
  unfold AdmissionOwner.follow
  split
  · exact h
  · split
    · exact h
    · next hroom =>
      obtain ⟨hitems, hlimit⟩ := not_or.mp hroom
      exact
        { followedBytes := by simp [h.followedBytes]
          followedItems := by simp only [length_append, length_singleton]; omega
          followedLimit := Nat.le_of_not_lt hlimit
          noticeBytes := h.noticeBytes
          noticeItems := h.noticeItems
          noticeLimit := h.noticeLimit
          accounted := h.accounted
          unique := h.unique
          wanted := fun notice hmem => by
            obtain ⟨wanting, hwanting, hmatched⟩ := h.wanted notice hmem
            exact ⟨wanting, mem_append_left _ hwanting, hmatched⟩
          rateItems := h.rateItems }

theorem Sound.unfollow : Sound toVec (owner.unfollow target).2 := by
  unfold AdmissionOwner.unfollow
  split
  · next hmem =>
    have hperm := (perm_cons_erase hmem).map FollowTarget.accountedBytes
    have hsum : (owner.followed.map FollowTarget.accountedBytes).sum = target.accountedBytes +
        ((owner.followed.erase target).map FollowTarget.accountedBytes).sum := by
      rw [hperm.sum_eq, map_cons, sum_cons]
    have hsplit := sum_filter_add (p := fun notice => target.matched notice.pointer)
      UpdateNotice.accountedBytes owner.notices
    have hbytes := h.noticeBytes
    have hfollowed := h.followedBytes
    have hkept := h.reduce (filter_sublist (l := owner.notices)
      (p := fun notice => !target.matched notice.pointer)) (List.Sublist.refl _)
    have htotal : release owner.noticeAccountedBytes
        (owner.notices.filter fun notice => target.matched notice.pointer) =
        ((owner.notices.filter fun notice => !target.matched notice.pointer).map
          UpdateNotice.accountedBytes).sum := by
      rw [release_eq]
      omega
    exact
      { followedBytes := by simp only; omega
        followedItems := length_erase_le.trans h.followedItems
        followedLimit := (Nat.sub_le _ _).trans h.followedLimit
        noticeBytes := htotal
        noticeItems := hkept.noticeItems
        noticeLimit := htotal ▸ hkept.noticeLimit
        accounted := hkept.accounted
        unique := hkept.unique
        wanted := fun notice hnotice => by
          -- what wants a notice that stays is another target
          obtain ⟨wanting, hwanting, hmatched⟩ := hkept.wanted notice hnotice
          have hno := (mem_filter.mp hnotice).2
          have hne : wanting ≠ target := by
            intro heq
            rw [heq] at hmatched
            simp [hmatched] at hno
          exact ⟨wanting, (mem_erase_of_ne hne).mpr hwanting, hmatched⟩
        rateItems := h.rateItems }
  · exact h

theorem Sound.pruneAt (now : Nat) :
    Sound toVec (owner.pruneAt now).2 := by
  have hkept := h.reduce
    (removeUpTo_sublist (p := fun notice => notice.pointer.expiresAtUnix ≤ now) updatePruneBatch _)
    (removeUpTo_sublist (p := fun record =>
      record.admittedAtUnix < now - updatePublisherWindowSecs) (updatePruneBatch -
        (removeUpTo (fun notice : UpdateNotice => notice.pointer.expiresAtUnix ≤ now)
          updatePruneBatch owner.notices).1.length) _)
  have hsum := sum_removeUpTo (p := fun notice => notice.pointer.expiresAtUnix ≤ now)
    UpdateNotice.accountedBytes updatePruneBatch owner.notices
  have hbytes := h.noticeBytes
  have htotal : release owner.noticeAccountedBytes
      (removeUpTo (fun notice : UpdateNotice => notice.pointer.expiresAtUnix ≤ now)
        updatePruneBatch owner.notices).1 =
      ((removeUpTo (fun notice : UpdateNotice => notice.pointer.expiresAtUnix ≤ now)
        updatePruneBatch owner.notices).2.map UpdateNotice.accountedBytes).sum := by
    rw [release_eq]
    omega
  rw [← htotal] at hkept
  exact hkept

omit h

/-- What `admitPointer` does with a pointer it accepts. -/
theorem admitPruned_ok {now : Nat}
    (h : owner.admitPruned toVec pointer publisher evidence now = .ok owner') :
    (owner.followed.any fun target => target.matched pointer) = true ∧
      (∀ notice ∈ owner.notices, notice.pointer.deduplicationKey ≠ pointer.deduplicationKey) ∧
      owner.rateRecords.countP (fun record => record.publisherDestination = publisher ∧
        record.admittedAtUnix ≥ now - updatePublisherWindowSecs) < updateMaxPerPublisherWindow ∧
      owner.rateRecords.length < updateRateRecordMaxItems ∧
      owner.notices.length < updateNoticeMaxItems ∧
      ∃ encoded, toVec pointer = some encoded ∧
        owner.noticeAccountedBytes + (encoded.length + publisher.utf8ByteSize) ≤
          updateNoticeMaxAccountedBytes ∧
        owner' =
          { owner with
            noticeAccountedBytes :=
              owner.noticeAccountedBytes + (encoded.length + publisher.utf8ByteSize)
            notices := owner.notices ++
              [{ pointer, publisherDestination := publisher, publisherEvidence := evidence
                 receivedAtUnix := now
                 accountedBytes := encoded.length + publisher.utf8ByteSize }]
            rateRecords := owner.rateRecords ++
              [{ publisherDestination := publisher, admittedAtUnix := now }] } := by
  unfold admitPruned at h
  simp only [↓Outcome.check_ok, Outcome.refuse_ok, Outcome.bind_ok, Outcome.mapError_ok] at h
  -- the checks, in the order in which they are made
  obtain ⟨-, -, -, hwanted, hnew, hrate, hrecords, encoded, hencoded, hroom, hok⟩ := h
  cases hok
  obtain ⟨-, hencoded⟩ := Outcome.check_ok.mp hencoded
  have hvec : toVec pointer = some encoded := by
    split at hencoded
    · cases hencoded
    · next bytes hbytes =>
      split at hencoded
      · cases hencoded
      · cases hencoded
        exact hbytes
  obtain ⟨hitems, hbytes⟩ := not_or.mp hroom
  refine ⟨by simpa using hwanted, ?_, ?_, Nat.lt_of_not_le hrecords, Nat.lt_of_not_le hitems,
    encoded, hvec, Nat.le_of_not_lt hbytes, rfl⟩
  · intro notice hmem heq
    apply hnew
    rw [any_eq_true]
    exact ⟨notice, hmem, decide_eq_true heq⟩
  · rw [countP_eq_length_filter]
    exact Nat.lt_of_not_le hrate

theorem Sound.admitPruned (h : Sound toVec owner) {now : Nat}
    (hok : owner.admitPruned toVec pointer publisher evidence now = .ok owner') :
    Sound toVec owner' := by
  obtain ⟨hwanted, hnew, -, hrecords, hitems, encoded, hvec, hbytes, rfl⟩ := admitPruned_ok hok
  exact
    { followedBytes := h.followedBytes
      followedItems := h.followedItems
      followedLimit := h.followedLimit
      noticeBytes := by simp [h.noticeBytes]
      noticeItems := by simp only [length_append, length_singleton]; omega
      noticeLimit := hbytes
      accounted := fun notice hmem => by
        rcases mem_append.mp hmem with hmem | hmem
        · exact h.accounted notice hmem
        · obtain rfl := mem_singleton.mp hmem
          exact ⟨encoded, hvec, rfl⟩
      unique := by
        rw [map_append, nodup_append]
        refine ⟨h.unique, nodup_singleton _, ?_⟩
        intro key hkey other hother heq
        obtain ⟨notice, hnotice, rfl⟩ := mem_map.mp hkey
        rw [map_singleton, mem_singleton] at hother
        exact hnew notice hnotice (heq.trans hother)
      wanted := fun notice hmem => by
        rcases mem_append.mp hmem with hmem | hmem
        · exact h.wanted notice hmem
        · obtain rfl := mem_singleton.mp hmem
          exact any_eq_true.mp hwanted
      rateItems := by simp only [length_append, length_singleton]; omega }

theorem Sound.admitPointer (h : Sound toVec owner) (pointer : UpdatePointer) (publisher : String)
    (evidence : PublisherEvidence) (now : Nat) :
    Sound toVec (owner.admitPointer toVec pointer publisher evidence now).2 := by
  unfold AdmissionOwner.admitPointer
  simp only
  split
  · exact h.pruneAt now
  · next hok => exact (h.pruneAt now).admitPruned hok

/-! Runs. -/

/-- What the owner is asked for. -/
inductive Op where
  | follow (target : FollowTarget)
  | unfollow (target : FollowTarget)
  | admitPointer (pointer : UpdatePointer) (publisher : String) (evidence : PublisherEvidence)
      (receivedAt : Nat)
  | prune (now : Nat)
  | clear

/-- When an operation is taken, if it has a clock. -/
def Op.time : Op → Option Nat
  | .admitPointer _ _ _ receivedAt => some receivedAt
  | .prune now => some now
  | _ => none

/-- What it answers. -/
inductive Reply where
  | follow (result : Except AdmissionError Bool)
  | unfollow (known : Bool)
  | admitPointer (result : Except AdmissionError Unit)
  | prune (pruned : Nat)
  | clear

def step (toVec : UpdatePointer → Option Wire.Bytes) (owner : AdmissionOwner) :
    Op → Reply × AdmissionOwner
  | .follow target => let r := owner.follow target; (.follow r.1, r.2)
  | .unfollow target => let r := owner.unfollow target; (.unfollow r.1, r.2)
  | .admitPointer pointer publisher evidence receivedAt =>
    let r := owner.admitPointer toVec pointer publisher evidence receivedAt
    (.admitPointer r.1, r.2)
  | .prune now => let r := owner.pruneAt now; (.prune r.1, r.2)
  | .clear => (.clear, owner.clear)

/-- The step lemma. -/
theorem Sound.step (h : Sound toVec owner) (op : Op) : Sound toVec (owner.step toVec op).2 := by
  cases op with
  | follow target => exact h.follow target
  | unfollow target => exact h.unfollow target
  | admitPointer pointer publisher evidence receivedAt =>
    exact h.admitPointer pointer publisher evidence receivedAt
  | prune now => exact h.pruneAt now
  | clear => exact sound_empty

/-- The run lemma. -/
theorem sound_run (ops : List Op) :
    Sound toVec (run (step toVec) empty ops).2 :=
  run_invariant (fun _ op h _ => h.step op) empty ops (meets_true _ _) sound_empty

/-! Rates. -/

/-- What a step has admitted. -/
def admission : Op × Reply → Option PublisherRateRecord
  | (.admitPointer _ publisher _ receivedAt, .admitPointer (.ok _)) =>
    some { publisherDestination := publisher, admittedAtUnix := receivedAt }
  | _ => none

section
variable (publisher : String) (start : Nat) (record : PublisherRateRecord)

/-- An admission of a publisher within a window that begins at a time. -/
def inWindow : Bool :=
  record.publisherDestination = publisher ∧ start ≤ record.admittedAtUnix ∧
    record.admittedAtUnix ≤ start + updatePublisherWindowSecs

/-- An admission of a publisher at a time or later. -/
def since : Bool :=
  record.publisherDestination = publisher ∧ record.admittedAtUnix ≥ start

end

/-- Admissions of the last window are among the rate records, and no window has too many. -/
structure Rated (admitted : List PublisherRateRecord) (clock : Nat) (owner : AdmissionOwner) :
    Prop where
  past : ∀ record ∈ admitted, record.admittedAtUnix ≤ clock
  covered : ∀ publisher start, clock - updatePublisherWindowSecs ≤ start →
    admitted.countP (since publisher start) ≤ owner.rateRecords.countP (since publisher start)
  limited : ∀ publisher start,
    admitted.countP (inWindow publisher start) ≤ updateMaxPerPublisherWindow

theorem rated_nil (clock : Nat) (owner : AdmissionOwner) : Rated [] clock owner where
  past := fun _ h => absurd h not_mem_nil
  covered := fun _ _ _ => Nat.zero_le _
  limited := fun _ _ => Nat.zero_le _

variable {admitted : List PublisherRateRecord} {clock : Nat}

theorem Rated.of_records (h : Rated admitted clock owner)
    (heq : owner'.rateRecords = owner.rateRecords) : Rated admitted clock owner' :=
  { h with covered := heq ▸ h.covered }

/-- Records that are pruned are too old to count. -/
theorem Rated.pruneAt (h : Rated admitted clock owner) {now : Nat} (hclock : clock ≤ now) :
    Rated admitted now (owner.pruneAt now).2 where
  past := fun record hmem => (h.past record hmem).trans hclock
  covered := fun publisher start hstart => by
    have hkept : ∀ record : PublisherRateRecord,
        decide (record.admittedAtUnix < now - updatePublisherWindowSecs) = true →
        since publisher start record = false := by
      intro record hold
      have hlt := of_decide_eq_true hold
      simp only [since, decide_eq_false_iff_not, not_and]
      omega
    have hcount := h.covered publisher start (by omega)
    rw [countP_eq_length_filter (l := owner.rateRecords)] at hcount
    rw [AdmissionOwner.pruneAt, countP_eq_length_filter (p := since publisher start)
      (l := Prod.snd _), filter_removeUpTo hkept]
    exact hcount
  limited := h.limited

/-- An admission is within the limit of every window it falls into. -/
theorem Rated.admitPruned (h : Rated admitted clock owner)
    (hok : owner.admitPruned toVec pointer publisher evidence clock = .ok owner') :
    Rated (admitted ++ [{ publisherDestination := publisher, admittedAtUnix := clock }]) clock
      owner' := by
  obtain ⟨-, -, hrate, -, -, encoded, -, -, rfl⟩ := admitPruned_ok hok
  refine ⟨?_, ?_, ?_⟩
  · intro record hmem
    rcases mem_append.mp hmem with hmem | hmem
    · exact h.past record hmem
    · obtain rfl := mem_singleton.mp hmem
      exact Nat.le_refl _
  · intro other start hstart
    have hcount := h.covered other start hstart
    simp only [countP_append]
    omega
  · intro other start
    rw [countP_append, countP_singleton]
    by_cases hin : inWindow other start
        { publisherDestination := publisher, admittedAtUnix := clock } = true
    · rw [if_pos hin]
      simp only [inWindow, decide_eq_true_eq] at hin
      obtain ⟨rfl, hafter, hwithin⟩ := hin
      -- all of the window's admissions are as recent as the records that were counted
      have hle : admitted.countP (inWindow publisher start) ≤
          admitted.countP (since publisher (clock - updatePublisherWindowSecs)) := by
        apply countP_mono_left
        intro record _ hrecord
        simp only [inWindow, since, decide_eq_true_eq] at hrecord ⊢
        exact ⟨hrecord.1, by omega⟩
      have hcount := h.covered publisher _ (Nat.le_refl (clock - updatePublisherWindowSecs))
      unfold since at hcount hle
      omega
    · rw [if_neg hin]
      exact h.limited other start

/-- The step lemma. -/
theorem Rated.step (h : Rated admitted clock owner) {op : Op} (hclock : ∀ t ∈ op.time, clock ≤ t)
    (hop : op ≠ .clear) :
    Rated (admitted ++ (admission (op, (owner.step toVec op).1)).toList) (op.time.getD clock)
      (owner.step toVec op).2 := by
  cases op with
  | follow target =>
    rw [show admission _ = none from rfl, Option.toList_none, append_nil]
    apply h.of_records
    simp only [AdmissionOwner.step, AdmissionOwner.follow]
    split
    · rfl
    · split <;> rfl
  | unfollow target =>
    rw [show admission _ = none from rfl, Option.toList_none, append_nil]
    apply h.of_records
    simp only [AdmissionOwner.step, AdmissionOwner.unfollow]
    split <;> rfl
  | admitPointer pointer publisher evidence receivedAt =>
    have hpruned := h.pruneAt (hclock receivedAt rfl)
    simp only [AdmissionOwner.step, AdmissionOwner.admitPointer]
    split
    · simpa [admission, Op.time] using hpruned
    · next hok => exact hpruned.admitPruned hok
  | prune now =>
    rw [show admission _ = none from rfl, Option.toList_none, append_nil]
    exact h.pruneAt (hclock now rfl)
  | clear => exact absurd rfl hop

/-- The run lemma. -/
theorem Rated.run {ops : List Op} (h : Rated admitted clock owner)
    (hpast : ∀ t ∈ ops.filterMap Op.time, clock ≤ t)
    (hclock : (ops.filterMap Op.time).Pairwise (· ≤ ·)) (hops : Op.clear ∉ ops) :
    ∃ clock', Rated
      (admitted ++ (run (AdmissionOwner.step toVec) owner ops).1.filterMap admission) clock'
      (run (AdmissionOwner.step toVec) owner ops).2 := by
  induction ops generalizing admitted clock owner with
  | nil => exact ⟨clock, by simpa [run] using h⟩
  | cons op ops ih =>
    have hop : op ≠ .clear := fun heq => hops (heq ▸ mem_cons_self)
    have hlater : Op.clear ∉ ops := fun hmem => hops (mem_cons_of_mem op hmem)
    have htime : ∀ t ∈ op.time, clock ≤ t := by
      intro t ht
      exact hpast t (mem_filterMap.mpr ⟨op, mem_cons_self, ht⟩)
    have hnext : Rated (admitted ++ (admission (op, (owner.step toVec op).1)).toList)
        (op.time.getD clock) (owner.step toVec op).2 := h.step htime hop
    have hrest : (∀ t ∈ ops.filterMap Op.time, op.time.getD clock ≤ t) ∧
        (ops.filterMap Op.time).Pairwise (· ≤ ·) := by
      cases hop' : op.time with
      | none =>
        rw [filterMap_cons_none hop'] at hpast hclock
        exact ⟨hpast, hclock⟩
      | some t =>
        rw [filterMap_cons_some hop'] at hclock
        exact pairwise_cons.mp hclock
    obtain ⟨clock', hrun⟩ := ih hnext hrest.1 hrest.2 hlater
    refine ⟨clock', ?_⟩
    have happend : admitted ++ (run (AdmissionOwner.step toVec) owner
        (op :: ops)).1.filterMap admission =
        (admitted ++ (admission (op, (owner.step toVec op).1)).toList) ++
          (run (AdmissionOwner.step toVec) (owner.step toVec op).2 ops).1.filterMap
            admission := by
      rw [run, append_assoc, filterMap_cons]
      cases admission (op, (owner.step toVec op).1) <;> rfl
    rw [happend]
    exact hrun

/-! What a step keeps. -/

/-- An unfollowed target takes no notice with it that it does not match, and a refused pointer none
    that has not expired, and no rate record that still counts. -/
def StepKeeps (toVec : UpdatePointer → Option Wire.Bytes) (owner : AdmissionOwner) : Op → Prop
  | .unfollow target =>
    ∀ notice ∈ owner.notices, target.matched notice.pointer = false →
      notice ∈ (owner.unfollow target).2.notices
  | .admitPointer pointer publisher evidence now =>
    ∀ e, (owner.admitPointer toVec pointer publisher evidence now).1 = .error e →
      let owner' := (owner.admitPointer toVec pointer publisher evidence now).2
      owner'.followed = owner.followed ∧ owner'.notices.Sublist owner.notices ∧
        owner'.rateRecords.Sublist owner.rateRecords ∧
        (∀ notice ∈ owner.notices, now < notice.pointer.expiresAtUnix →
          notice ∈ owner'.notices) ∧
        ∀ record ∈ owner.rateRecords, now - updatePublisherWindowSecs ≤ record.admittedAtUnix →
          record ∈ owner'.rateRecords
  | _ => True

theorem mem_removeUpTo {α : Type} {p : α → Bool} {n : Nat} {xs : List α} {x : α} (hx : x ∈ xs)
    (hp : p x = false) : x ∈ (removeUpTo p n xs).2 := by
  have hmem : x ∈ (removeUpTo p n xs).2.filter (fun y => !p y) := by
    rw [filter_removeUpTo (by simp)]
    exact mem_filter.mpr ⟨hx, by simp [hp]⟩
  exact (mem_filter.mp hmem).1

theorem stepKeeps (owner : AdmissionOwner) (op : Op) : StepKeeps toVec owner op := by
  cases op with
  | unfollow target =>
    intro notice hmem hno
    unfold AdmissionOwner.unfollow
    split
    · exact mem_filter.mpr ⟨hmem, by simp [hno]⟩
    · exact hmem
  | admitPointer pointer publisher evidence now =>
    intro e herror
    unfold AdmissionOwner.admitPointer at herror ⊢
    simp only at herror ⊢
    split at herror
    · refine ⟨rfl, removeUpTo_sublist _ _, removeUpTo_sublist _ _, ?_, ?_⟩
      · intro notice hmem hlater
        exact mem_removeUpTo hmem (decide_eq_false (Nat.not_le.mpr hlater))
      · intro record hmem hrecent
        exact mem_removeUpTo hmem (decide_eq_false (Nat.not_lt.mpr hrecent))
    · cases herror
  | _ => trivial

/-- In every run, totals and bounds hold and every notice is wanted; unfollowing takes only notices
    of its target and a refusal only what has expired; and so long as nothing is cleared, no
    publisher has more notices admitted in a window than it may. -/
theorem update_notices_kept (toVec : UpdatePointer → Option Wire.Bytes) (ops : List Op)
    (hclock : (ops.filterMap Op.time).Pairwise (· ≤ ·)) :
    Sound toVec (run (step toVec) empty ops).2 ∧
      Machine.Meets (step toVec) (StepKeeps toVec) empty ops ∧
      ∀ before during after, ops = before ++ during ++ after → Op.clear ∉ during →
        ∀ publisher start,
          ((run (step toVec) (run (step toVec) empty before).2
            during).1.filterMap admission).countP (inWindow publisher start) ≤
              updateMaxPerPublisherWindow := by
  refine ⟨sound_run ops, ?_, ?_⟩
  · exact (meets_congr fun s op => ⟨fun _ => stepKeeps s op, fun _ => trivial⟩).mp
      (meets_true _ _)
  · intro before during after hsplit hno publisher start
    subst hsplit
    rw [filterMap_append, filterMap_append] at hclock
    have hduring := (pairwise_append.mp (pairwise_append.mp hclock).1).2.1
    obtain ⟨clock, hrated⟩ := (rated_nil 0 (run (step toVec) empty before).2).run
      (fun _ _ => Nat.zero_le _) hduring hno
    exact hrated.limited publisher start

/-- `serde_json::to_vec` where no text has a character to escape. -/
def plainJson (p : UpdatePointer) : Option Wire.Bytes :=
  let quoted := fun (name value : String) => "\"" ++ name ++ "\":\"" ++ value ++ "\""
  let number := fun (name : String) (value : Nat) => "\"" ++ name ++ "\":" ++ toString value
  let text := "\x7b" ++ ",".intercalate
    [quoted "protocol" p.protocol, number "version" p.version,
     quoted "destination" p.destination, quoted "page_path" p.pagePath,
     quoted "revision_or_content_hash" p.revisionOrContentHash, quoted "title" p.title,
     number "published_at_unix" p.publishedAtUnix,
     number "expires_at_unix" p.expiresAtUnix] ++ "\x7d"
  some (Wire.utf8 text)

def fixtureNow : Nat := 1800000000

def fixturePointer (revision : String) (lifetime : Nat) : UpdatePointer :=
  { protocol := updatePointerProtocol
    version := updatePointerVersion
    destination := "0123456789abcdef0123456789abcdef"
    pagePath := "/page/index.mu"
    revisionOrContentHash := revision
    title := "Updated page"
    publishedAtUnix := fixtureNow
    expiresAtUnix := fixtureNow + lifetime }

/-- The publisher of every pointer. -/
def fixturePublisher : String := "22222222222222222222222222222222"

/-- The whole destination, and one of its pages. -/
def fixtureTarget : FollowTarget :=
  { destination := "0123456789abcdef0123456789abcdef", pagePath := none
    destination_canonical := by decide +kernel
    pagePath_canonical := by simp }

/-- A page that is followed. -/
def fixturePageTarget : FollowTarget :=
  { destination := "0123456789abcdef0123456789abcdef", pagePath := some "/page/index.mu"
    destination_canonical := by decide +kernel
    pagePath_canonical := by decide +kernel }

def fixtureAdmit (revision : String) (lifetime now : Nat) : Op :=
  .admitPointer (fixturePointer revision lifetime) fixturePublisher .unverified now

/-- As many notices as a window takes, from one publisher. -/
def fullWindow : List Op :=
  ["r0", "r1", "r2", "r3", "r4", "r5", "r6", "r7"].map fun revision =>
    fixtureAdmit revision 3600 fixtureNow

theorem update_notices_kept_fixture :
    Sound plainJson (run (step plainJson) empty
      [.follow fixtureTarget, fixtureAdmit "r0" 1 fixtureNow, .prune (fixtureNow + 2)]).2 ∧
    (run (step plainJson) empty
      [.follow fixtureTarget, fixtureAdmit "r0" 1 fixtureNow]).2.notices.length = 1 :=
  ⟨(update_notices_kept plainJson
      [.follow fixtureTarget, fixtureAdmit "r0" 1 fixtureNow, .prune (fixtureNow + 2)]
      (by decide)).1, by decide +kernel⟩

/-- A notice goes with one of the two targets that match it, a refused pointer takes an expired
    notice with it, and a cleared owner admits a full window again. -/
theorem notices_not_kept :
    (let both := (run (step plainJson) empty
        [.follow fixtureTarget, .follow fixturePageTarget, fixtureAdmit "r0" 3600 fixtureNow]).2
      let after := (both.unfollow fixturePageTarget).2
      (both.notices.length = 1 ∧ after.notices = []) ∧
        after.followed = [fixtureTarget] ∧
        fixtureTarget.matched (fixturePointer "r0" 3600) = true) ∧
      (let held := (run (step plainJson) empty
        [.follow fixtureTarget, fixtureAdmit "r0" 1 fixtureNow]).2
      let refused := held.admitPointer plainJson (fixturePointer "r0" 1) fixturePublisher .unverified
        (fixtureNow + 2)
      (held.notices.length = 1 ∧ refused.2.notices = []) ∧
        refused.1.isOk = false) ∧
      ((run (step plainJson) empty
        (.follow fixtureTarget :: fullWindow ++ [.clear, .follow fixtureTarget] ++
          fullWindow)).1.filterMap admission).countP (inWindow fixturePublisher fixtureNow) =
            16 := by
  refine ⟨?_, ?_, ?_⟩
  · decide +kernel
  · decide +kernel
  · have hwindow : ((run (step plainJson) empty
        (.follow fixtureTarget :: fullWindow)).1.filterMap admission).countP
          (inWindow fixturePublisher fixtureNow) = 8 := by decide +kernel
    -- behind the clearing the owner is the empty one again
    have hagain (owner : AdmissionOwner) : ((run (step plainJson) owner
        (.clear :: .follow fixtureTarget :: fullWindow)).1.filterMap admission).countP
          (inWindow fixturePublisher fixtureNow) = 8 := by
      rw [show (run (step plainJson) owner (.clear :: .follow fixtureTarget :: fullWindow)).1 =
        (.clear, .clear) :: (run (step plainJson) empty
          (.follow fixtureTarget :: fullWindow)).1 from rfl, filterMap_cons_none rfl, hwindow]
    rw [append_assoc, run_append_outputs, filterMap_append, countP_append,
      hwindow, cons_append, cons_append, nil_append, hagain]

end AdmissionOwner
end Omen.Browser
