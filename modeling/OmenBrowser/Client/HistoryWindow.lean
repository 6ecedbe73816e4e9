import OmenBrowser.Client.HistorySync

/- What the window of a session drops (`enforce_history_window`).

   The places are ranked by two sorts and dropped from the front until the rest fits. The second
   sort is of one condition only and keeps the order of the first on both sides of it, so that what
   is dropped is the shortest front of a list in which the protected key comes last
   (`history_window_trimmed`). -/
namespace Omen.Client
open Sql List

variable {retainedBytes : ChatEvent → Nat} {edge : HistoryWindowEdge} {protect : Option EventKey}
  {events : List ChatEvent} {key : EventKey}

def fits (retainedBytes : ChatEvent → Nat) (entries : List (ChatEvent × Nat)) : Bool :=
  withinWindow entries.length (entries.map fun e => retainedBytes e.1).sum

/-- An event that is not protected goes before one that is, and among others age decides. -/
def DroppedBefore (edge : HistoryWindowEdge) (protect : Option EventKey) (a b : ChatEvent × Nat) :
    Prop :=
  if protect = some a.1.key ↔ protect = some b.1.key then
    match edge with
    | .oldest => (byAge b a).isLE = true
    | .newest => (byAge a b).isLE = true
  else protect = some b.1.key

/-- What is kept of the events, and what of them is gone. -/
structure Trimmed (retainedBytes : ChatEvent → Nat) (edge : HistoryWindowEdge)
    (protect : Option EventKey) (events kept : List ChatEvent) (gone rest : List (ChatEvent × Nat)) :
    Prop where
  sublist : kept.Sublist events
  items : kept.length ≤ chatSessionHistoryMaxEvents
  bytes : retainedHistoryBytes retainedBytes kept ≤ chatSessionHistoryMaxBytes
  places : (gone ++ rest).Perm events.zipIdx
  others : kept = (events.zipIdx.filter (fun e => !(gone.map Prod.snd).contains e.2)).map Prod.fst
  ranked : (gone ++ rest).Pairwise (DroppedBefore edge protect)
  shortest : ∀ front back, gone ++ rest = front ++ back → fits retainedBytes back = true →
    gone.length ≤ front.length
  /-- The protected key goes only if it does not fit alone. -/
  guarded : ∀ key, protect = some key → (∃ e ∈ gone, e.1.key = key) →
    withinWindow (events.filter fun e => e.key == key).length
      (retainedHistoryBytes retainedBytes (events.filter fun e => e.key == key)) = false
  unchanged : withinWindow events.length (retainedHistoryBytes retainedBytes events) = true →
    kept = events

/-! The order. -/

/-- A sort by a condition keeps the order on both sides of it. -/
theorem orderBy_condition {ρ : Type} (p : ρ → Bool) (rows : List ρ) :
    orderBy (fun a b => compare (p a) (p b)) rows =
      rows.filter (fun r => !p r) ++ rows.filter p := by
  induction rows with
  | nil => rfl
  | cons r rows ih =>
    have hinsert : ∀ back : List ρ, (∀ b ∈ back, p b = true) → ∀ front : List ρ,
        (∀ b ∈ front, p b = false) →
        (front ++ back).orderedInsert (fun a b => (compare (p a) (p b)).isLE = true) r =
          if p r then front ++ r :: back else r :: (front ++ back) := by
      intro back hback front hfront
      induction front with
      | nil =>
        cases back with
        | nil => cases p r <;> rfl
        | cons b back =>
          rw [nil_append, orderedInsert, hback b mem_cons_self]
          cases p r <;> rfl
      | cons b front ihf =>
        obtain ⟨hb, hfront⟩ := forall_mem_cons.mp hfront
        rw [cons_append, orderedInsert, hb, ihf hfront]
        cases p r <;> rfl
    show orderedInsert _ r (orderBy _ rows) = _
    rw [ih, hinsert _ (fun b hb => (mem_filter.mp hb).2) _
      (fun b hb => (Bool.not_eq_true' _).mp (mem_filter.mp hb).2), filter_cons,
      filter_cons]
    cases p r <;> rfl

theorem dropOrder_perm : (dropOrder edge protect events).Perm events.zipIdx := by
  have hranked : (match edge with
      | .oldest => (orderBy byAge events.zipIdx).reverse
      | .newest => orderBy byAge events.zipIdx).Perm events.zipIdx := by
    cases edge with
    | oldest => exact (reverse_perm _).trans (perm_orderBy byAge _)
    | newest => exact perm_orderBy byAge _
  cases protect with
  | none => exact hranked
  | some key => exact (perm_orderBy _ _).trans hranked

theorem dropOrder_ranked : (dropOrder edge protect events).Pairwise (DroppedBefore edge protect) := by
  have hsorted := Table.pairwise_orderBy byAge events.zipIdx
  have hranked : (match edge with
      | .oldest => (orderBy byAge events.zipIdx).reverse
      | .newest => orderBy byAge events.zipIdx).Pairwise (DroppedBefore edge none) := by
    cases edge with
    | oldest => exact pairwise_reverse.mpr (hsorted.imp fun h => h)
    | newest => exact hsorted
  cases protect with
  | none => exact hranked
  | some key =>
    have hsame : ∀ {a b : ChatEvent × Nat}, DroppedBefore edge none a b →
        (a.1.key == key) = (b.1.key == key) → DroppedBefore edge (some key) a b := by
      intro a b hage hkey
      have hiff : some key = some a.1.key ↔ some key = some b.1.key := by
        rw [Option.some_inj, Option.some_inj, eq_comm, ← beq_iff_eq, hkey, beq_iff_eq, eq_comm]
      unfold DroppedBefore at hage ⊢
      rw [if_pos hiff]
      exact hage
    show List.Pairwise _ (orderBy (fun a b : ChatEvent × Nat => compare (a.1.key == key) (b.1.key == key)) _)
    rw [orderBy_condition fun e : ChatEvent × Nat => e.1.key == key]
    refine pairwise_append.mpr ⟨?_, ?_, ?_⟩
    · refine (hranked.filter _).imp_of_mem fun {a b} ha hb hage => hsame hage ?_
      rw [(Bool.not_eq_true' _).mp (mem_filter.mp ha).2,
        (Bool.not_eq_true' _).mp (mem_filter.mp hb).2]
    · refine (hranked.filter _).imp_of_mem fun {a b} ha hb hage => hsame hage ?_
      rw [(mem_filter.mp ha).2, (mem_filter.mp hb).2]
    · intro a ha b hb
      have hother := bne_iff_ne.mp (mem_filter.mp ha).2
      have hkey := beq_iff_eq.mp (mem_filter.mp hb).2
      unfold DroppedBefore
      rw [if_neg fun h => hother (Option.some_inj.mp (h.mpr (congrArg some hkey.symm))).symm, hkey]

/-! What is dropped. -/

theorem fits_sublist {entries entries' : List (ChatEvent × Nat)} (hsub : entries.Sublist entries')
    (h : fits retainedBytes entries' = true) : fits retainedBytes entries = true :=
  withinWindow_mono hsub.length_le ((hsub.map _).sum_le_sum fun _ _ => Nat.zero_le _) h

/-- The shortest front goes behind which the rest fits. -/
theorem dropped_front (order : List (ChatEvent × Nat)) :
    ∃ gone rest, order = gone ++ rest ∧
      dropped retainedBytes order.length (order.map fun e => retainedBytes e.1).sum order =
        gone.map Prod.snd ∧
      fits retainedBytes rest = true ∧
      ∀ front back, order = front ++ back → fits retainedBytes back = true →
        gone.length ≤ front.length := by
  induction order with
  | nil => exact ⟨[], [], rfl, rfl, rfl, fun _ _ _ _ => Nat.zero_le _⟩
  | cons e order ih =>
    cases hfits : fits retainedBytes (e :: order) with
    | true => exact ⟨[], e :: order, rfl, dropped_within hfits _, hfits, fun _ _ _ _ => Nat.zero_le _⟩
    | false =>
      obtain ⟨gone, rest, horder, hdropped, hrest, hshortest⟩ := ih
      refine ⟨e :: gone, rest, congrArg (e :: ·) horder, ?_, hrest, ?_⟩
      · unfold fits at hfits
        rw [dropped, hfits, if_neg Bool.false_ne_true, length_cons, Nat.add_sub_cancel,
          map_cons, sum_cons, Nat.add_sub_cancel_left, hdropped, map_cons]
      · intro front back hsplit hback
        cases front with
        | nil =>
          rw [nil_append] at hsplit
          rw [hsplit, hback] at hfits
          cases hfits
        | cons _ front =>
          rw [cons_append, cons.injEq] at hsplit
          exact Nat.succ_le_succ (hshortest front back hsplit.2 hback)

/-- The events whose places are not dropped are those of the rest. -/
theorem kept_perm {gone rest : List (ChatEvent × Nat)} (h : (gone ++ rest).Perm events.zipIdx) :
    (events.zipIdx.filter (fun e => !(gone.map Prod.snd).contains e.2)).Perm rest := by
  have hplaces : ((gone ++ rest).map Prod.snd).Nodup :=
    (h.map Prod.snd).nodup_iff.mpr (nodup_places events)
  rw [map_append, nodup_append] at hplaces
  refine (h.symm.filter _).trans ?_
  rw [filter_append, filter_eq_nil_iff.mpr, nil_append, filter_eq_self.mpr]
  · intro e he
    rw [Bool.not_eq_true', ← Bool.not_eq_true, contains_iff_mem]
    exact fun hgone => hplaces.2.2 _ hgone _ (mem_map_of_mem he) rfl
  · intro e he
    rw [Bool.not_eq_true', Bool.not_eq_false, contains_iff_mem]
    exact mem_map_of_mem he

/-- The window keeps all but the shortest front of the events, in the order they go, that leaves it
within its limits; the protected key is the last to go. -/
theorem history_window_trimmed (retainedBytes : ChatEvent → Nat) (edge : HistoryWindowEdge)
    (protect : Option EventKey) (events : List ChatEvent) :
    ∃ gone rest, Trimmed retainedBytes edge protect events
      (enforceHistoryWindow retainedBytes edge protect events) gone rest := by
  have hperm : (dropOrder edge protect events).Perm events.zipIdx := dropOrder_perm
  have hbytes : ((dropOrder edge protect events).map fun e => retainedBytes e.1).sum =
      retainedHistoryBytes retainedBytes events := by
    rw [(hperm.map fun e => retainedBytes e.1).sum_eq, retainedHistoryBytes,
      ← zipIdx_map_fst 0 events, map_map, zipIdx_map_fst]
    rfl
  obtain ⟨gone, rest, horder, hdropped, hrest, hshortest⟩ :=
    @dropped_front retainedBytes (dropOrder edge protect events)
  have hranked : (dropOrder edge protect events).Pairwise (DroppedBefore edge protect) :=
    dropOrder_ranked
  have hothers : enforceHistoryWindow retainedBytes edge protect events =
      (events.zipIdx.filter (fun e => !(gone.map Prod.snd).contains e.2)).map Prod.fst := by
    unfold enforceHistoryWindow
    rw [← hdropped, hperm.length_eq, length_zipIdx, hbytes]
  rw [horder] at hperm hranked hshortest
  have hkept := kept_perm hperm
  have hfits : withinWindow (enforceHistoryWindow retainedBytes edge protect events).length
      (retainedHistoryBytes retainedBytes
        (enforceHistoryWindow retainedBytes edge protect events)) = true := by
    rw [hothers, length_map, hkept.length_eq, retainedHistoryBytes, map_map,
      (hkept.map _).sum_eq]
    exact hrest
  rw [withinWindow, Bool.and_eq_true, decide_eq_true_iff, decide_eq_true_iff] at hfits
  refine ⟨gone, rest, enforceHistoryWindow_sublist _ _ _ _, hfits.1, hfits.2, hperm, hothers, hranked,
    hshortest, ?_, ?_⟩
  · rintro key rfl ⟨e, he, hkey⟩
    obtain ⟨front, back, rfl⟩ := append_of_mem he
    rw [append_assoc, cons_append] at hranked hshortest hperm
    -- the protected key goes last, so behind one of its events are only more of them
    have hbehind : ∀ b ∈ e :: (back ++ rest), (b.1.key == key) = true := by
      obtain ⟨hfirst, _⟩ := pairwise_cons.mp (pairwise_append.mp hranked).2.1
      refine forall_mem_cons.mpr ⟨beq_iff_eq.mpr hkey, fun b hb => ?_⟩
      have hbefore := hfirst b hb
      unfold DroppedBefore at hbefore
      split at hbefore
      · next hsame => exact beq_iff_eq.mpr (Option.some_inj.mp (hsame.mp (congrArg some hkey.symm))).symm
      · exact beq_iff_eq.mpr (Option.some_inj.mp hbefore).symm
    refine Bool.eq_false_iff.mpr fun hall => ?_
    have hevents : (events.zipIdx.filter fun e => e.1.key == key).map Prod.fst =
        events.filter fun e => e.key == key := by
      conv_rhs => rw [← zipIdx_map_fst 0 events, filter_map]
      rfl
    have hfitting : fits retainedBytes
        ((front ++ e :: (back ++ rest)).filter fun e => e.1.key == key) = true := by
      have hsame := hperm.filter fun e => e.1.key == key
      rw [← hevents, length_map, retainedHistoryBytes, map_map, ← hsame.length_eq,
        ← (hsame.map _).sum_eq] at hall
      exact hall
    have hback : fits retainedBytes (e :: (back ++ rest)) = true := by
      refine fits_sublist ?_ hfitting
      rw [filter_append, filter_eq_self.mpr hbehind]
      exact sublist_append_right _ _
    -- then the front before it would have been enough
    have hshort := hshortest front _ rfl hback
    rw [length_append, length_cons] at hshort
    omega
  · intro hwithin
    rw [withinWindow, Bool.and_eq_true, decide_eq_true_iff, decide_eq_true_iff] at hwithin
    exact enforceHistoryWindow_within hwithin.1 hwithin.2

/-- Of two events with the protected key the first goes, though each fits alone. -/
theorem protected_twin_dropped :
    let first : ChatEvent := ⟨"s", 1, 7, none, none, 0, .message "a"⟩
    let second : ChatEvent := ⟨"s", 1, 7, none, none, 0, .message "b"⟩
    enforceHistoryWindow (fun _ => 5000000) .newest (some (1, 7)) [first, second] = [second] ∧
      retainedHistoryBytes (fun _ => 5000000) [first] ≤ chatSessionHistoryMaxBytes := by
  decide

end Omen.Client
