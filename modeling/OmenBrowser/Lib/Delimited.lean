import Mathlib.Algebra.Group.Even
import Mathlib.Algebra.Ring.Parity
import Mathlib.Data.List.Basic

/- Frames between flags in a stream.

   One symbol opens a frame and the same symbol closes it. Symbols are taken one at a time: what is
   left over is a rest with at most one flag, and a flag after a flag completes a frame, from the
   first of them to the second. So the frames of a stream do not depend on how it is cut, and which
   flags are opening ones depends on the number of flags before them alone. -/
namespace Delimited
open List
variable {α : Type} [DecidableEq α] {flag : α}
  {r xs : List α}

/-- The frames that symbols complete after a rest, and what they leave. -/
def feed (flag : α) : List α → List α → List (List α) × List α
  | rest, [] => ([], rest)
  | rest, x :: xs =>
    if x = flag ∧ flag ∈ rest then
      let later := feed flag [] xs
      ((rest.dropWhile (· ≠ flag) ++ [x]) :: later.1, later.2)
    else feed flag (rest ++ [x]) xs

def frames (flag : α) (xs : List α) : List (List α) := (feed flag [] xs).1

def rest (flag : α) (xs : List α) : List α := (feed flag [] xs).2

/-- A frame is two flags with none between them. -/
def IsFrame (flag : α) (frame : List α) : Prop :=
  ∃ body, flag ∉ body ∧ frame = flag :: (body ++ [flag])

/-! Feeding. -/

theorem feed_nil (r : List α) : feed flag r [] = ([], r) := by
  rfl

theorem feed_close (x : α) (xs : List α) (h : x = flag ∧ flag ∈ r) :
    feed flag r (x :: xs) =
      ((r.dropWhile (· ≠ flag) ++ [x]) :: (feed flag [] xs).1, (feed flag [] xs).2) := by
  rw [feed, if_pos h]

theorem feed_open (x : α) (xs : List α) (h : ¬(x = flag ∧ flag ∈ r)) :
    feed flag r (x :: xs) = feed flag (r ++ [x]) xs := by
  rw [feed, if_neg h]

theorem feed_append (r xs ys : List α) :
    feed flag r (xs ++ ys) = ((feed flag r xs).1 ++ (feed flag (feed flag r xs).2 ys).1,
      (feed flag (feed flag r xs).2 ys).2) := by
  induction xs generalizing r with
  | nil => simp [feed_nil]
  | cons x xs ih =>
    by_cases h : x = flag ∧ flag ∈ r
    · simp only [cons_append, feed_close x _ h, ih]
    · simp only [cons_append, feed_open x _ h, ih]

/-- Symbols without a second flag complete nothing. -/
theorem feed_settled (h : (r ++ xs).count flag ≤ 1) : feed flag r xs = ([], r ++ xs) := by
  induction xs generalizing r with
  | nil => rw [append_nil, feed_nil]
  | cons x xs ih =>
    have hno : ¬(x = flag ∧ flag ∈ r) := by
      intro ⟨hx, hmem⟩
      have hpos := count_pos_iff.mpr hmem
      rw [count_append, hx, count_cons_self] at h
      omega
    have happend : r ++ x :: xs = (r ++ [x]) ++ xs := by simp
    rw [feed_open x xs hno, happend]
    exact ih (happend ▸ h)

theorem feed_quiet (h : flag ∉ xs) : feed flag r xs = ([], r ++ xs) := by
  induction xs generalizing r with
  | nil => rw [append_nil, feed_nil]
  | cons x xs ih =>
    have hx : ¬(x = flag ∧ flag ∈ r) := fun hx => h (hx.1 ▸ mem_cons_self)
    rw [feed_open x xs hx, ih fun hmem => h (mem_cons_of_mem x hmem), append_assoc]
    rfl

/-- What is left over is as good as its symbols. -/
theorem feed_rest (h : r.count flag ≤ 1) : feed flag r xs = feed flag [] (r ++ xs) := by
  rw [feed_append, feed_settled (r := []) (by simpa using h)]
  simp

/-- Whether a flag is left over goes by the number of flags. -/
theorem count_rest (r xs : List α) (h : r.count flag ≤ 1) :
    (feed flag r xs).2.count flag = (r.count flag + xs.count flag) % 2 := by
  induction xs generalizing r with
  | nil =>
    simp only [feed_nil, count_nil]
    omega
  | cons x xs ih =>
    by_cases hflag : x = flag
    · subst hflag
      by_cases hmem : x ∈ r
      · have hpos := count_pos_iff.mpr hmem
        simp only [feed_close x xs ⟨rfl, hmem⟩, ih [] (by simp), count_nil]
        rw [count_cons_self]
        omega
      · have hnone : r.count x = 0 := count_eq_zero.mpr hmem
        have hone : (r ++ [x]).count x = 1 := by
          rw [count_append, hnone]
          simp
        rw [feed_open x xs fun h => hmem h.2, ih (r ++ [x]) (by omega), hone,
          count_cons_self, hnone]
        omega
    · have hsame : (r ++ [x]).count flag = r.count flag := by
        rw [count_append, count_singleton]
        simp [hflag]
      rw [feed_open x xs fun h => hflag h.1, ih (r ++ [x]) (by omega), hsame,
        count_cons_of_ne hflag]

theorem flag_notMem_rest (hr : flag ∉ r) (hxs : Even (xs.count flag)) :
    flag ∉ (feed flag r xs).2 := by
  have hzero := count_eq_zero.mpr hr
  rw [← count_eq_zero, count_rest r xs (by omega), hzero, Nat.zero_add]
  exact Nat.even_iff.mp hxs

theorem length_rest (r xs : List α) : (feed flag r xs).2.length ≤ r.length + xs.length := by
  induction xs generalizing r with
  | nil => simp [feed_nil]
  | cons x xs ih =>
    by_cases h : x = flag ∧ flag ∈ r
    · have hle := ih []
      simp only [feed_close x xs h, length_cons, length_nil] at hle ⊢
      omega
    · have hle := ih (r ++ [x])
      simp only [feed_open x xs h, length_append, length_cons, length_nil] at hle ⊢
      omega

/-- Symbols in front of the first flag take no part in a frame. -/
theorem feed_prefix {d : List α} (hd : flag ∉ d) (r xs : List α) :
    (feed flag (d ++ r) xs).1 = (feed flag r xs).1 ∧
      ∃ d', flag ∉ d' ∧ (feed flag (d ++ r) xs).2 = d' ++ (feed flag r xs).2 := by
  induction xs generalizing r with
  | nil => exact ⟨by simp [feed_nil], d, hd, by simp [feed_nil]⟩
  | cons x xs ih =>
    have hmem : flag ∈ d ++ r ↔ flag ∈ r := by simp [hd]
    by_cases h : x = flag ∧ flag ∈ r
    · rw [feed_close x xs h, feed_close x xs ⟨h.1, hmem.mpr h.2⟩]
      refine ⟨?_, [], not_mem_nil, rfl⟩
      have hdrop : (d ++ r).dropWhile (· ≠ flag) = r.dropWhile (· ≠ flag) := by
        apply dropWhile_append_of_pos
        intro a ha
        simpa using ne_of_mem_of_not_mem ha hd
      rw [hdrop]
    · rw [feed_open x xs h, feed_open x xs fun hx => h ⟨hx.1, hmem.mp hx.2⟩, append_assoc]
      exact ih (r ++ [x])

theorem feed_frame {frame : List α} (hr : flag ∉ r) (h : IsFrame flag frame) :
    feed flag r frame = ([frame], []) := by
  obtain ⟨body, hbody, rfl⟩ := h
  have hopen : feed flag r (flag :: body) = ([], r ++ flag :: body) := by
    apply feed_settled
    rw [count_append, count_cons_self, count_eq_zero.mpr hr,
      count_eq_zero.mpr hbody]
  have hdrop : (r ++ flag :: body).dropWhile (· ≠ flag) = flag :: body := by
    rw [dropWhile_append_of_pos]
    · simp
    · intro a ha
      simpa using ne_of_mem_of_not_mem ha hr
  have hsplit : flag :: (body ++ [flag]) = (flag :: body) ++ [flag] := rfl
  rw [hsplit, feed_append, hopen]
  simp only [feed_close flag [] ⟨rfl, mem_append_right r mem_cons_self⟩, hdrop, feed_nil,
    nil_append]

theorem feed_noise {noise frame : List α} (hnoise : flag ∉ noise) (hframe : IsFrame flag frame)
    (later : List α) : feed flag [] (noise ++ (frame ++ later)) =
      (frame :: (feed flag [] later).1, (feed flag [] later).2) := by
  have hfirst : feed flag [] (noise ++ frame) = ([frame], []) := by
    rw [feed_append, feed_quiet hnoise]
    simp only [nil_append, feed_frame hnoise hframe]
  rw [← append_assoc, feed_append, hfirst]
  rfl

/-- The first flag splits symbols. -/
theorem idxOf?_split {i : Nat} (h : xs.idxOf? flag = some i) :
    ∃ before after, xs = before ++ flag :: after ∧ flag ∉ before ∧ i = before.length := by
  induction xs generalizing i with
  | nil => cases h
  | cons x xs ih =>
    rw [idxOf?_cons] at h
    by_cases hx : x = flag
    · simp only [hx, beq_self_eq_true, if_true, Option.some.injEq] at h
      exact ⟨[], xs, by rw [hx, nil_append], not_mem_nil, h.symm⟩
    · simp only [beq_iff_eq, hx, if_false, Option.map_eq_some_iff] at h
      obtain ⟨j, hj, rfl⟩ := h
      obtain ⟨before, after, rfl, hbefore, rfl⟩ := ih hj
      refine ⟨x :: before, after, rfl, ?_, rfl⟩
      intro hmem
      rcases mem_cons.mp hmem with heq | hmem
      · exact hx heq.symm
      · exact hbefore hmem

/-! Streams of frames. -/

/-- Frames, each behind some noise, and noise at the end. -/
def stream (parts : List (List α × List α)) (last : List α) : List α :=
  (parts.flatMap fun part => part.1 ++ part.2) ++ last

/-- Noise that closes what it opens, in front of a frame. -/
def Sound (flag : α) (parts : List (List α × List α)) : Prop :=
  ∀ part ∈ parts, Even (part.1.count flag) ∧ IsFrame flag part.2

omit [DecidableEq α] in
theorem stream_cons (part : List α × List α) (parts : List (List α × List α)) (last : List α) :
    stream (part :: parts) last = part.1 ++ (part.2 ++ stream parts last) := by
  simp [stream]

/-- Each frame of a stream is found in its place. -/
theorem frames_stream {parts : List (List α × List α)} (last : List α) (h : Sound flag parts) :
    frames flag (stream parts last) =
      (parts.flatMap fun part => frames flag part.1 ++ [part.2]) ++ frames flag last := by
  induction parts with
  | nil => rfl
  | cons part parts ih =>
    obtain ⟨heven, hframe⟩ := h part mem_cons_self
    have hrest : flag ∉ (feed flag [] part.1).2 := flag_notMem_rest not_mem_nil heven
    have hlater := ih fun part hmem => h part (mem_cons_of_mem _ hmem)
    unfold frames at hlater ⊢
    rw [stream_cons, feed_append, feed_append, feed_frame hrest hframe]
    simp only [hlater, flatMap_cons, append_assoc]

end Delimited
