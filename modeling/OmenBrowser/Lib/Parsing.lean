import OmenBrowser.Lib.Text
import OmenBrowser.Lib.Wire

/- Reading text back, by the documentation of `str`: `splitn`, `parse::<u64>` and
   `String::from_utf8_lossy`. -/
namespace Text
open Wire List

variable {separator c : Char} {cs : List Char}

/-! Parts. -/

/-- The characters before the first separator and those behind it (`split_once`). -/
def splitOnce (separator : Char) : List Char → Option (List Char × List Char)
  | [] => none
  | c :: cs =>
    if c = separator then some ([], cs)
    else (splitOnce separator cs).map (fun parts => (c :: parts.1, parts.2))

theorem splitOnce_append (h : separator ∉ cs) (rest : List Char) :
    splitOnce separator (cs ++ separator :: rest) = some (cs, rest) := by
  induction cs with
  | nil => simp [splitOnce]
  | cons c cs ih =>
    have hc : c ≠ separator := fun heq => h (heq ▸ mem_cons_self)
    have hcs : separator ∉ cs := fun hmem => h (mem_cons_of_mem c hmem)
    rw [cons_append, splitOnce, if_neg hc, ih hcs, Option.map_some]

/-- What stands before the first separator has none. -/
theorem splitOnce_notMem {before after : List Char}
    (h : splitOnce separator cs = some (before, after)) : separator ∉ before := by
  induction cs generalizing before with
  | nil => cases h
  | cons c cs ih =>
    unfold splitOnce at h
    split at h
    · cases h
      exact not_mem_nil
    · next hc =>
      obtain ⟨parts, hparts, heq⟩ := Option.map_eq_some_iff.mp h
      cases heq
      intro hmem
      rcases mem_cons.mp hmem with heq | hmem
      · exact hc heq.symm
      · exact ih hparts hmem

/-- The first part of a split. -/
theorem head?_splitOnP {α : Type} (p : α → Bool) (cs : List α) :
    (cs.splitOnP p).head? = some (cs.takeWhile (fun c => !p c)) := by
  induction cs with
  | nil => rfl
  | cons c cs ih =>
    rw [splitOnP_cons_eq_if_modifyHead]
    cases hc : p c with
    | true =>
      rw [if_pos rfl, takeWhile_cons_of_neg (by rw [hc]; decide)]
      rfl
    | false =>
      rw [if_neg Bool.false_ne_true, takeWhile_cons_of_pos (by rw [hc]; rfl),
        head?_modifyHead, ih]
      rfl

/-- The parts of a split are parts of the text, without a separator. -/
theorem mem_of_mem_splitOnP {α : Type} {p : α → Bool} {cs part : List α} {c : α}
    (hpart : part ∈ cs.splitOnP p) (hc : c ∈ part) : c ∈ cs ∧ p c = false := by
  induction cs generalizing part with
  | nil =>
    rw [splitOnP_nil] at hpart
    rw [mem_singleton.mp hpart] at hc
    cases hc
  | cons d cs ih =>
    have hlater : part ∈ cs.splitOnP p → c ∈ d :: cs ∧ p c = false :=
      fun hpart => (ih hpart hc).imp_left (mem_cons_of_mem d)
    rw [splitOnP_cons_eq_if_modifyHead] at hpart
    split at hpart
    · rcases mem_cons.mp hpart with rfl | hpart
      · cases hc
      · exact hlater hpart
    · next hd =>
      cases hsplit : cs.splitOnP p with
      | nil =>
        rw [hsplit] at hpart
        cases hpart
      | cons first parts =>
        rw [hsplit, modifyHead_cons] at hpart
        rcases mem_cons.mp hpart with rfl | hpart
        · rcases mem_cons.mp hc with rfl | hc
          · exact ⟨mem_cons_self, by simpa using hd⟩
          · exact (ih (hsplit ▸ mem_cons_self) hc).imp_left (mem_cons_of_mem d)
        · exact hlater (hsplit ▸ mem_cons_of_mem _ hpart)

theorem mem_of_mem_splitOn {part : List Char} (hpart : part ∈ cs.splitOn separator) (hc : c ∈ part)
    : c ∈ cs ∧ c ≠ separator := by
  rw [splitOn_eq_splitOnP] at hpart
  exact (mem_of_mem_splitOnP hpart hc).imp_right fun h => by simpa using h

theorem eq_of_splitOnce {before after : List Char}
    (h : splitOnce separator cs = some (before, after)) : cs = before ++ separator :: after := by
  induction cs generalizing before with
  | nil => cases h
  | cons d cs ih =>
    unfold splitOnce at h
    split at h
    · next hd =>
      cases h
      rw [hd, nil_append]
    · obtain ⟨parts, hparts, heq⟩ := Option.map_eq_some_iff.mp h
      cases heq
      rw [ih hparts, cons_append]

theorem mem_trimChars (h : c ∈ trimChars cs) : c ∈ cs := by
  have hreverse := mem_reverse.mp h
  have hleft := mem_reverse.mp ((dropWhile_sublist _).subset hreverse)
  exact (dropWhile_sublist _).subset hleft

/-! Numbers. -/

/-- The digits of a number, with a sign before them or without. -/
def unsignedDigits : List Char → List Char
  | '+' :: cs => cs
  | cs => cs

/-- `parse::<u64>().ok()`. -/
def parseU64 (cs : List Char) : Option Nat :=
  let digits := unsignedDigits cs
  let value := Nat.ofDigitChars 10 digits 0
  if digits ≠ [] ∧ digits.all Char.isDigit = true ∧ value < 2 ^ 64 then some value else none

/-- `parse::<i64>().ok()`. -/
def parseI64 (cs : List Char) : Option Int :=
  let (negative, digits) := match cs with
    | '-' :: cs => (true, cs)
    | cs => (false, unsignedDigits cs)
  let magnitude : Int := Nat.ofDigitChars 10 digits 0
  let value := if negative then -magnitude else magnitude
  if digits ≠ [] ∧ digits.all Char.isDigit = true ∧ -2 ^ 63 ≤ value ∧ value < 2 ^ 63 then some value
  else none

theorem isDigit_repr {n : Nat} (h : c ∈ n.repr.toList) : c.isDigit = true := by
  rw [Nat.toList_repr] at h
  exact Nat.isDigit_of_mem_toDigits (by decide) (by decide) h

variable (n : Nat)

theorem unsignedDigits_repr : unsignedDigits n.repr.toList = n.repr.toList := by
  unfold unsignedDigits
  split
  · next cs hcs =>
    have hplus : '+'.isDigit = true := isDigit_repr (n := n) (hcs ▸ mem_cons_self)
    exact absurd hplus (by decide)
  · rfl

theorem repr_ne_nil : n.repr.toList ≠ [] :=
  fun hnil => Nat.repr_ne_empty (String.toList_eq_nil_iff.mp hnil)

/-- A number that fits is read back. -/
theorem parseU64_repr : parseU64 n.repr.toList = if n < 2 ^ 64 then some n else none := by
  have hvalue : Nat.ofDigitChars 10 n.repr.toList 0 = n := by
    rw [Nat.toList_repr]
    simp
  have hdigits : n.repr.toList.all Char.isDigit = true :=
    all_eq_true.mpr fun c hc => isDigit_repr hc
  unfold parseU64
  simp only [unsignedDigits_repr, hvalue, hdigits, ne_eq, repr_ne_nil, not_false_eq_true, true_and]

theorem isWhitespace_digit (h : c.isDigit = true) : isWhitespace c = false := by
  have hbounds : 48 ≤ c.toNat ∧ c.toNat ≤ 57 := by
    simpa [Char.isDigit, UInt32.le_iff_toNat_le] using h
  simp only [isWhitespace, Bool.or_eq_false_iff, Bool.and_eq_false_iff, decide_eq_false_iff_not,
    beq_eq_false_iff_ne]
  omega

/-- Nothing is trimmed from characters none of which is white space. -/
theorem trimChars_of_not_whitespace (h : ∀ c ∈ cs, isWhitespace c = false) : trimChars cs = cs := by
  have hdrop : ∀ l : List Char, (∀ c ∈ l, isWhitespace c = false) →
      l.dropWhile isWhitespace = l := by
    intro l hl
    cases l with
    | nil => rfl
    | cons c l => exact dropWhile_cons_of_neg (by simp [hl c mem_cons_self])
  unfold trimChars
  rw [hdrop cs h, hdrop _ fun c hc => h c (mem_reverse.mp hc), reverse_reverse]

theorem trimChars_repr : trimChars n.repr.toList = n.repr.toList :=
  trimChars_of_not_whitespace fun _ hc => isWhitespace_digit (isDigit_repr hc)

/-! Bytes. -/

/-- A sequence of bytes under way: its value so far, the bytes that are missing, and the range of the
next one. -/
structure PartialChar where
  value : Nat
  missing : Nat
  low : UInt8
  high : UInt8

/-- What a byte starts. -/
inductive LeadByte where
  | char (c : Char)
  | sequence (p : PartialChar)
  | invalid

def leadByte (b : UInt8) : LeadByte :=
  if b < 0x80 then .char (Char.ofNat b.toNat)
  else if b < 0xc2 then .invalid
  else if b < 0xe0 then .sequence ⟨b.toNat - 0xc0, 1, 0x80, 0xbf⟩
  else if b < 0xf0 then
    .sequence ⟨b.toNat - 0xe0, 2, if b = 0xe0 then 0xa0 else 0x80, if b = 0xed then 0x9f else 0xbf⟩
  else if b < 0xf5 then
    .sequence ⟨b.toNat - 0xf0, 3, if b = 0xf0 then 0x90 else 0x80, if b = 0xf4 then 0x8f else 0xbf⟩
  else .invalid

/-- Each longest piece that could have become a character is replaced. -/
def lossyChars : Option PartialChar → Bytes → List Char
  | none, [] => []
  | some _, [] => ['\ufffd']
  | pending, b :: rest =>
    let start (replaced : List Char) : List Char :=
      match leadByte b with
      | .char c => replaced ++ c :: lossyChars none rest
      | .sequence p => replaced ++ lossyChars (some p) rest
      | .invalid => replaced ++ '\ufffd' :: lossyChars none rest
    match pending with
    | none => start []
    | some p =>
      if p.low ≤ b ∧ b ≤ p.high then
        let value := p.value * 64 + (b.toNat - 0x80)
        if p.missing = 1 then Char.ofNat value :: lossyChars none rest
        else lossyChars (some ⟨value, p.missing - 1, 0x80, 0xbf⟩) rest
      else start ['\ufffd']

/-- `String::from_utf8_lossy`. -/
def fromUtf8Lossy (bytes : Bytes) : String :=
  match asStr bytes with
  | some s => s
  | none => String.ofList (lossyChars none bytes)

@[simp] theorem fromUtf8Lossy_utf8 (s : String) : fromUtf8Lossy (utf8 s) = s := by
  unfold fromUtf8Lossy
  rw [asStr_utf8]

end Text
