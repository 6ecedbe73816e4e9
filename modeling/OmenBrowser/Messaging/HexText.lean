import OmenBrowser.Lib.Parsing
import OmenBrowser.Lib.Utf8Text
import OmenBrowser.Messaging.TicketIssuer

/- Hexadecimal text (`runtime/native_lxmf/codec.rs`, `messaging/store.rs`).

   Both parsers count bytes, cut the text two bytes at a time and hand each piece to
   `u8::from_str_radix`. A cut inside a character panics, and a piece may be a sign and one digit,
   so texts that are no digits are accepted as well (`signed_pair_accepted`). -/
namespace Omen.Messaging
open Wire Text List

-- `∀ c ∈ chars` is decided along the list, not over every character there is
attribute [local instance (high)] decidableBAll

variable {cs : List Char} {c : Char} {n : Nat}

/-! Digits. -/

def hexDigits : List Char := "0123456789abcdefABCDEF".toList

/-- `char::to_digit(16)`. -/
def hexValue (c : Char) : Option Nat :=
  (hexDigits.idxOf? c).map fun i => if i < 16 then i else i - 6

/-- `u8::from_str_radix(_, 16)`: a plus may stand before the digits. -/
def u8FromStrRadix16 (cs : List Char) : Option UInt8 :=
  let digits := unsignedDigits cs
  (digits.mapM hexValue).bind fun values =>
    let value := values.foldl (fun value digit => 16 * value + digit) 0
    if digits ≠ [] ∧ value < 256 then some value.toUInt8 else none

/-- `hex_bytes`. -/
def hexBytes (bytes : Bytes) : List Char :=
  bytes.flatMap fun byte => [Nat.digitChar (byte.toNat / 16), Nat.digitChar (byte.toNat % 16)]

theorem hexDigits_laws : ∀ c ∈ hexDigits, c.utf8Size = 1 ∧ c ≠ '+' ∧
    ∃ d < 16, hexValue c = some d ∧ Nat.digitChar d = c.toLower := by decide

theorem hexValue_none (h : c ∉ hexDigits) : hexValue c = none := by
  rw [hexValue, idxOf?_eq_none_iff.mpr h, Option.map_none]

/-! Parsers. -/

/-- The loop: what is left of the text is cut behind its next two bytes. There is nothing where a
cut panics. -/
def hexPairs : Nat → List Char → Option (Option Bytes)
  | 0, _ => some (some [])
  | n + 1, cs =>
    (splitAtByte cs 2).bind fun parts =>
      match u8FromStrRadix16 parts.1 with
      | none => some none
      | some byte => (hexPairs n parts.2).map (Option.map (byte :: ·))

/-- `parse_lxmf_hash`: the length is counted in bytes, and the text cut in pairs of them. -/
def parseLxmfHash (value : String) : Option (Except AppError Bytes) :=
  let value := trimChars value.toList
  if utf8Len value ≠ 32 then
    some (.error (.runtime "LXMF destination hash must be 32 hex characters"))
  else
    (hexPairs 16 value).map fun parsed =>
      match parsed with
      | some bytes => .ok bytes
      | none => .error (.runtime "LXMF destination hash is not valid hex")

/-- `hex_to_bytes`: the same of a text of any even length. -/
def hexToBytes (value : String) : Option (Option Bytes) :=
  let value := trimChars value.toList
  if utf8Len value % 2 ≠ 0 then some none else hexPairs (utf8Len value / 2) value

/-! Pairs. -/

/-- What is left behind the pairs in front that can be read: two digits, or a plus and a digit. -/
def behindPairs : List Char → List Char
  | a :: b :: cs =>
    if (a = '+' ∨ a ∈ hexDigits) ∧ b ∈ hexDigits then behindPairs cs else a :: b :: cs
  | cs => cs

theorem pair_digits : ∀ a ∈ hexDigits, ∀ b ∈ hexDigits,
    (u8FromStrRadix16 [a, b]).map (fun byte => hexBytes [byte]) = some [a.toLower, b.toLower] := by
  decide +kernel

theorem pair_signed : ∀ b ∈ hexDigits, (u8FromStrRadix16 ['+', b]).isSome = true := by decide

theorem unread_of_mem (hmem : c ∈ unsignedDigits cs) (h : c ∉ hexDigits) :
    u8FromStrRadix16 cs = none := by
  have hnone : ∀ digits : List Char, c ∈ digits → digits.mapM hexValue = none := by
    intro digits hmem
    induction digits with
    | nil => cases hmem
    | cons d digits ih =>
      rw [mapM_cons]
      rcases mem_cons.mp hmem with rfl | hmem
      · rw [hexValue_none h]
        rfl
      · rw [ih hmem]
        cases hexValue d <;> rfl
  unfold u8FromStrRadix16
  simp only [hnone _ hmem, Option.bind_none]

theorem unsignedDigits_of_ne (h : c ≠ '+') : unsignedDigits (c :: cs) = c :: cs := by
  unfold unsignedDigits
  split
  · next heq => exact absurd (cons.inj heq).1 h
  · rfl

/-- A pair can be read, or nothing comes of it. -/
theorem pair_unread {a b : Char} (h : ¬((a = '+' ∨ a ∈ hexDigits) ∧ b ∈ hexDigits)) :
    u8FromStrRadix16 [a, b] = none := by
  by_cases hb : b ∈ hexDigits
  · have ha : a ≠ '+' ∧ a ∉ hexDigits := by
      rw [← not_or]
      exact fun ha => h ⟨ha, hb⟩
    exact unread_of_mem (by rw [unsignedDigits_of_ne ha.1]; exact mem_cons_self) ha.2
  · refine unread_of_mem (c := b) ?_ hb
    unfold unsignedDigits
    split
    · next heq =>
      rw [← (cons.inj heq).2]
      exact mem_cons_self
    · exact mem_cons_of_mem _ mem_cons_self

theorem char_unread (h : c.utf8Size = 2) : u8FromStrRadix16 [c] = none := by
  have hc : c ∉ hexDigits := fun hmem => absurd ((hexDigits_laws c hmem).1.symm.trans h) (by decide)
  have hplus : c ≠ '+' := by
    rintro rfl
    cases h
  exact unread_of_mem (by rw [unsignedDigits_of_ne hplus]; exact mem_cons_self) hc

/-- Two bytes are one character or two. -/
theorem two_bytes (h : utf8Len cs = 2) :
    (∃ c, cs = [c] ∧ c.utf8Size = 2) ∨ ∃ a b, cs = [a, b] := by
  match cs with
  | [] => cases h
  | [c] => exact .inl ⟨c, rfl, by simpa using h⟩
  | [a, b] => exact .inr ⟨a, b, rfl⟩
  | a :: b :: c :: rest =>
    have ha := a.utf8Size_pos
    have hb := b.utf8Size_pos
    have hc := c.utf8Size_pos
    simp only [utf8Len_cons] at h
    omega

theorem hexPairs_unread (hcs : behindPairs cs = cs) :
    hexPairs (n + 1) cs = (splitAtByte cs 2).map fun _ => none := by
  rw [hexPairs]
  cases hcut : splitAtByte cs 2 with
  | none => rfl
  | some parts =>
    obtain ⟨hsplit, htwo⟩ := splitAtByte_some (show splitAtByte cs 2 = some (parts.1, parts.2) from hcut)
    have hnone : u8FromStrRadix16 parts.1 = none := by
      rcases two_bytes htwo.symm with ⟨c, hc, hsize⟩ | ⟨a, b, hab⟩
      · rw [hc]
        exact char_unread hsize
      · rw [hab]
        refine pair_unread fun hread => ?_
        -- the pair would have been passed over
        have hshort : ∀ cs, (behindPairs cs).length ≤ cs.length := by
          intro cs
          fun_induction behindPairs cs with
          | case1 a b cs _ ih =>
            rw [length_cons, length_cons]
            omega
          | case2 => exact Nat.le_refl _
          | case3 => exact Nat.le_refl _
        rw [hsplit, hab, cons_append, cons_append, nil_append, behindPairs, if_pos hread] at hcs
        have hlength := hshort parts.2
        rw [hcs, length_cons, length_cons] at hlength
        omega
    simp only [Option.bind_some, hnone, Option.map_some]

/-- A text of an even number of bytes is read, or the reading stops behind the pairs in front. -/
theorem hexPairs_run (h : utf8Len cs = 2 * n) :
    (behindPairs cs = [] ∧ ∃ bytes, hexPairs n cs = some (some bytes) ∧
      ('+' ∉ cs → (∀ c ∈ cs, c ∈ hexDigits) ∧ hexBytes bytes = cs.map Char.toLower)) ∨
    (behindPairs cs ≠ [] ∧
      hexPairs n cs = (splitAtByte (behindPairs cs) 2).map fun _ => none) := by
  -- by the pairs; a pair that cannot be read ends it, whatever stands behind
  induction n generalizing cs with
  | zero =>
    cases cs with
    | nil => exact .inl ⟨rfl, [], rfl, fun _ => ⟨nofun, rfl⟩⟩
    | cons c cs =>
      have hc := c.utf8Size_pos
      rw [utf8Len_cons] at h
      omega
  | succ n ih =>
    by_cases hread : ∃ a b rest, cs = a :: b :: rest ∧
        (a = '+' ∨ a ∈ hexDigits) ∧ b ∈ hexDigits
    · obtain ⟨a, b, rest, rfl, hread⟩ := hread
      have hb := hread.2
      have hsizes : a.utf8Size = 1 ∧ b.utf8Size = 1 := by
        refine ⟨?_, (hexDigits_laws b hb).1⟩
        rcases hread.1 with rfl | ha
        · rfl
        · exact (hexDigits_laws a ha).1
      have hcut : splitAtByte (a :: b :: rest) 2 = some ([a, b], rest) := by
        have htwo : utf8Len [a, b] = 2 := by
          simp [hsizes.1, hsizes.2]
        rw [← htwo]
        exact splitAtByte_append [a, b] rest
      -- a sign and a digit are read as a byte too
      obtain ⟨byte, hbyte⟩ : ∃ byte, u8FromStrRadix16 [a, b] = some byte := by
        rcases hread.1 with rfl | ha
        · exact Option.isSome_iff_exists.mp (pair_signed b hb)
        · obtain ⟨byte, hbyte, _⟩ :=
            Option.map_eq_some_iff.mp (pair_digits a ha b hb)
          exact ⟨byte, hbyte⟩
      have hpairs : hexPairs (n + 1) (a :: b :: rest) =
          (hexPairs n rest).map (Option.map (byte :: ·)) := by
        rw [hexPairs, hcut, Option.bind_some, hbyte]
      have hrest : utf8Len rest = 2 * n := by
        rw [utf8Len_cons, utf8Len_cons, hsizes.1, hsizes.2] at h
        omega
      rw [behindPairs, if_pos hread, hpairs]
      rcases ih hrest with ⟨hbehind, bytes, hbytes, hplain⟩ | ⟨hbehind, hstop⟩
      · refine .inl ⟨hbehind, byte :: bytes, by rw [hbytes]; rfl, fun hsign => ?_⟩
        obtain ⟨hdigits, hback⟩ :=
          hplain fun hmem => hsign (mem_cons_of_mem _ (mem_cons_of_mem _ hmem))
        have ha : a ∈ hexDigits := hread.1.resolve_left fun heq => hsign (heq ▸ mem_cons_self)
        have hpair := pair_digits a ha b hb
        rw [hbyte, Option.map_some] at hpair
        refine ⟨forall_mem_cons.mpr ⟨ha, forall_mem_cons.mpr ⟨hread.2, hdigits⟩⟩, ?_⟩
        rw [show hexBytes (byte :: bytes) = hexBytes [byte] ++ hexBytes bytes from
          @flatMap_append _ _ [byte] bytes _, Option.some.inj hpair, hback]
        rfl
      · refine .inr ⟨hbehind, ?_⟩
        rw [hstop]
        cases splitAtByte (behindPairs rest) 2 <;> rfl
    · have hbehind : behindPairs cs = cs := by
        unfold behindPairs
        split
        · next a b rest => exact if_neg fun h => hread ⟨a, b, rest, rfl, h⟩
        · rfl
      have hne : cs ≠ [] := by
        rintro rfl
        rw [utf8Len_nil] at h
        omega
      rw [hbehind]
      exact .inr ⟨hne, hexPairs_unread hbehind⟩

/-! Texts. -/

/-- The text is all digits, and an even number of them. -/
def Hexadecimal (text : List Char) : Prop :=
  text.length % 2 = 0 ∧ ∀ c ∈ text, c ∈ hexDigits

/-- Both parsers read this text as they should. -/
structure ParsesExactly (value : String) : Prop where
  hashReturns : parseLxmfHash value ≠ none
  bytesReturn : hexToBytes value ≠ none
  hashAccepts : (∃ hash, parseLxmfHash value = some (.ok hash)) ↔
    (trimChars value.toList).length = 32 ∧ ∀ c ∈ trimChars value.toList, c ∈ hexDigits
  bytesAccept : (∃ bytes, hexToBytes value = some (some bytes)) ↔
    Hexadecimal (trimChars value.toList)
  hashBack : ∀ hash, parseLxmfHash value = some (.ok hash) →
    hexBytes hash = (trimChars value.toList).map Char.toLower
  bytesBack : ∀ bytes, hexToBytes value = some (some bytes) →
    hexBytes bytes = (trimChars value.toList).map Char.toLower

/-- Where the trimmed text has an even number of bytes: behind the pairs that can be read two bytes
can be cut off, or there is nothing, and no sign in the text. -/
def CutsWell (value : String) : Prop :=
  let text := trimChars value.toList
  utf8Len text % 2 = 0 →
    if behindPairs text = [] then '+' ∉ text else (splitAtByte (behindPairs text) 2).isSome = true

theorem digits_bytes (h : ∀ c ∈ cs, c ∈ hexDigits) : utf8Len cs = cs.length := by
  induction cs with
  | nil => rfl
  | cons c cs ih =>
    obtain ⟨hc, hcs⟩ := forall_mem_cons.mp h
    rw [utf8Len_cons, (hexDigits_laws c hc).1, ih hcs, length_cons, Nat.add_comm]

theorem behindPairs_digits (h : Hexadecimal cs) : behindPairs cs = [] := by
  obtain ⟨heven, hdigits⟩ := h
  fun_induction behindPairs cs with
  | case1 a b cs _ ih =>
    rw [length_cons, length_cons] at heven
    exact ih (by omega) fun c hc => hdigits c (mem_cons_of_mem _ (mem_cons_of_mem _ hc))
  | case2 a b cs hpair => exact absurd ⟨.inr (hdigits a (by simp)), hdigits b (by simp)⟩ hpair
  | case3 cs hpair =>
    match cs with
    | [] => rfl
    | [_] => cases heven
    | a :: b :: cs => exact absurd rfl (hpair a b cs)

/-- What becomes of a text that cuts well. -/
theorem hexToBytes_spec {value : String} (h : CutsWell value) :
    (hexToBytes value = some none ∧ ¬Hexadecimal (trimChars value.toList)) ∨
    ∃ bytes, hexToBytes value = some (some bytes) ∧ Hexadecimal (trimChars value.toList) ∧
      hexBytes bytes = (trimChars value.toList).map Char.toLower := by
  unfold CutsWell at h
  unfold hexToBytes
  generalize trimChars value.toList = text at h ⊢
  by_cases heven : utf8Len text % 2 = 0
  · rw [if_neg (not_not.mpr heven)]
    rcases hexPairs_run (Nat.mul_div_cancel' (Nat.dvd_of_mod_eq_zero heven)).symm with
      ⟨hbehind, bytes, hbytes, hplain⟩ | ⟨hbehind, hstop⟩
    · have hsign := h heven
      rw [if_pos hbehind] at hsign
      obtain ⟨hdigits, hback⟩ := hplain hsign
      exact .inr ⟨bytes, hbytes, ⟨digits_bytes hdigits ▸ heven, hdigits⟩, hback⟩
    · have hcut := h heven
      rw [if_neg hbehind] at hcut
      obtain ⟨parts, hparts⟩ := Option.isSome_iff_exists.mp hcut
      rw [hstop, hparts]
      exact .inl ⟨rfl, fun hhex => hbehind (behindPairs_digits hhex)⟩
  · rw [if_pos heven]
    refine .inl ⟨rfl, fun hhex => heven ?_⟩
    rw [digits_bytes hhex.2]
    exact hhex.1

theorem parseLxmfHash_eq (value : String) : parseLxmfHash value =
    if utf8Len (trimChars value.toList) ≠ 32 then
      some (.error (.runtime "LXMF destination hash must be 32 hex characters"))
    else (hexToBytes value).map fun parsed =>
      match parsed with
      | some bytes => .ok bytes
      | none => .error (.runtime "LXMF destination hash is not valid hex") := by
  unfold parseLxmfHash hexToBytes
  generalize trimChars value.toList = text
  by_cases hlength : utf8Len text = 32
  · simp only [hlength]
    rfl
  · simp only [if_pos hlength]

theorem parsesExactly_iff (value : String) : ParsesExactly value ↔ CutsWell value := by
  constructor
  · intro h heven
    have hreturns := h.bytesReturn
    have haccepts := h.bytesAccept
    unfold hexToBytes at hreturns haccepts
    generalize trimChars value.toList = text at hreturns haccepts heven ⊢
    simp only [if_neg (not_not.mpr heven)] at hreturns haccepts
    -- an even text is read to its end, or the cut behind the last pair decides
    rcases hexPairs_run (Nat.mul_div_cancel' (Nat.dvd_of_mod_eq_zero heven)).symm with
      ⟨hbehind, bytes, hbytes, _⟩ | ⟨hbehind, hstop⟩
    · rw [if_pos hbehind]
      intro hsign
      exact (hexDigits_laws '+' ((haccepts.mp ⟨bytes, hbytes⟩).2 '+' hsign)).2.1 rfl
    · rw [if_neg hbehind]
      rw [hstop] at hreturns
      exact Option.isSome_iff_ne_none.mpr fun hnone => hreturns (by rw [hnone]; rfl)
  · intro h
    have heq := parseLxmfHash_eq value
    -- refused, or read as bytes that are written back as the text
    rcases hexToBytes_spec h with ⟨hbytes, hhex⟩ | ⟨bytes, hbytes, hhex, hback⟩
    · rw [hbytes] at heq
      have hhash : ∀ hash, parseLxmfHash value ≠ some (.ok hash) := by
        intro hash hparse
        rw [heq] at hparse
        split at hparse <;> cases hparse
      exact {
        hashReturns := by
          rw [heq]
          split <;> nofun
        bytesReturn := by
          rw [hbytes]
          nofun
        hashAccepts := iff_of_false (fun ⟨hash, hparse⟩ => hhash hash hparse)
          fun hdigits => hhex ⟨by rw [hdigits.1], hdigits.2⟩
        bytesAccept := iff_of_false (fun ⟨_, hparse⟩ => by cases hbytes.symm.trans hparse) hhex
        hashBack := fun hash hparse => absurd hparse (hhash hash)
        bytesBack := fun _ hparse => by cases hbytes.symm.trans hparse }
    · rw [hbytes, digits_bytes hhex.2] at heq
      exact {
        hashReturns := by
          rw [heq]
          split <;> nofun
        bytesReturn := by
          rw [hbytes]
          nofun
        hashAccepts := by
          rw [heq]
          split
          · next hlength => exact iff_of_false (fun ⟨_, h⟩ => by cases h) fun h => hlength h.1
          · next hlength => exact iff_of_true ⟨bytes, rfl⟩ ⟨not_not.mp hlength, hhex.2⟩
        bytesAccept := iff_of_true ⟨bytes, hbytes⟩ hhex
        hashBack := by
          intro hash hparse
          rw [heq] at hparse
          split at hparse
          · cases hparse
          · cases hparse
            exact hback
        bytesBack := by
          intro bytes' hparse
          cases hbytes.symm.trans hparse
          exact hback }

/-- Two texts are read exactly, and as one destination only if they are one text but for case and
surrounding spaces, iff both cut well. -/
theorem hex_parsers_exact_iff (value other : String) :
    (ParsesExactly value ∧ ParsesExactly other ∧ ∀ hash, parseLxmfHash value = some (.ok hash) →
      parseLxmfHash other = some (.ok hash) → (trimChars value.toList).map Char.toLower =
        (trimChars other.toList).map Char.toLower) ↔ CutsWell value ∧ CutsWell other := by
  rw [← parsesExactly_iff, ← parsesExactly_iff]
  constructor
  · rintro ⟨hvalue, hother, _⟩
    exact ⟨hvalue, hother⟩
  · rintro ⟨hvalue, hother⟩
    refine ⟨hvalue, hother, fun hash h h' => ?_⟩
    rw [← hvalue.hashBack hash h, ← hother.hashBack hash h']

/-- Plus signs are taken for zeros. -/
theorem signed_pair_accepted : ¬ParsesExactly "+a+a+a+a+a+a+a+a+a+a+a+a+a+a+a+a" := by
  intro h
  have hplus := (h.hashAccepts.mp ⟨replicate 16 10, by decide +kernel⟩).2 '+' (by decide +kernel)
  exact absurd hplus (by decide)

end Omen.Messaging
