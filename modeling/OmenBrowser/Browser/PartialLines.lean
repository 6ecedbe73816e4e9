import OmenBrowser.Browser.Partials
import OmenBrowser.Micron.LineRows

/- Where the partials of a page are found, and where they are shown.

   `extractFrom_eq` lists the specs of a page within the limits, `lineRow_shows` the rows of its
   lines. Both read the text behind "`{", the specs at the beginning of a line only and in literal
   text too, and they cut the target out of it by different delimiters: so they agree if and only if
   the page has no line on which this matters. -/
namespace Omen.Browser
open Text Micron List Option

-- `∀ c ∈ chars` is decided along the list, not over every character there is
attribute [local instance (high)] decidableBAll

variable {c : Char} {raw line markup : Chars} {rawLines : List Chars} {i : Nat}

/-! Targets. -/

/-- A character that ends the target on neither side. -/
def PlainTarget (c : Char) : Prop := c ≠ '\x7d' ∧ c ≠ '\x60' ∧ c ≠ ' ' ∧ c ≠ '|' ∧ c ≠ ';'

/-- A text of which both sides read the same target: the target alone, and braces. -/
def SimpleDescriptor (raw : Chars) : Prop :=
  ∃ target n, target ≠ [] ∧ (∀ c ∈ target, PlainTarget c) ∧ raw = target ++ replicate n '\x7d'

section Targets
variable {raw target : Chars}

theorem descriptorTarget_eq (raw : Chars) :
    descriptorTarget raw =
      (raw.takeWhile (· ≠ '\x7d')).takeWhile (fun c => !(c == '\x60')) := by
  have hhead := head?_splitOnP (· == '\x60') (raw.takeWhile (· ≠ '\x7d'))
  unfold descriptorTarget descriptorParts descriptorOf
  rw [splitOn_eq_splitOnP, headD_eq_head?_getD, hhead]
  rfl

/-- What separates the target from what follows, for the rows. -/
def slotSeparator (c : Char) : Bool := c == ' ' || c == '|' || c == ';'

/-- The target of a row whose text begins with no separator. -/
theorem slotDescriptor_url {rest : Chars} (h : raw.rdropWhile (· == '\x7d') = c :: rest)
    (hc : slotSeparator c = false) :
    (slotDescriptor raw).url = (c :: rest).takeWhile (fun c => !slotSeparator c) := by
  have hhead := head?_splitOnP slotSeparator (c :: rest)
  have hfirst : (c :: rest).takeWhile (fun c => !slotSeparator c) ≠ [] := by
    rw [takeWhile_cons_of_pos (by rw [hc]; rfl)]
    exact cons_ne_nil _ _
  show ((((raw.rdropWhile (· == '\x7d')).splitOnP slotSeparator).find? (· ≠ [])).getD
    "invalid".toList) = _
  rw [h]
  cases hsplit : (c :: rest).splitOnP slotSeparator with
  | nil =>
    rw [hsplit] at hhead
    cases hhead
  | cons first parts =>
    rw [hsplit] at hhead
    cases hhead
    rw [find?_cons_of_pos (by simpa using hfirst)]
    rfl

theorem slotSeparator_plain (h : PlainTarget c) : slotSeparator c = false := by
  obtain ⟨-, -, hspace, hbar, hsemicolon⟩ := h
  simp [slotSeparator, hspace, hbar, hsemicolon]

theorem takeWhile_all {α : Type} {p : α → Bool} {l : List α} (h : ∀ a ∈ l, p a = true) :
    l.takeWhile p = l := takeWhile_eq_self_iff.mpr h

/-- A target goes on up to a brace or a backtick. -/
theorem descriptorTarget_cons (hbrace : c ≠ '\x7d') (htick : c ≠ '\x60') (rest : Chars) :
    descriptorTarget (c :: rest) = c :: descriptorTarget rest := by
  have hb : decide (c ≠ '\x7d') = true := decide_eq_true hbrace
  have ht : (!(c == '\x60')) = true := by simpa using htick
  simp only [descriptorTarget_eq, takeWhile_cons, hb, ht, if_true]

theorem descriptorTarget_stop (h : c = '\x7d' ∨ c = '\x60') (rest : Chars) :
    descriptorTarget (c :: rest) = [] := by
  rw [descriptorTarget_eq]
  rcases h with rfl | rfl
  · rfl
  · rfl

variable (hplain : ∀ c ∈ target, PlainTarget c)
include hplain

theorem descriptorTarget_append (rest : Chars) :
    descriptorTarget (target ++ rest) = target ++ descriptorTarget rest := by
  induction target with
  | nil => rfl
  | cons c target ih =>
    obtain ⟨hbrace, htick, -⟩ := hplain c mem_cons_self
    rw [cons_append, descriptorTarget_cons hbrace htick,
      ih fun d hd => hplain d (mem_cons_of_mem c hd), cons_append]

variable (n : Nat)

/-- Both read the same target of a simple text. -/
theorem descriptorTarget_simple : descriptorTarget (target ++ replicate n '\x7d') = target := by
  rw [descriptorTarget_append hplain]
  cases n with
  | zero => exact append_nil _
  | succ n => rw [replicate_succ, descriptorTarget_stop (.inl rfl), append_nil]

theorem rdropWhile_braces : (target ++ replicate n '\x7d').rdropWhile (· == '\x7d') = target := by
  induction n with
  | zero =>
    rw [replicate_zero, append_nil]
    rcases eq_nil_or_concat' target with rfl | ⟨init, c, rfl⟩
    · rfl
    · have hc := (hplain c (mem_append_right _ mem_cons_self)).1
      exact rdropWhile_concat_neg _ _ _ (by simpa using hc)
  | succ n ih =>
    rw [replicate_succ', ← append_assoc, rdropWhile_concat_pos _ _ _ (by decide)]
    exact ih

omit hplain

theorem url_simple (hne : target ≠ []) (hplain : ∀ c ∈ target, PlainTarget c) (n : Nat) :
    (slotDescriptor (target ++ replicate n '\x7d')).url = target := by
  have hstrip := rdropWhile_braces hplain n
  cases target with
  | nil => exact absurd rfl hne
  | cons c rest =>
    rw [slotDescriptor_url hstrip (slotSeparator_plain (hplain c mem_cons_self))]
    refine takeWhile_all fun d hd => ?_
    rw [slotSeparator_plain (hplain d hd)]
    rfl

/-- No target of a row has a separator. -/
theorem url_separator (hc : c ∈ (slotDescriptor raw).url) : slotSeparator c = false := by
  have hurl : (slotDescriptor raw).url = ((((raw.rdropWhile (· == '\x7d')).splitOnP
    slotSeparator).find? (· ≠ [])).getD "invalid".toList) := rfl
  rw [hurl] at hc
  cases hfind : ((raw.rdropWhile (· == '\x7d')).splitOnP slotSeparator).find? (· ≠ []) with
  | none =>
    rw [hfind, getD_none] at hc
    have hinvalid : ∀ c ∈ "invalid".toList, slotSeparator c = false := by decide +kernel
    exact hinvalid c hc
  | some part =>
    rw [hfind, getD_some] at hc
    exact (mem_of_mem_splitOnP (mem_of_find?_eq_some hfind) hc).2

/-- The characters of a target that is read on both sides. -/
theorem target_plain (hurl : (slotDescriptor raw).url = descriptorTarget raw)
    (hc : c ∈ descriptorTarget raw) : PlainTarget c := by
  have hseparator : slotSeparator c = false := url_separator (hurl ▸ hc)
  rw [descriptorTarget_eq] at hc
  have htick := mem_takeWhile_imp hc
  have hbrace := mem_takeWhile_imp (takeWhile_subset _ hc)
  simp only [slotSeparator, Bool.or_eq_false_iff, beq_eq_false_iff_ne] at hseparator
  exact ⟨of_decide_eq_true hbrace, by simpa using htick, hseparator.1.1, hseparator.1.2,
    hseparator.2⟩

/-- A text of which both read the same target is simple. -/
theorem simple_of_url (hne : descriptorTarget raw ≠ [])
    (hurl : (slotDescriptor raw).url = descriptorTarget raw) : SimpleDescriptor raw := by
  have hplain : ∀ c ∈ descriptorTarget raw, PlainTarget c := fun c hc => target_plain hurl hc
  have hbraces : ∃ n, raw = raw.rdropWhile (· == '\x7d') ++ replicate n '\x7d' := by
    have hall : raw.rtakeWhile (· == '\x7d') =
        replicate (raw.rtakeWhile (· == '\x7d')).length '\x7d' := by
      refine eq_replicate_of_mem fun c hc => ?_
      simpa using mem_rtakeWhile_imp hc
    exact ⟨_, by rw [← hall, rdropWhile_append_rtakeWhile]⟩
  obtain ⟨n, hraw⟩ := hbraces
  -- the text begins with the target, so with no separator
  cases hstrip : raw.rdropWhile (· == '\x7d') with
  | nil =>
    rw [hstrip] at hraw
    rw [hraw, @descriptorTarget_simple [] (fun _ h => nomatch h)] at hne
    exact absurd rfl hne
  | cons c rest =>
    rw [hstrip, cons_append] at hraw
    have hfirst : ∃ tail, descriptorTarget raw = c :: tail := by
      by_cases hstop : c = '\x7d' ∨ c = '\x60'
      · rw [hraw, descriptorTarget_stop hstop] at hne
        exact absurd rfl hne
      · obtain ⟨hbrace, htick⟩ := not_or.mp hstop
        exact ⟨_, by rw [hraw, descriptorTarget_cons hbrace htick]⟩
    obtain ⟨tail, htail⟩ := hfirst
    have hc : slotSeparator c = false :=
      slotSeparator_plain (hplain c (htail ▸ mem_cons_self))
    rw [slotDescriptor_url hstrip hc] at hurl
    have hparts := takeWhile_append_dropWhile (p := fun c => !slotSeparator c) (l := c :: rest)
    rw [hurl] at hparts
    cases hbehind : (c :: rest).dropWhile (fun c => !slotSeparator c) with
    | nil =>
      rw [hbehind, append_nil] at hparts
      refine ⟨_, n, hne, hplain, ?_⟩
      rw [hparts]
      exact hraw
    | cons d more =>
      -- a separator ends the row's target only
      exfalso
      have hstop := head?_dropWhile_not (fun c => !slotSeparator c) (c :: rest)
      rw [hbehind] at hstop hparts
      have hd : slotSeparator d = true := by simpa using hstop
      have hbrace : d ≠ '\x7d' := by
        rintro rfl
        exact absurd hd (by decide)
      have htick : d ≠ '\x60' := by
        rintro rfl
        exact absurd hd (by decide)
      rw [← cons_append, ← hparts, append_assoc, cons_append] at hraw
      have hlonger := descriptorTarget_append hplain (d :: (more ++ replicate n '\x7d'))
      rw [← hraw, descriptorTarget_cons hbrace htick] at hlonger
      have hlength := congrArg length hlonger
      rw [length_append, length_cons] at hlength
      omega

end Targets

/-! Specs. -/

/-- The limits of a descriptor. -/
def DescriptorFits (raw : Chars) : Prop :=
  utf8Len (descriptorOf raw) ≤ micronLinkRawMaxBytes ∧
    utf8Len (descriptorTarget raw) ≤ micronLinkTargetMaxBytes ∧
    (takeFields (descriptorParts raw)).isSome = true

/-- The descriptors that name a target, at the beginnings of lines. -/
def namedDescriptors (rawLines : List Chars) : List Chars :=
  (rawLines.filterMap partialRaw).filter (descriptorTarget · ≠ [])

/-- A page of which neither side drops anything. -/
structure WithinLimits (markup : Chars) : Prop where
  parsed : ∃ document, parseMicron markup = some document ∧ document.limitsApplied = false
  descriptors : ∀ raw ∈ namedDescriptors (lines markup), DescriptorFits raw
  items : (namedDescriptors (lines markup)).length ≤ partialSpecMaxItems
  bytes : ((namedDescriptors (lines markup)).map utf8Len).sum ≤ partialSpecsMaxBytes

section Specs
variable {φ : Type} (parseRefresh : Chars → Option φ) (lineHash : Chars → Chars)

/-- The spec of a line, by itself. -/
def specAt (line : Chars) (lineIndex : Nat) : Option (PartialSpec φ) :=
  ((partialRaw line).bind (tryParsePartialDescriptor parseRefresh)).map
    (specOf lineHash line lineIndex)

theorem tryParse_unnamed (h : descriptorTarget raw = []) :
    tryParsePartialDescriptor parseRefresh raw = none := by
  unfold tryParsePartialDescriptor
  split
  · rfl
  · rw [if_pos (.inl h)]

theorem tryParse_named (hne : descriptorTarget raw ≠ []) (hfits : DescriptorFits raw) :
    ∃ parsed, tryParsePartialDescriptor parseRefresh raw = some parsed ∧
      parsed.target = descriptorTarget raw := by
  obtain ⟨hraw, htarget, hfields⟩ := hfits
  obtain ⟨loop, hloop⟩ := isSome_iff_exists.mp hfields
  unfold tryParsePartialDescriptor
  rw [if_neg (Nat.not_lt.mpr hraw),
    if_neg (not_or.mpr ⟨hne, Nat.not_lt.mpr htarget⟩), hloop]
  exact ⟨_, rfl, rfl⟩

variable (lineIndex : Nat) (rest : List Chars)

theorem specAt_none (h : ∀ raw, partialRaw line = some raw → descriptorTarget raw = []) :
    specAt parseRefresh lineHash line lineIndex = none := by
  unfold specAt
  cases hraw : partialRaw line with
  | none => rfl
  | some raw => rw [bind_some, tryParse_unnamed parseRefresh (h raw hraw), map_none]

theorem specAt_some (hraw : partialRaw line = some raw) (hne : descriptorTarget raw ≠ [])
    (hfits : DescriptorFits raw) :
    ∃ spec, specAt parseRefresh lineHash line lineIndex = some spec ∧
      spec.lineIndex = lineIndex ∧ spec.target = descriptorTarget raw := by
  obtain ⟨parsed, hparsed, htarget⟩ := tryParse_named parseRefresh hne hfits
  refine ⟨specOf lineHash line lineIndex parsed, ?_, rfl, htarget⟩
  unfold specAt
  rw [hraw, bind_some, hparsed, map_some]

theorem namedDescriptors_cons (hraw : partialRaw line = some raw)
    (hne : descriptorTarget raw ≠ []) :
    namedDescriptors (line :: rest) = raw :: namedDescriptors rest := by
  unfold namedDescriptors
  rw [filterMap_cons_some hraw]
  exact filter_cons_of_pos (decide_eq_true hne)

theorem namedDescriptors_unnamed
    (h : ∀ raw, partialRaw line = some raw → descriptorTarget raw = []) :
    namedDescriptors (line :: rest) = namedDescriptors rest := by
  unfold namedDescriptors
  cases hraw : partialRaw line with
  | none => rw [filterMap_cons_none hraw]
  | some raw =>
    rw [filterMap_cons_some hraw, filter_cons_of_neg]
    rw [h raw hraw]
    decide

/-- The specs are those of the lines, each by itself, where there is room for all. -/
theorem extractFrom_eq {lineIndex : Nat} {specs : List (PartialSpec φ)} {retainedBytes : Nat}
    (hfits : ∀ raw ∈ namedDescriptors rawLines, DescriptorFits raw)
    (hitems : specs.length + (namedDescriptors rawLines).length ≤ partialSpecMaxItems)
    (hbytes : retainedBytes + ((namedDescriptors rawLines).map utf8Len).sum ≤ partialSpecsMaxBytes) :
    extractFrom parseRefresh lineHash rawLines lineIndex specs retainedBytes =
      specs ++ (rawLines.zipIdx lineIndex).filterMap fun (line, lineIndex) =>
        specAt parseRefresh lineHash line lineIndex := by
  induction rawLines generalizing lineIndex specs retainedBytes with
  | nil => exact (append_nil _).symm
  | cons line rest ih =>
    rw [zipIdx_cons, filterMap_cons]
    unfold extractFrom
    by_cases hnamed : ∃ raw, partialRaw line = some raw ∧ descriptorTarget raw ≠ []
    · obtain ⟨raw, hraw, hne⟩ := hnamed
      rw [namedDescriptors_cons rest hraw hne] at hfits hitems hbytes
      obtain ⟨parsed, hparsed, -⟩ := tryParse_named parseRefresh hne
        (hfits raw mem_cons_self)
      have hspec : specAt parseRefresh lineHash line lineIndex =
          some (specOf lineHash line lineIndex parsed) := by
        unfold specAt
        rw [hraw, bind_some, hparsed, map_some]
      rw [length_cons] at hitems
      rw [map_cons, sum_cons] at hbytes
      simp only [hraw, bind_some, hparsed, map_some, hspec]
      -- neither the number of specs nor their bytes are at the limit
      rw [if_neg (by omega), if_neg (by omega),
        ih (fun raw hmem => hfits raw (mem_cons_of_mem _ hmem))
          (by rw [length_append, length_singleton]; omega) (by omega),
        append_assoc, singleton_append]
    · have hunnamed : ∀ raw, partialRaw line = some raw → descriptorTarget raw = [] := by
        intro raw hraw
        by_contra hne
        exact hnamed ⟨raw, hraw, hne⟩
      rw [namedDescriptors_unnamed rest hunnamed] at hfits hitems hbytes
      have hnone : ((partialRaw line).bind fun raw =>
          (tryParsePartialDescriptor parseRefresh raw).map fun parsed => (raw, parsed)) = none := by
        cases hraw : partialRaw line with
        | none => rfl
        | some raw =>
          rw [bind_some, tryParse_unnamed parseRefresh (hunnamed raw hraw), map_none]
      have hspec := specAt_none parseRefresh lineHash lineIndex hunnamed
      simp only [hnone, hspec]
      exact ih hfits hitems hbytes

theorem extractPartialSpecs_eq (h : WithinLimits markup) :
    extractPartialSpecs parseRefresh lineHash markup =
      (lines markup).zipIdx.filterMap fun (line, lineIndex) =>
        specAt parseRefresh lineHash line lineIndex :=
  extractFrom_eq parseRefresh lineHash h.descriptors (by simpa using h.items)
    (by simpa using h.bytes)

/-- The lines that have a spec, and its target. -/
theorem mem_extractPartialSpecs (h : WithinLimits markup) {spec : PartialSpec φ}
    (hspec : spec ∈ extractPartialSpecs parseRefresh lineHash markup) :
    ∃ line raw, (lines markup)[spec.lineIndex]? = some line ∧ partialRaw line = some raw ∧
      descriptorTarget raw ≠ [] ∧ spec.target = descriptorTarget raw := by
  rw [extractPartialSpecs_eq parseRefresh lineHash h] at hspec
  obtain ⟨⟨line, lineIndex⟩, hmem, hspec⟩ := mem_filterMap.mp hspec
  have hline := mem_zipIdx_iff_getElem?.mp hmem
  by_cases hnamed : ∃ raw, partialRaw line = some raw ∧ descriptorTarget raw ≠ []
  · obtain ⟨raw, hraw, hne⟩ := hnamed
    have hfits := h.descriptors raw (mem_filter.mpr
      ⟨mem_filterMap.mpr ⟨line, mem_of_getElem? hline, hraw⟩, decide_eq_true hne⟩)
    obtain ⟨spec', hspec', hindex, htarget⟩ :=
      specAt_some parseRefresh lineHash lineIndex hraw hne hfits
    obtain rfl : spec' = spec := some.inj (hspec'.symm.trans hspec)
    rw [hindex]
    exact ⟨line, raw, hline, hraw, hne, htarget⟩
  · have hnone := specAt_none parseRefresh lineHash lineIndex fun raw hraw => by
      by_contra hne
      exact hnamed ⟨raw, hraw, hne⟩
    cases hnone.symm.trans hspec

/-- A line that names a target has a spec. -/
theorem exists_extractPartialSpecs (h : WithinLimits markup)
    (hline : (lines markup)[i]? = some line) (hraw : partialRaw line = some raw)
    (hne : descriptorTarget raw ≠ []) :
    ∃ spec ∈ extractPartialSpecs parseRefresh lineHash markup, spec.lineIndex = i ∧
      spec.target = descriptorTarget raw := by
  have hfits := h.descriptors raw (mem_filter.mpr
    ⟨mem_filterMap.mpr ⟨line, mem_of_getElem? hline, hraw⟩, decide_eq_true hne⟩)
  obtain ⟨spec, hspec, hindex, htarget⟩ :=
    specAt_some parseRefresh lineHash i hraw hne hfits
  refine ⟨spec, ?_, hindex, htarget⟩
  rw [extractPartialSpecs_eq parseRefresh lineHash h]
  exact mem_filterMap.mpr ⟨(line, i), mem_zipIdx_iff_getElem?.mpr hline, hspec⟩

end Specs

/-! Lines. -/

/-- A line that begins as a partial does is one, wherever it is not literal. -/
structure OpensSlot (line raw : Chars) : Prop where
  directive : ¬Directive line
  reset : innermost line = line
  slot : slotRaw line = some raw

theorem partialRaw_eq_some : partialRaw line = some raw ↔ line = "`\x7b".toList ++ raw := by
  unfold partialRaw
  constructor
  · intro h
    split at h
    · next hopens =>
      obtain ⟨tail, rfl⟩ := hopens
      cases h
      rfl
    · cases h
  · rintro rfl
    rw [if_pos (prefix_append _ _)]
    rfl

theorem opensSlot (h : partialRaw line = some raw) : OpensSlot line raw := by
  obtain rfl := partialRaw_eq_some.mp h
  have hspecial : Special '\x60' := by decide
  have hbare : (bareColorDirective ("`\x7b".toList ++ raw)).isSome = false := by
    cases hcolor : bareColorDirective ("`\x7b".toList ++ raw) with
    | none => rfl
    | some color => exact absurd hspecial (bareColor_plain hcolor _ mem_cons_self)
  have hprefixed : colorPrefixedLine ("`\x7b".toList ++ raw) = none := by
    cases hcolor : colorPrefixedLine ("`\x7b".toList ++ raw) with
    | none => rfl
    | some parts => exact absurd hspecial (colorPrefix_plain hcolor)
  have hlogical : logicalLine ("`\x7b".toList ++ raw) = some ("`\x7b".toList ++ raw) := by
    unfold logicalLine
    have hhash : ¬['#'] <+: "`\x7b".toList ++ raw := by
      rintro ⟨tail, htail⟩
      cases htail
    have hstrip : (stripEscape ("`\x7b".toList ++ raw)).1 = "`\x7b".toList ++ raw := rfl
    rw [hstrip, if_neg hhash, hbare, if_neg Bool.false_ne_true, hprefixed]
  refine ⟨?_, innermost_of_none ?_, ?_⟩
  · rintro (hmark | hmeta)
    · obtain ⟨tail, htail⟩ := hmark
      cases htail
    · rw [show "`\x7b".toList ++ raw = '\x60' :: '\x7b' :: raw from rfl,
        bareMetadata_special hspecial] at hmeta
      cases hmeta
  · unfold behindReset
    rw [hlogical]
    rfl
  · unfold slotRaw
    rw [hlogical]
    rfl

/-- The slot that a line shows, if it is not in literal text. -/
theorem shownSlot_of_partialRaw (h : partialRaw line = some raw) :
    shownSlot false line = some raw := by
  obtain ⟨hdirective, hreset, hslot⟩ := opensSlot h
  unfold shownSlot
  rw [if_neg (by rintro (h | h); exacts [hdirective h, nomatch h]), hreset]
  exact hslot

theorem shownSlot_literal (line : Chars) : shownSlot true line = none := by
  unfold shownSlot
  rw [if_pos (.inr rfl)]

/-! Agreement. -/

/-- The row of a line is a partial. -/
def IsSlotRow (rawLines : List Chars) (i : Nat) : Prop :=
  ∃ row, lineRow rawLines i = some row ∧ row.kind = .slot

section Agreement
variable {φ : Type} (parseRefresh : Chars → Option φ) (lineHash : Chars → Chars)

/-- What is found on a page is what is shown on it, and nothing else is replaced. -/
structure PartialsAgree (markup : Chars) : Prop where
  found : ∀ i, (∃ spec ∈ extractPartialSpecs parseRefresh lineHash markup, spec.lineIndex = i) ↔
    IsSlotRow (lines markup) i
  target : ∀ spec ∈ extractPartialSpecs parseRefresh lineHash markup, ∀ row slot,
    lineRow (lines markup) spec.lineIndex = some row → row.slot = some slot →
    slot.url = spec.target
  kept : ∀ partialContents : Chars → Option Chars, ∃ blocks : Nat → List Chars,
    (composeMarkupWithPartials (extractPartialSpecs parseRefresh lineHash markup) partialContents
        markup = markup ∨
      composeMarkupWithPartials (extractPartialSpecs parseRefresh lineHash markup) partialContents
        markup = ['\n'].intercalate ((range (lines markup).length).flatMap blocks)) ∧
    ∀ i line, (lines markup)[i]? = some line → ¬IsSlotRow (lines markup) i → blocks i = [line]

/-- No line makes a difference: literal text names no partial at the beginning of a line, and what
is shown as a partial is a simple one at the beginning of its line. -/
structure PlainPartials (markup : Chars) : Prop where
  literal : ∀ i line raw, (lines markup)[i]? = some line → literalBefore (lines markup) i = true →
    partialRaw line = some raw → descriptorTarget raw = []
  shown : ∀ i line raw, (lines markup)[i]? = some line →
    shownSlot (literalBefore (lines markup) i) line = some raw →
    line = "`\x7b".toList ++ raw ∧ SimpleDescriptor raw

/-- What stands in the place of each line. -/
theorem compose_blocks (specs : List (PartialSpec φ)) (partialContents : Chars → Option Chars)
    (markup : Chars) : ∃ blocks : Nat → List Chars,
      (composeMarkupWithPartials specs partialContents markup = markup ∨
        composeMarkupWithPartials specs partialContents markup =
          ['\n'].intercalate ((range (lines markup).length).flatMap blocks)) ∧
      ∀ i line, (lines markup)[i]? = some line → (¬∃ spec ∈ specs, spec.lineIndex = i) →
        blocks i = [line] := by
  refine ⟨fun i => ((lines markup)[i]?.map (composeLine specs partialContents i)).getD [],
    ?_, ?_⟩
  · by_cases hempty : specs.isEmpty = true
    · left
      unfold composeMarkupWithPartials
      rw [if_pos hempty]
    · right
      unfold composeMarkupWithPartials
      rw [if_neg hempty]
      refine congrArg (['\n'].intercalate) ?_
      rw [flatMap_def, flatMap_def]
      refine congrArg flatten (ext_getElem ?_ fun i hi _ => ?_)
      · rw [length_map, length_map, length_zipIdx, length_range]
      · rw [length_map, length_zipIdx] at hi
        rw [getElem_map, getElem_map, getElem_zipIdx, getElem_range, Nat.zero_add,
          getElem?_eq_getElem hi]
        rfl
  · intro i line hline hnone
    have hfind : specs.reverse.find? (fun spec => spec.lineIndex = i) = none := by
      refine find?_eq_none.mpr fun spec hspec => ?_
      simpa using fun heq => hnone ⟨spec, mem_reverse.mp hspec, heq⟩
    dsimp only
    rw [hline, map_some, getD_some]
    unfold composeLine
    rw [hfind]

theorem slotRow_iff (h : WithinLimits markup) (hline : (lines markup)[i]? = some line) :
    IsSlotRow (lines markup) i ↔
      (shownSlot (literalBefore (lines markup) i) line).isSome = true := by
  obtain ⟨document, hparse, hflag⟩ := h.parsed
  obtain ⟨p, hlines, hfalse, -⟩ := parseMicron_lines hparse hflag
  have hshows := lineRow_shows hlines hfalse hline
  cases hshown : shownSlot (literalBefore (lines markup) i) line with
  | none =>
    rw [hshown] at hshows
    refine iff_of_false ?_ (by decide)
    rintro ⟨row, hrow, hkind⟩
    exact hshows row hrow hkind
  | some raw =>
    rw [hshown] at hshows
    obtain ⟨row, hrow, hkind, -⟩ := hshows
    exact iff_of_true ⟨row, hrow, hkind⟩ rfl

theorem exists_line_of_slotRow (h : IsSlotRow rawLines i) : ∃ line, rawLines[i]? = some line := by
  obtain ⟨row, hrow, -⟩ := h
  cases hline : rawLines[i]? with
  | some line => exact ⟨line, rfl⟩
  | none =>
    -- behind the last line nothing is added
    have hlength := getElem?_eq_none_iff.mp hline
    unfold lineRow at hrow
    rw [take_of_length_le hlength, take_of_length_le (Nat.le_succ_of_le hlength)] at hrow
    obtain ⟨before, hbefore, hrow⟩ := bind_eq_some_iff.mp hrow
    rw [hbefore, bind_eq_bind, bind_some, getElem?_eq_none (Nat.le_refl _)] at hrow
    cases hrow

theorem slotRow_slot (h : WithinLimits markup) (hline : (lines markup)[i]? = some line)
    (hshown : shownSlot (literalBefore (lines markup) i) line = some raw) :
    ∃ row, lineRow (lines markup) i = some row ∧ row.slot = some (slotDescriptor raw) := by
  obtain ⟨document, hparse, hflag⟩ := h.parsed
  obtain ⟨p, hlines, hfalse, -⟩ := parseMicron_lines hparse hflag
  have hshows := lineRow_shows hlines hfalse hline
  rw [hshown] at hshows
  obtain ⟨row, hrow, -, hslot⟩ := hshows
  exact ⟨row, hrow, hslot⟩

/-- Partials are found where they are shown if and only if the page has plain partials only. -/
theorem partials_agree_iff {markup : Chars} (h : WithinLimits markup) :
    PartialsAgree parseRefresh lineHash markup ↔ PlainPartials markup := by
  have hnamed : ∀ i line raw, (lines markup)[i]? = some line → partialRaw line = some raw →
      literalBefore (lines markup) i = false →
      shownSlot (literalBefore (lines markup) i) line = some raw := by
    intro i line raw hline hraw hliteral
    rw [hliteral]
    exact shownSlot_of_partialRaw hraw
  constructor
  · intro hagree
    constructor
    · intro i line raw hline hliteral hraw
      -- a partial in a literal block would be found, and the block shows no slot
      by_contra hne
      obtain ⟨spec, hspec, hindex, -⟩ :=
        exists_extractPartialSpecs parseRefresh lineHash h hline hraw hne
      have hrow := (slotRow_iff h hline).mp ((hagree.found i).mp ⟨spec, hspec, hindex⟩)
      rw [hliteral, shownSlot_literal] at hrow
      cases hrow
    · intro i line raw hline hshown
      have hslotRow := (slotRow_iff h hline).mpr (by rw [hshown]; rfl)
      obtain ⟨spec, hspec, rfl⟩ := (hagree.found i).mpr hslotRow
      obtain ⟨line', raw', hline', hraw, hne, htarget⟩ :=
        mem_extractPartialSpecs parseRefresh lineHash h hspec
      cases hline.symm.trans hline'
      have hliteral : literalBefore (lines markup) spec.lineIndex = false := by
        cases hmode : literalBefore (lines markup) spec.lineIndex with
        | false => rfl
        | true =>
          rw [hmode, shownSlot_literal] at hshown
          cases hshown
      have hsame := hnamed _ line raw' hline hraw hliteral
      cases hshown.symm.trans hsame
      -- both readings of the descriptor name one target only if it is simple
      refine ⟨partialRaw_eq_some.mp hraw, simple_of_url hne ?_⟩
      obtain ⟨row, hrow, hslot⟩ := slotRow_slot h hline hshown
      rw [← htarget]
      exact hagree.target spec hspec row _ hrow hslot
  · intro hplain
    -- on a plain page what is found is outside every literal block, so it is shown
    have hunliteral : ∀ i line raw, (lines markup)[i]? = some line → partialRaw line = some raw →
        descriptorTarget raw ≠ [] → shownSlot (literalBefore (lines markup) i) line = some raw := by
      intro i line raw hline hraw hne
      cases hmode : literalBefore (lines markup) i with
      | false => exact shownSlot_of_partialRaw hraw
      | true => exact absurd (hplain.literal i line raw hline hmode hraw) hne
    have hfound : ∀ i, (∃ spec ∈ extractPartialSpecs parseRefresh lineHash markup,
        spec.lineIndex = i) ↔ IsSlotRow (lines markup) i := by
      intro i
      constructor
      · rintro ⟨spec, hspec, rfl⟩
        obtain ⟨line, raw, hline, hraw, hne, -⟩ :=
          mem_extractPartialSpecs parseRefresh lineHash h hspec
        rw [slotRow_iff h hline, hunliteral _ line raw hline hraw hne]
        rfl
      · intro hslotRow
        obtain ⟨line, hline⟩ := exists_line_of_slotRow hslotRow
        obtain ⟨raw, hshown⟩ := isSome_iff_exists.mp ((slotRow_iff h hline).mp hslotRow)
        obtain ⟨hopens, target, n, hne, htarget, rfl⟩ := hplain.shown i line raw hline hshown
        have hread := descriptorTarget_simple htarget n
        obtain ⟨spec, hspec, hindex, -⟩ := exists_extractPartialSpecs parseRefresh lineHash h hline
          (partialRaw_eq_some.mpr hopens) (by rw [hread]; exact hne)
        exact ⟨spec, hspec, hindex⟩
    refine ⟨hfound, ?_, ?_⟩
    · intro spec hspec row slot hrow hslot
      obtain ⟨line, raw, hline, hraw, hne, htarget⟩ :=
        mem_extractPartialSpecs parseRefresh lineHash h hspec
      have hshown := hunliteral _ line raw hline hraw hne
      obtain ⟨-, target, n, hsome, hplainTarget, rfl⟩ := hplain.shown _ line raw hline hshown
      obtain ⟨row', hrow', hslot'⟩ := slotRow_slot h hline hshown
      cases hrow.symm.trans hrow'
      cases hslot.symm.trans hslot'
      rw [htarget, url_simple hsome hplainTarget, descriptorTarget_simple hplainTarget]
    · intro partialContents
      obtain ⟨blocks, hcompose, hkept⟩ := compose_blocks
        (extractPartialSpecs parseRefresh lineHash markup) partialContents markup
      exact ⟨blocks, hcompose, fun i line hline hrow => hkept i line hline fun hspec =>
        hrow ((hfound i).mp hspec)⟩

end Agreement

/-! A page with one partial, and the same partial in literal text. -/

/-- A page with a partial between two lines. -/
def plainPage : Chars := "top\n`\x7bt\x7d\nend".toList

/-- The same line where it is text. -/
def literalPage : Chars := "`=\n`\x7bt\x7d\n`=".toList

theorem withinLimits_of_parse (raw : Chars)
    (hparse : (parseMicron markup).any (fun document => !document.limitsApplied) = true)
    (hnamed : namedDescriptors (lines markup) = [raw]) (hfits : DescriptorFits raw)
    (hbytes : utf8Len raw ≤ partialSpecsMaxBytes) : WithinLimits markup := by
  refine ⟨?_, ?_, ?_, ?_⟩
  · cases hdocument : parseMicron markup with
    | none =>
      rw [hdocument] at hparse
      cases hparse
    | some document =>
      rw [hdocument, any_some] at hparse
      exact ⟨document, rfl, by simpa using hparse⟩
  · rw [hnamed]
    exact fun raw' hmem => mem_singleton.mp hmem ▸ hfits
  · rw [hnamed, length_singleton]
    decide
  · rw [hnamed, map_singleton, sum_singleton]
    exact hbytes

theorem partials_agree_plainPage :
    WithinLimits plainPage ∧ (PartialsAgree (φ := Nat) (fun _ => none) id plainPage ↔
      PlainPartials plainPage) := by
  have hwithin : WithinLimits plainPage := by
    refine withinLimits_of_parse "t\x7d".toList (by decide +kernel) (by decide +kernel)
      ⟨by decide +kernel, by decide +kernel, by decide +kernel⟩ (by decide +kernel)
  exact ⟨hwithin, partials_agree_iff _ _ hwithin⟩

/-- A partial is fetched, and its line replaced, though the page shows the line as text. -/
theorem partial_in_literal_text :
    WithinLimits literalPage ∧ ¬PartialsAgree (φ := Nat) (fun _ => none) id literalPage := by
  refine ⟨?_, fun hagree => ?_⟩
  · exact withinLimits_of_parse "t\x7d".toList (by decide +kernel) (by decide +kernel)
      ⟨by decide +kernel, by decide +kernel, by decide +kernel⟩ (by decide +kernel)
  · have hspec : (extractPartialSpecs (φ := Nat) (fun _ => none) id literalPage).any
        (fun spec => spec.lineIndex = 1) = true := by decide +kernel
    obtain ⟨spec, hmem, hindex⟩ := any_eq_true.mp hspec
    obtain ⟨row, hrow, hkind⟩ := (hagree.found 1).mp ⟨spec, hmem, of_decide_eq_true hindex⟩
    have htext : (lineRow (lines literalPage) 1).map RenderRow.kind = some .text := by
      decide +kernel
    rw [hrow, map_some, hkind] at htext
    cases htext

end Omen.Browser
