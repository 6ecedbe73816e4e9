import OmenBrowser.Micron.Scanner

/- Text that is meant to be shown as it is.

   The scanner shows escaped text as it is. The commands of a line are looked for behind the escape
   of its first character, though, and directives in literal lines too: the text of a line is what
   was meant if and only if it is none of these. -/
namespace Omen.Micron
open Text List Option Inline

-- `∀ c ∈ chars` is decided along the list, not over every character there is
attribute [local instance (high)] decidableBAll

variable {c : Char} {text line rest color logical : Chars} {preEscape : Bool}
  {fragments : List Fragment}

/-- What has to be escaped within a line. -/
def Special (c : Char) : Prop := c = '\x60' ∨ c = '\\'

instance : DecidablePred Special := fun c => inferInstanceAs (Decidable (c = '\x60' ∨ c = '\\'))

/-- The text as it is written to be shown. -/
def escapeChars (text : Chars) : Chars :=
  text.flatMap fun c => if Special c then ['\\', c] else [c]

/-- A backslash before the first character and before every other backtick and backslash. -/
def escapeText : Chars → Chars
  | [] => []
  | c :: rest => '\\' :: c :: escapeChars rest

theorem escapeChars_cons (c : Char) (text : Chars) :
    escapeChars (c :: text) = (if Special c then ['\\', c] else [c]) ++ escapeChars text :=
  flatMap_cons

theorem escapeChars_special (h : Special c) (text : Chars) :
    escapeChars (c :: text) = '\\' :: c :: escapeChars text := by
  rw [escapeChars_cons, if_pos h]
  rfl

theorem escapeChars_plain (h : ¬Special c) (text : Chars) :
    escapeChars (c :: text) = c :: escapeChars text := by
  rw [escapeChars_cons, if_neg h]
  rfl

theorem escapeChars_append (before after : Chars) :
    escapeChars (before ++ after) = escapeChars before ++ escapeChars after := flatMap_append

theorem escapeChars_of_plain (h : ∀ c ∈ text, ¬Special c) : escapeChars text = text := by
  induction text with
  | nil => rfl
  | cons c text ih =>
    rw [escapeChars_plain (h c mem_cons_self), ih fun d hd => h d (mem_cons_of_mem c hd)]

/-! The scanner. -/

section Scan
variable {chars : Chars} {s : Inline} {c : Char} {rest text : Chars}

variable (h : chars.drop s.i = c :: rest)
include h

theorem getElem?_of_drop : chars[s.i]? = some c := by
  rw [← head?_drop, h]
  rfl

theorem drop_succ : chars.drop (s.i + 1) = rest := by
  rw [← tail_drop, h]
  rfl

theorem lt_of_drop : s.i < chars.length :=
  (List.getElem?_eq_some_iff.mp (getElem?_of_drop h)).1

/-- An escaped character is text, whatever it is. -/
theorem inlineStep_escaped (hescape : s.escape = true) :
    inlineStep chars s =
      some { s with buffer := s.buffer ++ [c], escape := false, i := s.i + 1 } := by
  unfold inlineStep
  rw [getElem?_of_drop h, bind_eq_bind, bind_some]
  split
  · rfl
  · rw [if_pos (.inr hescape)]

theorem inlineStep_plain (hc : ¬Special c) :
    inlineStep chars s =
      some { s with buffer := s.buffer ++ [c], escape := false, i := s.i + 1 } := by
  unfold inlineStep
  rw [getElem?_of_drop h, bind_eq_bind, bind_some]
  rw [if_neg fun heq => hc (.inr heq), if_pos (.inl fun heq => hc (.inl heq))]

omit h

theorem inlineStep_backslash (h : chars.drop s.i = '\\' :: rest) (hescape : s.escape = false) :
    inlineStep chars s = some { s with escape := true, i := s.i + 1 } := by
  unfold inlineStep
  rw [getElem?_of_drop h, bind_eq_bind, bind_some]
  rw [if_pos rfl, hescape, if_neg Bool.false_ne_true]

theorem inlineLoop_step {fuel : Nat} {s' : Inline} (hlt : s.i < chars.length)
    (h : inlineStep chars s = some s') : inlineLoop chars (fuel + 1) s = inlineLoop chars fuel s' := by
  rw [inlineLoop, if_pos hlt, h]
  rfl

/-- Escaped text is read into the buffer, and nothing else changes. -/
theorem inlineLoop_escaped {fuel : Nat} (h : chars.drop s.i = escapeChars text)
    (hescape : s.escape = false) (hfuel : chars.length - s.i < fuel) :
    ∃ i, inlineLoop chars fuel s = some { s with buffer := s.buffer ++ text, i } := by
  induction text generalizing s fuel with
  | nil =>
    cases fuel with
    | zero => exact absurd hfuel (Nat.not_lt_zero _)
    | succ fuel =>
      have hend : ¬s.i < chars.length := Nat.not_lt.mpr (drop_eq_nil_iff.mp h)
      rw [inlineLoop, if_neg hend, append_nil]
      exact ⟨s.i, rfl⟩
  | cons c text ih =>
    by_cases hc : Special c
    · rw [escapeChars_special hc] at h
      -- the backslash, and the character it escapes
      have hlt := lt_of_drop h
      have hbehind := drop_succ h
      have hlt' : s.i + 1 < chars.length :=
        lt_of_drop (s := { s with escape := true, i := s.i + 1 }) hbehind
      obtain ⟨fuel, rfl⟩ : ∃ n, fuel = n + 2 := ⟨fuel - 2, by omega⟩
      rw [inlineLoop_step hlt (inlineStep_backslash h hescape),
        inlineLoop_step hlt' (inlineStep_escaped hbehind rfl)]
      have hless : chars.length - (s.i + 2) < fuel := by omega
      obtain ⟨i, hi⟩ := ih (s := { s with buffer := s.buffer ++ [c], escape := false, i := s.i + 2 })
        (drop_succ (s := { s with escape := true, i := s.i + 1 }) hbehind) rfl hless
      refine ⟨i, hi.trans ?_⟩
      rw [append_assoc, singleton_append, hescape]
    · rw [escapeChars_plain hc] at h
      have hlt := lt_of_drop h
      obtain ⟨fuel, rfl⟩ : ∃ n, fuel = n + 1 := ⟨fuel - 1, by omega⟩
      rw [inlineLoop_step hlt (inlineStep_plain h hc)]
      have hless : chars.length - (s.i + 1) < fuel := by omega
      obtain ⟨i, hi⟩ := ih (s := { s with buffer := s.buffer ++ [c], escape := false, i := s.i + 1 })
        (drop_succ h) rfl hless
      refine ⟨i, hi.trans ?_⟩
      rw [append_assoc, singleton_append, hescape]

end Scan

section Line
variable (state : ParserState)

/-- The scanner before a line. -/
def Inline.start (preEscape : Bool) : Inline :=
  { fragments := [], buffer := [], currentStyle := state.style, state, escape := preEscape, i := 0 }

variable {state}

theorem parseInline_of_loop {i : Nat}
    (h : inlineLoop line (line.length + 1) (.start state preEscape) =
      some { start state false with buffer := text, i }) :
    ∃ fragments, parseInlineAndControls line state preEscape = some (fragments, state) ∧
      Spans text fragments := by
  unfold parseInlineAndControls parseInlineAndControlsWithStyle
  have hloop : inlineLoop line (line.length + 1)
      { fragments := [], buffer := [], currentStyle := state.style, state, escape := preEscape,
        i := 0 } = some { start state false with buffer := text, i } := h
  unfold flushText
  rw [hloop, bind_eq_bind, bind_some]
  dsimp only
  split
  · next hempty =>
    rw [hempty]
    exact ⟨[], rfl, Spans.nil⟩
  · obtain ⟨fragments, hfragments, hspans⟩ := exists_autolinkLxmf text (start state false).currentStyle
    rw [hfragments]
    exact ⟨fragments, rfl, hspans⟩

/-- A line that is escaped where it has to be. -/
theorem exists_parseInline_escaped (state : ParserState) (text : Chars) :
    ∃ fragments, parseInlineAndControls (escapeChars text) state false = some (fragments, state) ∧
      Spans text fragments := by
  have hdrop : (escapeChars text).drop (start state false).i = escapeChars text := rfl
  have hless : (escapeChars text).length - 0 < (escapeChars text).length + 1 := Nat.lt_succ_self _
  obtain ⟨i, hloop⟩ := inlineLoop_escaped (s := .start state false) hdrop rfl hless
  exact parseInline_of_loop hloop

/-- A line of which the first character is escaped already. -/
theorem exists_parseInline_preEscaped (state : ParserState) (c : Char) (text : Chars) :
    ∃ fragments,
      parseInlineAndControls (c :: escapeChars text) state true = some (fragments, state) ∧
        Spans (c :: text) fragments := by
  have hfirst : inlineStep (c :: escapeChars text) (.start state true) =
      some { start state false with buffer := [c], i := 1 } := inlineStep_escaped rfl rfl
  have hless : (c :: escapeChars text).length - 1 < (c :: escapeChars text).length := Nat.lt_succ_self _
  obtain ⟨i, hloop⟩ := inlineLoop_escaped
    (s := { start state false with buffer := [c], i := 1 }) rfl rfl hless
  exact parseInline_of_loop ((inlineLoop_step (Nat.succ_pos _) hfirst).trans hloop)

/-- The first character of a line is shown, where it is escaped. -/
theorem head_of_preEscaped {state' : ParserState}
    (h : parseInlineAndControls (c :: rest) state true = some (fragments, state')) :
    ∃ more, spanText fragments = c :: more := by
  have hfirst : inlineStep (c :: rest) (.start state true) =
      some { start state false with buffer := [c], i := 1 } := inlineStep_escaped rfl rfl
  have hless : (c :: rest).length - 1 < (c :: rest).length := Nat.lt_succ_self _
  obtain ⟨s, hloop, hscans⟩ := exists_inlineLoop
    (s := { start state false with buffer := [c], i := 1 }) hless
  obtain ⟨s', hflush, _, hbuffer, _, _, _, _, hshown⟩ := exists_flushText s
  have hloop : inlineLoop (c :: rest) ((c :: rest).length + 1)
      { fragments := [], buffer := [], currentStyle := state.style, state, escape := true, i := 0 } =
        some s := (inlineLoop_step (Nat.succ_pos _) hfirst).trans hloop
  unfold parseInlineAndControls parseInlineAndControlsWithStyle at h
  simp only [hloop, hflush, bind_eq_bind, bind_some] at h
  obtain ⟨hfragments, _⟩ := Prod.mk.inj (some.inj h)
  have hall : s'.shown = spanText fragments := by
    rw [shown, hbuffer, append_nil, hfragments]
  obtain ⟨more, hmore⟩ := hscans.shown
  exact ⟨more, hall.symm.trans (hshown.trans hmore.symm)⟩

end Line

/-! Line commands. -/

/-- What a line begins with where it is more than text. -/
def LineCommand (text : Chars) : Prop :=
  ['#'] <+: text ∨ (bareColorDirective text).isSome = true ∨
    (colorPrefixedLine text).isSome = true ∨ "`\x7b".toList <+: text ∨
    (['<'] <+: text ∧ ¬['<', '<'] <+: text) ∨ ['>'] <+: text ∨ ['-'] <+: text

instance : DecidablePred LineCommand := fun _ => inferInstanceAs (Decidable (_ ∨ _))

theorem isAsciiHexdigit_plain (h : isAsciiHexdigit c = true) : ¬Special c := by
  rintro (rfl | rfl)
  · exact absurd h (by decide)
  · exact absurd h (by decide)

theorem isLegacyColorCode_iff {value : Chars} (h : isLegacyColorCode value = true) :
    utf8Len value = 3 ∧ ∀ c ∈ value, ¬Special c := by
  simp only [isLegacyColorCode, Bool.and_eq_true, beq_iff_eq, List.all_eq_true] at h
  exact ⟨h.1.1, fun c hc => isAsciiHexdigit_plain (h.1.2 c hc)⟩

theorem bareColorDirective_eq_some :
    bareColorDirective line = some color ↔
      trimChars line = color ∧ isLegacyColorCode color = true := by
  unfold bareColorDirective
  dsimp only
  split
  · next h =>
    refine ⟨fun heq => ?_, fun heq => ?_⟩
    · cases heq
      exact ⟨rfl, h.2⟩
    · rw [heq.1]
  · next h =>
    refine ⟨nofun, fun heq => ?_⟩
    rw [heq.1] at h
    exact absurd ⟨(isLegacyColorCode_iff heq.2).1, heq.2⟩ h

theorem colorPrefixedLine_eq_some :
    colorPrefixedLine line = some (color, rest) ↔
      line = color ++ rest ∧ isLegacyColorCode color = true ∧ rest.head? ≠ some '=' := by
  unfold colorPrefixedLine
  simp only [bind_eq_bind, bind_eq_some_iff]
  constructor
  · rintro ⟨⟨color', rest'⟩, hsplit, h⟩
    obtain ⟨rfl, _⟩ := splitAtByte_some hsplit
    split at h
    · next hcolor =>
      split at h
      · next hrest =>
        cases h
        refine ⟨rfl, hcolor, ?_⟩
        rw [hrest]
        nofun
      · split at h
        · cases h
        · next hhead =>
          cases h
          exact ⟨rfl, hcolor, hhead⟩
    · cases h
  · rintro ⟨rfl, hcolor, hhead⟩
    refine ⟨(color, rest), ?_, ?_⟩
    · rw [← (isLegacyColorCode_iff hcolor).1]
      exact splitAtByte_append color rest
    · rw [if_pos hcolor, if_neg hhead]
      split <;> rfl

/-- What escaped text begins with unescaped, the text begins with. -/
theorem escapeChars_eq_append {before after : Chars} (hbefore : ∀ c ∈ before, ¬Special c) :
    escapeChars text = before ++ after ↔
      ∃ rest, text = before ++ rest ∧ after = escapeChars rest := by
  constructor
  · intro h
    induction before generalizing text with
    | nil => exact ⟨text, rfl, h.symm⟩
    | cons b before ih =>
      have hb := hbefore b mem_cons_self
      cases text with
      | nil => cases h
      | cons c text =>
        by_cases hc : Special c
        · rw [escapeChars_special hc] at h
          obtain ⟨rfl, _⟩ := cons.inj h
          exact absurd (.inr rfl) hb
        · rw [escapeChars_plain hc] at h
          obtain ⟨rfl, htail⟩ := cons.inj h
          obtain ⟨rest, rfl, hrest⟩ := ih (fun d hd => hbefore d (mem_cons_of_mem _ hd)) htail
          exact ⟨rest, rfl, hrest⟩
  · rintro ⟨rest, rfl, rfl⟩
    rw [escapeChars_append, escapeChars_of_plain hbefore]

theorem prefix_escapeChars {before : Chars} (hbefore : ∀ c ∈ before, ¬Special c) :
    before <+: escapeChars text ↔ before <+: text := by
  constructor
  · rintro ⟨after, hafter⟩
    obtain ⟨rest, hrest, _⟩ := (escapeChars_eq_append hbefore).mp hafter.symm
    exact ⟨rest, hrest.symm⟩
  · rintro ⟨rest, rfl⟩
    exact ⟨escapeChars rest, ((escapeChars_eq_append hbefore).mpr ⟨rest, rfl, rfl⟩).symm⟩

theorem isWhitespace_plain (h : isWhitespace c = true) : ¬Special c := by
  rintro (rfl | rfl)
  · exact absurd h (by decide)
  · exact absurd h (by decide)

/-- What is trimmed away is white space. -/
theorem mem_of_trimChars {cs : Chars} (h : c ∈ cs) : isWhitespace c = true ∨ c ∈ trimChars cs := by
  have hdrop : ∀ {cs : Chars}, c ∈ cs → isWhitespace c = true ∨ c ∈ cs.dropWhile isWhitespace := by
    intro cs hmem
    have hparts : c ∈ cs.takeWhile isWhitespace ++ cs.dropWhile isWhitespace := by
      rwa [takeWhile_append_dropWhile]
    rcases mem_append.mp hparts with hfront | hrest
    · exact .inl (mem_takeWhile_imp hfront)
    · exact .inr hrest
  rcases hdrop h with hwhite | hleft
  · exact .inl hwhite
  · rcases hdrop (mem_reverse.mpr hleft) with hwhite | hright
    · exact .inl hwhite
    · exact .inr (mem_reverse.mpr hright)

theorem bareColor_plain (h : bareColorDirective line = some color) : ∀ c ∈ line, ¬Special c := by
  obtain ⟨rfl, hcolor⟩ := bareColorDirective_eq_some.mp h
  intro c hc
  rcases mem_of_trimChars hc with hwhite | hmem
  · exact isWhitespace_plain hwhite
  · exact (isLegacyColorCode_iff hcolor).2 c hmem

theorem colorPrefix_plain (h : colorPrefixedLine (c :: line) = some (color, rest)) :
    ¬Special c := by
  obtain ⟨hline, hcolor, _⟩ := colorPrefixedLine_eq_some.mp h
  obtain ⟨hlen, hplain⟩ := isLegacyColorCode_iff hcolor
  cases color with
  | nil => cases hlen
  | cons d color =>
    obtain ⟨rfl, _⟩ := cons.inj hline
    exact hplain _ mem_cons_self

theorem mem_escapeChars (h : c ∈ text) : c ∈ escapeChars text := by
  refine mem_flatMap.mpr ⟨c, h, ?_⟩
  split
  · exact mem_cons_of_mem _ mem_cons_self
  · exact mem_cons_self

/-- A colour of its own has nothing that could be escaped. -/
theorem bareColor_escape (c : Char) (text color : Chars) :
    bareColorDirective (c :: escapeChars text) = some color ↔
      bareColorDirective (c :: text) = some color := by
  constructor
  · intro h
    have hplain := bareColor_plain h
    rwa [escapeChars_of_plain fun d hd =>
      hplain d (mem_cons_of_mem c (mem_escapeChars hd))] at h
  · intro h
    have hplain := bareColor_plain h
    rwa [escapeChars_of_plain fun d hd => hplain d (mem_cons_of_mem c hd)]

theorem head?_escapeChars (hc : ¬Special c) (text : Chars) :
    (escapeChars text).head? = some c ↔ text.head? = some c := by
  cases text with
  | nil => rfl
  | cons d text =>
    by_cases hd : Special d
    · rw [escapeChars_special hd, head?_cons, head?_cons]
      constructor
      · intro h
        exact absurd (.inr (some.inj h).symm) hc
      · intro h
        exact absurd (some.inj h ▸ hd) hc
    · rw [escapeChars_plain hd, head?_cons, head?_cons]

/-- A colour at the beginning is the same, and what follows it stays escaped. -/
theorem colorPrefixed_escape (text color rest : Chars) :
    colorPrefixedLine (escapeChars text) = some (color, rest) ↔
      ∃ unescaped, colorPrefixedLine text = some (color, unescaped) ∧
        rest = escapeChars unescaped := by
  simp only [colorPrefixedLine_eq_some]
  have hequals : ¬Special '=' := by decide
  constructor
  · rintro ⟨hline, hcolor, hhead⟩
    obtain ⟨unescaped, htext, rfl⟩ :=
      (escapeChars_eq_append (isLegacyColorCode_iff hcolor).2).mp hline
    exact ⟨unescaped, ⟨htext, hcolor, fun h => hhead ((head?_escapeChars hequals _).mpr h)⟩, rfl⟩
  · rintro ⟨unescaped, ⟨htext, hcolor, hhead⟩, rfl⟩
    exact ⟨(escapeChars_eq_append (isLegacyColorCode_iff hcolor).2).mpr ⟨unescaped, htext, rfl⟩, hcolor,
      fun h => hhead ((head?_escapeChars hequals _).mp h)⟩

/-! Escaped lines. -/

section Escaped
variable {state state' : ParserState} {row : RenderRow} {text : Chars} {fuel : Nat}

/-- A line that is text only. -/
theorem textRow_of_spans (line : Chars)
    (h : parseInlineAndControls logical state preEscape = some (fragments, state))
    (hspans : Spans text fragments) (htext : text ≠ []) :
    ∃ row, textRow logical state preEscape line = some (some row, state) ∧ row.kind = .text ∧
      spanText row.fragments = text := by
  have hne : fragments ≠ [] := by
    rintro rfl
    exact htext hspans.text.symm
  unfold textRow
  rw [h, bind_eq_bind, bind_some]
  dsimp only
  rw [if_neg hne]
  exact ⟨_, rfl, rfl, hspans.text⟩

theorem textRow_text (h : parseInlineAndControls logical state preEscape = some (fragments, state))
    (hrow : textRow logical state preEscape line = some (some row, state')) :
    row.fragments = fragments := by
  unfold textRow at hrow
  rw [h, bind_eq_bind, bind_some] at hrow
  dsimp only at hrow
  split at hrow
  · cases hrow
  · cases hrow
    rfl

/-- A row of text is of the text, or of a line behind a reset of the depth. -/
theorem parseLogical_text {again : Chars → ParserState → Option (Option RenderRow × ParserState)}
    (h : parseLogical again logical state preEscape line = some (some row, state'))
    (hkind : row.kind = .text) :
    (∃ rest, logical = '<' :: rest ∧ again rest { state with depth := 0 } = some (some row, state')) ∨
      textRow logical state preEscape line = some (some row, state') ∧
        ¬"`\x7b".toList <+: logical ∧ ¬(['<'] <+: logical ∧ ¬['<', '<'] <+: logical) ∧
        ¬['>'] <+: logical ∧ ¬['-'] <+: logical := by
  unfold parseLogical at h
  split at h
  · cases h
    cases hkind
  · next hslot =>
    split at h
    · next hreset =>
      obtain ⟨⟨rest, rfl⟩, _⟩ := hreset
      split at h
      · refine .inl ⟨rest, rfl, ?_⟩
        have hcut : splitAtByte (['<'] ++ rest) 1 = some (['<'], rest) := splitAtByte_append ['<'] rest
        rwa [hcut] at h
      · cases h
        cases hkind
    · next hreset =>
      split at h
      · unfold headingRow at h
        simp only [bind_eq_bind, bind_eq_some_iff] at h
        obtain ⟨_, _, h⟩ := h
        cases h
        cases hkind
      · next hheading =>
        split at h
        · cases h
          cases hkind
        · next hdivider => exact .inr ⟨h, hslot, hreset, hheading, hdivider⟩

/-- A row of text comes from a line that is no directive of its own. -/
theorem parseLineFuel_text (h : parseLineFuel (fuel + 1) line state = some (some row, state'))
    (hliteral : state.literal = false) (hkind : row.kind = .text) :
    ¬['#'] <+: (stripEscape line).1 ∧ bareColorDirective (stripEscape line).1 = none ∧
      (colorPrefixedLine (stripEscape line).1 = none ∧
          parseLogical (parseLineFuel fuel) (stripEscape line).1 state (stripEscape line).2 line =
            some (some row, state') ∨
        ∃ color rest, colorPrefixedLine (stripEscape line).1 = some (color, rest) ∧ rest ≠ [] ∧
          parseLogical (parseLineFuel fuel) rest
              { state with style := { state.style with fg := some color } } (stripEscape line).2 line =
            some (some row, state')) := by
  unfold parseLineFuel at h
  rw [if_neg (show ¬state.literal = true from hliteral ▸ Bool.false_ne_true)] at h
  cases hstrip : stripEscape line with
  | mk logical preEscape =>
    rw [hstrip] at h
    dsimp only at h ⊢
    split at h
    · cases h
    · split at h
      · cases h
        cases hkind
      · split at h
        · cases h
        · next hhash =>
          refine ⟨hhash, ?_⟩
          cases hbare : bareColorDirective logical with
          | some color =>
            rw [hbare] at h
            cases h
          | none =>
            refine ⟨rfl, ?_⟩
            rw [hbare] at h
            cases hprefixed : colorPrefixedLine logical with
            | none =>
              rw [hprefixed] at h
              exact .inl ⟨rfl, h⟩
            | some parts =>
              obtain ⟨color, rest⟩ := parts
              rw [hprefixed] at h
              dsimp only at h
              split at h
              · cases h
              · next hrest => exact .inr ⟨color, rest, rfl, hrest, h⟩

theorem stripEscape_plain (hc : ¬Special c) (rest : Chars) :
    stripEscape (c :: rest) = (c :: rest, false) := by
  unfold stripEscape
  split
  · next heq =>
    obtain ⟨rfl, _⟩ := cons.inj heq
    exact absurd (.inr rfl) hc
  · rfl

/-- What is escaped throughout shows no more than it says. -/
theorem escaped_short (h : parseLineFuel fuel (escapeChars text) state = some (some row, state'))
    (hliteral : state.literal = false) (hkind : row.kind = .text) :
    (spanText row.fragments).length ≤ text.length := by
  induction fuel generalizing text state with
  | zero => cases h
  | succ fuel ih =>
    -- the text that is left behind a colour, or all of it
    have hlogical : ∀ {logical : Chars} {state : ParserState} {line : Chars}, state.literal = false →
        logical.length ≤ text.length →
        parseLogical (parseLineFuel fuel) (escapeChars logical) state false line =
          some (some row, state') → (spanText row.fragments).length ≤ text.length := by
      intro logical state line hliteral hle h
      rcases parseLogical_text h hkind with ⟨rest, hrest, hagain⟩ | ⟨htext, _⟩
      · obtain ⟨unescaped, rfl, rfl⟩ :=
          (escapeChars_eq_append (forall_mem_singleton.mpr (by decide : ¬Special '<'))).mp hrest
        have hshort := ih hagain hliteral
        have hle : unescaped.length + 1 ≤ text.length := hle
        omega
      · obtain ⟨fragments, hfragments, hspans⟩ := exists_parseInline_escaped state logical
        rw [textRow_text hfragments htext, hspans.text]
        exact hle
    obtain ⟨_, _, hrow⟩ := parseLineFuel_text h hliteral hkind
    cases text with
    | nil =>
      rcases hrow with ⟨_, hrow⟩ | ⟨color, rest, hprefixed, _⟩
      · exact @hlogical [] _ _ hliteral (Nat.le_refl _) hrow
      · cases hprefixed
    | cons c text =>
      by_cases hc : Special c
      · rw [escapeChars_special hc] at hrow
        rcases hrow with ⟨_, hrow⟩ | ⟨color, rest, hprefixed, _⟩
        · rcases parseLogical_text hrow hkind with ⟨rest, hrest, _⟩ | ⟨htext, _⟩
          · obtain ⟨rfl, _⟩ := cons.inj hrest
            exact absurd hc (by decide)
          · obtain ⟨fragments, hfragments, hspans⟩ :=
              exists_parseInline_preEscaped state c text
            rw [textRow_text hfragments htext, hspans.text]
        · exact absurd hc (colorPrefix_plain hprefixed)
      · rw [escapeChars_plain hc, stripEscape_plain hc, ← escapeChars_plain hc] at hrow
        rcases hrow with ⟨_, hrow⟩ | ⟨color, rest, hprefixed, _, hrow⟩
        · exact hlogical hliteral (Nat.le_refl _) hrow
        · obtain ⟨unescaped, htaken, rfl⟩ := (colorPrefixed_escape _ _ _).mp hprefixed
          obtain ⟨htext, _⟩ := colorPrefixedLine_eq_some.mp htaken
          refine @hlogical _ { state with style := { state.style with fg := some color } } _ hliteral ?_
            hrow
          rw [htext, length_append]
          exact Nat.le_add_left _ _

/-- A line command is one whether what follows its first character is escaped or not. -/
theorem lineCommand_escape (c : Char) (text : Chars) :
    LineCommand (c :: escapeChars text) ↔ LineCommand (c :: text) := by
  have hone : ∀ d : Char, [d] <+: c :: escapeChars text ↔ [d] <+: c :: text := by
    intro d
    rw [cons_prefix_cons, cons_prefix_cons]
    exact and_congr_right fun _ => ⟨fun _ => nil_prefix, fun _ => nil_prefix⟩
  have htwo : ∀ d e : Char, ¬Special e → ([d, e] <+: c :: escapeChars text ↔ [d, e] <+: c :: text) := by
    intro d e he
    rw [cons_prefix_cons, cons_prefix_cons]
    exact and_congr_right fun _ => prefix_escapeChars fun f hf => mem_singleton.mp hf ▸ he
  have hbare : bareColorDirective (c :: escapeChars text) = bareColorDirective (c :: text) :=
    ext fun color => bareColor_escape c text color
  have hprefixed : (colorPrefixedLine (c :: escapeChars text)).isSome = true ↔
      (colorPrefixedLine (c :: text)).isSome = true := by
    rw [isSome_iff_exists, isSome_iff_exists]
    constructor
    · rintro ⟨⟨color, rest⟩, h⟩
      rw [← escapeChars_plain (colorPrefix_plain h)] at h
      obtain ⟨unescaped, htaken, _⟩ := (colorPrefixed_escape _ _ _).mp h
      exact ⟨_, htaken⟩
    · rintro ⟨⟨color, rest⟩, h⟩
      rw [← escapeChars_plain (colorPrefix_plain h)]
      exact ⟨_, (colorPrefixed_escape _ _ _).mpr ⟨rest, h, rfl⟩⟩
  have hslot : "`\x7b".toList <+: c :: escapeChars text ↔ "`\x7b".toList <+: c :: text :=
    htwo _ _ (by decide)
  unfold LineCommand
  rw [hone, hone, hone, hone, htwo '<' '<' (by decide), hbare, hprefixed, hslot]

/-- The row of a line behind its escape, where it is no line command. -/
theorem exists_parseLine_escapeText (hcommand : ¬LineCommand (c :: text))
    (hliteral : state.literal = false) :
    ∃ row, parseLine (escapeText (c :: text)) state = some (some row, state) ∧ row.kind = .text ∧
      spanText row.fragments = c :: text := by
  rw [← lineCommand_escape] at hcommand
  simp only [LineCommand, not_or, Bool.not_eq_true, isSome_eq_false_iff,
    isNone_iff_eq_none] at hcommand
  obtain ⟨hhash, hbare, hprefixed, hslot, hreset, hheading, hdivider⟩ := hcommand
  obtain ⟨fragments, hfragments, hspans⟩ := exists_parseInline_preEscaped state c text
  obtain ⟨row, hrow, hkind, htext⟩ :=
    textRow_of_spans (escapeText (c :: text)) hfragments hspans (cons_ne_nil c text)
  refine ⟨row, ?_, hkind, htext⟩
  unfold parseLine parseLineFuel
  have hline : escapeText (c :: text) = '\\' :: c :: escapeChars text := rfl
  rw [if_neg (by rw [hline]; rintro ⟨⟩), hliteral, if_neg Bool.false_ne_true,
    if_neg (by rw [hline]; rintro ⟨⟩)]
  have hstrip : stripEscape (escapeText (c :: text)) = (c :: escapeChars text, true) := rfl
  rw [hstrip]
  dsimp only
  rw [if_neg hhash, hbare, hprefixed]
  unfold parseLogical
  rw [if_neg hslot, if_neg hreset, if_neg hheading, if_neg hdivider, hrow]

/-- The row of a line behind its escape does not show the text of a line command. -/
theorem not_shown_of_lineCommand (hcommand : LineCommand (c :: text))
    (hliteral : state.literal = false)
    (h : parseLine (escapeText (c :: text)) state = some (some row, state'))
    (hkind : row.kind = .text) : spanText row.fragments ≠ c :: text := by
  intro hshown
  obtain ⟨hhash, hbare, hrow⟩ := parseLineFuel_text h hliteral hkind
  have hstrip : stripEscape (escapeText (c :: text)) = (c :: escapeChars text, true) := rfl
  rw [hstrip] at hhash hbare hrow
  rcases hrow with ⟨hprefixed, hrow⟩ | ⟨color, rest, hprefixed, hrest, hrow⟩
  · rcases parseLogical_text hrow hkind with ⟨rest, hrest, hagain⟩ | ⟨_, hslot, hreset, hheading, hdivider⟩
    · obtain ⟨_, rfl⟩ := cons.inj hrest
      have hshort := escaped_short hagain hliteral hkind
      rw [hshown] at hshort
      exact absurd hshort (Nat.not_succ_le_self _)
    · rw [← lineCommand_escape] at hcommand
      rcases hcommand with h | h | h | h | h | h | h
      · exact hhash h
      · rw [hbare] at h
        cases h
      · rw [hprefixed] at h
        cases h
      · exact hslot h
      · exact hreset h
      · exact hheading h
      · exact hdivider h
  · have hc := colorPrefix_plain hprefixed
    rw [← escapeChars_plain hc] at hprefixed
    obtain ⟨unescaped, htaken, rfl⟩ := (colorPrefixed_escape _ _ _).mp hprefixed
    obtain ⟨htext, hcolor, _⟩ := colorPrefixedLine_eq_some.mp htaken
    have hlen : unescaped.length < (c :: text).length := by
      have hpos : 0 < color.length := by
        refine length_pos_iff.mpr ?_
        rintro rfl
        exact absurd (isLegacyColorCode_iff hcolor).1 (by decide)
      rw [htext, length_append]
      omega
    -- what stands behind the colour is shorter, or begins with the backslash of its escape
    rcases parseLogical_text hrow hkind with ⟨rest, hrest, hagain⟩ | ⟨htextRow, _⟩
    · obtain ⟨tail, rfl, rfl⟩ :=
        (escapeChars_eq_append (forall_mem_singleton.mpr (by decide : ¬Special '<'))).mp hrest
      have hshort := escaped_short hagain hliteral hkind
      have hlen : tail.length + 1 < (c :: text).length := hlen
      rw [hshown] at hshort
      omega
    · cases unescaped with
      | nil => exact hrest rfl
      | cons d tail =>
        by_cases hd : Special d
        · rw [escapeChars_special hd] at htextRow
          unfold textRow at htextRow
          simp only [bind_eq_bind, bind_eq_some_iff] at htextRow
          obtain ⟨⟨fragments, state₁⟩, hfragments, htextRow⟩ := htextRow
          obtain ⟨more, hmore⟩ := head_of_preEscaped hfragments
          split at htextRow
          · cases htextRow
          · cases htextRow
            rw [hshown] at hmore
            obtain ⟨rfl, _⟩ := cons.inj hmore
            exact hc (.inr rfl)
        · rw [escapeChars_plain hd] at htextRow
          obtain ⟨fragments, hfragments, hspans⟩ := exists_parseInline_preEscaped
            { state with style := { state.style with fg := some color } } d tail
          rw [textRow_text hfragments htextRow, hspans.text] at hshown
          rw [hshown] at hlen
          exact Nat.lt_irrefl _ hlen

end Escaped

/-! Lines that are meant to be shown. -/

section Meant
variable (state : ParserState) (metadata : Metadata)

/-- A line comes to one row of a text, and leaves style, depth, alignment and metadata alone. -/
def Verbatim (line text : Chars) : Prop :=
  ∃ row state', scanLine documentLimits line state metadata = some ⟨some row, state', metadata, true⟩ ∧
    row.kind = .text ∧ spanText row.fragments = text ∧ state'.style = state.style ∧
      state'.depth = state.depth ∧ state'.align = state.align

/-- What a line of literal text is meant to show. -/
def literalText (line : Chars) : Chars := if line = "\\`=".toList then "`=".toList else line

/-- The loop over the lines takes the line for a directive. -/
def Directive (line : Chars) : Prop := "#!".toList <+: line ∨ (bareMetadataDirective line).isSome = true

instance : DecidablePred Directive := fun _ => inferInstanceAs (Decidable (_ ∨ _))

variable {state metadata}

/-- A key that begins with a special character is none of the keys. -/
theorem bareMetadata_special (hc : Special c) (rest : Chars) :
    bareMetadataDirective (c :: rest) = none := by
  have hne : ¬c = '=' := by
    rintro rfl
    exact absurd hc (by decide)
  unfold bareMetadataDirective
  rw [splitOnce, if_neg hne]
  cases hsplit : splitOnce '=' rest with
  | none => rfl
  | some parts =>
    -- the character stays in the key
    have hmem : c ∈ trimChars (c :: parts.1) :=
      (mem_of_trimChars mem_cons_self).resolve_left fun h => isWhitespace_plain h hc
    have hkey : ∀ key : Chars, (∀ d ∈ key, ¬Special d) → trimChars (c :: parts.1) ≠ key :=
      fun key hplain heq => hplain c (heq ▸ hmem) hc
    rw [map_some, bind_eq_bind, bind_some]
    dsimp only
    split
    · rfl
    · refine if_neg ?_
      rintro (h | h | h)
      · exact hkey fgKey (by decide) h
      · exact hkey bgKey (by decide) h
      · exact hkey alignKey (by decide) h

theorem bareMetadata_escaped (rest : Chars) : bareMetadataDirective ('\\' :: rest) = none :=
  bareMetadata_special (by decide) rest

theorem not_exceeded {limit size : Nat} (h : size ≤ limit) : exceeded (some limit) size = false :=
  decide_eq_false (Nat.not_lt.mpr h)

/-- A line that is no directive is a line of the page. -/
theorem scanLine_of_not_directive (hlen : utf8Len line ≤ micronDocumentMaxLineBytes)
    (h : ¬Directive line) : scanLine documentLimits line state metadata =
      (parseLine line state).map fun parsed => ⟨parsed.1, parsed.2, metadata, true⟩ := by
  obtain ⟨hmeta, hbare⟩ := not_or.mp h
  rw [Bool.not_eq_true, isSome_eq_false_iff, isNone_iff_eq_none] at hbare
  unfold scanLine
  have hfits : exceeded documentLimits.lineBytes (utf8Len line) = false := not_exceeded hlen
  rw [hfits, if_neg Bool.false_ne_true, if_neg hmeta, hbare, map_eq_bind]
  rfl

/-- A directive is never a row. -/
theorem scanLine_of_directive (state : ParserState) (metadata : Metadata) (h : Directive line) :
    ∃ scanned, scanLine documentLimits line state metadata = some scanned ∧ scanned.row = none := by
  unfold scanLine
  split
  · exact ⟨_, rfl, rfl⟩
  · split
    · split
      · exact ⟨_, rfl, rfl⟩
      · exact ⟨_, rfl, rfl⟩
    · next hmeta =>
      obtain ⟨parts, hparts⟩ := isSome_iff_exists.mp (h.resolve_left hmeta)
      rw [hparts]
      exact ⟨_, rfl, rfl⟩

theorem not_directive_escapeText (c : Char) (text : Chars) : ¬Directive (escapeText (c :: text)) := by
  rintro (⟨rest, hrest⟩ | hbare)
  · cases hrest
  · rw [escapeText, bareMetadata_escaped] at hbare
    cases hbare

theorem parseLine_literal (hliteral : state.literal = true) (hne : line ≠ "`=".toList) :
    parseLine line state = some (some (literalRow state line), state) := by
  unfold parseLine parseLineFuel
  rw [if_neg hne, if_pos hliteral]

/-- Escaped text is shown as it is if and only if there is some and it is no line command, and a line
of literal text if and only if it is no directive. -/
theorem verbatim_iff (state : ParserState) (metadata : Metadata) (text line : Chars) :
    (state.literal = false → utf8Len (escapeText text) ≤ micronDocumentMaxLineBytes →
      (Verbatim state metadata (escapeText text) text ↔ text ≠ [] ∧ ¬LineCommand text)) ∧
    (state.literal = true → line ≠ "`=".toList → utf8Len line ≤ micronDocumentMaxLineBytes →
      (Verbatim state metadata line (literalText line) ↔ ¬Directive line)) := by
  constructor
  · intro hliteral hlen
    cases text with
    | nil =>
      refine ⟨?_, fun h => absurd rfl h.1⟩
      rintro ⟨row, state', hscan, hkind, _⟩
      rw [scanLine_of_not_directive hlen (by decide)] at hscan
      unfold parseLine parseLineFuel at hscan
      rw [hliteral] at hscan
      cases hscan
      cases hkind
    | cons c text =>
      rw [Verbatim, scanLine_of_not_directive hlen (not_directive_escapeText c text)]
      constructor
      · rintro ⟨row, state', hscan, hkind, htext, _⟩
        refine ⟨cons_ne_nil c text, fun hcommand => ?_⟩
        obtain ⟨⟨parsed, after⟩, hparsed, heq⟩ := map_eq_some_iff.mp hscan
        cases heq
        exact not_shown_of_lineCommand hcommand hliteral hparsed hkind htext
      · rintro ⟨_, hcommand⟩
        obtain ⟨row, hrow, hkind, htext⟩ := exists_parseLine_escapeText hcommand hliteral
        exact ⟨row, state, by rw [hrow]; rfl, hkind, htext, rfl, rfl, rfl⟩
  · intro hliteral hne hlen
    constructor
    · rintro ⟨row, state', hscan, _⟩ hdirective
      obtain ⟨scanned, hnone, hrow⟩ := scanLine_of_directive state metadata hdirective
      rw [hscan] at hnone
      cases hnone
      cases hrow
    · intro hdirective
      rw [Verbatim, scanLine_of_not_directive hlen hdirective, parseLine_literal hliteral hne]
      exact ⟨_, _, rfl, rfl, append_nil _, rfl, rfl, rfl⟩

end Meant

/-- Markup that is escaped, and a line of literal text. -/
theorem verbatim_iff_markup :
    Verbatim .default .empty (escapeText "`!bold \\".toList) "`!bold \\".toList ∧
      Verbatim { ParserState.default with literal := true } .empty "`!bold".toList "`!bold".toList :=
  ⟨((verbatim_iff .default .empty "`!bold \\".toList []).1 rfl (by decide)).mpr (by decide +kernel),
    ((verbatim_iff { ParserState.default with literal := true } .empty [] "`!bold".toList).2 rfl
      (by decide) (by decide)).mpr (by decide +kernel)⟩

theorem not_verbatim {state : ParserState} {metadata : Metadata}
    (h : (scanLine documentLimits line state metadata).all (fun scanned => scanned.row.isNone) = true) :
    ¬Verbatim state metadata line text := by
  rintro ⟨row, state', hscan, _⟩
  rw [hscan] at h
  cases h

/-- An escaped comment sign and an escaped number are not shown, and a literal line is taken for a
directive. -/
theorem verbatim_fails :
    ¬Verbatim .default .empty (escapeText "#general".toList) "#general".toList ∧
      ¬Verbatim .default .empty (escapeText "100".toList) "100".toList ∧
      ¬Verbatim { ParserState.default with literal := true } .empty "fg=red".toList
        (literalText "fg=red".toList) :=
  ⟨not_verbatim (by decide +kernel), not_verbatim (by decide +kernel),
    not_verbatim (by decide +kernel)⟩

end Omen.Micron
