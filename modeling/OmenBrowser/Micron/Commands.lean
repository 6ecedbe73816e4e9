import OmenBrowser.Micron.Controls

/- A page of one line that begins with a link or a control: what the first command makes of the text
   up to its closing character, and that the page is nothing else if the line ends there. -/
namespace Omen.Micron
open Text List Option

variable {s : Inline} {line : Chars} {f : Fragment}

/-! The first command. -/

variable {closing : Char} {opening : Chars}

theorem findFrom_closing {raw : Chars} (rest : Chars) (h : closing ∉ raw) :
    findFrom (opening ++ (raw ++ closing :: rest)) opening.length closing =
      some (raw.length + opening.length) := by
  unfold findFrom
  rw [drop_left, findIdx?_append]
  have hraw : raw.findIdx? (· == closing) = none := by
    rw [findIdx?_eq_none_iff]
    intro c hc
    exact beq_false_of_ne fun heq => h (heq ▸ hc)
  rw [hraw, findIdx?_cons, if_pos (beq_self_eq_true closing)]
  simp

theorem slice_middle (opening raw rest : Chars) :
    slice (opening ++ (raw ++ rest)) opening.length (raw.length + opening.length) = some raw := by
  rw [slice_of_le (Nat.le_add_left _ _), ← append_assoc, take_left', drop_left]
  · rw [length_append, Nat.add_comm]
  · rw [length_append, length_append]
    omega

section First
variable {state : ParserState} {raw rest : Chars}

/-- The scanner behind the backtick of a line's first command. -/
theorem inlineStep_command {sign : Char} {more : Chars}
    (h : inlineCommand ('\x60' :: sign :: more) { Inline.start state false with i := 1 } = some s) :
    inlineStep ('\x60' :: sign :: more) (.start state false) = some s := by
  unfold inlineStep Inline.flushText
  have hmore : ¬('\x60' :: sign :: more).length ≤ 0 + 1 := by
    rw [length_cons, length_cons]
    omega
  simpa [Inline.start] using h

theorem inlineStep_link (h : ']' ∉ raw) :
    inlineStep ('\x60' :: '[' :: (raw ++ ']' :: rest)) (.start state false) =
      some ((Inline.start state false).emit (linkFragment "`[".toList raw "]".toList state.style
        (parseLink raw state.style)) (raw.length + 3)) := by
  refine inlineStep_command ?_
  have hfind : findFrom ('\x60' :: '[' :: (raw ++ ']' :: rest)) 2 ']' = some (raw.length + 2) :=
    @findFrom_closing ']' ['\x60', '['] raw rest h
  have hslice : slice ('\x60' :: '[' :: (raw ++ ']' :: rest)) 2 (raw.length + 2) = some raw :=
    slice_middle ['\x60', '['] raw (']' :: rest)
  show Inline.link _ _ = _
  unfold Inline.link
  rw [hfind]
  dsimp only
  rw [hslice, bind_eq_bind, bind_some]
  rfl

theorem inlineStep_control (h : '>' ∉ raw) :
    inlineStep ('\x60' :: '<' :: (raw ++ '>' :: rest)) (.start state false) =
      some (match (Inline.start state false).admitControl raw with
        | some (control, ownedBytes) =>
          { Inline.start state false with state := { state with
              controlItems := state.controlItems + 1
              controlOwnedBytes := state.controlOwnedBytes + ownedBytes } }.emit
            (.control control) (raw.length + 3)
        | none => (Inline.start state false).emit
            (plainSpan ("`<".toList ++ raw ++ ">".toList) state.style) (raw.length + 3)) := by
  refine inlineStep_command ?_
  have hfind : findFrom ('\x60' :: '<' :: (raw ++ '>' :: rest)) 2 '>' = some (raw.length + 2) :=
    @findFrom_closing '>' ['\x60', '<'] raw rest h
  have hslice : slice ('\x60' :: '<' :: (raw ++ '>' :: rest)) 2 (raw.length + 2) = some raw :=
    slice_middle ['\x60', '<'] raw ('>' :: rest)
  show Inline.control _ _ = _
  unfold Inline.control
  rw [hfind]
  dsimp only
  rw [hslice, bind_eq_bind, bind_some]
  have hadmits : Inline.admitControl { Inline.start state false with i := 1 } raw =
      (Inline.start state false).admitControl raw := rfl
  rw [hadmits]
  cases (Inline.start state false).admitControl raw <;> rfl

section
variable (hline : line ≠ []) (hstep : inlineStep line (.start state false) = some s)
include hline hstep

/-- What the first command makes stands first. -/
theorem parseInline_first :
    ∃ more state', parseInlineAndControls line state false = some (s.fragments ++ more, state') := by
  have hless : (Inline.start state false).i < line.length := length_pos_iff.mpr hline
  obtain ⟨_, hstep', hlt, -⟩ := exists_inlineStep hless
  cases hstep.symm.trans hstep'
  have hfuel : line.length - s.i < line.length := by
    have : 0 < s.i := hlt
    omega
  obtain ⟨s₁, hloop, hscans⟩ := exists_inlineLoop (s := s) hfuel
  obtain ⟨s₂, hflush, hscans₂, -⟩ := exists_flushText s₁
  obtain ⟨⟨more, hfragments, -⟩, -⟩ := hscans.trans hscans₂
  have hrun : inlineLoop line (line.length + 1) (.start state false) = some s₁ := by
    rw [inlineLoop_step hless hstep, hloop]
  unfold parseInlineAndControls parseInlineAndControlsWithStyle
  refine ⟨more, { s₂.state with style := s₂.currentStyle }, ?_⟩
  have hrun' := hrun
  unfold Inline.start at hrun'
  rw [hrun', bind_eq_bind, bind_some, hflush, bind_some, hfragments]

/-- Nothing stands behind it, if the line ends there. -/
theorem parseInline_only (hend : line.length ≤ s.i) (hbuffer : s.buffer = []) :
    parseInlineAndControls line state false =
      some (s.fragments, { s.state with style := s.currentStyle }) := by
  have hless : (Inline.start state false).i < line.length := length_pos_iff.mpr hline
  have hrun : inlineLoop line (line.length + 1) (.start state false) = some s := by
    rw [inlineLoop_step hless hstep]
    cases hlength : line.length with
    | zero => exact absurd (length_eq_zero_iff.mp hlength) hline
    | succ n => rw [inlineLoop, if_neg (Nat.not_lt.mpr hend)]
  unfold Inline.start at hrun
  unfold parseInlineAndControls parseInlineAndControlsWithStyle Inline.flushText
  rw [hrun, bind_eq_bind, bind_some, if_pos hbuffer]
  rfl

end

end First

/-! A line that begins with a command. -/

theorem not_lineCommand_backtick {sign : Char} {rest : Chars} (h : sign ≠ '\x7b') :
    ¬LineCommand ('\x60' :: sign :: rest) := by
  have hspecial : Special '\x60' := .inl rfl
  rintro (hcomment | hbare | hcolor | hslot | ⟨hreset, -⟩ | hheading | hdivider)
  · exact absurd hcomment (by simp)
  · obtain ⟨color, hcolor⟩ := isSome_iff_exists.mp hbare
    exact bareColor_plain hcolor _ mem_cons_self hspecial
  · obtain ⟨⟨color, after⟩, hcolor⟩ := isSome_iff_exists.mp hcolor
    exact colorPrefix_plain hcolor hspecial
  · have hprefix : '\x60' :: '\x7b' :: [] <+: '\x60' :: sign :: rest := hslot
    simp only [cons_prefix_cons] at hprefix
    exact h hprefix.2.1.symm
  · exact absurd hreset (by simp)
  · exact absurd hheading (by simp)
  · exact absurd hdivider (by simp)

theorem parseLine_command {sign : Char} {rest : Chars} (state : ParserState)
    (hliteral : state.literal = false) (hslot : sign ≠ '\x7b') (hequal : sign ≠ '=') :
    parseLine ('\x60' :: sign :: rest) state =
      textRow ('\x60' :: sign :: rest) state false ('\x60' :: sign :: rest) := by
  have hnot := @not_lineCommand_backtick _ rest hslot
  simp only [LineCommand, not_or, not_and, Bool.not_eq_true, isSome_eq_false_iff,
    isNone_iff_eq_none] at hnot
  obtain ⟨hcomment, hbare, hcolor, hslot, -, hheading, hdivider⟩ := hnot
  have hne : '\x60' :: sign :: rest ≠ "`=".toList := fun heq => by
    have heq : '\x60' :: sign :: rest = ['\x60', '='] := heq
    exact hequal (cons.inj (cons.inj heq).2).1
  have hstrip : stripEscape ('\x60' :: sign :: rest) = ('\x60' :: sign :: rest, false) := rfl
  have hreset : ¬(['<'] <+: '\x60' :: sign :: rest ∧ ¬['<', '<'] <+: '\x60' :: sign :: rest) :=
    fun h => absurd h.1 (by simp)
  unfold parseLine parseLineFuel
  rw [if_neg hne, hliteral, if_neg Bool.false_ne_true, if_neg (cons_ne_nil _ _), hstrip]
  dsimp only
  rw [if_neg hcomment, hbare]
  rw [hcolor]
  unfold parseLogical
  rw [if_neg hslot, if_neg hreset, if_neg hheading, if_neg hdivider]

/-! A page of one line. -/

theorem linesFrom_one {text : Chars} (htext : OneLine text) (hne : line ++ text ≠ []) :
    linesFrom line text = [line ++ text] := by
  induction text generalizing line with
  | nil =>
    rw [append_nil] at hne ⊢
    rw [linesFrom, if_neg hne]
  | cons c text ih =>
    have hc : c ≠ '\n' := fun heq => htext (heq ▸ mem_cons_self)
    have hrest : OneLine text := fun hmem => htext (mem_cons_of_mem _ hmem)
    rw [linesFrom, ih hrest (by simp), append_assoc, singleton_append]
    exact hc

theorem lines_one (hline : OneLine line) (hne : line ≠ []) : lines line = [line] :=
  linesFrom_one hline hne

section Page
variable {sign : Char} {rest : Chars}

/-- The page is the row of the line, and the notice if not all of it is admitted. -/
theorem parseMicron_command {fragments : List Fragment} {state : ParserState}
    (hline : OneLine ('\x60' :: sign :: rest))
    (hlen : utf8Len ('\x60' :: sign :: rest) ≤ micronDocumentMaxLineBytes)
    (hslot : sign ≠ '\x7b') (hequal : sign ≠ '=') (hne : fragments ≠ [])
    (hparse : parseInlineAndControls ('\x60' :: sign :: rest) .default false =
      some (fragments, state)) :
    ∃ document row, parseMicron ('\x60' :: sign :: rest) = some document ∧
      row.fragments = (admitFragments documentLimits fragments state).1 ∧
      document.rows = if (admitFragments documentLimits fragments state).2.limitsApplied then
        [row, limitNoticeRow (admitFragments documentLimits fragments state).2] else [row] := by
  have hdirective : ¬Directive ('\x60' :: sign :: rest) := by
    rintro (hmeta | hbare)
    · exact absurd hmeta (by simp)
    · rw [bareMetadata_special (.inl rfl)] at hbare
      cases hbare
  obtain ⟨row, hfragments, htext⟩ : ∃ row : RenderRow, row.fragments = fragments ∧
      textRow ('\x60' :: sign :: rest) .default false ('\x60' :: sign :: rest) =
        some (some row, state) := by
    unfold textRow
    rw [hparse, bind_eq_bind, bind_some]
    dsimp only
    rw [if_neg hne]
    exact ⟨_, rfl, rfl⟩
  have hscan : scanLine documentLimits ('\x60' :: sign :: rest) .default .empty =
      some ⟨some row, state, .empty, true⟩ := by
    rw [scanLine_of_not_directive hlen hdirective, parseLine_command _ rfl hslot hequal, htext]
    rfl
  have hroom : reached documentLimits.rows ([] : List RenderRow).length = false := by decide
  unfold parseMicron parseMicronWith
  rw [lines_one hline (cons_ne_nil _ _), parseLines, hscan]
  simp only [bind_eq_bind, bind_some, parseLines]
  rw [hroom, if_neg Bool.false_ne_true]
  refine ⟨_, (admitRowFragments documentLimits row state).1, rfl, ?_, ?_⟩
  · rw [← hfragments]
    rfl
  · rw [← hfragments]
    rfl

variable {document : Document} {g : Fragment}

theorem parseMicron_long (hline : OneLine line) (hne : line ≠ [])
    (hlen : micronDocumentMaxLineBytes < utf8Len line) (h : parseMicron line = some document) :
    document.rows = [limitNoticeRow .default] := by
  have hexceeded : exceeded documentLimits.lineBytes (utf8Len line) = true := decide_eq_true hlen
  have hscan : scanLine documentLimits line .default .empty =
      some ⟨none, .default, .empty, false⟩ := by
    unfold scanLine
    rw [hexceeded, if_pos rfl]
  unfold parseMicron parseMicronWith at h
  rw [lines_one hline hne, parseLines, hscan] at h
  cases h
  rfl

/-- What is admitted first is what stands first, or has lost its link. -/
theorem admitFragments_first {limits : Limits} {more others : List Fragment} {state : ParserState}
    (h : (admitFragments limits (f :: more) state).1 = g :: others) :
    g = f ∨ ∃ text style, g = plainSpan text style := by
  unfold admitFragments at h
  split at h
  · cases h
  · cases f with
    | control control => exact .inl (cons.inj h).1.symm
    | span span =>
      dsimp only at h
      split at h
      · cases h
      · obtain ⟨hfirst, -⟩ := cons.inj h
        unfold admitLink at hfirst
        split at hfirst
        · exact .inl hfirst.symm
        · split at hfirst
          · exact .inl hfirst.symm
          · exact .inr ⟨span.text, span.style, hfirst.symm⟩

/-- A page of a single fragment that is more than text: the command makes just that. -/
theorem eq_first_of_page {row : RenderRow} (hline : OneLine ('\x60' :: sign :: rest))
    (hslot : sign ≠ '\x7b') (hequal : sign ≠ '=')
    (hstep : inlineStep ('\x60' :: sign :: rest) (.start .default false) = some s)
    (hfirst : s.fragments = [f]) (h : parseMicron ('\x60' :: sign :: rest) = some document)
    (hrows : document.rows = [row]) (hrow : row.fragments = [g])
    (hg : ∀ text style, g ≠ plainSpan text style) : g = f := by
  have hne : '\x60' :: sign :: rest ≠ [] := cons_ne_nil _ _
  rcases Nat.lt_or_ge micronDocumentMaxLineBytes (utf8Len ('\x60' :: sign :: rest)) with hlen | hlen
  · rw [parseMicron_long hline hne hlen h] at hrows
    obtain rfl := (cons.inj hrows).1
    exact absurd (cons.inj hrow).1.symm (hg _ _)
  · obtain ⟨more, state, hparse⟩ := parseInline_first hne hstep
    rw [hfirst] at hparse
    obtain ⟨document', row', hparsed, hadmitted, hrows'⟩ :=
      parseMicron_command hline hlen hslot hequal (cons_ne_nil _ _) hparse
    cases h.symm.trans hparsed
    rw [hrows] at hrows'
    have hsame : row = row' := by
      split at hrows' <;> exact (cons.inj hrows').1
    rw [← hsame, hrow] at hadmitted
    exact (admitFragments_first hadmitted.symm).resolve_right fun ⟨text, style, hplain⟩ =>
      hg text style hplain

/-- A page of what one command makes, if the command ends the line and is admitted. -/
theorem parseMicron_only (hline : OneLine ('\x60' :: sign :: rest))
    (hlen : utf8Len ('\x60' :: sign :: rest) ≤ micronDocumentMaxLineBytes) (hslot : sign ≠ '\x7b')
    (hequal : sign ≠ '=')
    (hstep : inlineStep ('\x60' :: sign :: rest) (.start .default false) = some s)
    (hfirst : s.fragments = [f]) (hbuffer : s.buffer = [])
    (hend : ('\x60' :: sign :: rest).length ≤ s.i) (hstate : s.state.charged = (0, 0, 0, 0, false))
    (htext : utf8Len f.text ≤ micronLinkLabelMaxBytes)
    (hlink : ∀ link, f.link? = some link → link.ownedBytes ≤ micronDocumentLinkActionsMaxBytes) :
    ∃ document row, parseMicron ('\x60' :: sign :: rest) = some document ∧ document.rows = [row] ∧
      row.fragments = [f] := by
  have hparse := parseInline_only (cons_ne_nil _ _) hstep hend hbuffer
  rw [hfirst] at hparse
  obtain ⟨document, row, hparsed, hadmitted, hrows⟩ :=
    parseMicron_command hline hlen hslot hequal (cons_ne_nil _ _) hparse
  simp only [ParserState.charged, Prod.mk.injEq] at hstate
  obtain ⟨hitems, hbytes, hlinks, hlinkBytes, happlied⟩ := hstate
  -- one fragment is far below every limit of the document
  have hadmits : (admitFragments documentLimits [f] { s.state with style := s.currentStyle }).1 = [f] ∧
      (admitFragments documentLimits [f] { s.state with style := s.currentStyle }).2.limitsApplied =
        false := by
    have hroom : reached documentLimits.fragments 0 = false := by decide
    unfold admitFragments
    rw [hitems, hroom, if_neg Bool.false_ne_true]
    cases f with
    | control control => exact ⟨rfl, happlied⟩
    | span span =>
      have hspan : exceeded documentLimits.spanTextBytes (0 + utf8Len span.text) = false := by
        refine not_exceeded (Nat.le_trans ?_ (by decide : micronLinkLabelMaxBytes ≤ _))
        rw [Nat.zero_add]
        exact htext
      dsimp only
      rw [hbytes, hspan, if_neg Bool.false_ne_true]
      unfold admitLink
      split
      · exact ⟨rfl, happlied⟩
      · next link hsome =>
        have hfits := hlink link hsome
        have hlinkRoom : reached documentLimits.linkActions 0 = false := by decide
        have hlinkFits : exceeded documentLimits.linkActionBytes (0 + link.ownedBytes) = false :=
          not_exceeded ((Nat.zero_add _).symm ▸ hfits)
        rw [hlinks, hlinkBytes, hlinkRoom, hlinkFits, if_pos (by simp)]
        exact ⟨rfl, happlied⟩
  rw [hadmits.2, if_neg Bool.false_ne_true] at hrows
  rw [hadmits.1] at hadmitted
  exact ⟨document, row, hparsed, hrows, hadmitted⟩

theorem oneLine_command {raw : Chars} (hsign : sign ≠ '\n') (hclosing : closing ≠ '\n')
    (hraw : OneLine raw) : OneLine ('\x60' :: sign :: (raw ++ [closing])) := by
  have hopening : OneLine ['\x60', sign] := by simpa [OneLine] using hsign.symm
  exact hopening.append (hraw.append (oneLine_singleton hclosing))

theorem commandLine_bytes (raw : Chars) (hsign : sign.utf8Size = 1)
    (hclosing : closing.utf8Size = 1) :
    utf8Len ('\x60' :: sign :: (raw ++ [closing])) = utf8Len raw + 3 := by
  have htick : Char.utf8Size '\x60' = 1 := rfl
  rw [utf8Len_cons, utf8Len_cons, utf8Len_append, utf8Len_cons, utf8Len_nil, hsign, hclosing, htick]
  omega

/-- A fragment with a link is one that was parsed. -/
theorem linkFragment_link {raw closing : Chars} {style : TextStyle} {parsed : Option TextSpan}
    {span : TextSpan} {link : LinkAction}
    (h : Fragment.span span = linkFragment opening raw closing style parsed)
    (hlink : span.link = some link) : parsed = some span := by
  have hplain : ∀ text, Fragment.span span ≠ plainSpan text style := fun text heq => by
    rw [Fragment.span.inj heq] at hlink
    cases hlink
  unfold linkFragment at h
  split at h
  · cases parsed with
    | none => exact absurd h (hplain _)
    | some parsed => rw [Fragment.span.inj h]
  · exact absurd h (hplain _)

end Page

end Omen.Micron
