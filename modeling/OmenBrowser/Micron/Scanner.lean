import OmenBrowser.Micron.Parser

/- What the scanner of a line does, whatever the line is: it ends, it shows no text in another order,
   and its controls are counted. -/
namespace Omen.Micron
open Text List Option Inline

variable {fs : List Fragment} {s : Inline} {control : FieldControl}

/-! What is counted. -/

/-- The controls of a row. -/
def controls (fragments : List Fragment) : List FieldControl := fragments.filterMap Fragment.control?

/-- What they are charged. -/
def controlBytes (fragments : List Fragment) : Nat :=
  ((controls fragments).map FieldControl.ownedBytes).sum

@[simp] theorem controls_append (fs gs : List Fragment) :
    controls (fs ++ gs) = controls fs ++ controls gs := filterMap_append

@[simp] theorem controlBytes_append (fs gs : List Fragment) :
    controlBytes (fs ++ gs) = controlBytes fs + controlBytes gs := by
  rw [controlBytes, controls_append, map_append, sum_append, ← controlBytes,
    ← controlBytes]

def Fragment.isSpan : Fragment → Bool
  | .span _ => true
  | .control _ => false

theorem controls_of_spans (h : ∀ f ∈ fs, f.isSpan = true) : controls fs = [] := by
  refine filterMap_eq_nil_iff.mpr fun f hf => ?_
  cases f with
  | span s => rfl
  | control c => exact absurd (h _ hf) Bool.false_ne_true

theorem controlBytes_of_spans (h : ∀ f ∈ fs, f.isSpan = true) : controlBytes fs = 0 := by
  rw [controlBytes, controls_of_spans h]
  rfl

/-! Addresses. -/

/-- The spans of a text: none is empty, and together they are the text. -/
structure Spans (text : Chars) (fragments : List Fragment) : Prop where
  text : spanText fragments = text
  spans : ∀ f ∈ fragments, f.isSpan = true
  nonempty : ∀ f ∈ fragments, f.text ≠ []

variable {rest : Chars} {fuel : Nat} {s' : Inline}

theorem Spans.append {text : Chars} {gs : List Fragment} (h₁ : Spans text fs) (h₂ : Spans rest gs) :
    Spans (text ++ rest) (fs ++ gs) where
  text := by rw [spanText_append, h₁.text, h₂.text]
  spans f hf := (mem_append.mp hf).elim (h₁.spans f) (h₂.spans f)
  nonempty f hf := (mem_append.mp hf).elim (h₁.nonempty f) (h₂.nonempty f)

theorem Spans.nil : Spans [] [] := ⟨rfl, forall_mem_nil _, forall_mem_nil _⟩

theorem Spans.one (span : TextSpan) (h : span.text ≠ []) : Spans span.text [.span span] where
  text := append_nil _
  spans f hf := by
    rw [mem_singleton.mp hf]
    rfl
  nonempty f hf := by
    rw [mem_singleton.mp hf]
    exact h

/-- A cut at the end of a text, or where something is found. -/
theorem exists_splitAtByte_find (p : Chars → Bool) (cs : Chars) :
    ∃ before after, splitAtByte cs ((findByte p cs).getD (utf8Len cs)) = some (before, after) ∧
      cs = before ++ after ∧ (p cs = false → cs ≠ [] → before ≠ []) := by
  cases h : findByte p cs with
  | none =>
    refine ⟨cs, [], ?_, (append_nil cs).symm, fun _ hne => hne⟩
    have hcut := splitAtByte_append cs []
    rwa [append_nil] at hcut
  | some n =>
    obtain ⟨before, after, rfl, rfl, hafter, _⟩ := findByte_some h
    refine ⟨before, after, splitAtByte_append before after, rfl, fun hp _ hbefore => ?_⟩
    rw [hbefore, nil_append, hafter] at hp
    cases hp

theorem exists_autolink (style : TextStyle) (h : rest.length < fuel) :
    ∃ fragments, autolink style fuel rest = some fragments ∧ Spans rest fragments := by
  induction fuel generalizing rest with
  | zero => exact absurd h (Nat.not_lt_zero _)
  | succ fuel ih =>
    unfold autolink
    cases hfind : findByte (fun tail => lxmfScheme.isPrefixOf tail) rest with
    | none =>
      by_cases hrest : rest = []
      · rw [if_pos hrest, hrest]
        exact ⟨[], rfl, Spans.nil⟩
      · rw [if_neg hrest]
        exact ⟨_, rfl, Spans.one ⟨rest, style, none⟩ hrest⟩
    | some start =>
      obtain ⟨before, candidate, rfl, rfl, hscheme, _⟩ := findByte_some hfind
      rw [ isPrefixOf_iff_prefix] at hscheme
      obtain ⟨tail, rfl⟩ := hscheme
      dsimp only
      rw [splitAtByte_append]
      -- an address has its scheme at least
      obtain ⟨address, after, hcut, hcandidate, haddress⟩ := exists_splitAtByte_find
        (fun tail => tail.head?.any fun ch => !isAddressChar ch) (lxmfScheme ++ tail)
      have hne : address ≠ [] := haddress rfl (by rintro ⟨⟩)
      have hlen : after.length < fuel := by
        have hpos := length_pos_iff.mpr hne
        rw [hcandidate] at h
        simp only [length_append] at h
        omega
      obtain ⟨fragments, hfragments, hspans⟩ := ih hlen
      simp only [bind_eq_bind, bind_some, hcut, hfragments]
      refine ⟨_, rfl, ?_⟩
      rw [hcandidate]
      refine Spans.append ?_ ((Spans.one ⟨address, style, _⟩ hne).append hspans)
      split
      · next hpos =>
        refine Spans.one ⟨before, style, none⟩ ?_
        rintro rfl
        exact absurd hpos (Nat.lt_irrefl 0)
      · next hpos =>
        have hzero := length_le_utf8Len before
        have hbefore : before = [] := length_eq_zero_iff.mp (by omega)
        rw [hbefore]
        exact Spans.nil

/-- The fragments of a text show the text. -/
theorem exists_autolinkLxmf (text : Chars) (style : TextStyle) :
    ∃ fragments, autolinkLxmf text style = some fragments ∧ Spans text fragments :=
  exists_autolink style (Nat.lt_succ_self _)

/-! The scanner. -/

variable (state : ParserState)

/-- What a line leaves of the state: what was charged to the document before it. -/
def ParserState.charged : Nat × Nat × Nat × Nat × Bool :=
  (state.fragmentItems, state.spanTextBytes, state.linkActionItems, state.linkActionOwnedBytes,
    state.limitsApplied)

/-- What a state allows of controls. -/
def ParserState.ControlsFit : Prop :=
  state.controlItems ≤ micronControlMaxItems ∧ state.controlOwnedBytes ≤ micronControlMaxOwnedBytes

/-- The text that is scanned so far. -/
def Inline.shown (s : Inline) : Chars := spanText s.fragments ++ s.buffer

/-- A later state of the scanner of one line. -/
structure Scans (s s' : Inline) : Prop where
  fragments : ∃ added, s'.fragments = s.fragments ++ added ∧
    s'.state.controlItems = s.state.controlItems + (controls added).length ∧
    s'.state.controlOwnedBytes = s.state.controlOwnedBytes + controlBytes added
  shown : s.shown <+: s'.shown
  charged : s'.state.charged = s.state.charged
  fit : s.state.ControlsFit → s'.state.ControlsFit

theorem Scans.trans {s₁ s₂ s₃ : Inline} (h₁ : Scans s₁ s₂) (h₂ : Scans s₂ s₃) : Scans s₁ s₃ := by
  obtain ⟨added₁, hfragments₁, hitems₁, hbytes₁⟩ := h₁.fragments
  obtain ⟨added₂, hfragments₂, hitems₂, hbytes₂⟩ := h₂.fragments
  refine ⟨⟨added₁ ++ added₂, ?_, ?_, ?_⟩, h₁.shown.trans h₂.shown, h₂.charged.trans h₁.charged,
    fun h => h₂.fit (h₁.fit h)⟩
  · rw [hfragments₂, hfragments₁, append_assoc]
  · rw [hitems₂, hitems₁, controls_append, length_append, Nat.add_assoc]
  · rw [hbytes₂, hbytes₁, controlBytes_append, Nat.add_assoc]

/-- A step that makes spans only. -/
theorem scans_of_spans {s : Inline} {added : List Fragment}
    (hfragments : s'.fragments = s.fragments ++ added) (hspans : ∀ f ∈ added, f.isSpan = true)
    (hshown : s.shown <+: s'.shown) (hcharged : s'.state.charged = s.state.charged)
    (hitems : s'.state.controlItems = s.state.controlItems)
    (hbytes : s'.state.controlOwnedBytes = s.state.controlOwnedBytes) : Scans s s' where
  fragments := by
    refine ⟨added, hfragments, ?_, ?_⟩
    · rw [hitems, controls_of_spans hspans, length_nil, Nat.add_zero]
    · rw [hbytes, controlBytes_of_spans hspans, Nat.add_zero]
  shown := hshown
  charged := hcharged
  fit h := by
    rw [ParserState.ControlsFit, hitems, hbytes]
    exact h

/-- A step that makes no fragment. -/
theorem scans_of_text (hfragments : s'.fragments = s.fragments) (hbuffer : s.buffer <+: s'.buffer)
    (hcharged : s'.state.charged = s.state.charged)
    (hitems : s'.state.controlItems = s.state.controlItems)
    (hbytes : s'.state.controlOwnedBytes = s.state.controlOwnedBytes) : Scans s s' := by
  refine @scans_of_spans _ _ [] ?_ (forall_mem_nil _) ?_ hcharged hitems hbytes
  · rw [hfragments, append_nil]
  · rw [shown, shown, hfragments]
    exact prefix_append_right_inj _ |>.mpr hbuffer

theorem scans_setFg (fg : Option Chars) (i : Nat) : Scans s (s.setFg fg i) :=
  scans_of_text rfl (prefix_refl _) rfl rfl rfl

theorem scans_setBg (bg : Option Chars) (i : Nat) : Scans s (s.setBg bg i) :=
  scans_of_text rfl (prefix_refl _) rfl rfl rfl

theorem scans_spill (text : Chars) : Scans s (s.spill text) :=
  scans_of_text rfl (prefix_append _ _) rfl rfl rfl

theorem scans_skip (i : Nat) : Scans s { s with i } :=
  scans_of_text rfl (prefix_refl _) rfl rfl rfl

theorem exists_flushText (s : Inline) : ∃ s', s.flushText = some s' ∧ Scans s s' ∧ s'.buffer = [] ∧
    s'.i = s.i ∧ s'.escape = s.escape ∧ s'.state = s.state ∧ s'.currentStyle = s.currentStyle ∧
    s'.shown = s.shown := by
  unfold flushText
  split
  · next hbuffer => exact ⟨s, rfl, scans_skip s.i, hbuffer, rfl, rfl, rfl, rfl, rfl⟩
  · obtain ⟨fragments, hfragments, hspans⟩ := exists_autolinkLxmf s.buffer s.currentStyle
    have hshown : spanText (s.fragments ++ fragments) ++ [] = s.shown := by
      rw [spanText_append, hspans.text, append_nil, ← shown]
    rw [hfragments]
    exact ⟨_, rfl, scans_of_spans rfl hspans.spans (hshown ▸ prefix_refl _) rfl rfl rfl,
      rfl, rfl, rfl, rfl, rfl, hshown⟩

/-- An emission, behind text that is flushed. -/
theorem scans_emit (hbuffer : s.buffer = []) {fragment : Fragment} (hspan : fragment.isSpan = true)
    (i : Nat) : Scans s (s.emit fragment i) := by
  refine scans_of_spans rfl (fun f hf => ?_) ?_ rfl rfl rfl
  · rw [mem_singleton.mp hf]
    exact hspan
  · rw [shown, shown, hbuffer, append_nil, emit, spanText_append,
      append_assoc]
    exact prefix_append _ _

/-! Commands. -/

section Commands
variable {chars : Chars} {s : Inline}

theorem linkFragment_isSpan (opening raw closing : Chars) (style : TextStyle)
    (parsed : Option TextSpan) :
    (linkFragment opening raw closing style parsed).isSpan = true := by
  unfold linkFragment
  split
  · split <;> rfl
  · rfl

theorem exists_parseColor (chars : Chars) :
    ∃ color consumed, parseColor chars = some (color, consumed) := by
  unfold parseColor
  split
  · next h =>
    rw [slice_of_le (by decide) h.1]
    exact ⟨_, 7, rfl⟩
  · split
    · next h =>
      rw [slice_of_le (by decide) h]
      exact ⟨_, 3, rfl⟩
    · exact ⟨_, 0, rfl⟩

theorem exists_color (ch : Char) (h : s.i < chars.length) :
    ∃ s', s.color chars ch = some s' ∧ s.i < s'.i ∧ Scans s s' := by
  obtain ⟨color, consumed, hcolor⟩ :=
    exists_parseColor ((chars.take chars.length).drop (s.i + 1))
  have hslice : slice chars (s.i + 1) chars.length =
      some ((chars.take chars.length).drop (s.i + 1)) := slice_of_le h (Nat.le_refl _)
  unfold Inline.color
  simp only [hslice, bind_eq_bind, bind_some, hcolor]
  split
  · exact ⟨_, rfl, Nat.lt_succ_self _, scans_spill _⟩
  · split
    · refine ⟨_, rfl, ?_, scans_setFg _ _⟩
      show s.i < s.i + 1 + consumed
      omega
    · refine ⟨_, rfl, ?_, scans_setBg _ _⟩
      show s.i < s.i + 1 + consumed
      omega

theorem exists_gray : ∃ s', s.gray chars = some s' ∧ s.i < s'.i ∧ Scans s s' := by
  unfold gray
  split
  · next h =>
    rw [getElem?_eq_getElem (Nat.lt_of_succ_lt h), getElem?_eq_getElem h]
    exact ⟨_, rfl, Nat.lt_add_of_pos_right (by decide), scans_setFg _ _⟩
  · exact ⟨_, rfl, Nat.lt_succ_self _, scans_skip _⟩

theorem exists_shorthand (hbuffer : s.buffer = []) :
    ∃ s', s.shorthand chars = some s' ∧ s.i < s'.i ∧ Scans s s' := by
  unfold shorthand
  cases hfind : findSequence chars (s.i + 2) ['\x60', 'a'] with
  | none => exact ⟨_, rfl, Nat.lt_succ_self _, scans_spill _⟩
  | some stop =>
    obtain ⟨hstart, hstop⟩ := findSequence_some (by decide) hfind
    dsimp only
    rw [slice_of_le hstart (by omega)]
    refine ⟨_, rfl, ?_, scans_emit hbuffer (linkFragment_isSpan ..) _⟩
    show s.i < stop + 2
    omega

theorem exists_link (hbuffer : s.buffer = []) :
    ∃ s', s.link chars = some s' ∧ s.i < s'.i ∧ Scans s s' := by
  unfold link
  cases hfind : findFrom chars (s.i + 1) ']' with
  | none => exact ⟨_, rfl, Nat.lt_succ_self _, scans_spill _⟩
  | some stop =>
    obtain ⟨hstart, hstop⟩ := findFrom_some hfind
    dsimp only
    rw [slice_of_le hstart (Nat.le_of_lt hstop)]
    refine ⟨_, rfl, ?_, scans_emit hbuffer (linkFragment_isSpan ..) _⟩
    show s.i < stop + 1
    omega

variable {ownedBytes : Nat} {raw : Chars}

/-- What is charged for a control are the bytes it keeps. -/
theorem parseControl_ownedBytes {style : TextStyle}
    (h : parseControl raw style = some (control, ownedBytes)) :
    control.ownedBytes = ownedBytes := by
  unfold parseControl at h
  split at h
  · cases h
  · simp only [bind_eq_bind, bind_eq_some_iff] at h
    obtain ⟨⟨descriptor, value⟩, _, d, _, h⟩ := h
    split at h
    · cases h
    · cases h
      unfold FieldControl.ownedBytes
      dsimp only
      congr 3
      split <;> rfl

theorem admitControl_fits (h : s.admitControl raw = some (control, ownedBytes)) :
    control.ownedBytes = ownedBytes ∧ s.state.controlItems < micronControlMaxItems ∧
      s.state.controlOwnedBytes + ownedBytes ≤ micronControlMaxOwnedBytes := by
  unfold admitControl at h
  split at h
  · obtain ⟨hparsed, hbytes⟩ := filter_eq_some_iff.mp h
    split at hparsed
    · next hitems => exact ⟨parseControl_ownedBytes hparsed, hitems, of_decide_eq_true hbytes⟩
    · cases hparsed
  · cases h

theorem exists_control (hbuffer : s.buffer = []) :
    ∃ s', s.control chars = some s' ∧ s.i < s'.i ∧ Scans s s' := by
  unfold Inline.control
  cases hfind : findFrom chars (s.i + 1) '>' with
  | none => exact ⟨_, rfl, Nat.lt_succ_self _, scans_spill _⟩
  | some stop =>
    obtain ⟨hstart, hstop⟩ := findFrom_some hfind
    have hlt : s.i < stop + 1 := by omega
    dsimp only
    rw [slice_of_le hstart (Nat.le_of_lt hstop)]
    simp only [bind_eq_bind, bind_some]
    cases hadmitted : s.admitControl ((chars.take stop).drop (s.i + 1)) with
    | none => exact ⟨_, rfl, hlt, scans_emit hbuffer rfl _⟩
    | some parsed =>
      obtain ⟨control, ownedBytes⟩ := parsed
      obtain ⟨hbytes, hitems, hfit⟩ := admitControl_fits hadmitted
      refine ⟨_, rfl, hlt, ⟨[.control control], rfl, rfl, ?_⟩, ?_, rfl, fun _ => ⟨hitems, hfit⟩⟩
      · show s.state.controlOwnedBytes + ownedBytes = s.state.controlOwnedBytes + (control.ownedBytes + 0)
        rw [hbytes, Nat.add_zero]
      · show s.shown <+: spanText (s.fragments ++ [.control control]) ++ s.buffer
        rw [spanText_append, shown, hbuffer, append_nil, append_nil]
        exact prefix_append _ _

theorem eq_backtick_of_reset {ch : Char} {following : Option Char}
    (h : InlineCommand.of ch following = .reset) : ch = '\x60' := by
  unfold InlineCommand.of at h
  split at h
  all_goals first
    | rfl
    | cases h
    | split at h <;> cases h

theorem exists_inlineCommand (h : s.i < chars.length) (hbuffer : s.buffer = []) :
    ∃ s', inlineCommand chars s = some s' ∧ s.i < s'.i ∧ Scans s s' := by
  unfold inlineCommand
  rw [getElem?_eq_getElem h]
  simp only [bind_eq_bind, bind_some]
  have hnext : s.i < s.i + 1 := Nat.lt_succ_self _
  have htext : ∀ {s' : Inline}, s'.fragments = s.fragments → s'.state.charged = s.state.charged →
      s'.state.controlItems = s.state.controlItems →
      s'.state.controlOwnedBytes = s.state.controlOwnedBytes → Scans s s' :=
    fun hfragments hcharged hitems hbytes =>
      scans_of_text hfragments (hbuffer ▸ nil_prefix) hcharged hitems hbytes
  cases hcommand : InlineCommand.of chars[s.i] chars[s.i + 1]? with
  | whitespace => exact ⟨_, rfl, hnext, scans_spill _⟩
  | underline | bold | italic | align => exact ⟨_, rfl, hnext, htext rfl rfl rfl rfl⟩
  | reset =>
    refine ⟨_, rfl, ?_, htext rfl rfl rfl rfl⟩
    show s.i < s.i + ((chars.drop s.i).takeWhile (· == '\x60')).length
    rw [drop_eq_getElem_cons h, eq_backtick_of_reset hcommand]
    exact Nat.lt_add_of_pos_right (Nat.succ_pos _)
  | next =>
    cases hfollowing : chars[s.i + 1]? with
    | none => exact ⟨_, rfl, hnext, scans_skip _⟩
    | some following =>
      refine ⟨_, rfl, Nat.lt_add_of_pos_right (by decide), htext rfl rfl rfl rfl⟩
  | color => exact exists_color _ h
  | defaultFg => exact ⟨_, rfl, hnext, scans_setFg _ _⟩
  | defaultBg => exact ⟨_, rfl, hnext, scans_setBg _ _⟩
  | gray => exact exists_gray
  | shorthand => exact exists_shorthand hbuffer
  | link => exact exists_link hbuffer
  | control => exact exists_control hbuffer
  | unknown => exact ⟨_, rfl, hnext, scans_skip _⟩

/-- A turn of the loop goes on in the line. -/
theorem exists_inlineStep (h : s.i < chars.length) :
    ∃ s', inlineStep chars s = some s' ∧ s.i < s'.i ∧ Scans s s' := by
  have hpush : ∀ (ch : Char),
      Scans s { s with buffer := s.buffer ++ [ch], escape := false, i := s.i + 1 } :=
    fun ch => scans_of_text rfl (prefix_append _ _) rfl rfl rfl
  unfold inlineStep
  rw [getElem?_eq_getElem h]
  simp only [bind_eq_bind, bind_some]
  split
  · split
    · exact ⟨_, rfl, Nat.lt_succ_self _, hpush _⟩
    · exact ⟨_, rfl, Nat.lt_succ_self _, scans_of_text rfl (prefix_refl _) rfl rfl rfl⟩
  · split
    · exact ⟨_, rfl, Nat.lt_succ_self _, hpush _⟩
    · obtain ⟨s₁, hflush, hscans, hbuffer, hi, _⟩ := exists_flushText s
      rw [hflush, bind_some]
      have hskip := hscans.trans (scans_skip (s₁.i + 1))
      split
      · refine ⟨_, rfl, ?_, hskip⟩
        rw [hi]
        exact Nat.lt_succ_self _
      · next hmore =>
        obtain ⟨s₂, hcommand, hlt, hscans₂⟩ :=
          exists_inlineCommand (s := { s₁ with i := s₁.i + 1 }) (Nat.lt_of_not_le hmore) hbuffer
        refine ⟨s₂, hcommand, ?_, hskip.trans hscans₂⟩
        have hlt : s₁.i + 1 < s₂.i := hlt
        omega

/-- The loop ends. -/
theorem exists_inlineLoop (h : chars.length - s.i < fuel) :
    ∃ s', inlineLoop chars fuel s = some s' ∧ Scans s s' := by
  induction fuel generalizing s with
  | zero => exact absurd h (Nat.not_lt_zero _)
  | succ fuel ih =>
    unfold inlineLoop
    split
    · next hlt =>
      obtain ⟨s₁, hstep, hi, hscans⟩ := exists_inlineStep hlt
      rw [hstep]
      obtain ⟨s₂, hloop, hscans₂⟩ := ih (s := s₁) (by omega)
      exact ⟨s₂, hloop, hscans.trans hscans₂⟩
    · exact ⟨s, rfl, scans_skip s.i⟩

end Commands

/-- A line always comes to fragments, of which the controls are charged. -/
theorem exists_parseInlineAndControlsWithStyle (line : Chars) (state : ParserState)
    (style : TextStyle) (preEscape : Bool) :
    ∃ fragments state', parseInlineAndControlsWithStyle line state style preEscape =
        some (fragments, state') ∧
      state'.controlItems = state.controlItems + (controls fragments).length ∧
      state'.controlOwnedBytes = state.controlOwnedBytes + controlBytes fragments ∧
      state'.charged = state.charged ∧ (state.ControlsFit → state'.ControlsFit) := by
  unfold parseInlineAndControlsWithStyle
  have hfuel : line.length - 0 < line.length + 1 := Nat.lt_succ_self _
  obtain ⟨s, hloop, hscans⟩ := exists_inlineLoop
    (s := { fragments := [], buffer := [], currentStyle := style, state, escape := preEscape, i := 0 })
    hfuel
  obtain ⟨s', hflush, hscans', _⟩ := exists_flushText s
  obtain ⟨⟨added, hfragments, hitems, hbytes⟩, _, hcharged, hfit⟩ := hscans.trans hscans'
  rw [nil_append] at hfragments
  simp only [hloop, hflush, bind_eq_bind, bind_some]
  subst hfragments
  exact ⟨_, _, rfl, hitems, hbytes, hcharged, hfit⟩

end Omen.Micron
