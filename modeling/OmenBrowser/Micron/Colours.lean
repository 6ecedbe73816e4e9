import OmenBrowser.Micron.Scanner

/- What the commands of a line do to the colours, whatever style the line begins with.

   `Paint` follows the scanner through a text without its styles: where it stands, and which colours
   the text itself has set. A heading begins with colours of its own and leaves the style it ends
   with, so its colours stay where its text has set none (`heading_colours_local_iff`). -/
namespace Omen.Micron
open Text Option

/-- How far a text is scanned, and the colours that its commands have set. -/
structure Paint where
  i : Nat
  escape : Bool
  fg : Option (Option Chars)
  bg : Option (Option Chars)

section Paint
variable (chars defaultFg : Chars) (defaultBg : Option Chars) (p : Paint)

/-- A command, behind its backtick: how far it goes, and the colours it sets. -/
def paintCommand : Option Paint := do
  let ch ← chars[p.i]?
  match InlineCommand.of ch chars[p.i + 1]? with
  | .reset =>
    some { p with
      fg := some (some defaultFg)
      bg := some defaultBg
      i := p.i + ((chars.drop p.i).takeWhile (· == '\x60')).length }
  | .next => some { p with i := if (chars[p.i + 1]?).isSome then p.i + 2 else p.i + 1 }
  | .color =>
    let (color, consumed) ← parseColor (← slice chars (p.i + 1) chars.length)
    let i := p.i + 1 + consumed
    if consumed = 0 then some { p with i := p.i + 1 }
    else if ch = 'F' then some { p with fg := some (some color), i }
    else some { p with bg := some (if color = Micron.defaultBg then none else some color), i }
  | .defaultFg => some { p with fg := some (some defaultFg), i := p.i + 1 }
  | .defaultBg => some { p with bg := some defaultBg, i := p.i + 1 }
  | .gray =>
    if p.i + 2 < chars.length then do
      let first ← chars[p.i + 1]?
      let second ← chars[p.i + 2]?
      some { p with fg := some (some ['g', first, second]), i := p.i + 3 }
    else some { p with i := p.i + 1 }
  | .shorthand =>
    some { p with i := ((findSequence chars (p.i + 2) ['\x60', 'a']).map (· + 2)).getD (p.i + 1) }
  | .link => some { p with i := ((findFrom chars (p.i + 1) ']').map (· + 1)).getD (p.i + 1) }
  | .control => some { p with i := ((findFrom chars (p.i + 1) '>').map (· + 1)).getD (p.i + 1) }
  | _ => some { p with i := p.i + 1 }

/-- A turn of the loop. -/
def paintStep : Option Paint := do
  let ch ← chars[p.i]?
  if ch = '\\' then some { p with escape := !p.escape, i := p.i + 1 }
  else if ch ≠ '\x60' ∨ p.escape = true then some { p with escape := false, i := p.i + 1 }
  else
    let p := { p with i := p.i + 1 }
    if chars.length ≤ p.i then some p else paintCommand chars defaultFg defaultBg p

def paintLoop : Nat → Paint → Option Paint
  | 0, _ => none
  | fuel + 1, p =>
    if p.i < chars.length then do
      let p ← paintStep chars defaultFg defaultBg p
      paintLoop fuel p
    else some p

/-- The colours that a text sets by its own commands. -/
def paint (preEscape : Bool) : Option Paint :=
  paintLoop chars defaultFg defaultBg (chars.length + 1) ⟨0, preEscape, none, none⟩

end Paint

variable {chars : Chars} {style : TextStyle} {state : ParserState} {s s' : Inline} {p : Paint}

/-- The scanner stands where the text alone takes it, in the colours it began with where the text has
set none. -/
structure Painted (style : TextStyle) (state : ParserState) (s : Inline) (p : Paint) : Prop where
  i : s.i = p.i
  escape : s.escape = p.escape
  fg : s.currentStyle.fg = p.fg.getD style.fg
  bg : s.currentStyle.bg = p.bg.getD style.bg
  defaultFg : s.state.defaultFg = state.defaultFg
  defaultBg : s.state.defaultBg = state.defaultBg
  literal : s.state.literal = state.literal

/-- The scanner has moved on, in the same style. -/
structure Moved (s s' : Inline) (i : Nat) : Prop where
  i : s'.i = i
  escape : s'.escape = s.escape
  style : s'.currentStyle = s.currentStyle
  defaultFg : s'.state.defaultFg = s.state.defaultFg
  defaultBg : s'.state.defaultBg = s.state.defaultBg
  literal : s'.state.literal = s.state.literal

theorem Painted.moved {i : Nat} (hp : Painted style state s p) (h : Moved s s' i) :
    Painted style state s' { p with i } where
  i := h.i
  escape := h.escape.trans hp.escape
  fg := by rw [h.style, hp.fg]
  bg := by rw [h.style, hp.bg]
  defaultFg := h.defaultFg.trans hp.defaultFg
  defaultBg := h.defaultBg.trans hp.defaultBg
  literal := h.literal.trans hp.literal

theorem shorthand_moved (h : s.shorthand chars = some s') :
    Moved s s' (((findSequence chars (s.i + 2) ['\x60', 'a']).map (· + 2)).getD (s.i + 1)) := by
  unfold Inline.shorthand at h
  split at h
  · next hfind =>
    obtain ⟨raw, _, h⟩ := bind_eq_some_iff.mp h
    cases h
    exact ⟨by rw [hfind]; rfl, rfl, rfl, rfl, rfl, rfl⟩
  · next hfind =>
    cases h
    exact ⟨by rw [hfind]; rfl, rfl, rfl, rfl, rfl, rfl⟩

theorem link_moved (h : s.link chars = some s') :
    Moved s s' (((findFrom chars (s.i + 1) ']').map (· + 1)).getD (s.i + 1)) := by
  unfold Inline.link at h
  split at h
  · next hfind =>
    obtain ⟨raw, _, h⟩ := bind_eq_some_iff.mp h
    cases h
    exact ⟨by rw [hfind]; rfl, rfl, rfl, rfl, rfl, rfl⟩
  · next hfind =>
    cases h
    exact ⟨by rw [hfind]; rfl, rfl, rfl, rfl, rfl, rfl⟩

/-- A control counts among the page's, and its commands set no colours. -/
theorem control_moved (h : s.control chars = some s') :
    Moved s s' (((findFrom chars (s.i + 1) '>').map (· + 1)).getD (s.i + 1)) := by
  unfold Inline.control at h
  split at h
  · next hfind =>
    obtain ⟨raw, _, h⟩ := bind_eq_some_iff.mp h
    split at h
    all_goals
      cases h
      exact ⟨by rw [hfind]; rfl, rfl, rfl, rfl, rfl, rfl⟩
  · next hfind =>
    cases h
    exact ⟨by rw [hfind]; rfl, rfl, rfl, rfl, rfl, rfl⟩

theorem inlineCommand_painted (h : inlineCommand chars s = some s') (hp : Painted style state s p) :
    ∃ p', paintCommand chars state.defaultFg state.defaultBg p = some p' ∧
      Painted style state s' p' := by
  obtain ⟨i, escape, fg, bg⟩ := p
  obtain ⟨rfl, rfl, hfg, hbg, hdefaultFg, hdefaultBg, hliteral⟩ := id hp
  obtain ⟨ch, hch, h⟩ := bind_eq_some_iff.mp h
  unfold paintCommand
  rw [hch, bind_eq_bind, bind_some]
  generalize InlineCommand.of ch chars[s.i + 1]? = command at h ⊢
  cases command with
  | reset =>
    cases h
    exact ⟨_, rfl, rfl, rfl, congrArg some hdefaultFg, hdefaultBg, hdefaultFg, hdefaultBg, hliteral⟩
  | next =>
    dsimp only at h
    split at h
    all_goals
      next hnext =>
      cases h
      refine ⟨_, rfl, ?_, rfl, hfg, hbg, hdefaultFg, hdefaultBg, hliteral⟩
      rw [hnext]
      rfl
  | color =>
    unfold Inline.color at h
    simp only [bind_eq_bind, bind_eq_some_iff] at h
    obtain ⟨rest, hslice, ⟨color, consumed⟩, hcolor, h⟩ := h
    simp only [hslice, hcolor, bind_eq_bind, bind_some]
    split at h
    · next hnone =>
      cases h
      rw [if_pos hnone]
      exact ⟨_, rfl, rfl, rfl, hfg, hbg, hdefaultFg, hdefaultBg, hliteral⟩
    · next hsome =>
      rw [if_neg hsome]
      split at h
      · next hF =>
        cases h
        rw [if_pos hF]
        exact ⟨_, rfl, rfl, rfl, rfl, hbg, hdefaultFg, hdefaultBg, hliteral⟩
      · next hB =>
        cases h
        rw [if_neg hB]
        exact ⟨_, rfl, rfl, rfl, hfg, rfl, hdefaultFg, hdefaultBg, hliteral⟩
  | defaultFg =>
    cases h
    exact ⟨_, rfl, rfl, rfl, congrArg some hdefaultFg, hbg, hdefaultFg, hdefaultBg, hliteral⟩
  | defaultBg =>
    cases h
    exact ⟨_, rfl, rfl, rfl, hfg, hdefaultBg, hdefaultFg, hdefaultBg, hliteral⟩
  | gray =>
    dsimp only at h ⊢
    unfold Inline.gray at h
    split at h
    · next hlong =>
      simp only [bind_eq_bind, bind_eq_some_iff] at h
      obtain ⟨first, hfirst, second, hsecond, h⟩ := h
      cases h
      rw [if_pos hlong, hfirst, bind_some, hsecond, bind_some]
      exact ⟨_, rfl, rfl, rfl, rfl, hbg, hdefaultFg, hdefaultBg, hliteral⟩
    · next hshort =>
      cases h
      rw [if_neg hshort]
      exact ⟨_, rfl, rfl, rfl, hfg, hbg, hdefaultFg, hdefaultBg, hliteral⟩
  -- these read on, how far the scanner goes is all that counts
  | shorthand => exact ⟨_, rfl, hp.moved (shorthand_moved h)⟩
  | link => exact ⟨_, rfl, hp.moved (link_moved h)⟩
  | control => exact ⟨_, rfl, hp.moved (control_moved h)⟩
  | _ =>
    cases h
    exact ⟨_, rfl, rfl, rfl, hfg, hbg, hdefaultFg, hdefaultBg, hliteral⟩

theorem Painted.flushed (hp : Painted style state s p) (h : s.flushText = some s') :
    Painted style state s' p := by
  obtain ⟨s₁, hflush, _, _, hi, hescape, hstate, hstyle, _⟩ := exists_flushText s
  cases h.symm.trans hflush
  obtain ⟨hi', hescape', hfg, hbg, hdefaultFg, hdefaultBg, hliteral⟩ := hp
  constructor <;> simpa only [hi, hescape, hstate, hstyle]

theorem inlineStep_painted (h : inlineStep chars s = some s') (hp : Painted style state s p) :
    ∃ p', paintStep chars state.defaultFg state.defaultBg p = some p' ∧
      Painted style state s' p' := by
  obtain ⟨ch, hch, h⟩ := bind_eq_some_iff.mp h
  unfold paintStep
  obtain ⟨i, escape, fg, bg⟩ := p
  obtain ⟨rfl, rfl, hfg, hbg, hdefaultFg, hdefaultBg, hliteral⟩ := id hp
  rw [hch, bind_eq_bind, bind_some]
  split at h
  · next hbackslash =>
    rw [if_pos hbackslash]
    split at h
    all_goals
      next hescape =>
      cases h
      exact ⟨_, rfl, rfl, by simp [hescape], hfg, hbg, hdefaultFg, hdefaultBg, hliteral⟩
  · next hother =>
    rw [if_neg hother]
    split at h
    · next hplain =>
      cases h
      rw [if_pos hplain]
      exact ⟨_, rfl, rfl, rfl, hfg, hbg, hdefaultFg, hdefaultBg, hliteral⟩
    · next hcommand =>
      rw [if_neg hcommand]
      obtain ⟨s₁, hflush, h⟩ := bind_eq_some_iff.mp h
      obtain ⟨hi, hescape, hfg, hbg, hdefaultFg, hdefaultBg, hliteral⟩ := hp.flushed hflush
      have hmoved : Painted style state { s₁ with i := s.i + 1 } ⟨s.i + 1, s.escape, fg, bg⟩ :=
        ⟨rfl, hescape, hfg, hbg, hdefaultFg, hdefaultBg, hliteral⟩
      dsimp only at h hi
      rw [hi] at h
      split at h
      · next hend =>
        cases h
        rw [if_pos hend]
        exact ⟨_, rfl, hmoved⟩
      · next hmore =>
        rw [if_neg hmore]
        exact inlineCommand_painted h hmoved

theorem inlineLoop_painted {fuel : Nat} (h : inlineLoop chars fuel s = some s')
    (hp : Painted style state s p) :
    ∃ p', paintLoop chars state.defaultFg state.defaultBg fuel p = some p' ∧
      Painted style state s' p' := by
  induction fuel generalizing s p with
  | zero => cases h
  | succ fuel ih =>
    unfold inlineLoop at h
    unfold paintLoop
    rw [← hp.i]
    split at h
    · next hmore =>
      obtain ⟨s₁, hstep, h⟩ := bind_eq_some_iff.mp h
      obtain ⟨p₁, hpaint, hp₁⟩ := inlineStep_painted hstep hp
      rw [if_pos hmore, hpaint]
      exact ih h hp₁
    · next hend =>
      cases h
      rw [if_neg hend]
      exact ⟨p, rfl, hp⟩

/-- A line leaves the colours that it has set, or those that it began with. -/
theorem parseInline_painted {line : Chars} {preEscape : Bool} {fragments : List Fragment}
    {state' : ParserState}
    (h : parseInlineAndControlsWithStyle line state style preEscape = some (fragments, state')) :
    ∃ p, paint line state.defaultFg state.defaultBg preEscape = some p ∧
      state'.style.fg = p.fg.getD style.fg ∧ state'.style.bg = p.bg.getD style.bg ∧
      state'.literal = state.literal := by
  obtain ⟨s, hloop, h⟩ := bind_eq_some_iff.mp h
  obtain ⟨s', hflush, h⟩ := bind_eq_some_iff.mp h
  cases h
  have hstart : Painted style state ⟨[], [], style, state, preEscape, 0⟩
      ⟨0, preEscape, none, none⟩ := ⟨rfl, rfl, rfl, rfl, rfl, rfl, rfl⟩
  obtain ⟨p, hpaint, hp⟩ := inlineLoop_painted hloop hstart
  obtain ⟨_, _, hfg, hbg, _, _, hliteral⟩ := hp.flushed hflush
  exact ⟨p, hpaint, hfg, hbg, hliteral⟩

/-! Headings. -/

theorem getD_eq_getD_iff {α : Type} {o : Option α} {a b : α} :
    o.getD a = o.getD b ↔ o.isSome = true ∨ a = b := by
  cases o <;> simp

/-- A heading leaves the colours that its text leaves as an ordinary line exactly if the text sets
each colour itself, or the heading's own colour is the one before. -/
theorem heading_colours_local_iff
    {again : Chars → ParserState → Option (Option RenderRow × ParserState)} {logical : Chars}
    (hheading : ['>'] <+: logical) (state : ParserState) (preEscape : Bool) (line : Chars) :
    let text := logical.dropWhile (· == '>')
    let own := headingStyle state.style (logical.takeWhile (· == '>')).length
    ∃ row heading fragments ordinary p,
      parseLogical again logical state preEscape line = some (some row, heading) ∧
      parseInlineAndControls text state false = some (fragments, ordinary) ∧
      paint text state.defaultFg state.defaultBg false = some p ∧
      (heading.style.fg = ordinary.style.fg ∧ heading.style.bg = ordinary.style.bg ↔
        (p.fg.isSome = true ∨ own.fg = state.style.fg) ∧
          (p.bg.isSome = true ∨ own.bg = state.style.bg)) := by
  obtain ⟨text', rfl⟩ := hheading
  intro text own
  obtain ⟨shown, heading, hshown, _⟩ := exists_parseInlineAndControlsWithStyle text
    { state with depth := (('>' :: text').takeWhile (· == '>')).length } own false
  obtain ⟨fragments, ordinary, hordinary, _⟩ :=
    exists_parseInlineAndControlsWithStyle text state state.style false
  obtain ⟨p, hp, hfg, hbg, _⟩ := parseInline_painted hshown
  obtain ⟨p', hp', hfg', hbg', _⟩ := parseInline_painted hordinary
  cases hp.symm.trans hp'
  have hbranch : parseLogical again ('>' :: text') state preEscape line =
      headingRow ('>' :: text') state line := by
    unfold parseLogical
    rw [if_neg (by simp), if_neg (by simp), if_pos (by simp)]
  have hrow : ∃ row, headingRow ('>' :: text') state line = some (some row, heading) :=
    ⟨_, bind_eq_some_iff.mpr ⟨_, hshown, rfl⟩⟩
  obtain ⟨row, hrow⟩ := hrow
  refine ⟨row, heading, fragments, ordinary, p, hbranch.trans hrow, hordinary, hp, ?_⟩
  rw [hfg, hbg, hfg', hbg', getD_eq_getD_iff, getD_eq_getD_iff]

/-- A heading that sets its colours: they stay, as they would in an ordinary line. -/
theorem painted_heading : ∃ row heading fragments ordinary p,
    parseLogical (fun _ _ => none) ">`Fabc`B123H".toList .default false [] = some (some row, heading) ∧
    parseInlineAndControls "`Fabc`B123H".toList .default false = some (fragments, ordinary) ∧
    paint "`Fabc`B123H".toList ParserState.default.defaultFg ParserState.default.defaultBg false =
      some p ∧
    (heading.style.fg = ordinary.style.fg ∧ heading.style.bg = ordinary.style.bg ↔
      (p.fg.isSome = true ∨ some "222".toList = ParserState.default.style.fg) ∧
        (p.bg.isSome = true ∨ some "bbb".toList = ParserState.default.style.bg)) :=
  heading_colours_local_iff (by decide) .default false []

/-- A heading without commands leaves its own colours. -/
theorem heading_recolours :
    (parseLine ">H".toList .default).map (fun parsed => (parsed.2.style.fg, parsed.2.style.bg)) =
      some (some "222".toList, some "bbb".toList) ∧
    (parseInlineAndControls "H".toList .default false).map
        (fun parsed => (parsed.2.style.fg, parsed.2.style.bg)) ≠
      some (some "222".toList, some "bbb".toList) := by
  decide

end Omen.Micron
