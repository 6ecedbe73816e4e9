import OmenBrowser.Micron.Bounds
import OmenBrowser.Micron.Colours

/- Which rows a line makes, from its text and the literal mode alone. -/
namespace Omen.Micron
open Text Sql Option

variable {fuel : Nat} {line logical : Chars} {state state' : ParserState} {preEscape : Bool}
  {row : Option RenderRow}

/-! What a line's text cannot change. -/

theorem textRow_slot (h : textRow logical state preEscape line = some (row, state')) :
    state'.literal = state.literal ∧ ∀ r, row = some r → r.kind ≠ .slot := by
  obtain ⟨⟨fragments, state₁⟩, hparse, h⟩ := bind_eq_some_iff.mp h
  obtain ⟨_, _, _, _, hkept⟩ := parseInline_painted hparse
  dsimp only at h
  split at h
  · cases h
    exact ⟨hkept, fun r hr => nomatch hr⟩
  · cases h
    refine ⟨hkept, fun r hr => ?_⟩
    rw [← some.inj hr]
    exact RowKind.noConfusion

theorem headingRow_slot (h : headingRow logical state line = some (row, state')) :
    state'.literal = state.literal ∧ ∀ r, row = some r → r.kind ≠ .slot := by
  obtain ⟨⟨fragments, state₁⟩, hparse, h⟩ := bind_eq_some_iff.mp h
  obtain ⟨_, _, _, _, hkept⟩ := parseInline_painted hparse
  cases h
  refine ⟨hkept, fun r hr => ?_⟩
  rw [← some.inj hr]
  exact RowKind.noConfusion

/-! Lines. -/

/-- A line behind its escape and its colour, if anything of it is parsed. -/
def logicalLine (line : Chars) : Option Chars :=
  let logical := (stripEscape line).1
  if ['#'] <+: logical then none
  else if (bareColorDirective logical).isSome then none
  else
    match colorPrefixedLine logical with
    | some (_, rest) => if rest = [] then none else some rest
    | none => some logical

/-- What stands behind a reset of the depth. -/
def behindReset (line : Chars) : Option Chars :=
  match logicalLine line with
  | some ('<' :: rest) => if rest = [] ∨ ['<'] <+: rest then none else some rest
  | _ => none

/-- The line that is parsed behind all resets. -/
def innermostFuel : Nat → Chars → Chars
  | 0, line => line
  | fuel + 1, line =>
    match behindReset line with
    | some rest => innermostFuel fuel rest
    | none => line

def innermost (line : Chars) : Chars := innermostFuel line.length line

/-- The text of a slot, behind its opening. -/
def slotRaw (line : Chars) : Option Chars :=
  match logicalLine line with
  | some ('\x60' :: '\x7b' :: raw) => some raw
  | _ => none

theorem logicalLine_length (h : logicalLine line = some logical) :
    logical.length ≤ line.length := by
  have hstrip := length_stripEscape line
  unfold logicalLine at h
  dsimp only at h
  split at h
  · cases h
  · split at h
    · cases h
    · split at h
      · next color rest hprefixed =>
        obtain ⟨htext, -⟩ := colorPrefixedLine_eq_some.mp hprefixed
        split at h
        · cases h
        · cases h
          rw [htext, List.length_append] at hstrip
          omega
      · cases h
        exact hstrip

theorem behindReset_length {rest : Chars} (h : behindReset line = some rest) :
    rest.length < line.length := by
  unfold behindReset at h
  split at h
  · next rest' hlogical =>
    have hlength := logicalLine_length hlogical
    split at h
    · cases h
    · cases h
      rw [List.length_cons] at hlength
      exact hlength
  · cases h

/-- More fuel than characters makes no difference. -/
theorem innermostFuel_eq (h : line.length ≤ fuel) : innermostFuel fuel line = innermost line := by
  unfold innermost
  induction hn : line.length using Nat.strong_induction_on generalizing line fuel with
  | _ n ih =>
    subst hn
    cases fuel with
    | zero => rw [Nat.le_zero.mp h]
    | succ fuel =>
      cases hline : line.length with
      | zero =>
        have hnil : line = [] := List.length_eq_zero_iff.mp hline
        subst hnil
        rfl
      | succ m =>
        unfold innermostFuel
        cases hreset : behindReset line with
        | none => rfl
        | some rest =>
          have hshort := behindReset_length hreset
          dsimp only
          rw [ih _ hshort (by omega) rfl, @ih _ hshort m _ (by omega) rfl]

theorem innermost_eq (line : Chars) :
    innermost line = (behindReset line).elim line innermost := by
  cases hreset : behindReset line with
  | none =>
    unfold innermost
    cases line.length with
    | zero => rfl
    | succ n =>
      unfold innermostFuel
      rw [hreset]
      rfl
  | some rest =>
    have hshort := behindReset_length hreset
    rw [← innermostFuel_eq (Nat.le_succ line.length)]
    unfold innermostFuel
    rw [hreset]
    exact innermostFuel_eq (Nat.le_of_lt hshort)

theorem innermost_of_none (h : behindReset line = none) : innermost line = line := by
  rw [innermost_eq, h]
  rfl

theorem innermost_of_some {rest : Chars} (h : behindReset line = some rest) :
    innermost line = innermost rest := by
  rw [innermost_eq, h]
  rfl

/-! Rows of slots. -/

/-- What a slot is called, and its first word. -/
def slotDescriptor (raw : Chars) : SlotDescriptor :=
  let descriptor := raw.rdropWhile (· == '\x7d')
  ⟨descriptor, ((descriptor.splitOnP fun ch => ch == ' ' || ch == '|' || ch == ';').find?
    (· ≠ [])).getD "invalid".toList⟩

theorem parseSlot_slot (raw : Chars) (state : ParserState) (original : Chars) :
    (parseSlot raw state original).slot = some (slotDescriptor raw) := rfl

/-- A row is the slot that the text of its line has, and no slot where the text has none. -/
def MakesSlot (line : Chars) (row : Option RenderRow) : Prop :=
  match slotRaw line with
  | some raw => ∃ r, row = some r ∧ r.kind = .slot ∧ r.slot = some (slotDescriptor raw)
  | none => ∀ r, row = some r → r.kind ≠ .slot

theorem makesSlot_none (hline : slotRaw line = none) (hrow : ∀ r, row = some r → r.kind ≠ .slot) :
    MakesSlot line row := by
  unfold MakesSlot
  rw [hline]
  exact hrow

/-- What a line that is not literal comes to: a slot or none, and whether literal text begins. -/
def LineTells (line : Chars) (row : Option RenderRow) (state' : ParserState) : Prop :=
  MakesSlot (innermost line) row ∧ (state'.literal = true ↔ innermost line = "`=".toList)

section Tells
variable {line : Chars} {row : Option RenderRow} {state' : ParserState}

/-- A line that is itself innermost. -/
theorem lineTells_self (hreset : behindReset line = none) (hslot : slotRaw line = none)
    (hne : line ≠ "`=".toList) (hrow : ∀ r, row = some r → r.kind ≠ .slot)
    (hliteral : state'.literal = false) : LineTells line row state' := by
  unfold LineTells
  rw [innermost_of_none hreset, hliteral]
  exact ⟨makesSlot_none hslot hrow, iff_of_false Bool.false_ne_true hne⟩

theorem splitAtByte_reset (rest : Chars) : splitAtByte ('<' :: rest) 1 = some (['<'], rest) := by
  have hcut := splitAtByte_append ['<'] rest
  exact hcut

theorem utf8Len_reset (rest : Chars) : 1 < utf8Len ('<' :: rest) ↔ rest ≠ [] := by
  rw [utf8Len_cons, show ('<' : Char).utf8Size = 1 from rfl]
  constructor
  · rintro h rfl
    exact absurd h (by decide)
  · intro h
    have hlength := length_le_utf8Len rest
    have hpos := List.length_pos_iff.mpr h
    omega

theorem parseLogical_tells (hlogical : logicalLine line = some logical) (hne : line ≠ "`=".toList)
    (hliteral : state.literal = false)
    (hagain : ∀ {rest : Chars} {state₁ : ParserState}, state₁.literal = false →
      parseLineFuel fuel rest state₁ = some (row, state') → LineTells rest row state')
    (h : parseLogical (parseLineFuel fuel) logical state preEscape line = some (row, state')) :
    LineTells line row state' := by
  unfold parseLogical at h
  by_cases hslot : "`\x7b".toList <+: logical
  · rw [if_pos hslot] at h
    -- the line is a slot itself
    obtain ⟨raw, rfl⟩ := hslot
    cases h
    have hreset : behindReset line = none := by
      unfold behindReset
      rw [hlogical]
      rfl
    have hraw : slotRaw line = some raw := by
      unfold slotRaw
      rw [hlogical]
      rfl
    unfold LineTells MakesSlot
    rw [innermost_of_none hreset, hraw, hliteral]
    exact ⟨⟨_, rfl, rfl, parseSlot_slot _ _ _⟩, iff_of_false Bool.false_ne_true hne⟩
  rw [if_neg hslot] at h
  have hraw : slotRaw line = none := by
    unfold slotRaw
    rw [hlogical]
    split
    · next raw heq =>
      cases heq
      exact absurd ⟨raw, rfl⟩ hslot
    · rfl
  -- a single `<` resets the depth, and what follows it is parsed as a line of its own
  by_cases hless : ['<'] <+: logical ∧ ¬['<', '<'] <+: logical
  · rw [if_pos hless] at h
    obtain ⟨⟨rest, rfl⟩, hdouble⟩ := hless
    by_cases hrest : rest = []
    · subst hrest
      rw [List.append_nil, if_neg (by decide)] at h
      cases h
      have hreset : behindReset line = none := by
        unfold behindReset
        rw [hlogical]
        rfl
      refine lineTells_self hreset hraw hne (fun r hr => ?_) hliteral
      rw [← some.inj hr]
      exact RowKind.noConfusion
    · rw [List.singleton_append, if_pos ((utf8Len_reset rest).mpr hrest), splitAtByte_reset] at h
      have hreset : behindReset line = some rest := by
        unfold behindReset
        rw [hlogical]
        refine if_neg ?_
        rintro (hnil | ⟨tail, rfl⟩)
        · exact hrest hnil
        · exact hdouble ⟨tail, rfl⟩
      have htells := @hagain _ { state with depth := 0 } hliteral h
      unfold LineTells at htells ⊢
      rwa [innermost_of_some hreset]
  rw [if_neg hless] at h
  have hreset : behindReset line = none := by
    unfold behindReset
    rw [hlogical]
    split
    · next rest heq =>
      cases heq
      rw [not_and, not_not] at hless
      obtain ⟨tail, htail⟩ := hless ⟨rest, rfl⟩
      cases htail
      exact if_pos (.inr ⟨tail, rfl⟩)
    · rfl
  -- headings, dividers and text make rows, and none of these is a slot
  by_cases hheading : ['>'] <+: logical
  · rw [if_pos hheading] at h
    obtain ⟨hkept, hrow⟩ := headingRow_slot h
    exact lineTells_self hreset hraw hne hrow (hkept.trans hliteral)
  rw [if_neg hheading] at h
  by_cases hdivider : ['-'] <+: logical
  · rw [if_pos hdivider] at h
    cases h
    refine lineTells_self hreset hraw hne (fun r hr => ?_) hliteral
    rw [← some.inj hr]
    exact RowKind.noConfusion
  rw [if_neg hdivider] at h
  obtain ⟨hkept, hrow⟩ := textRow_slot h
  exact lineTells_self hreset hraw hne hrow (hkept.trans hliteral)

theorem parseLineFuel_tells (hliteral : state.literal = false)
    (h : parseLineFuel fuel line state = some (row, state')) : LineTells line row state' := by
  -- only a reset parses again, with one unit of fuel less
  induction fuel generalizing line state with
  | zero => cases h
  | succ fuel ih =>
    -- a line that has no logical part leaves no row
    have hstays : logicalLine line = none → line ≠ "`=".toList → row = none →
        state'.literal = false → LineTells line row state' := by
      rintro hnone hne rfl hkept
      refine lineTells_self ?_ ?_ hne (fun _ hr => nomatch hr) hkept
      · unfold behindReset
        rw [hnone]
      · unfold slotRaw
        rw [hnone]
    unfold parseLineFuel at h
    by_cases hmark : line = "`=".toList
    · rw [if_pos hmark] at h
      cases h
      subst hmark
      have hself : innermost "`=".toList = "`=".toList := by decide +kernel
      unfold LineTells
      rw [hself, hliteral]
      exact ⟨makesSlot_none (by decide +kernel) (fun _ hr => nomatch hr), iff_of_true rfl rfl⟩
    rw [if_neg hmark, if_neg (by rw [hliteral]; decide)] at h
    by_cases hempty : line = []
    · rw [if_pos hempty] at h
      cases h
      subst hempty
      refine lineTells_self (by decide +kernel) (by decide +kernel) hmark (fun r hr => ?_) hliteral
      rw [← some.inj hr]
      exact RowKind.noConfusion
    rw [if_neg hempty] at h
    have hlogical : ∀ (logical : Chars) (state₁ : ParserState) (preEscape : Bool),
        logicalLine line = some logical → state₁.literal = false →
        parseLogical (parseLineFuel fuel) logical state₁ preEscape line = some (row, state') →
        LineTells line row state' := by
      intro logical state₁ preEscape hline hkept hparse
      exact parseLogical_tells hline hmark hkept (fun hk hp => ih hk hp) hparse
    cases hstrip : stripEscape line with
    | mk logical preEscape =>
      rw [hstrip] at h
      dsimp only at h
      have hline : logicalLine line =
          if ['#'] <+: logical then none
          else if (bareColorDirective logical).isSome then none
          else match colorPrefixedLine logical with
            | some (_, rest) => if rest = [] then none else some rest
            | none => some logical := by
        unfold logicalLine
        rw [hstrip]
      by_cases hhash : ['#'] <+: logical
      · rw [if_pos hhash] at h hline
        cases h
        exact hstays hline hmark rfl hliteral
      rw [if_neg hhash] at h hline
      cases hbare : bareColorDirective logical with
      | some color =>
        rw [hbare] at h hline
        cases h
        exact hstays hline hmark rfl hliteral
      | none =>
        rw [hbare, if_neg (by decide)] at hline
        rw [hbare] at h
        cases hprefixed : colorPrefixedLine logical with
        | none =>
          rw [hprefixed] at h hline
          exact hlogical logical state preEscape hline hliteral h
        | some parts =>
          obtain ⟨color, rest⟩ := parts
          rw [hprefixed] at h hline
          dsimp only at h hline
          by_cases hrest : rest = []
          · rw [if_pos hrest] at h hline
            cases h
            exact hstays hline hmark rfl hliteral
          · rw [if_neg hrest] at h hline
            exact hlogical rest { state with style := { state.style with fg := some color } }
              preEscape hline hliteral h

end Tells

/-! The mode of a line, and the slot it shows. -/

/-- Whether literal text is under way behind a line. -/
def literalAfter (literal : Bool) (line : Chars) : Bool :=
  if Directive line then literal
  else if literal then decide (line ≠ "`=".toList)
  else decide (innermost line = "`=".toList)

/-- Whether a line stands in literal text. -/
def literalBefore (rawLines : List Chars) (lineIndex : Nat) : Bool :=
  (rawLines.take lineIndex).foldl literalAfter false

/-- The slot a line shows. -/
def shownSlot (literal : Bool) (line : Chars) : Option Chars :=
  if Directive line ∨ literal = true then none else slotRaw (innermost line)

/-- The row is the slot of this partial, or no slot. -/
def ShowsSlot (shown : Option Chars) (row : Option RenderRow) : Prop :=
  match shown with
  | some raw => ∃ r, row = some r ∧ r.kind = .slot ∧ r.slot = some (slotDescriptor raw)
  | none => ∀ r, row = some r → r.kind ≠ .slot

section Scan
variable {limits : Limits} {line : Chars} {state : ParserState} {metadata : Metadata}
  {scanned : Scanned}

theorem applyStyleDirective_literal (key value : Chars) (state : ParserState) :
    (applyStyleDirective key value state).literal = state.literal := by
  unfold applyStyleDirective
  split
  · rfl
  · split
    · rfl
    · split <;> rfl

theorem scanDirective_literal (limits : Limits) (key value : Chars) (state : ParserState)
    (metadata : Metadata) :
    (scanDirective limits key value state metadata).state.literal = state.literal ∧
      (scanDirective limits key value state metadata).row = none := by
  refine ⟨?_, rfl⟩
  simp only [scanDirective, applyMetadataDirective]
  split
  · rfl
  · split
    · rfl
    · exact applyStyleDirective_literal _ _ _

theorem parseLine_tells (hdirective : ¬Directive line)
    (h : parseLine line state = some (row, state')) :
    state'.literal = literalAfter state.literal line ∧
      ShowsSlot (shownSlot state.literal line) row := by
  unfold literalAfter shownSlot
  rw [if_neg hdirective]
  cases hliteral : state.literal with
  | false =>
    obtain ⟨hrow, hmode⟩ := parseLineFuel_tells hliteral h
    rw [if_neg (by decide), if_neg (by rintro (h | h); exacts [hdirective h, by cases h])]
    exact ⟨Bool.eq_iff_iff.mpr (hmode.trans decide_eq_true_iff.symm), hrow⟩
  | true =>
    rw [if_pos rfl, if_pos (.inr rfl)]
    by_cases hmark : line = "`=".toList
    · unfold parseLine parseLineFuel at h
      rw [if_pos hmark] at h
      cases h
      refine ⟨?_, fun _ hr => by cases hr⟩
      rw [hmark, hliteral]
      rfl
    · rw [parseLine_literal hliteral hmark] at h
      cases h
      refine ⟨?_, fun r hr => ?_⟩
      · rw [hliteral, decide_eq_true hmark]
      · rw [← some.inj hr]
        exact RowKind.noConfusion

theorem scanLine_tells (h : scanLine limits line state metadata = some scanned)
    (hadmitted : scanned.admitted = true) :
    scanned.state.literal = literalAfter state.literal line ∧
      ShowsSlot (shownSlot state.literal line) scanned.row := by
  have hdirective : ∀ {key value : Chars}, Directive line →
      scanned = scanDirective limits key value state metadata →
      scanned.state.literal = literalAfter state.literal line ∧
        ShowsSlot (shownSlot state.literal line) scanned.row := by
    rintro key value hline rfl
    obtain ⟨hliteral, hrow⟩ := scanDirective_literal limits key value state metadata
    rw [hliteral, hrow, literalAfter, if_pos hline, shownSlot, if_pos (.inl hline)]
    exact ⟨rfl, fun _ hr => nomatch hr⟩
  unfold scanLine at h
  split at h
  · cases h
    cases hadmitted
  · split at h
    · next hmark =>
      split at h
      · cases h
        rw [literalAfter, if_pos (.inl hmark), shownSlot, if_pos (.inl (.inl hmark))]
        exact ⟨rfl, fun _ hr => nomatch hr⟩
      · exact hdirective (.inl hmark) (some.inj h).symm
    · next hmark =>
      split at h
      · next key value hbare =>
        exact hdirective (.inr (by rw [hbare]; rfl)) (some.inj h).symm
      · next hbare =>
        obtain ⟨⟨row, state'⟩, hparse, h⟩ := bind_eq_some_iff.mp h
        cases h
        refine parseLine_tells ?_ hparse
        rintro (hline | hline)
        · exact hmark hline
        · rw [hbare] at hline
          cases hline

end Scan

/-! The rows of a document, line by line. -/

def Parsing.start : Parsing := ⟨.default, [], .empty, false⟩

/-- The row that a line adds to those of the lines before it. -/
def lineRow (rawLines : List Chars) (lineIndex : Nat) : Option RenderRow := do
  let before ← parseLines documentLimits (rawLines.take lineIndex) .start
  let after ← parseLines documentLimits (rawLines.take (lineIndex + 1)) .start
  after.rows[before.rows.length]?

theorem admitFragments_literal (limits : Limits) (fragments : List Fragment) (state : ParserState) :
    (admitFragments limits fragments state).2.literal = state.literal := by
  induction fragments generalizing state with
  | nil => rfl
  | cons fragment rest ih =>
    unfold admitFragments
    split
    · rfl
    · cases fragment with
      | control control => exact ih _
      | span span =>
        dsimp only
        split
        · rfl
        · refine (ih _).trans ?_
          unfold admitLink
          split
          · rfl
          · split <;> rfl

section Run
variable {rawLines rest : List Chars} {line : Chars} {p p' : Parsing}

/-- One line, where nothing is dropped. -/
structure TakesLine (p : Parsing) (line : Chars) (p' : Parsing) : Prop where
  literal : p'.state.literal = literalAfter p.state.literal line
  rows : ∃ row, p'.rows = p.rows ++ row.toList ∧
    ShowsSlot (shownSlot p.state.literal line) row

theorem parseLines_flag (h : parseLines documentLimits rawLines p = some p')
    (hflag : p'.limitsApplied = false) : p.limitsApplied = false := by
  induction rawLines generalizing p with
  | nil =>
    cases h
    exact hflag
  | cons line rest ih =>
    obtain ⟨scanned, hscan, h⟩ := bind_eq_some_iff.mp h
    dsimp only at h
    split at h
    · exact (Bool.or_eq_false_iff.mp (ih h)).1
    · split at h
      · cases h
        cases hflag
      · exact (Bool.or_eq_false_iff.mp (ih h)).1

theorem parseLines_cons (h : parseLines documentLimits (line :: rest) p = some p')
    (hflag : p'.limitsApplied = false) :
    ∃ q, parseLines documentLimits [line] p = some q ∧ parseLines documentLimits rest q = some p' ∧
      q.limitsApplied = false ∧ TakesLine p line q := by
  obtain ⟨scanned, hscan, h⟩ := bind_eq_some_iff.mp h
  have htells : scanned.admitted = true → _ := scanLine_tells hscan
  cases hrow : scanned.row with
  | none =>
    rw [hrow] at h
    -- the flag is never taken back, so the line was admitted
    have hafter := parseLines_flag h hflag
    have hadmitted : scanned.admitted = true := by
      simpa using (Bool.or_eq_false_iff.mp hafter).2
    obtain ⟨hliteral, hshows⟩ := htells hadmitted
    rw [hrow] at hshows
    refine ⟨_, ?_, h, hafter, ⟨hliteral, none, (List.append_nil _).symm, hshows⟩⟩
    unfold parseLines
    rw [hscan, bind_eq_bind, bind_some, hrow]
    rfl
  | some row =>
    rw [hrow] at h
    dsimp only at h
    split at h
    · cases h
      cases hflag
    · next hroom =>
      have hafter := parseLines_flag h hflag
      have hadmitted : scanned.admitted = true := by
        simpa using (Bool.or_eq_false_iff.mp hafter).2
      obtain ⟨hliteral, hshows⟩ := htells hadmitted
      rw [hrow] at hshows
      refine ⟨_, ?_, h, hafter,
        ⟨?_, some (admitRowFragments documentLimits row scanned.state).1, rfl, ?_⟩⟩
      · unfold parseLines
        rw [hscan, bind_eq_bind, bind_some, hrow]
        exact if_neg hroom
      · exact (admitFragments_literal _ _ _).trans hliteral
      · -- admission leaves kind and slot alone
        unfold ShowsSlot at hshows ⊢
        split at hshows
        · obtain ⟨r, hr, hkind, hslot⟩ := hshows
          cases hr
          exact ⟨_, rfl, hkind, hslot⟩
        · intro r hr
          rw [← some.inj hr]
          exact hshows row rfl

theorem parseLines_join {before : List Chars} {q : Parsing}
    (hbefore : parseLines documentLimits before p = some q)
    (hrest : parseLines documentLimits rest q = some p') (hflag : p'.limitsApplied = false) :
    parseLines documentLimits (before ++ rest) p = some p' := by
  have hq := parseLines_flag hrest hflag
  induction before generalizing p with
  | nil =>
    cases hbefore
    exact hrest
  | cons line before ih =>
    rw [List.cons_append]
    unfold parseLines at hbefore ⊢
    obtain ⟨scanned, hscan, hbefore⟩ := bind_eq_some_iff.mp hbefore
    rw [hscan, bind_eq_bind, bind_some]
    cases hrow : scanned.row with
    | none =>
      rw [hrow] at hbefore
      exact ih hbefore
    | some row =>
      rw [hrow] at hbefore
      dsimp only at hbefore ⊢
      split at hbefore
      · cases hbefore
        cases hq
      · next hroom =>
        rw [if_neg hroom]
        exact ih hbefore

/-- A parse is the parse of the lines before and of those behind. -/
theorem parseLines_split {before : List Chars}
    (h : parseLines documentLimits (before ++ rest) p = some p') (hflag : p'.limitsApplied = false) :
    ∃ q, parseLines documentLimits before p = some q ∧ parseLines documentLimits rest q = some p' ∧
      q.limitsApplied = false ∧ q.state.literal = before.foldl literalAfter p.state.literal := by
  induction before generalizing p with
  | nil => exact ⟨p, rfl, h, parseLines_flag h hflag, rfl⟩
  | cons line before ih =>
    obtain ⟨q, hone, hrest, -, htakes⟩ := parseLines_cons h hflag
    obtain ⟨q', hbefore, hafter, hflag', hliteral⟩ := ih hrest
    refine ⟨q', ?_, hafter, hflag', ?_⟩
    · exact parseLines_join hone hbefore hflag'
    · rw [List.foldl_cons, ← htakes.literal]
      exact hliteral

/-- What a line of a parse that drops nothing shows. -/
theorem lineRow_shows (h : parseLines documentLimits rawLines .start = some p')
    (hflag : p'.limitsApplied = false) {i : Nat} (hline : rawLines[i]? = some line) :
    ShowsSlot (shownSlot (literalBefore rawLines i) line) (lineRow rawLines i) := by
  have hsplit : rawLines = rawLines.take i ++ line :: rawLines.drop (i + 1) := by
    obtain ⟨hlt, rfl⟩ := List.getElem?_eq_some_iff.mp hline
    rw [← List.drop_eq_getElem_cons hlt, List.take_append_drop]
  have htake : rawLines.take (i + 1) = rawLines.take i ++ [line] := by
    rw [List.take_add_one, hline, toList_some]
  rw [hsplit] at h
  obtain ⟨before, hbefore, hafter, hflagBefore, hliteral⟩ := parseLines_split h hflag
  obtain ⟨after, hone, -, hflagAfter, htakes⟩ := parseLines_cons hafter hflag
  obtain ⟨row, hrows, hshows⟩ := htakes.rows
  have hjoined := parseLines_join hbefore hone hflagAfter
  have hrow : lineRow rawLines i = row := by
    unfold lineRow
    rw [hbefore, htake, hjoined, bind_eq_bind, bind_some, bind_some, hrows]
    cases row with
    | none => rw [toList_none, List.append_nil, List.getElem?_eq_none (Nat.le_refl _)]
    | some row => rw [toList_some, List.getElem?_concat_length]
  rw [hrow]
  rwa [hliteral] at hshows

/-- The lines of a document that drops nothing. -/
theorem parseMicron_lines {markup : Chars} {document : Document}
    (h : parseMicron markup = some document) (hflag : document.limitsApplied = false) :
    ∃ p, parseLines documentLimits (lines markup) .start = some p ∧ p.limitsApplied = false ∧
      document.rows = p.rows := by
  obtain ⟨p, hparse, h⟩ := bind_eq_some_iff.mp h
  cases h
  dsimp only at hflag ⊢
  rw [hflag, if_neg Bool.false_ne_true]
  exact ⟨p, hparse, (Bool.or_eq_false_iff.mp hflag).1, rfl⟩

end Run

end Omen.Micron
