import OmenBrowser.Micron.Verbatim

/- What a line charges to its page, and what the page admits of its row.

   The controls of a row are charged while the line is scanned, its other fragments when the row is
   admitted; what is admitted is the beginning of the row, with or without its links. -/
namespace Omen.Micron
open Text

variable {state state' : ParserState} {fragments : List Fragment}

/-! Lines. -/

def rowFragments (row : Option RenderRow) : List Fragment := row.elim [] RenderRow.fragments

/-- What the scan of a line charges. -/
structure LineCharged (state : ParserState) (fragments : List Fragment) (state' : ParserState) :
    Prop where
  items : state'.controlItems = state.controlItems + (controls fragments).length
  bytes : state'.controlOwnedBytes = state.controlOwnedBytes + controlBytes fragments
  charged : state'.charged = state.charged
  fit : state.ControlsFit → state'.ControlsFit

theorem lineCharged_of_none (hitems : state'.controlItems = state.controlItems)
    (hbytes : state'.controlOwnedBytes = state.controlOwnedBytes)
    (hcharged : state'.charged = state.charged) : LineCharged state [] state' where
  items := hitems
  bytes := hbytes
  charged := hcharged
  fit h := by
    rw [ParserState.ControlsFit, hitems, hbytes]
    exact h

/-- What is charged does not depend on the style and the depth before. -/
theorem LineCharged.of_eq {state₁ state₂ : ParserState} (h : LineCharged state₂ fragments state')
    (hitems : state₂.controlItems = state₁.controlItems)
    (hbytes : state₂.controlOwnedBytes = state₁.controlOwnedBytes)
    (hcharged : state₂.charged = state₁.charged) : LineCharged state₁ fragments state' where
  items := hitems ▸ h.items
  bytes := hbytes ▸ h.bytes
  charged := h.charged.trans hcharged
  fit hfit := h.fit (by rw [ParserState.ControlsFit, hitems, hbytes]; exact hfit)

theorem literalRow_charged (state : ParserState) (line : Chars) :
    LineCharged state (literalRow state line).fragments state where
  items := rfl
  bytes := rfl
  charged := rfl
  fit h := h

/-- What a line comes to. -/
def LineEnds (state : ParserState) (parsed : Option (Option RenderRow × ParserState)) : Prop :=
  ∃ row state', parsed = some (row, state') ∧ LineCharged state (rowFragments row) state'

theorem lineEnds_none (h : LineCharged state [] state') :
    LineEnds state (some (none, state')) := ⟨none, state', rfl, h⟩

variable (logical : Chars) (fs gs : List Fragment)

theorem textRow_ends (state : ParserState) (preEscape : Bool) (line : Chars) :
    LineEnds state (textRow logical state preEscape line) := by
  obtain ⟨fragments, state', hparsed, hitems, hbytes, hcharged, hfit⟩ :=
    exists_parseInlineAndControlsWithStyle logical state state.style preEscape
  have hparsed : parseInlineAndControls logical state preEscape = some (fragments, state') := hparsed
  unfold textRow
  rw [hparsed, Option.bind_eq_bind, Option.bind_some]
  dsimp only
  split
  · next hempty =>
    rw [hempty] at hitems hbytes
    exact ⟨none, state', rfl, hitems, hbytes, hcharged, hfit⟩
  · exact ⟨_, state', rfl, hitems, hbytes, hcharged, hfit⟩

theorem headingRow_ends (state : ParserState) (line : Chars) :
    LineEnds state (headingRow logical state line) := by
  unfold headingRow
  dsimp only
  obtain ⟨fragments, state', hparsed, hitems, hbytes, hcharged, hfit⟩ :=
    exists_parseInlineAndControlsWithStyle (logical.dropWhile (· == '>'))
      { state with depth := (logical.takeWhile (· == '>')).length }
      (headingStyle state.style (logical.takeWhile (· == '>')).length) false
  rw [hparsed]
  exact ⟨_, state', rfl, hitems, hbytes, hcharged, hfit⟩

theorem parseLogical_ends {again : Chars → ParserState → Option (Option RenderRow × ParserState)}
    {logical : Chars} (preEscape : Bool) (line : Chars)
    (hagain : ∀ rest, logical = '<' :: rest → LineEnds { state with depth := 0 }
      (again rest { state with depth := 0 })) :
    LineEnds state (parseLogical again logical state preEscape line) := by
  have hnone : LineCharged state [] state := lineCharged_of_none rfl rfl rfl
  unfold parseLogical
  split
  · exact ⟨_, state, rfl, hnone⟩
  · split
    · next hreset =>
      obtain ⟨⟨rest, rfl⟩, _⟩ := hreset
      have hcut : splitAtByte (['<'] ++ rest) 1 = some (['<'], rest) := splitAtByte_append ['<'] rest
      rw [hcut]
      split
      · obtain ⟨row, state', hrow, hcharged⟩ := hagain rest rfl
        exact ⟨row, state', hrow, hcharged.of_eq rfl rfl rfl⟩
      · exact ⟨_, _, rfl, lineCharged_of_none rfl rfl rfl⟩
    · split
      · exact headingRow_ends logical state line
      · split
        · exact ⟨_, state, rfl, hnone⟩
        · exact textRow_ends logical state preEscape line

variable (line : Chars)

theorem length_stripEscape : (stripEscape line).1.length ≤ line.length := by
  unfold stripEscape
  split
  · exact Nat.le_succ _
  · exact Nat.le_refl _

/-- A line is parsed to its end, whatever it is. -/
theorem parseLineFuel_ends {fuel : Nat} {line : Chars} (state : ParserState)
    (h : line.length < fuel) : LineEnds state (parseLineFuel fuel line state) := by
  induction fuel generalizing line state with
  | zero => exact absurd h (Nat.not_lt_zero _)
  | succ fuel ih =>
    have hlogical : ∀ {logical : Chars} (state : ParserState) (preEscape : Bool),
        logical.length ≤ line.length →
        LineEnds state (parseLogical (parseLineFuel fuel) logical state preEscape line) := by
      intro logical state preEscape hle
      refine parseLogical_ends preEscape line fun rest hrest => ih _ ?_
      rw [hrest, List.length_cons] at hle
      omega
    unfold parseLineFuel
    split
    · exact lineEnds_none (lineCharged_of_none rfl rfl rfl)
    · split
      · exact ⟨_, state, rfl, literalRow_charged state line⟩
      · split
        · exact ⟨_, state, rfl, lineCharged_of_none rfl rfl rfl⟩
        · have hstrip := length_stripEscape line
          cases hparts : stripEscape line with
          | mk logical preEscape =>
            rw [hparts] at hstrip
            dsimp only
            split
            · exact lineEnds_none (lineCharged_of_none rfl rfl rfl)
            · split
              · exact lineEnds_none (lineCharged_of_none rfl rfl rfl)
              · split
                · next color rest hprefixed =>
                  split
                  · exact lineEnds_none (lineCharged_of_none rfl rfl rfl)
                  · obtain ⟨rfl, _⟩ := colorPrefixedLine_eq_some.mp hprefixed
                    rw [List.length_append] at hstrip
                    have hends := hlogical
                      { state with style := { state.style with fg := some color } } preEscape
                      (Nat.le_of_add_left_le hstrip)
                    obtain ⟨row, state', hrow, hcharged⟩ := hends
                    exact ⟨row, state', hrow, hcharged.of_eq rfl rfl rfl⟩
                · exact hlogical state preEscape hstrip

theorem parseLine_ends (state : ParserState) : LineEnds state (parseLine line state) :=
  parseLineFuel_ends state (Nat.lt_succ_self _)

/-! Rows. -/

/-- The links of a row. -/
def links (fragments : List Fragment) : List LinkAction := fragments.filterMap Fragment.link?

/-- What they are charged. -/
def linkBytes (fragments : List Fragment) : Nat := ((links fragments).map LinkAction.ownedBytes).sum

@[simp] theorem links_append : links (fs ++ gs) = links fs ++ links gs :=
  List.filterMap_append

@[simp] theorem linkBytes_append : linkBytes (fs ++ gs) = linkBytes fs + linkBytes gs := by
  rw [linkBytes, links_append, List.map_append, List.sum_append, ← linkBytes, ← linkBytes]

/-- What the document's counters allow. -/
structure ParserState.DocumentFits (state : ParserState) : Prop where
  fragments : state.fragmentItems ≤ micronDocumentMaxFragments - 1
  text : state.spanTextBytes ≤ micronDocumentSpanTextMaxBytes - utf8Len micronDocumentLimitNotice
  links : state.linkActionItems ≤ micronDocumentMaxLinkActions
  linkBytes : state.linkActionOwnedBytes ≤ micronDocumentLinkActionsMaxBytes

/-- What is admitted of fragments, and what is charged for it. -/
structure Admits (state : ParserState) (fragments : List Fragment) (admitted : List Fragment)
    (state' : ParserState) : Prop where
  controls : (controls admitted).Sublist (controls fragments)
  controlItems : state'.controlItems = state.controlItems
  controlOwnedBytes : state'.controlOwnedBytes = state.controlOwnedBytes
  items : state'.fragmentItems = state.fragmentItems + admitted.length
  text : state'.spanTextBytes = state.spanTextBytes + utf8Len (spanText admitted)
  links : state'.linkActionItems = state.linkActionItems + (links admitted).length
  linkBytes : state'.linkActionOwnedBytes = state.linkActionOwnedBytes + linkBytes admitted
  fits : state.DocumentFits → state'.DocumentFits

theorem reached_eq_false {limit count : Nat} : reached (some limit) count = false ↔ count < limit := by
  simp [reached]

theorem exceeded_eq_false {limit size : Nat} : exceeded (some limit) size = false ↔ size ≤ limit := by
  simp [exceeded]

/-- A span with its link or without. -/
structure LinkAdmitted (span : TextSpan) (state : ParserState) (span' : TextSpan)
    (state' : ParserState) : Prop where
  text : span'.text = span.text
  items : state'.fragmentItems = state.fragmentItems
  spanText : state'.spanTextBytes = state.spanTextBytes
  controlItems : state'.controlItems = state.controlItems
  controlOwnedBytes : state'.controlOwnedBytes = state.controlOwnedBytes
  links : state'.linkActionItems = state.linkActionItems + (links [.span span']).length
  linkBytes : state'.linkActionOwnedBytes = state.linkActionOwnedBytes + linkBytes [.span span']
  linksFit : state.linkActionItems ≤ micronDocumentMaxLinkActions →
    state'.linkActionItems ≤ micronDocumentMaxLinkActions
  linkBytesFit : state.linkActionOwnedBytes ≤ micronDocumentLinkActionsMaxBytes →
    state'.linkActionOwnedBytes ≤ micronDocumentLinkActionsMaxBytes

theorem exists_admitLink (span : TextSpan) (state : ParserState) :
    ∃ span' state', admitLink documentLimits span state = (span', state') ∧
      LinkAdmitted span state span' state' := by
  obtain ⟨text, style, link⟩ := span
  cases link with
  | none => exact ⟨_, state, rfl, rfl, rfl, rfl, rfl, rfl, rfl, rfl, id, id⟩
  | some link =>
    unfold admitLink
    dsimp only
    split
    · next h =>
      rw [Bool.not_eq_true, Bool.not_eq_true] at h
      have hitems : state.linkActionItems < micronDocumentMaxLinkActions := reached_eq_false.mp h.1
      have hbytes : state.linkActionOwnedBytes + link.ownedBytes ≤ micronDocumentLinkActionsMaxBytes :=
        exceeded_eq_false.mp h.2
      exact ⟨_, _, rfl, rfl, rfl, rfl, rfl, rfl, rfl, rfl, fun _ => hitems, fun _ => hbytes⟩
    · exact ⟨_, _, rfl, rfl, rfl, rfl, rfl, rfl, rfl, rfl, id, id⟩

theorem admits_nil (h : state' = { state with limitsApplied := true } ∨ state' = state) :
    Admits state fragments [] state' := by
  rcases h with rfl | rfl
  · exact ⟨List.nil_sublist _, rfl, rfl, rfl, rfl, rfl, rfl, fun h => ⟨h.fragments, h.text, h.links,
      h.linkBytes⟩⟩
  · exact ⟨List.nil_sublist _, rfl, rfl, rfl, rfl, rfl, rfl, id⟩

theorem admitFragments_admits (fragments : List Fragment) (state : ParserState) :
    Admits state fragments (admitFragments documentLimits fragments state).1
      (admitFragments documentLimits fragments state).2 := by
  -- by the fragments: a limit that is reached lets none of those behind in
  induction fragments generalizing state with
  | nil => exact admits_nil (.inr rfl)
  | cons fragment rest ih =>
    unfold admitFragments
    split
    · exact admits_nil (.inl rfl)
    · next hroom =>
      rw [Bool.not_eq_true] at hroom
      have hroom : state.fragmentItems < micronDocumentMaxFragments - 1 := reached_eq_false.mp hroom
      cases fragment with
      | span span =>
        dsimp only
        split
        · exact admits_nil (.inl rfl)
        · next htext =>
          rw [Bool.not_eq_true] at htext
          have htext : state.spanTextBytes + utf8Len span.text ≤
            micronDocumentSpanTextMaxBytes - utf8Len micronDocumentLimitNotice :=
              exceeded_eq_false.mp htext
          obtain ⟨span', state₁, hadmitted, hlink⟩ := exists_admitLink span
            { state with spanTextBytes := state.spanTextBytes + utf8Len span.text }
          rw [hadmitted]
          have hrest := ih { state₁ with fragmentItems := state₁.fragmentItems + 1 }
          have hitems : state₁.fragmentItems = state.fragmentItems := hlink.items
          have hspanText : state₁.spanTextBytes = state.spanTextBytes + utf8Len span.text :=
            hlink.spanText
          refine ⟨hrest.controls, hrest.controlItems.trans hlink.controlItems,
            hrest.controlOwnedBytes.trans hlink.controlOwnedBytes, ?_, ?_, ?_, ?_,
            fun h => hrest.fits ⟨?_, ?_, hlink.linksFit h.links, hlink.linkBytesFit h.linkBytes⟩⟩
          · rw [hrest.items, List.length_cons]
            dsimp only
            omega
          · rw [hrest.text, spanText_cons, utf8Len_append]
            dsimp only [Fragment.text]
            rw [hspanText, hlink.text, Nat.add_assoc]
          · rw [hrest.links, ← List.singleton_append, links_append, List.length_append]
            rw [hlink.links, Nat.add_assoc]
          · rw [hrest.linkBytes, ← List.singleton_append, linkBytes_append]
            rw [hlink.linkBytes, Nat.add_assoc]
          · rw [hitems]
            exact hroom
          · rw [hspanText]
            exact htext
      | control control =>
        have hrest := ih { state with fragmentItems := state.fragmentItems + 1 }
        refine ⟨hrest.controls.cons_cons control, hrest.controlItems, hrest.controlOwnedBytes, ?_,
          hrest.text, hrest.links, hrest.linkBytes, fun h => hrest.fits ⟨hroom, h.text, h.links,
            h.linkBytes⟩⟩
        rw [hrest.items, List.length_cons]
        dsimp only
        omega

end Omen.Micron
