import OmenBrowser.Micron.Inline

/- The lines of a page: directives, line commands and rows, and the limits of a document.

   The limits are a parameter of the parser (`documentLimits` are those of the source), so that the
   same parse can be run without them. Sizes are counted without a bound: a sum that is out of range
   of the source's counters is beyond every limit. -/
namespace Omen.Micron
open Text Sql

def micronDocumentMaxRows : Nat := 16 * 1024
def micronDocumentMaxLineBytes : Nat := 256 * 1024
def micronMetadataMaxItems : Nat := 64
def micronMetadataKeyMaxBytes : Nat := 256
def micronMetadataValueMaxBytes : Nat := 4 * 1024
def micronMetadataMaxOwnedBytes : Nat := 64 * 1024
def micronDocumentMaxFragments : Nat := 64 * 1024
def micronDocumentSpanTextMaxBytes : Nat := 4 * 1024 * 1024
def micronDocumentMaxLinkActions : Nat := 4 * 1024
def micronDocumentLinkActionsMaxBytes : Nat := 4 * 1024 * 1024
def micronStyleMetadataValueMaxBytes : Nat := 16
/-- The last line of a page that was cut. -/
def micronDocumentLimitNotice : Chars :=
  "[OMENbrowser: page content was truncated at a safe rendering limit]".toList

/-! Limits. -/

/-- How far each count may go; `none` is without end. -/
structure Limits where
  lineBytes : Option Nat
  rows : Option Nat
  fragments : Option Nat
  spanTextBytes : Option Nat
  linkActions : Option Nat
  linkActionBytes : Option Nat
  metadataItems : Option Nat
  metadataKeyBytes : Option Nat
  metadataValueBytes : Option Nat
  styleValueBytes : Option Nat
  metadataBytes : Option Nat

/-- The source's limits. Of rows, fragments and text the notice keeps its own. -/
def documentLimits : Limits where
  lineBytes := some micronDocumentMaxLineBytes
  rows := some (micronDocumentMaxRows - 1)
  fragments := some (micronDocumentMaxFragments - 1)
  spanTextBytes := some (micronDocumentSpanTextMaxBytes - utf8Len micronDocumentLimitNotice)
  linkActions := some micronDocumentMaxLinkActions
  linkActionBytes := some micronDocumentLinkActionsMaxBytes
  metadataItems := some micronMetadataMaxItems
  metadataKeyBytes := some micronMetadataKeyMaxBytes
  metadataValueBytes := some micronMetadataValueMaxBytes
  styleValueBytes := some micronStyleMetadataValueMaxBytes
  metadataBytes := some micronMetadataMaxOwnedBytes

def noLimits : Limits :=
  ⟨none, none, none, none, none, none, none, none, none, none, none⟩

/-- There is no room for one more. -/
def reached (limit : Option Nat) (count : Nat) : Bool := limit.any (· ≤ count)

/-- The size is beyond the limit. -/
def exceeded (limit : Option Nat) (size : Nat) : Bool := limit.any (· < size)

/-! Rows. -/

variable (state : ParserState)

/-- An empty line. -/
def blankRow (raw : Chars) : RenderRow :=
  { kind := .blank
    depth := state.depth
    fragments := []
    align := state.align
    baseStyle := state.style
    divider := '─'
    cellPreserving := true
    slot := none
    raw }

/-- The notice, in the style the page ends with. -/
def limitNoticeRow : RenderRow :=
  { kind := .text
    depth := 0
    fragments := [plainSpan micronDocumentLimitNotice state.style]
    align := .left
    baseStyle := state.style
    divider := '─'
    cellPreserving := false
    slot := none
    raw := micronDocumentLimitNotice }

variable (line : Chars)

/-- A line as it is. -/
def literalRow : RenderRow :=
  { kind := .text
    depth := state.depth
    fragments := [plainSpan (if line = "\\`=".toList then "`=".toList else line) state.style]
    align := state.align
    baseStyle := state.style
    divider := '─'
    cellPreserving := true
    slot := none
    raw := line }

/-- `parse_partial`. -/
def parseSlot (rawSlot : Chars) (state : ParserState) (original : Chars) : RenderRow :=
  let descriptor := rawSlot.rdropWhile (· == '\x7d')
  let url := ((descriptor.splitOnP fun ch => ch == ' ' || ch == '|' || ch == ';').find?
    (· ≠ [])).getD "invalid".toList
  { kind := .slot
    depth := state.depth
    fragments := []
    align := state.align
    baseStyle := state.style
    divider := '─'
    cellPreserving := true
    slot := some ⟨descriptor, url⟩
    raw := original }

variable (logical : Chars)

/-- A line across the page. -/
def dividerRow (state : ParserState) (line : Chars) : RenderRow :=
  { kind := .divider
    depth := state.depth
    fragments := []
    align := state.align
    baseStyle := state.style
    divider := if logical.length = 2 then logical[1]?.getD '─' else '─'
    cellPreserving := true
    slot := none
    raw := line }

/-- Headings have colours of their own, by their depth. -/
def headingStyle (style : TextStyle) (depth : Nat) : TextStyle :=
  match depth with
  | 1 => { style with fg := some "222".toList, bg := some "bbb".toList }
  | 2 => { style with fg := some "111".toList, bg := some "999".toList }
  | _ => { style with fg := some "000".toList, bg := some "777".toList }

def isCellBlock (c : Char) : Bool := c ∈ ['▀', '▄', '█', '▌', '▐', '░', '▒', '▓']

/-! Directives. -/

def fgKey : Chars := "fg".toList
def bgKey : Chars := "bg".toList
def alignKey : Chars := "c".toList

def Metadata.ownedBytes (metadata : Metadata) : Nat :=
  (metadata.rows.map fun entry => utf8Len entry.1 + utf8Len entry.2).sum

/-- What a directive changes of the state. -/
def applyStyleDirective (key value : Chars) (state : ParserState) : ParserState :=
  if key = fgKey then
    { state with defaultFg := value, style := { state.style with fg := some value } }
  else if key = bgKey then
    { state with defaultBg := some value, style := { state.style with bg := some value } }
  else if key = alignKey then
    let align := if value = ['1'] then .center else .left
    { state with align, defaultAlign := align }
  else state

variable (limits : Limits)

/-- A directive sets a value of the page, and the colours and alignment if it names them. -/
def applyMetadataDirective (key value : Chars) (state : ParserState) (metadata : Metadata) :
    Bool × ParserState × Metadata :=
  let key := trimChars key
  let value := trimChars value
  if key = [] ∨ exceeded limits.metadataKeyBytes (utf8Len key) ∨
      exceeded limits.metadataValueBytes (utf8Len value) ∨
      ((key = fgKey ∨ key = bgKey) ∧ exceeded limits.styleValueBytes (utf8Len value)) ∨
      (metadata.find? key = none ∧ reached limits.metadataItems metadata.rows.length) then
    (false, state, metadata)
  else
    let retainedBytes := Metadata.ownedBytes (metadata.erase key)
    if exceeded limits.metadataBytes (retainedBytes + utf8Len key + utf8Len value) then
      (false, state, metadata)
    else (true, applyStyleDirective key value state, metadata.put (key, value))

/-- A directive that is written without a mark of its own. -/
def bareMetadataDirective : Option (Chars × Chars) := do
  let (key, value) ← splitOnce '=' line
  let key := trimChars key
  let value := trimChars value
  if value = [] then none
  else if key = fgKey ∨ key = bgKey ∨ key = alignKey then some (key, value) else none

/-- Three hexadecimal digits, one of which is a decimal one or all of which are one. -/
def isLegacyColorCode (value : Chars) : Bool :=
  utf8Len value == 3 && value.all isAsciiHexdigit &&
    (value.any Char.isDigit || value.head?.any fun first => value.all (· == first))

/-- Three digits alone set the colour. -/
def bareColorDirective : Option Chars :=
  let candidate := trimChars line
  if utf8Len candidate = 3 ∧ isLegacyColorCode candidate then some candidate else none

def colorPrefixedLine : Option (Chars × Chars) := do
  let (color, rest) ← splitAtByte line 3
  if isLegacyColorCode color then
    if rest = [] then some (color, rest)
    else if rest.head? = some '=' then none
    else some (color, rest)
  else none

/-! Lines. -/

/-- What is neither empty nor a line command. -/
def textRow (state : ParserState) (preEscape : Bool) (line : Chars) :
    Option (Option RenderRow × ParserState) := do
  let (fragments, state) ← parseInlineAndControls logical state preEscape
  if fragments = [] then some (none, state)
  else
    some (some
      { kind := .text
        depth := state.depth
        fragments
        align := state.align
        baseStyle := state.style
        divider := '─'
        cellPreserving := fragments.any fun fragment => fragment.text.any isCellBlock
        slot := none
        raw := line }, state)

/-- A heading, as deep as it has marks. -/
def headingRow (state : ParserState) (line : Chars) :
    Option (Option RenderRow × ParserState) := do
  let depth := (logical.takeWhile (· == '>')).length
  let style := headingStyle state.style depth
  let (fragments, state) ← parseInlineAndControlsWithStyle (logical.dropWhile (· == '>'))
    { state with depth } style false
  some (some
    { kind := .heading
      depth
      fragments
      align := state.align
      baseStyle := style
      divider := '─'
      cellPreserving := true
      slot := none
      raw := line }, state)

/-- A line behind its escape and its colour; `again` is the parser itself. -/
def parseLogical (again : Chars → ParserState → Option (Option RenderRow × ParserState))
    (logical : Chars) (state : ParserState) (preEscape : Bool) (line : Chars) :
    Option (Option RenderRow × ParserState) :=
  if "`\x7b".toList <+: logical then
    some (some (parseSlot (logical.drop 2) state line), state)
  else if ['<'] <+: logical ∧ ¬['<', '<'] <+: logical then
    let state := { state with depth := 0 }
    if 1 < utf8Len logical then do
      let (_, rest) ← splitAtByte logical 1
      again rest state
    else some (some (blankRow state line), state)
  else if ['>'] <+: logical then headingRow logical state line
  else if ['-'] <+: logical then some (some (dividerRow logical state line), state)
  else textRow logical state preEscape line

/-- The line behind its escape, and whether there was one. -/
def stripEscape : Chars → Chars × Bool
  | '\\' :: logical => (logical, true)
  | logical => (logical, false)

/-- `parse_line`, which goes on with a part of the line; the fuel is its length. -/
def parseLineFuel : Nat → Chars → ParserState → Option (Option RenderRow × ParserState)
  | 0, _, _ => none
  | fuel + 1, line, state =>
    if line = "`=".toList then some (none, { state with literal := !state.literal })
    else if state.literal then some (some (literalRow state line), state)
    else if line = [] then some (some (blankRow state line), state)
    else
      let (logical, preEscape) := stripEscape line
      if ['#'] <+: logical then some (none, state)
      else
        match bareColorDirective logical with
        | some color => some (none, { state with style := { state.style with fg := some color } })
        | none =>
          match colorPrefixedLine logical with
          | some (color, rest) =>
            let state := { state with style := { state.style with fg := some color } }
            if rest = [] then some (none, state)
            else parseLogical (parseLineFuel fuel) rest state preEscape line
          | none => parseLogical (parseLineFuel fuel) logical state preEscape line

def parseLine (state : ParserState) : Option (Option RenderRow × ParserState) :=
  parseLineFuel (line.length + 1) line state

/-! Documents. -/

/-- A link that is admitted, or none, and what it is charged. -/
def admitLink (span : TextSpan) (state : ParserState) : TextSpan × ParserState :=
  match span.link with
  | none => (span, state)
  | some link =>
    if ¬reached limits.linkActions state.linkActionItems ∧
        ¬exceeded limits.linkActionBytes (state.linkActionOwnedBytes + link.ownedBytes) then
      (span, { state with
        linkActionItems := state.linkActionItems + 1
        linkActionOwnedBytes := state.linkActionOwnedBytes + link.ownedBytes })
    else ({ span with link := none }, { state with limitsApplied := true })

/-- The loop of `admit_row_fragments`. -/
def admitFragments : List Fragment → ParserState → List Fragment × ParserState
  | [], state => ([], state)
  | fragment :: rest, state =>
    if reached limits.fragments state.fragmentItems then ([], { state with limitsApplied := true })
    else
      match fragment with
      | .span span =>
        -- the text is charged, the link behind it may be dropped alone
        let nextTextBytes := state.spanTextBytes + utf8Len span.text
        if exceeded limits.spanTextBytes nextTextBytes then
          ([], { state with limitsApplied := true })
        else
          let (span, state) := admitLink limits span { state with spanTextBytes := nextTextBytes }
          let (admitted, state) :=
            admitFragments rest { state with fragmentItems := state.fragmentItems + 1 }
          (.span span :: admitted, state)
      | .control control =>
        let (admitted, state) :=
          admitFragments rest { state with fragmentItems := state.fragmentItems + 1 }
        (.control control :: admitted, state)

/-- What a page has room for; the rest of the row goes. -/
def admitRowFragments (row : RenderRow) (state : ParserState) : RenderRow × ParserState :=
  let (fragments, state) := admitFragments limits row.fragments state
  ({ row with fragments }, state)

/-- `str::lines`. -/
def linesFrom (line : Chars) : Chars → List Chars
  | [] => if line = [] then [] else [line]
  | '\n' :: rest =>
    (if line.getLast? = some '\r' then line.dropLast else line) :: linesFrom [] rest
  | c :: rest => linesFrom (line ++ [c]) rest

variable (markup : Chars)

def lines : List Chars := linesFrom [] markup

/-- What a line comes to: a row or none, and whether all of it was admitted. -/
structure Scanned where
  row : Option RenderRow
  state : ParserState
  metadata : Metadata
  admitted : Bool

/-- A line that is a directive is no row. -/
def scanDirective (key value : Chars) (state : ParserState) (metadata : Metadata) : Scanned :=
  let (admitted, state, metadata) := applyMetadataDirective limits key value state metadata
  ⟨none, state, metadata, admitted⟩

/-- A line as the loop looks at it, up to its row. -/
def scanLine (rawLine : Chars) (state : ParserState) (metadata : Metadata) : Option Scanned :=
  if exceeded limits.lineBytes (utf8Len rawLine) then some ⟨none, state, metadata, false⟩
  else if "#!".toList <+: rawLine then
    match splitOnce '=' (rawLine.drop 2) with
    | none => some ⟨none, state, metadata, true⟩
    | some (key, value) => some (scanDirective limits key value state metadata)
  else
    match bareMetadataDirective rawLine with
    | some (key, value) => some (scanDirective limits key value state metadata)
    | none => do
      let (row, state) ← parseLine rawLine state
      some ⟨row, state, metadata, true⟩

/-- What the loop over the lines keeps. -/
structure Parsing where
  state : ParserState
  rows : List RenderRow
  metadata : Metadata
  limitsApplied : Bool

/-- The loop over the lines. -/
def parseLines : List Chars → Parsing → Option Parsing
  | [], p => some p
  | rawLine :: rest, p => do
    let scanned ← scanLine limits rawLine p.state p.metadata
    let p := { p with
      state := scanned.state
      metadata := scanned.metadata
      limitsApplied := p.limitsApplied || !scanned.admitted }
    match scanned.row with
    | none => parseLines rest p
    | some row =>
      if reached limits.rows p.rows.length then some { p with limitsApplied := true }
      else
        let (row, state) := admitRowFragments limits row p.state
        parseLines rest { p with state, rows := p.rows ++ [row] }

/-- A page within these limits; where any applied, it ends with the notice. -/
def parseMicronWith : Option Document := do
  let p ← parseLines limits (lines markup) ⟨.default, [], .empty, false⟩
  let limitsApplied := p.limitsApplied || p.state.limitsApplied
  some
    { rows := if limitsApplied then p.rows ++ [limitNoticeRow p.state] else p.rows
      metadata := p.metadata
      limitsApplied }

/-- `parse_micron`. -/
def parseMicron : Option Document := parseMicronWith documentLimits markup

end Omen.Micron
