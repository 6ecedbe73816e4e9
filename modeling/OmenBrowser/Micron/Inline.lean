import OmenBrowser.Micron.Document

/- The inline commands of a line.

   An index that is out of range, a cut inside a character and a loop that does not end are `none`. -/
namespace Omen.Micron
open Text

def micronLinkRawMaxBytes : Nat := 96 * 1024
def micronLinkLabelMaxBytes : Nat := 16 * 1024
def micronLinkTargetMaxBytes : Nat := 8 * 1024
def micronLinkMaxFields : Nat := 128
def micronLinkFieldMaxBytes : Nat := 4 * 1024
def micronLinkFieldsMaxBytes : Nat := 64 * 1024
def micronControlRawMaxBytes : Nat := 72 * 1024
def micronControlNameMaxBytes : Nat := 256
def micronControlValueMaxBytes : Nat := 64 * 1024
def micronControlFlagsMaxBytes : Nat := 32
def micronControlMaxWidth : Nat := 256
def micronControlMaxItems : Nat := 128
def micronControlMaxOwnedBytes : Nat := 4 * 1024 * 1024

/-! Links and controls. -/

/-- `char::is_ascii_hexdigit`. -/
def isAsciiHexdigit (c : Char) : Bool :=
  c.isDigit || ('a' ≤ c && c ≤ 'f') || ('A' ≤ c && c ≤ 'F')

/-- The loop of `collect_bounded_link_fields`. -/
def collectFields (fields : List Chars) (totalBytes : Nat) : List Chars → Option (List Chars)
  | [] => some fields
  | field :: rest =>
    if micronLinkMaxFields ≤ fields.length ∨ micronLinkFieldMaxBytes < utf8Len field then none
    else if micronLinkFieldsMaxBytes < totalBytes + utf8Len field then none
    else collectFields (fields ++ [field]) (totalBytes + utf8Len field) rest

/-- The fields of a link, if all are within the limits. -/
def collectBoundedLinkFields (input : List Chars) : Option (List Chars) := collectFields [] 0 input

variable (raw : Chars) (style : TextStyle)

/-- A label, a target and fields between backticks; a label alone is its own target. -/
def parseLink : Option TextSpan :=
  if raw = [] ∨ micronLinkRawMaxBytes < utf8Len raw then none
  else do
    let parts := raw.splitOn '\x60'
    let label ← parts[0]?
    let target := parts[1]?.getD label
    if micronLinkLabelMaxBytes < utf8Len label ∨ target = [] ∨
        micronLinkTargetMaxBytes < utf8Len target then none
    else
      let fields ← match parts[2]? with
        | some blob => collectBoundedLinkFields ((blob.splitOn '|').filter (· ≠ []))
        | none => some []
      some ⟨label, style, some ⟨target, fields⟩⟩

/-- A target that is its own label, or the two around a bar. -/
def parseShorthandLink : Option TextSpan :=
  if raw = [] ∨ micronLinkRawMaxBytes < utf8Len raw then none
  else
    let (target, label) := (splitOnce '|' raw).getD (raw, raw)
    if target = [] ∨ micronLinkTargetMaxBytes < utf8Len target ∨
        micronLinkLabelMaxBytes < utf8Len label then none
    else some ⟨label, style, some ⟨target, []⟩⟩

/-- What the descriptor of a control says, where it has flags. -/
structure ControlDescriptor where
  kind : Chars
  name : Chars
  width : Nat
  masked : Bool
  prechecked : Bool
  fieldValue : Chars

/-- The kind that the flags ask for, whether they mask the control, and the flags that are left. -/
def controlKind (flags : Chars) : Chars × Bool × Chars :=
  if '^' ∈ flags then ("radio".toList, false, flags.filter (· ≠ '^'))
  else if '?' ∈ flags then ("checkbox".toList, false, flags.filter (· ≠ '?'))
  else if '!' ∈ flags then ("field".toList, true, flags.filter (· ≠ '!'))
  else ("field".toList, false, flags)

/-- A control is 24 cells wide unless it says otherwise. -/
def controlWidth (flags : Chars) : Option Nat :=
  if flags = [] then some 24
  else
    match parseU64 flags with
    | some width => if 1 ≤ width ∧ width ≤ micronControlMaxWidth then some width else none
    | none => some 24

/-- The flags, the name, the value and the mark, between bars; or a name alone. -/
def parseDescriptor (descriptor : Chars) : Option ControlDescriptor :=
  if '|' ∈ descriptor then do
    let parts := descriptor.splitOn '|'
    let rawFlags := parts[0]?.getD []
    if parts[4]?.isSome ∨ micronControlFlagsMaxBytes < utf8Len rawFlags then none
    else
      let (kind, masked, flags) := controlKind rawFlags
      let width ← controlWidth flags
      some
        { kind
          name := parts[1]?.getD descriptor
          width
          masked
          prechecked := parts[3]? == some ['*']
          fieldValue := parts[2]?.getD [] }
  else
    some
      { kind := "field".toList
        name := descriptor
        width := 24
        masked := false
        prechecked := false
        fieldValue := [] }

/-- A control and what it is charged. -/
def parseControl : Option (FieldControl × Nat) :=
  if micronControlRawMaxBytes < utf8Len raw then none
  else do
    let (descriptor, value) ← splitOnce '\x60' raw
    let d ← parseDescriptor descriptor
    if d.name = [] ∨ micronControlNameMaxBytes < utf8Len d.name ∨
        micronControlValueMaxBytes < utf8Len value ∨
        micronControlValueMaxBytes < utf8Len d.fieldValue then none
    else
      -- a value in the descriptor goes before the text, which is then the label alone
      let selectedValue := if d.fieldValue = [] then value else d.fieldValue
      let label := if d.kind = "checkbox".toList ∨ d.kind = "radio".toList then some value else none
      let ownedBytes := utf8Len d.kind + utf8Len d.name + utf8Len selectedValue + optionLen label +
        optionLen style.fg + optionLen style.bg
      some
        ({ kind := d.kind
           name := d.name
           value := selectedValue
           label := label.getD []
           width := d.width
           masked := d.masked
           prechecked := d.prechecked
           style }, ownedBytes)

/-- The colour at the beginning of a slice, and how many characters it takes. -/
def parseColor (chars : Chars) : Option (Chars × Nat) :=
  if 7 ≤ chars.length ∧ chars.head? = some 'T' ∧ ((chars.take 7).drop 1).all isAsciiHexdigit then do
    let color ← slice chars 1 7
    some (color, 7)
  else if 3 ≤ chars.length then do
    let color ← slice chars 0 3
    some (color, 3)
  else some ([], 0)

/-! Addresses in text. -/

def lxmfScheme : Chars := "lxmf@".toList

/-- A character of an address. -/
def isAddressChar (c : Char) : Bool := isAsciiHexdigit c || c ∈ ['l', 'x', 'm', 'f', '@']

/-- The loop of `autolink_lxmf`. -/
def autolink (style : TextStyle) : Nat → Chars → Option (List Fragment)
  | 0, _ => none
  | fuel + 1, rest =>
    match findByte (fun tail => lxmfScheme.isPrefixOf tail) rest with
    | none => some (if rest = [] then [] else [plainSpan rest style])
    | some start => do
      let (before, candidate) ← splitAtByte rest start
      let stop := (findByte (fun tail => tail.head?.any fun ch => !isAddressChar ch) candidate).getD
        (utf8Len candidate)
      let (address, rest) ← splitAtByte candidate stop
      let link :=
        if utf8Len lxmfScheme + 16 ≤ utf8Len address ∧ utf8Len address ≤ micronLinkTargetMaxBytes then
          some ⟨address, []⟩
        else none
      let fragments ← autolink style fuel rest
      some ((if 0 < start then [plainSpan before style] else []) ++
        .span ⟨address, style, link⟩ :: fragments)

/-- Every address in a text becomes a link. -/
def autolinkLxmf (text : Chars) (style : TextStyle) : Option (List Fragment) :=
  autolink style (text.length + 1) text

/-! The scanner. -/

/-- What the loop over a line keeps. -/
structure Inline where
  fragments : List Fragment
  buffer : Chars
  currentStyle : TextStyle
  state : ParserState
  escape : Bool
  i : Nat

/-- The commands of a line, by the characters behind the backtick. -/
inductive InlineCommand where
  | whitespace
  | underline
  | bold
  | italic
  | reset
  | next
  | color
  | defaultFg
  | defaultBg
  | gray
  | shorthand
  | align
  | link
  | control
  | unknown
  deriving DecidableEq, Repr

/-- The command of the character behind a backtick, by the character and the one that follows. -/
def InlineCommand.of (ch : Char) (following : Option Char) : InlineCommand :=
  match ch with
  | ' ' | '\t' => .whitespace
  | '_' => .underline
  | '!' => .bold
  | '*' => .italic
  | '\x60' => .reset
  | '=' => .next
  | 'F' | 'B' => .color
  | 'f' => .defaultFg
  | 'b' => .defaultBg
  | 'g' => .gray
  | 'a' => if following = some '=' then .shorthand else .align
  | 'c' | 'l' | 'r' => .align
  | '[' => .link
  | '<' => .control
  | _ => .unknown

/-- What was read as text becomes fragments. -/
def Inline.flushText (s : Inline) : Option Inline :=
  if s.buffer = [] then some s
  else do
    let fragments ← autolinkLxmf s.buffer s.currentStyle
    some { s with fragments := s.fragments ++ fragments, buffer := [] }

/-- Text that is no command after all. -/
def Inline.spill (s : Inline) (text : Chars) : Inline :=
  { s with buffer := s.buffer ++ text, i := s.i + 1 }

/-- A fragment more, and on behind its source. -/
def Inline.emit (s : Inline) (fragment : Fragment) (i : Nat) : Inline :=
  { s with fragments := s.fragments ++ [fragment], i }

section Commands
variable (chars : Chars) (s : Inline)

def Inline.toggleUnderline : Inline :=
  let underline := !s.currentStyle.underline
  { s with
    currentStyle := { s.currentStyle with underline }
    state := { s.state with style := { s.state.style with underline } }
    i := s.i + 1 }

def Inline.toggleBold : Inline :=
  let bold := !s.currentStyle.bold
  { s with
    currentStyle := { s.currentStyle with bold }
    state := { s.state with style := { s.state.style with bold } }
    i := s.i + 1 }

def Inline.toggleItalic : Inline :=
  let italic := !s.currentStyle.italic
  { s with
    currentStyle := { s.currentStyle with italic }
    state := { s.state with style := { s.state.style with italic } }
    i := s.i + 1 }

def Inline.setFg (fg : Option Chars) (i : Nat) : Inline :=
  { s with
    currentStyle := { s.currentStyle with fg }
    state := { s.state with style := { s.state.style with fg } }
    i }

def Inline.setBg (bg : Option Chars) (i : Nat) : Inline :=
  { s with
    currentStyle := { s.currentStyle with bg }
    state := { s.state with style := { s.state.style with bg } }
    i }

/-- All styles end, and the alignment is the page's again, behind any number of backticks. -/
def Inline.reset : Inline :=
  let style := { TextStyle.default with fg := some s.state.defaultFg, bg := s.state.defaultBg }
  { s with
    currentStyle := style
    state := { s.state with style, align := s.state.defaultAlign }
    i := s.i + ((chars.drop s.i).takeWhile (· == '\x60')).length }

/-- A colour, in front or behind; where it is none, the command is text. -/
def Inline.color (ch : Char) : Option Inline := do
  let colorStart := s.i + 1
  let (color, consumed) ← parseColor (← slice chars colorStart chars.length)
  if consumed = 0 then some (s.spill ['\x60', ch])
  else if ch = 'F' then some (s.setFg (some color) (colorStart + consumed))
  else some (s.setBg (if color = defaultBg then none else some color) (colorStart + consumed))

/-- A gray of two digits. -/
def Inline.gray : Option Inline :=
  if s.i + 2 < chars.length then do
    let first ← chars[s.i + 1]?
    let second ← chars[s.i + 2]?
    some (s.setFg (some ['g', first, second]) (s.i + 3))
  else some { s with i := s.i + 1 }

/-- A link, or its text where it is none. -/
def linkFragment (opening raw closing : Chars) (style : TextStyle) (parsed : Option TextSpan) :
    Fragment :=
  if utf8Len raw ≤ micronLinkRawMaxBytes then
    match parsed with
    | some span => .span span
    | none => plainSpan (opening ++ raw ++ closing) style
  else plainSpan (opening ++ raw ++ closing) style

/-- A shorthand link, up to its end; without one it is text. -/
def Inline.shorthand : Option Inline :=
  match findSequence chars (s.i + 2) ['\x60', 'a'] with
  | some stop => do
    let raw ← slice chars (s.i + 2) stop
    some (s.emit (linkFragment "`a=".toList raw "`a".toList s.currentStyle
      (parseShorthandLink raw s.currentStyle)) (stop + 2))
  | none => some (s.spill "`a".toList)

/-- A link, up to its bracket. -/
def Inline.link : Option Inline :=
  match findFrom chars (s.i + 1) ']' with
  | some stop => do
    let raw ← slice chars (s.i + 1) stop
    some (s.emit (linkFragment "`[".toList raw "]".toList s.currentStyle
      (parseLink raw s.currentStyle)) (stop + 1))
  | none => some (s.spill "`[".toList)

/-- The control of a raw text, where the page has room for it. -/
def Inline.admitControl (raw : Chars) : Option (FieldControl × Nat) :=
  if utf8Len raw ≤ micronControlRawMaxBytes then
    (if s.state.controlItems < micronControlMaxItems then parseControl raw s.currentStyle
      else none).filter fun parsed =>
        s.state.controlOwnedBytes + parsed.2 ≤ micronControlMaxOwnedBytes
  else none

/-- A control, up to its bracket; where it is not admitted, it is text. -/
def Inline.control : Option Inline :=
  match findFrom chars (s.i + 1) '>' with
  | some stop => do
    let raw ← slice chars (s.i + 1) stop
    match s.admitControl raw with
    | some (control, ownedBytes) =>
      let state := { s.state with
        controlItems := s.state.controlItems + 1
        controlOwnedBytes := s.state.controlOwnedBytes + ownedBytes }
      some ({ s with state }.emit (.control control) (stop + 1))
    | none =>
      some (s.emit (plainSpan ("`<".toList ++ raw ++ ">".toList) s.currentStyle) (stop + 1))
  | none => some (s.spill "`<".toList)

def Inline.setAlign (ch : Char) : Inline :=
  let align := match ch with
    | 'c' => .center
    | 'l' => .left
    | 'r' => .right
    | _ => s.state.defaultAlign
  { s with state := { s.state with align }, i := s.i + 1 }

/-- A command, behind its backtick. -/
def inlineCommand : Option Inline := do
  let ch ← chars[s.i]?
  match InlineCommand.of ch chars[s.i + 1]? with
  | .whitespace => some (s.spill [ch])
  | .underline => some s.toggleUnderline
  | .bold => some s.toggleBold
  | .italic => some s.toggleItalic
  | .reset => some (s.reset chars)
  | .next =>
    match chars[s.i + 1]? with
    | some next => some { s with buffer := s.buffer ++ [next], i := s.i + 2 }
    | none => some { s with i := s.i + 1 }
  | .color => s.color chars ch
  | .defaultFg => some (s.setFg (some s.state.defaultFg) (s.i + 1))
  | .defaultBg => some (s.setBg s.state.defaultBg (s.i + 1))
  | .gray => s.gray chars
  | .shorthand => s.shorthand chars
  | .align => some (s.setAlign ch)
  | .link => s.link chars
  | .control => s.control chars
  | .unknown => some { s with i := s.i + 1 }

/-- A turn of the loop. A backtick that is the last character is dropped. -/
def inlineStep : Option Inline := do
  let ch ← chars[s.i]?
  if ch = '\\' then
    if s.escape then
      some { s with buffer := s.buffer ++ [ch], escape := false, i := s.i + 1 }
    else some { s with escape := true, i := s.i + 1 }
  else if ch ≠ '\x60' ∨ s.escape = true then
    some { s with buffer := s.buffer ++ [ch], escape := false, i := s.i + 1 }
  else
    let s ← s.flushText
    let s := { s with i := s.i + 1 }
    if chars.length ≤ s.i then some s else inlineCommand chars s

end Commands

def inlineLoop (chars : Chars) : Nat → Inline → Option Inline
  | 0, _ => none
  | fuel + 1, s =>
    if s.i < chars.length then do
      let s ← inlineStep chars s
      inlineLoop chars fuel s
    else some s

def parseInlineAndControlsWithStyle (line : Chars) (state : ParserState) (currentStyle : TextStyle)
    (preEscape : Bool) : Option (List Fragment × ParserState) := do
  let s ← inlineLoop line (line.length + 1)
    { fragments := [], buffer := [], currentStyle, state, escape := preEscape, i := 0 }
  let s ← s.flushText
  some (s.fragments, { s.state with style := s.currentStyle })

/-- A line in the style the last one ended with. -/
def parseInlineAndControls (line : Chars) (state : ParserState) (preEscape : Bool) :
    Option (List Fragment × ParserState) :=
  parseInlineAndControlsWithStyle line state state.style preEscape

end Omen.Micron
