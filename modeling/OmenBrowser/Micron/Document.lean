import OmenBrowser.Lib.Parsing
import OmenBrowser.Lib.TableMap
import OmenBrowser.Lib.Utf8Text

/- A Micron page as rows of fragments, and what the parser keeps from line to line.

   Texts are their characters. -/
namespace Omen.Micron
open Text Sql

/-- A text, character by character. -/
abbrev Chars : Type := List Char

def defaultFgDark : Chars := "ccc".toList
def defaultBg : Chars := "default".toList

inductive Alignment where
  | left
  | center
  | right
  deriving DecidableEq, Repr

/-- How a text is shown; no background is none of its own. -/
structure TextStyle where
  fg : Option Chars
  bg : Option Chars
  bold : Bool
  italic : Bool
  underline : Bool
  dim : Bool
  reverse : Bool
  deriving DecidableEq, Repr

def TextStyle.default : TextStyle :=
  { fg := some defaultFgDark
    bg := none
    bold := false
    italic := false
    underline := false
    dim := false
    reverse := false }

/-- Where a link leads, and what it sends along. -/
structure LinkAction where
  target : Chars
  fields : List Chars
  deriving DecidableEq, Repr

/-- A text in one style. -/
structure TextSpan where
  text : Chars
  style : TextStyle
  link : Option LinkAction
  deriving DecidableEq, Repr

/-- A control: a text field, a checkbox or a radio button. -/
structure FieldControl where
  kind : Chars
  name : Chars
  value : Chars
  label : Chars
  width : Nat
  masked : Bool
  prechecked : Bool
  style : TextStyle
  deriving DecidableEq, Repr

/-- A part of a row. -/
inductive Fragment where
  | span (span : TextSpan)
  | control (control : FieldControl)
  deriving DecidableEq, Repr

/-- What a row stands for. -/
inductive RowKind where
  | blank
  | text
  | heading
  | divider
  | slot
  deriving DecidableEq, Repr

/-- A row. A `Partial` row is one of kind `slot`, and its map has these two entries. -/
structure SlotDescriptor where
  raw : Chars
  url : Chars
  deriving DecidableEq, Repr

/-- A line of the page, parsed. -/
structure RenderRow where
  kind : RowKind
  depth : Nat
  fragments : List Fragment
  align : Alignment
  baseStyle : TextStyle
  divider : Char
  cellPreserving : Bool
  slot : Option SlotDescriptor
  raw : Chars
  deriving DecidableEq, Repr

/-- Keys and their values. -/
abbrev Metadata : Type := Table (Prod.fst : Chars × Chars → Chars)

/-- A page, parsed. -/
structure Document where
  rows : List RenderRow
  metadata : Metadata
  limitsApplied : Bool

/-- What the parser keeps from one line to the next, with what it has spent of its limits. -/
structure ParserState where
  literal : Bool
  depth : Nat
  align : Alignment
  defaultAlign : Alignment
  defaultFg : Chars
  defaultBg : Option Chars
  style : TextStyle
  controlItems : Nat
  controlOwnedBytes : Nat
  fragmentItems : Nat
  spanTextBytes : Nat
  linkActionItems : Nat
  linkActionOwnedBytes : Nat
  limitsApplied : Bool
  deriving DecidableEq, Repr

def ParserState.default : ParserState :=
  { literal := false
    depth := 0
    align := .left
    defaultAlign := .left
    defaultFg := defaultFgDark
    defaultBg := none
    style := .default
    controlItems := 0
    controlOwnedBytes := 0
    fragmentItems := 0
    spanTextBytes := 0
    linkActionItems := 0
    linkActionOwnedBytes := 0
    limitsApplied := false }

/-- A text that leads nowhere. -/
def plainSpan (text : Chars) (style : TextStyle) : Fragment :=
  .span ⟨text, style, none⟩

/-! What fragments hold. -/

def Fragment.text : Fragment → Chars
  | .span s => s.text
  | .control _ => []

/-- The text of the spans. -/
def spanText (fragments : List Fragment) : Chars := fragments.flatMap Fragment.text

@[simp] theorem spanText_cons (f : Fragment) (fs : List Fragment) :
    spanText (f :: fs) = f.text ++ spanText fs := List.flatMap_cons

@[simp] theorem spanText_append (fs gs : List Fragment) :
    spanText (fs ++ gs) = spanText fs ++ spanText gs := List.flatMap_append

def Fragment.control? : Fragment → Option FieldControl
  | .span _ => none
  | .control c => some c

/-- The link a fragment opens. -/
def Fragment.link? : Fragment → Option LinkAction
  | .span s => s.link
  | .control _ => none

def optionLen (text : Option Chars) : Nat := text.elim 0 utf8Len

/-- The bytes a control keeps. -/
def FieldControl.ownedBytes (control : FieldControl) : Nat :=
  utf8Len control.kind + utf8Len control.name + utf8Len control.value + utf8Len control.label +
    optionLen control.style.fg + optionLen control.style.bg

/-- The bytes an action keeps. -/
def LinkAction.ownedBytes (link : LinkAction) : Nat :=
  utf8Len link.target + (link.fields.map utf8Len).sum

end Omen.Micron
