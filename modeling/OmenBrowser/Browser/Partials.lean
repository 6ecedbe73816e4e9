import OmenBrowser.Micron.Parser

/- The partials of a page: where they stand, and how they are filled in (`browser/partials.rs`).

   Correspondence (Rust ↔ Lean):
     `raw.split('}').next()`            ↔ the characters up to the first brace
     `value.parse::<f64>()`, at least 1 ↔ `parseRefresh`, a parameter
     `line_hash`                        ↔ `lineHash`, a parameter: digits of a hash of the line
     `BTreeMap<String, String>`         ↔ what it has under a slot
     `BTreeMap<usize, &PartialSpec>`    ↔ the last of the specs with the line's index
     `count as u32`                     ↔ the count modulo 2^32 -/
namespace Omen.Browser
open Text Micron

def partialIdMaxBytes : Nat := 256
def partialSpecMaxItems : Nat := 256
def partialSpecsMaxBytes : Nat := 1024 * 1024

/-- What a partial says of itself. -/
structure PartialDescriptor (φ : Type) where
  target : Chars
  refreshSecs : Option φ
  fields : List Chars
  id : Option Chars
  loopCount : Option UInt32

/-- A partial at its line, with the key its content is stored under. -/
structure PartialSpec (φ : Type) where
  slot : Chars
  lineIndex : Nat
  target : Chars
  refreshSecs : Option φ
  fields : List Chars
  id : Option Chars
  loopCount : Option UInt32
  remaining : Option UInt32

/-! Descriptors. -/

/-- What the loop over the fields of a descriptor keeps. -/
structure FieldLoop where
  fields : List Chars
  id : Option Chars
  loopCount : Option UInt32
  items : Nat
  bytes : Nat

def FieldLoop.start : FieldLoop := ⟨[], none, none, 0, 0⟩

/-- A field more, within the limits of a link. -/
def FieldLoop.take (s : FieldLoop) (field : Chars) : Option FieldLoop :=
  if micronLinkMaxFields ≤ s.items ∨ micronLinkFieldMaxBytes < utf8Len field then none
  else if micronLinkFieldsMaxBytes < s.bytes + utf8Len field then none
  else
    let s := { s with items := s.items + 1, bytes := s.bytes + utf8Len field }
    if "pid=".toList <+: field then
      if partialIdMaxBytes < utf8Len (field.drop 4) then none
      else some { s with id := some (field.drop 4) }
    else if "loop=".toList <+: field then
      some { s with loopCount := (parseI64 (field.drop 5)).map fun count =>
        (max count 0).toNat.toUInt32 }
    else some { s with fields := s.fields ++ [field] }

/-- The fields of a descriptor, of which the third part has them. -/
def takeFields (parts : List Chars) : Option FieldLoop :=
  match parts[2]? with
  | some rawFields => ((rawFields.splitOn '|').filter (· ≠ [])).foldlM FieldLoop.take .start
  | none => some .start

variable (raw : Chars)

/-- The text up to the brace that ends it. -/
def descriptorOf : Chars := raw.takeWhile (· ≠ '\x7d')

def descriptorParts : List Chars := (descriptorOf raw).splitOn '\x60'

def descriptorTarget : Chars := (descriptorParts raw).headD []

section
variable {φ : Type} (parseRefresh : Chars → Option φ) (lineHash : Chars → Chars)

/-- `try_parse_partial_descriptor`: a target, then the time between two fetches, then the fields. -/
def tryParsePartialDescriptor (raw : Chars) : Option (PartialDescriptor φ) :=
  if micronLinkRawMaxBytes < utf8Len (descriptorOf raw) then none
  else if descriptorTarget raw = [] ∨ micronLinkTargetMaxBytes < utf8Len (descriptorTarget raw) then
    none
  else do
    let loop ← takeFields (descriptorParts raw)
    some
      { target := descriptorTarget raw
        refreshSecs := ((descriptorParts raw)[1]?.filter (· ≠ [])).bind parseRefresh
        fields := loop.fields
        id := loop.id
        loopCount := loop.loopCount }

/-! Specs. -/

variable (line : Chars)

/-- A line that may be a partial, without what makes it one. -/
def partialRaw : Option Chars :=
  if "`\x7b".toList <+: line then some (line.drop 2) else none

/-- The slot is made of the id, the line and the hash of the line. -/
def specOf (lineIndex : Nat) (parsed : PartialDescriptor φ) : PartialSpec φ where
  slot := parsed.id.getD "partial".toList ++ ':' :: lineIndex.repr.toList ++ ':' :: lineHash line
  lineIndex := lineIndex
  target := parsed.target
  refreshSecs := parsed.refreshSecs
  fields := parsed.fields
  id := parsed.id
  loopCount := parsed.loopCount
  remaining := parsed.loopCount

/-- The loop over the lines. -/
def extractFrom : List Chars → Nat → List (PartialSpec φ) → Nat → List (PartialSpec φ)
  | [], _, specs, _ => specs
  | line :: rest, lineIndex, specs, retainedBytes =>
    match (partialRaw line).bind fun raw =>
      (tryParsePartialDescriptor parseRefresh raw).map fun parsed => (raw, parsed) with
    | none => extractFrom rest (lineIndex + 1) specs retainedBytes
    | some (raw, parsed) =>
      if partialSpecMaxItems ≤ specs.length then specs
      else if partialSpecsMaxBytes < retainedBytes + utf8Len raw then specs
      else
        extractFrom rest (lineIndex + 1) (specs ++ [specOf lineHash line lineIndex parsed])
          (retainedBytes + utf8Len raw)

/-- The partials of a page, by their lines. -/
def extractPartialSpecs (markup : Chars) : List (PartialSpec φ) :=
  extractFrom parseRefresh lineHash (lines markup) 0 [] 0

end

/-! Composition. -/

/-- The content without the line that says how long it may be kept. -/
def stripPartialDocumentHeaders (content : Chars) : Chars :=
  if "#!".toList <+: content then
    let rest := content.drop 2
    match splitOnce '\n' rest with
    | none => if "c=".toList <+: rest then [] else content
    | some (header, remainder) => if "c=".toList <+: header then remainder else content
  else content

section
variable {φ : Type} (specs : List (PartialSpec φ)) (partialContents : Chars → Option Chars)

/-- What stands in the place of a line. -/
def composeLine (lineIndex : Nat) (line : Chars) : List Chars :=
  match specs.reverse.find? (fun spec => spec.lineIndex = lineIndex) with
  | none => [line]
  | some spec =>
    match partialContents spec.slot with
    | some content => lines (stripPartialDocumentHeaders content)
    | none => ["[loading ".toList ++ spec.id.getD spec.target ++ "]".toList]

/-- The page with the content of each partial in the place of its line. -/
def composeMarkupWithPartials (baseMarkup : Chars) : Chars :=
  if specs.isEmpty then baseMarkup
  else
    let output := (lines baseMarkup).zipIdx.flatMap fun (line, lineIndex) =>
      composeLine specs partialContents lineIndex line
    ['\n'].intercalate output

end

end Omen.Browser
