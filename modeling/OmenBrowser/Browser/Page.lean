import Std.Data.ExtTreeMap
import OmenBrowser.Lib.Outcome
import OmenBrowser.Micron.Document

/- Pages and their addresses (`browser/page.rs`).

   Correspondence (Rust ↔ Lean):
     `String`, `&str`                 ↔ its characters
     `BTreeMap<String, _>`            ↔ `TextMap`, in the same order
     `serde_json::Value`              ↔ `JsonValue`; numbers are their text
     the stack of pending values      ↔ a list, its end first
     `values`, counted up to a limit  ↔ the budget of values that is left -/
namespace Omen.Browser
open Text Micron

/-- `BTreeMap<String, _>`. -/
abbrev TextMap (α : Type) : Type := Std.ExtTreeMap Chars α

def defaultPath : Chars := "/page/index.mu".toList
def browserPageUrlMaxBytes : Nat := 8 * 1024
def browserPageTitleMaxBytes : Nat := 16 * 1024
def browserPageMarkupMaxBytes : Nat := 4 * 1024 * 1024
def browserPageMetadataMaxItems : Nat := 64
def browserPageMetadataKeyMaxBytes : Nat := 256
def browserPageMetadataScalarMaxBytes : Nat := 4 * 1024 * 1024
def browserPageMetadataMaxOwnedBytes : Nat := 16 * 1024 * 1024
def browserPageMetadataMaxValues : Nat := 128 * 1024
def browserPageMetadataMaxContainerItems : Nat := 64 * 1024
def browserPageMetadataMaxDepth : Nat := 32
def browserPageRequestMaxItems : Nat := 128
def browserPageRequestKeyMaxBytes : Nat := 256
def browserPageRequestValueMaxBytes : Nat := 64 * 1024
def browserPageRequestMaxOwnedBytes : Nat := 4 * 1024 * 1024

/-- `serde_json::Value`; a number is kept as its text. -/
inductive JsonValue where
  | null
  | bool (value : Bool)
  | number (text : Chars)
  | string (text : Chars)
  | array (items : List JsonValue)
  | object (items : List (Chars × JsonValue))

/-- Where a page comes from. -/
inductive PageSource where
  | cache
  | network
  | mock
  deriving DecidableEq

/-- A page as it was loaded, with what it says of itself. -/
structure BrowserPage where
  url : Chars
  markup : Chars
  title : Chars
  source : PageSource
  metadata : TextMap JsonValue
  requestData : Option (TextMap Chars)

/-- The page of a session that has no runtime yet. -/
def BrowserPage.mockHome (url : Chars) : BrowserPage where
  title := "Mock Node".toList
  markup := ">OMENbrowser_rs\nMock runtime is active.\n`[Messages`lxmf@0011223344556677]".toList
  url
  source := .mock
  metadata := ∅
  requestData := none

/-! Admission. -/

def validateLen (label : String) (actual maximum : Nat) : Except String Unit :=
  Outcome.refuse (maximum < actual) s!"{label} exceeds {maximum} bytes"

/-- `usize::checked_add`, and the limit. -/
def addBounded (total added maximum : Nat) (label : String) : Except String Nat :=
  if 2 ^ 64 ≤ total + added then .error s!"{label} byte accounting overflow"
  else if maximum < total + added then .error s!"{label} exceeds {maximum} owned bytes"
  else .ok (total + added)

/-- The values under way with their depths, the next one first, and what is counted. -/
def validateValues : Nat → Nat → List (JsonValue × Nat) → Except String Unit
  | _, _, [] => .ok ()
  -- the count is checked behind the depth, so a value too deep is named first
  | 0, _, (_, depth) :: _ =>
    if browserPageMetadataMaxDepth < depth then
      .error s!"page metadata exceeds depth {browserPageMetadataMaxDepth}"
    else .error s!"page metadata exceeds {browserPageMetadataMaxValues} values"
  | budget + 1, owned, (value, depth) :: pending => do
    Outcome.refuse (browserPageMetadataMaxDepth < depth)
      s!"page metadata exceeds depth {browserPageMetadataMaxDepth}"
    match value with
    | .string text =>
      validateLen "page metadata scalar" (utf8Len text) browserPageMetadataScalarMaxBytes
      let owned ← addBounded owned (utf8Len text) browserPageMetadataMaxOwnedBytes "page metadata"
      validateValues budget owned pending
    | .array items =>
      Outcome.refuse (browserPageMetadataMaxContainerItems < items.length)
        s!"page metadata array exceeds {browserPageMetadataMaxContainerItems} items"
      validateValues budget owned ((items.map fun item => (item, depth + 1)).reverse ++ pending)
    | .object items =>
      Outcome.refuse (browserPageMetadataMaxContainerItems < items.length)
        s!"page metadata object exceeds {browserPageMetadataMaxContainerItems} items"
      let owned ← items.foldlM (fun owned (key, _) => do
        validateLen "page metadata object key" (utf8Len key) browserPageMetadataKeyMaxBytes
        addBounded owned (utf8Len key) browserPageMetadataMaxOwnedBytes "page metadata") owned
      validateValues budget owned
        ((items.map fun (_, item) => (item, depth + 1)).reverse ++ pending)
    | .null | .bool _ | .number _ => validateValues budget owned pending

/-- The entries are counted, then their keys and values are charged. -/
def validateMetadata (metadata : TextMap JsonValue) : Except String Unit := do
  Outcome.refuse (browserPageMetadataMaxItems < metadata.size)
    s!"page metadata exceeds {browserPageMetadataMaxItems} entries"
  let owned ← metadata.toList.foldlM (fun owned (key, _) => do
    validateLen "page metadata key" (utf8Len key) browserPageMetadataKeyMaxBytes
    addBounded owned (utf8Len key) browserPageMetadataMaxOwnedBytes "page metadata") 0
  validateValues browserPageMetadataMaxValues owned
    (metadata.toList.map fun (_, value) => (value, 1)).reverse

/-- The same of the values that are sent along. -/
def validateRequestData (requestData : TextMap Chars) : Except String Unit := do
  Outcome.refuse (browserPageRequestMaxItems < requestData.size)
    s!"page request data exceeds {browserPageRequestMaxItems} entries"
  let _ ← requestData.toList.foldlM (fun owned (key, value) => do
    validateLen "page request key" (utf8Len key) browserPageRequestKeyMaxBytes
    validateLen "page request value" (utf8Len value) browserPageRequestValueMaxBytes
    addBounded owned (utf8Len key + utf8Len value) browserPageRequestMaxOwnedBytes
      "page request data") 0
  pure ()

/-- `validate_retained`: everything a page keeps is bounded. -/
def BrowserPage.validateRetained (page : BrowserPage) : Except String Unit := do
  validateLen "page URL" (utf8Len page.url) browserPageUrlMaxBytes
  validateLen "page title" (utf8Len page.title) browserPageTitleMaxBytes
  validateLen "page markup" (utf8Len page.markup) browserPageMarkupMaxBytes
  validateMetadata page.metadata
  match page.requestData with
  | none => pure ()
  | some requestData => validateRequestData requestData

theorem BrowserPage.url_of_validateRetained {page : BrowserPage}
    (h : page.validateRetained = .ok ()) : utf8Len page.url ≤ browserPageUrlMaxBytes := by
  obtain ⟨hurl, -⟩ := Outcome.check_ok.mp h
  exact Nat.not_lt.mp (Outcome.refuse_ok.mp hurl)

/-! Addresses. -/

/-- A node and a path on it. -/
structure BrowserAddress where
  destination : Chars
  path : Chars
  deriving DecidableEq

/-- Paths begin with a slash. -/
def normalizePath (path : Chars) : Chars := if ['/'] <+: path then path else '/' :: path

namespace BrowserAddress

/-- An address without a node is on the current one. -/
def parseWithCurrent (input : Chars) (currentDestination : Option Chars) : Option BrowserAddress := do
  let (destination, path) ← splitOnce ':' (trimChars input)
  let destination ← if destination = [] then currentDestination else some destination
  if destination = [] then none
  else
    let path := if path = [] then defaultPath else path
    some ⟨destination, normalizePath path⟩

def parse (input : Chars) : Option BrowserAddress := parseWithCurrent input none

def url (address : BrowserAddress) : Chars := address.destination ++ ':' :: address.path

end BrowserAddress

end Omen.Browser
