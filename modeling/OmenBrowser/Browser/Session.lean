import OmenBrowser.Browser.Page
import OmenBrowser.Browser.Partials
import OmenBrowser.Lib.Act

/- A browser session (`browser/session.rs`): the page it shows, where it has been, and the values of
   the page's controls.

   An entry of the history that is not there, where the source would panic, is read as an empty one:
   the index of a session is always one of its history's.

   What is not decided here is given to an operation or to all of them. `Rendering` has what other
   parts of the browser make of a page's markup, and `Services` what the cache and the runtime answer
   during one operation: each may fail at any time.

   Correspondence (Rust ↔ Lean):
     `&mut self`, `AppResult<T>`        ↔ `Act`: what was written before a failure stays
     `history_index: isize`             ↔ `Int`
     `BTreeSet<String>`                 ↔ a list
     `Option<Arc<PageCache>>`, and of a
     runtime                            ↔ whether there is one
     `serde_json::to_string(data)`      ↔ `requestText`
     `async`, `CancellationToken`       ↔ an answer of `Services.fetch` like any other -/
namespace Omen.Browser
open Text Micron

def browserHistoryMaxItems : Nat := 512
def browserHistoryMaxOwnedBytes : Nat := 1024 * 1024
def defaultCacheSeconds : Nat := 12 * 60 * 60

/-- What a session answers where nothing can be shown. -/
inductive BrowserError where
  | browser (message : String)
  | service (message : String)
  deriving DecidableEq

/-- What other parts of the browser make of markup. -/
structure Rendering (φ : Type) where
  parseRefresh : Chars → Option φ
  lineHash : Chars → Chars
  hasMicronplusMarkup : Chars → Bool
  /-- The layout of a source, where it has windows. -/
  micronplusLayout : Chars → Except String (Option JsonValue)
  /-- The tree of a source, where it has nodes. -/
  micronplusTree : Chars → Except String (Option JsonValue)
  /-- The markup without MicronPlus, and what is said of it. -/
  lowerMicronplusMarkup : Chars → Chars × List String
  diagnosticsValue : List String → JsonValue
  lowerOmenchatBlocks : Chars → Chars
  requestText : TextMap Chars → Chars

/-- A page as the cache keeps it. -/
structure CacheRecord where
  markup : Chars
  title : Chars
  metadata : TextMap JsonValue

/-- The cache and the network, as far as a session asks them. -/
structure Services where
  load : Chars → Except BrowserError (Option CacheRecord)
  fetch : Chars → Option (TextMap Chars) → Except BrowserError BrowserPage
  store : Chars → Chars → Nat → Chars → TextMap JsonValue → Except BrowserError Unit
  delete : Chars → Except BrowserError Unit

/-- A tab: what it shows, where it has been and what was typed. -/
structure BrowserSession (φ : Type) where
  currentPage : Option BrowserPage
  currentDocument : Option Document
  history : List Chars
  historyIndex : Int
  fieldValues : TextMap Chars
  partials : List (PartialSpec φ)
  generation : Nat
  partialBaseMarkup : Option Chars
  partialContents : TextMap Chars
  micronplusEnabled : Bool
  trustedMicronplusNodes : Option (List Chars)
  hasCache : Bool
  hasRuntime : Bool

/-! Field values. -/

variable (fields : TextMap Chars)

/-- The bytes of all values but the one under a name. -/
def otherFieldBytes (name : Chars) : Nat :=
  (fields.toList.map fun (currentName, currentValue) =>
    if currentName = name then 0 else utf8Len currentName + utf8Len currentValue).sum

/-- A new name has room only while there are fewer than the most controls. -/
def boundedFieldValueIsAdmitted (name value : Chars) : Bool :=
  if name = [] ∨ micronControlNameMaxBytes < utf8Len name ∨
      micronControlValueMaxBytes < utf8Len value ∨
      (¬name ∈ fields ∧ micronControlMaxItems ≤ fields.size) then
    false
  else decide (otherFieldBytes fields name + utf8Len name + utf8Len value ≤ micronControlMaxOwnedBytes)

/-- A value that is not admitted leaves the values as they were. -/
def insertBoundedFieldValue (name value : Chars) : TextMap Chars × Bool :=
  if boundedFieldValueIsAdmitted fields name value then (fields.insert name value, true)
  else (fields, false)

/-- Every control of the page. -/
def mapControls (f : FieldControl → FieldControl) (document : Document) : Document :=
  { document with rows := document.rows.map fun row =>
      { row with fragments := row.fragments.map fun
          | .span span => .span span
          | .control control => .control (f control) } }

/-- The controls of a document, in its order. -/
def documentControls (document : Document) : List FieldControl :=
  document.rows.flatMap fun row => row.fragments.filterMap Fragment.control?

def fieldKind : Chars := "field".toList
def checkboxKind : Chars := "checkbox".toList
def radioKind : Chars := "radio".toList

def isCheckable (control : FieldControl) : Bool :=
  control.kind = checkboxKind || control.kind = radioKind

/-- One control of the loop that rebuilds the values. -/
def refreshControl (existing fieldValues : TextMap Chars) (control : FieldControl) : TextMap Chars :=
  if control.kind = fieldKind then
    (insertBoundedFieldValue fieldValues control.name
      (existing[control.name]?.getD control.value)).1
  else if isCheckable control ∧ control.prechecked then
    (insertBoundedFieldValue fieldValues control.name control.value).1
  else fieldValues

/-- A control with the value, or the choice, that is kept under its name. -/
def syncControl (fieldValues : TextMap Chars) (control : FieldControl) : FieldControl :=
  if control.kind = fieldKind then
    match fieldValues[control.name]? with
    | some value => { control with value }
    | none => control
  else if isCheckable control then
    { control with prechecked := decide (fieldValues[control.name]? = some control.value) }
  else control

/-! The history. -/

variable (history : List Chars)

def navigationHistoryOwnedBytes : Nat := (history.map utf8Len).sum

/-- How many of the oldest are to go. -/
def trimCount : List Chars → Nat
  | [] => 0
  | url :: rest =>
    if browserHistoryMaxItems < (url :: rest).length ∨
        browserHistoryMaxOwnedBytes < navigationHistoryOwnedBytes (url :: rest) then
      trimCount rest + 1
    else 0

/-- An index within the history. -/
def clampIndex (index : Int) (history : List Chars) : Int :=
  max 0 (min index (history.length - 1 : Int))

variable (historyIndex : Int)

/-- The oldest entries go, until the history is within its limits. -/
def trimLiveNavigationHistory : List Chars × Int :=
  let remove := trimCount history
  let history := history.drop remove
  let historyIndex := historyIndex - remove
  (history, if history = [] then -1 else clampIndex historyIndex history)

/-- The window under way: its ends, what it holds, and the sides that may still grow. -/
structure Window where
  left : Nat
  right : Nat
  items : Nat
  owned : Nat
  leftOpen : Bool
  rightOpen : Bool

variable (w : Window)

/-- An entry that the window has room for. -/
def Window.takes (url : Chars) : Bool :=
  decide (utf8Len url ≤ browserPageUrlMaxBytes) &&
    decide (w.owned + utf8Len url ≤ browserHistoryMaxOwnedBytes)

/-- One entry more on the left, if the window can take it. -/
def Window.growLeft : Window × Bool :=
  if w.leftOpen then
    let candidate := w.left - 1
    let url := history.getD candidate []
    if w.takes url then
      ({ w with left := candidate, owned := w.owned + utf8Len url, items := w.items + 1
                leftOpen := decide (0 < candidate) }, true)
    else ({ w with leftOpen := false }, false)
  else (w, false)

/-- One entry more on the right. -/
def Window.growRight : Window × Bool :=
  if w.rightOpen then
    let candidate := w.right + 1
    let url := history.getD candidate []
    if w.takes url then
      ({ w with right := candidate, owned := w.owned + utf8Len url, items := w.items + 1
                rightOpen := decide (candidate + 1 < history.length) }, true)
    else ({ w with rightOpen := false }, false)
  else (w, false)

/-- The loop: each turn adds an entry, so it ends when the items are used up. -/
def Window.grow : Nat → Window → Window
  | 0, w => w
  | fuel + 1, w =>
    if w.items < browserHistoryMaxItems ∧ (w.leftOpen ∨ w.rightOpen) then
      let (w, admittedLeft) := w.growLeft history
      if browserHistoryMaxItems ≤ w.items then w
      else
        let (w, admittedRight) := w.growRight history
        if admittedLeft || admittedRight then Window.grow fuel w else w
    else w

def selectedIndex : Nat :=
  (clampIndex historyIndex history).toNat

/-- The selected entry alone. -/
def Window.start (selected : Nat) : Window where
  left := selected
  right := selected
  items := 1
  owned := utf8Len (history.getD selected [])
  leftOpen := decide (0 < selected)
  rightOpen := decide (selected + 1 < history.length)

/-- The selected entry is kept, and as many around it as the limits allow. -/
def admitRestoredNavigationHistory : Except BrowserError (List Chars × Int) :=
  if history = [] then .ok ([], -1)
  else
    let selected := selectedIndex history historyIndex
    if browserPageUrlMaxBytes < utf8Len (history.getD selected []) then
      .error (.browser s!"selected browser history URL exceeds {browserPageUrlMaxBytes} bytes")
    else
      let w := Window.grow history browserHistoryMaxItems (Window.start history selected)
      .ok ((history.take (w.right + 1)).drop w.left, (selected : Int) - w.left)

/-! Caching. -/

/-- `cache_ttl_for_markup`, over the lines. -/
def cacheTtlFrom : List Chars → Nat
  | [] => defaultCacheSeconds
  | line :: rest =>
    let trimmed := trimChars line
    let directive :=
      if "#!".toList <+: trimmed then some (trimmed.drop 2)
      else if ['#'] <+: trimmed then some (trimmed.drop 1)
      else none
    match directive with
    | none => if trimmed = [] then cacheTtlFrom rest else defaultCacheSeconds
    | some directive =>
      match splitOnce '=' directive with
      | none => cacheTtlFrom rest
      | some (key, value) =>
        if trimChars key = "c".toList then (parseU64 (trimChars value)).getD defaultCacheSeconds
        else cacheTtlFrom rest

/-- How long a page may be served from the cache, which the page can say itself. -/
def cacheTtlForMarkup (markup : Chars) : Nat := cacheTtlFrom (lines markup)

/-! Sessions. -/

namespace BrowserSession
variable {φ : Type} (r : Rendering φ)

variable (url : Chars)

def isClearwebUrl : Bool :=
  let lowered := (trimChars url).map Char.toLower
  decide ("http://".toList <+: lowered) || decide ("https://".toList <+: lowered)

variable (s : BrowserSession φ)

def currentUrl : Option Chars := s.currentPage.map BrowserPage.url

def currentDestination : Option Chars := do
  let url ← s.currentUrl
  (BrowserAddress.parse url).map BrowserAddress.destination

/-- `rsplit_once('/')`, before it. -/
def parentPath (path : Chars) : Chars :=
  match splitOnce '/' path.reverse with
  | some (_, before) => if before = [] then ['/'] else before.reverse
  | none => ['/']

/-- An address, complete or on the current node. -/
def resolveUrl (input : Chars) : Option Chars :=
  if isClearwebUrl input then some input
  else
    match BrowserAddress.parse input with
    | some address => some address.url
    | none => do
      let destination ← s.currentDestination
      if [':'] <+: input then
        (BrowserAddress.parseWithCurrent input (some destination)).map BrowserAddress.url
      else if ['/'] <+: input then some (destination ++ ':' :: input)
      else
        let current ← s.currentUrl.bind BrowserAddress.parse
        let parent := parentPath current.path
        let separator := if ['/'] <:+ parent then [] else ['/']
        some (destination ++ ':' :: parent ++ separator ++ input)

/-- Extended markup is for trusted nodes, if there is a list of them. -/
def micronplusAllowedForUrl (url : Chars) : Bool :=
  if !s.micronplusEnabled then false
  else
    match s.trustedMicronplusNodes with
    | none => true
    | some trustedNodes =>
      match BrowserAddress.parse url with
      | some address => decide (address.destination ∈ trustedNodes)
      | none => false

/-- A page that was asked for with values is another page. -/
def cacheKey (requestData : Option (TextMap Chars)) : Chars :=
  match requestData with
  | none => url
  | some data => if data.isEmpty then url else url ++ "::request::".toList ++ r.requestText data

/-- What every request to a trusted node says. -/
def defaultRequestData (resolvedUrl : Chars) : TextMap Chars :=
  if s.micronplusAllowedForUrl resolvedUrl then
    ((∅ : TextMap Chars).insert "var_micronplus_plugin_enabled".toList "1".toList).insert
      "var_micronplus_version".toList "1".toList |>.insert "var_client".toList "omenbrowser".toList
  else ∅

def stringValue : JsonValue → Option Chars
  | .string text => some text
  | _ => none

variable (page : BrowserPage)

/-- The source that a page is lowered from. -/
def micronplusSource : Option Chars :=
  if s.micronplusAllowedForUrl page.url then
    let kept := (page.metadata["micronplus_source".toList]?.bind stringValue).filter
      r.hasMicronplusMarkup
    kept <|> if r.hasMicronplusMarkup page.markup then some page.markup else none
  else none

/-- What is inserted where there is something, and removed where there is nothing. -/
def setMetadata (metadata : TextMap JsonValue) (key : String) (value : Option JsonValue) :
    TextMap JsonValue :=
  match value with
  | some value => metadata.insert key.toList value
  | none => metadata.erase key.toList

def structuralError {α : Type} : Except String α → List String
  | .ok _ => []
  | .error error => [error]

/-- The page with what its source is lowered to. -/
def lowerPage (source : Option Chars) : BrowserPage :=
  match source with
  -- without a source, nothing that was lowered before stays in the metadata
  | none =>
    let metadata := page.metadata.erase "micronplus_source".toList
    let metadata := metadata.erase "micronplus_layout".toList
    let metadata := metadata.erase "micronplus_tree".toList
    { page with metadata := metadata.erase "micronplus_diagnostics".toList }
  | some source =>
    let layout := r.micronplusLayout source
    let tree := r.micronplusTree source
    let lowered := r.lowerMicronplusMarkup source
    let diagnostics := ((structuralError layout ++ structuralError tree ++ lowered.2).mergeSort
      (· ≤ ·)).dedup
    let metadata := page.metadata.insert "micronplus_source".toList (.string source)
    let metadata := setMetadata metadata "micronplus_layout" (layout.toOption.bind id)
    let metadata := setMetadata metadata "micronplus_tree" (tree.toOption.bind id)
    let metadata := setMetadata metadata "micronplus_diagnostics"
      (if diagnostics = [] then none else some (r.diagnosticsValue diagnostics))
    { page with metadata, markup := lowered.1 }

/-- A page is checked as it came and again as it is shown. -/
def normalizePage : Except BrowserError BrowserPage := do
  page.validateRetained.mapError .browser
  let page := lowerPage r page (s.micronplusSource r page)
  let page := { page with markup := r.lowerOmenchatBlocks page.markup }
  page.validateRetained.mapError .browser
  pure page

/-- The controls show the values there are. -/
def syncDocumentControlState : BrowserSession φ :=
  { s with currentDocument := s.currentDocument.map (mapControls (syncControl s.fieldValues)) }

/-- The values of the page that is shown; what other pages had is forgotten. -/
def refreshFieldValues : BrowserSession φ :=
  match s.currentDocument with
  | none => { s with fieldValues := ∅ }
  | some document =>
    ({ s with fieldValues :=
        (documentControls document).foldl (refreshControl s.fieldValues) ∅ }).syncDocumentControlState

/-- The session with an admitted page. -/
def installPage (s : BrowserSession φ) : BrowserSession φ :=
  ({ s with
    currentDocument := parseMicron page.markup
    partials := extractPartialSpecs r.parseRefresh r.lineHash page.markup
    partialBaseMarkup := some page.markup
    partialContents := ∅
    currentPage := some page
    generation := s.generation + 1 }).refreshFieldValues

/-- A page that cannot be shown leaves the session as it was. -/
def updatePageState : Act (BrowserSession φ) BrowserError Unit := fun s =>
  match s.normalizePage r page with
  | .error e => (.error e, s)
  | .ok page => (.ok (), s.installPage r page)

/-- The history behind a page that is added to it. -/
def pushHistory : BrowserSession φ :=
  let history := s.history.take (s.historyIndex + 1).toNat ++ [url]
  let trimmed := trimLiveNavigationHistory history (s.historyIndex + 1)
  { s with history := trimmed.1, historyIndex := trimmed.2 }

/-- A page that is shown already is not entered again. -/
def setPageAndHistory (addHistory : Bool) :
    Act (BrowserSession φ) BrowserError Unit := do
  updatePageState r page
  Act.modify fun s =>
    if addHistory ∧ (s.historyIndex < 0 ∨ s.history[s.historyIndex.toNat]? ≠ some page.url) then
      s.pushHistory page.url
    else s

def tryApplyPage (addHistory : Bool) : Act (BrowserSession φ) BrowserError Unit :=
  setPageAndHistory r page addHistory

def new (startUrl : Chars) : Except BrowserError (BrowserSession φ) :=
  let blank : BrowserSession φ :=
    { currentPage := none
      currentDocument := none
      history := []
      historyIndex := -1
      fieldValues := ∅
      partials := []
      generation := 0
      partialBaseMarkup := none
      partialContents := ∅
      micronplusEnabled := true
      trustedMicronplusNodes := none
      hasCache := false
      hasRuntime := false }
  match updatePageState r (.mockHome startUrl) blank with
  | (.error e, _) => .error e
  | (.ok _, s) => .ok s

/-- A session that can load pages. -/
def withRuntime (startUrl : Chars) : Except BrowserError (BrowserSession φ) := do
  let s ← new r startUrl
  pure { s with hasRuntime := true, hasCache := true }

/-- A page of an earlier session, with its history. -/
def restorePage (history : List Chars) (historyIndex : Int) :
    Act (BrowserSession φ) BrowserError Unit := do
  let admitted ← Act.lift (admitRestoredNavigationHistory history historyIndex)
  updatePageState r page
  Act.modify fun s => { s with history := admitted.1, historyIndex := admitted.2 }

/-! Opening. -/

/-- Addresses that are too long, or of the web, are not opened. -/
def refuseAddress (resolved : Chars) : Except BrowserError Unit := do
  Outcome.refuse (browserPageUrlMaxBytes < utf8Len resolved)
    (.browser s!"browser address exceeds {browserPageUrlMaxBytes} bytes")
  Outcome.refuse (isClearwebUrl resolved = true)
    (.browser s!"clearweb URLs require explicit external open: {String.ofList resolved}")
  Outcome.refuse ("/file".toList <:+ resolved ∨ "/file/".toList <:+: resolved)
    (.browser "use download() for file URLs")

variable (services : Services)

section
variable (s : BrowserSession φ) (resolved : Chars) (requestData : Option (TextMap Chars))

/-- The page of the cache, if it is asked and has one. -/
def cachedPage (useCache : Bool) : Except BrowserError (Option BrowserPage) :=
  if requestData.isNone ∧ useCache ∧ s.hasCache then
    (services.load (cacheKey r resolved (some (s.defaultRequestData resolved)))).map
      (Option.map fun record =>
        { url := resolved
          markup := record.markup
          title := record.title
          source := .cache
          metadata := record.metadata
          requestData := none })
  else .ok none

/-- The page that the runtime fetches, which the cache keeps. -/
def fetchPage : Except BrowserError BrowserPage := do
  Outcome.refuse (s.hasRuntime = false) (.browser "browser session has no runtime")
  let merged := (requestData.getD ∅).toList.foldl (fun merged (key, value) => merged.insert key value)
    (s.defaultRequestData resolved)
  let page ← services.fetch resolved (if merged.isEmpty then none else some merged)
  page.validateRetained.mapError .browser
  if requestData.isNone ∧ s.hasCache then
    services.store (cacheKey r resolved (some (s.defaultRequestData resolved))) page.markup
      (cacheTtlForMarkup page.markup) page.title page.metadata
  pure page

end

/-- The page of an address, as far as it is found without a change to the session. -/
def findPage (s : BrowserSession φ) (url : Chars) (requestData : Option (TextMap Chars))
    (useCache : Bool) : Except BrowserError BrowserPage :=
  match s.resolveUrl url with
  | none => .error (.browser s!"invalid address: {String.ofList url}")
  | some resolved => do
    refuseAddress resolved
    let cached ← s.cachedPage r services resolved requestData useCache
    match cached with
    | some page => s.normalizePage r page
    | none =>
      let page ← s.fetchPage r services resolved requestData
      s.normalizePage r page

/-- The page is found first; nothing changes where it is not. -/
def openUrl (url : Chars) (requestData : Option (TextMap Chars)) (addHistory useCache : Bool) :
    Act (BrowserSession φ) BrowserError BrowserPage := fun s =>
  match s.findPage r services url requestData useCache with
  | .error e => (.error e, s)
  | .ok page => (do
      setPageAndHistory r page addHistory
      pure page : Act (BrowserSession φ) BrowserError BrowserPage) s

/-- The page before, without an entry of its own. -/
def back : Act (BrowserSession φ) BrowserError (Option BrowserPage) := fun s =>
  if s.historyIndex ≤ 0 then (.ok none, s)
  else
    let s := { s with historyIndex := s.historyIndex - 1 }
    let url := s.history.getD s.historyIndex.toNat []
    (do
      let page ← openUrl r services url none false true
      pure (some page) : Act (BrowserSession φ) BrowserError (Option BrowserPage)) s

/-- The page after. -/
def forward : Act (BrowserSession φ) BrowserError (Option BrowserPage) :=
  fun s =>
    if (s.history.length : Int) ≤ s.historyIndex + 1 then (.ok none, s)
    else
      let s := { s with historyIndex := s.historyIndex + 1 }
      let url := s.history.getD s.historyIndex.toNat []
      (do
        let page ← openUrl r services url none false true
        pure (some page) : Act (BrowserSession φ) BrowserError (Option BrowserPage)) s

/-- The page that is shown, past the cache. -/
def reload : Act (BrowserSession φ) BrowserError (Option BrowserPage) := fun s =>
  if s.historyIndex < 0 then (.ok none, s)
  else
    let url := s.history.getD s.historyIndex.toNat []
    (do
      if s.hasCache then Act.lift (services.delete (cacheKey r url none))
      let page ← openUrl r services url none false false
      pure (some page) : Act (BrowserSession φ) BrowserError (Option BrowserPage)) s

/-! Controls. -/

/-- A value that is typed. -/
def setFieldValue (name value : Chars) (s : BrowserSession φ) : BrowserSession φ × Bool :=
  let inserted := insertBoundedFieldValue s.fieldValues name value
  if inserted.2 then
    (({ s with fieldValues := inserted.1 }).syncDocumentControlState, true)
  else (s, false)

/-- The values of controls that are there; others are passed over. -/
def applyFieldValues (values : TextMap Chars) (s : BrowserSession φ) : BrowserSession φ :=
  let applied := values.toList.foldl (fun fields (name, value) =>
    if name ∈ fields then (insertBoundedFieldValue fields name value).1 else fields) s.fieldValues
  ({ s with fieldValues := applied }).syncDocumentControlState

def interactiveControls : List FieldControl :=
  (s.currentDocument.map documentControls).getD []

/-- A checkbox that is set is cleared; anything else that can be checked is set. -/
def toggleControl (name value : Chars) (s : BrowserSession φ) : BrowserSession φ × Bool :=
  match s.interactiveControls.find? (fun control => control.name = name && control.value = value) with
  | none => (s, false)
  | some control =>
    if control.kind = checkboxKind ∧ s.fieldValues[name]? = some value then
      (({ s with fieldValues := s.fieldValues.erase name }).syncDocumentControlState, true)
    else if isCheckable control then
      let inserted := insertBoundedFieldValue s.fieldValues name value
      if inserted.2 then
        (({ s with fieldValues := inserted.1 }).syncDocumentControlState, true)
      else (s, false)
    else (s, false)

/-! Partials. -/

/-- The page with the new content of a partial, checked as any page is. -/
def applyPartialContent (slot content : Chars) : Act (BrowserSession φ) BrowserError BrowserPage :=
  fun s =>
    let updated : Except BrowserError (TextMap Chars × BrowserPage) := do
      Outcome.refuse (browserPageMarkupMaxBytes < utf8Len content)
        (.browser s!"partial content exceeds {browserPageMarkupMaxBytes} bytes")
      match s.currentPage with
      | none => .error (.browser "no page available for partial composition")
      | some currentPage =>
        let contents := s.partialContents.insert slot content
        let baseMarkup := s.partialBaseMarkup.getD currentPage.markup
        let markup := composeMarkupWithPartials s.partials (contents[·]?) baseMarkup
        let page ← s.normalizePage r { currentPage with
          markup
          source := .network
          metadata := currentPage.metadata.erase "micronplus_source".toList }
        -- layout and tree stay those of the page
        let metadata := setMetadata page.metadata "micronplus_layout"
          currentPage.metadata["micronplus_layout".toList]?
        let metadata := setMetadata metadata "micronplus_tree"
          currentPage.metadata["micronplus_tree".toList]?
        let page := { page with metadata }
        page.validateRetained.mapError .browser
        pure (contents, page)
    match updated with
    | .error e => (.error e, s)
    | .ok (contents, page) =>
      (.ok page, ({ s with
        partialContents := contents
        currentDocument := parseMicron page.markup
        currentPage := some page }).refreshFieldValues)

end BrowserSession

end Omen.Browser
