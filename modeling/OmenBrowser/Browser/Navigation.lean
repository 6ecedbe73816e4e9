import Mathlib.Tactic.Linarith
import OmenBrowser.Browser.Session

/- The history of a session, over any run of navigations.

   `setPageAndHistory_cases` and `openUrl_cases` say what a page that is shown does to the history;
   `Navigation.sound` is the step of the invariant and `navigate_sound` the run. A failed operation
   leaves everything as it was, except that going back or forward has moved the pointer by then. -/
namespace Omen.Browser
open Text Micron Outcome List BrowserSession

variable {history saved : List Chars} {s : BrowserSession φ} {url : Chars} {savedIndex : Int}
  {page' : BrowserPage} {services : Services} {useCache : Bool}
  {result : Except BrowserError (Option BrowserPage)}
  {x : Act (BrowserSession φ) BrowserError (Option BrowserPage)}

/-! Trimming. -/

section Trim
variable {history : List Chars} {url : Chars}

theorem trim_items (history : List Chars) :
    (history.drop (trimCount history)).length ≤ browserHistoryMaxItems := by
  induction history with
  | nil => exact Nat.zero_le _
  | cons url rest ih =>
    unfold trimCount
    split
    · exact ih
    · next hfits => exact Nat.not_lt.mp (not_or.mp hfits).1

theorem trim_bytes (history : List Chars) :
    navigationHistoryOwnedBytes (history.drop (trimCount history)) ≤ browserHistoryMaxOwnedBytes := by
  induction history with
  | nil => exact Nat.zero_le _
  | cons url rest ih =>
    unfold trimCount
    split
    · exact ih
    · next hfits => exact Nat.not_lt.mp (not_or.mp hfits).2

/-- The newest entry stays. -/
theorem trimCount_le (h : utf8Len url ≤ browserPageUrlMaxBytes) :
    trimCount (history ++ [url]) ≤ history.length := by
  induction history with
  | nil =>
    have hone : navigationHistoryOwnedBytes [url] = utf8Len url := by
      simp [navigationHistoryOwnedBytes]
    have hlimit : browserPageUrlMaxBytes ≤ browserHistoryMaxOwnedBytes := by decide
    show trimCount [url] ≤ 0
    unfold trimCount
    rw [if_neg]
    rintro (hitems | hbytes)
    · rw [length_singleton] at hitems
      exact absurd hitems (by decide)
    · omega
  | cons first rest ih =>
    rw [cons_append]
    unfold trimCount
    split
    · exact Nat.succ_le_succ ih
    · exact Nat.zero_le _

theorem clampIndex_mem (h : history ≠ []) (index : Int) :
    0 ≤ clampIndex index history ∧ clampIndex index history < history.length := by
  have hpos := length_pos_iff.mpr h
  unfold clampIndex
  omega

end Trim

/-! The invariant. -/

section Sound
variable {φ : Type}

/-- What holds of the history of every session. -/
structure HistorySound (s : BrowserSession φ) : Prop where
  pointer : s.historyIndex = -1 ↔ s.history = []
  index : s.history ≠ [] → 0 ≤ s.historyIndex ∧ s.historyIndex < s.history.length
  items : s.history.length ≤ browserHistoryMaxItems
  bytes : navigationHistoryOwnedBytes s.history ≤ browserHistoryMaxOwnedBytes

theorem HistorySound.of_eq {s' : BrowserSession φ} (h : HistorySound s)
    (hhistory : s'.history = s.history) (hindex : s'.historyIndex = s.historyIndex) :
    HistorySound s' := by
  obtain ⟨hpointer, hrange, hitems, hbytes⟩ := h
  constructor
  · rw [hhistory, hindex]
    exact hpointer
  · rw [hhistory, hindex]
    exact hrange
  · rw [hhistory]
    exact hitems
  · rw [hhistory]
    exact hbytes

/-- A session with entries, and its index among them. -/
theorem HistorySound.of_index (hindex : 0 ≤ s.historyIndex)
    (hlength : s.historyIndex < s.history.length)
    (hitems : s.history.length ≤ browserHistoryMaxItems)
    (hbytes : navigationHistoryOwnedBytes s.history ≤ browserHistoryMaxOwnedBytes) :
    HistorySound s := by
  have hne : s.history ≠ [] := by
    intro hnil
    rw [hnil] at hlength
    exact absurd hlength (by simpa using hindex)
  exact ⟨iff_of_false (by omega) hne, fun _ => ⟨hindex, hlength⟩, hitems, hbytes⟩

theorem pushHistory_sound (h : utf8Len url ≤ browserPageUrlMaxBytes) (s : BrowserSession φ) :
    HistorySound (s.pushHistory url) := by
  have hkept := @trimCount_le (s.history.take (s.historyIndex + 1).toNat) _ h
  have hne : (s.history.take (s.historyIndex + 1).toNat ++ [url]).drop
      (trimCount (s.history.take (s.historyIndex + 1).toNat ++ [url])) ≠ [] := by
    rw [Ne, drop_eq_nil_iff, length_append, length_singleton]
    omega
  have hclamp := clampIndex_mem hne (s.historyIndex + 1 -
    trimCount (s.history.take (s.historyIndex + 1).toNat ++ [url]))
  unfold pushHistory trimLiveNavigationHistory
  refine .of_index ?_ ?_ (trim_items _) (trim_bytes _)
  · dsimp only
    rw [if_neg hne]
    exact hclamp.1
  · dsimp only
    rw [if_neg hne]
    exact hclamp.2

end Sound

/-! Windows. -/

section Windows
variable {history : List Chars} {selected : Nat} {w : Window}

/-- What the loop keeps of a window around the selected entry. -/
structure WindowSound (history : List Chars) (selected : Nat) (w : Window) : Prop where
  left : w.left ≤ selected
  right : selected ≤ w.right
  inside : w.right < history.length
  items : w.items = w.right + 1 - w.left
  owned : w.owned = navigationHistoryOwnedBytes ((history.take (w.right + 1)).drop w.left)
  maxItems : w.items ≤ browserHistoryMaxItems
  maxOwned : w.owned ≤ browserHistoryMaxOwnedBytes
  leftOpen : w.leftOpen = true → 0 < w.left
  rightOpen : w.rightOpen = true → w.right + 1 < history.length

theorem getD_entry {i : Nat} (h : i < history.length) : history.getD i [] = history[i] := by
  rw [getD_eq_getElem?_getD, getElem?_eq_getElem h, Option.getD_some]

theorem window_start (hselected : selected < history.length)
    (hurl : utf8Len (history.getD selected []) ≤ browserPageUrlMaxBytes) :
    WindowSound history selected (.start history selected) := by
  have hlimit : browserPageUrlMaxBytes ≤ browserHistoryMaxOwnedBytes := by decide
  refine ⟨Nat.le_refl _, Nat.le_refl _, hselected, ?_, ?_, (by decide : 1 ≤ browserHistoryMaxItems),
    hurl.trans hlimit, of_decide_eq_true, of_decide_eq_true⟩
  · show 1 = selected + 1 - selected
    omega
  · show utf8Len (history.getD selected []) = _
    have hone : (history.take (selected + 1)).drop selected = [history[selected]] := by
      rw [take_succ_eq_append_getElem hselected, drop_append_of_le_length (by
        rw [length_take]; omega), drop_of_length_le (by rw [length_take]; omega),
        nil_append]
    show utf8Len (history.getD selected []) =
      navigationHistoryOwnedBytes ((history.take (selected + 1)).drop selected)
    rw [hone, getD_entry hselected]
    simp [navigationHistoryOwnedBytes]

theorem takes_iff :
    w.takes url = true ↔ utf8Len url ≤ browserPageUrlMaxBytes ∧
      w.owned + utf8Len url ≤ browserHistoryMaxOwnedBytes := by
  simp [Window.takes]

variable (h : WindowSound history selected w)
include h

theorem growLeft_sound (hroom : w.items < browserHistoryMaxItems) :
    WindowSound history selected (w.growLeft history).1 := by
  unfold Window.growLeft
  split
  · next hopen =>
    have hpos := h.leftOpen hopen
    have hleft := h.left
    have hright := h.right
    have hinside := h.inside
    dsimp only
    split
    · next htakes =>
      obtain ⟨-, hfits⟩ := takes_iff.mp htakes
      refine ⟨?_, hright, hinside, ?_, ?_, hroom, hfits, of_decide_eq_true, h.rightOpen⟩
      · show w.left - 1 ≤ selected
        omega
      · show w.items + 1 = w.right + 1 - (w.left - 1)
        rw [h.items]
        omega
      · show w.owned + utf8Len (history.getD (w.left - 1) []) = _
        have hlt : w.left - 1 < (history.take (w.right + 1)).length := by
          rw [length_take]
          omega
        have hdrop := drop_eq_getElem_cons hlt
        rw [Nat.sub_add_cancel hpos] at hdrop
        rw [hdrop, h.owned, getD_entry (by omega), getElem_take]
        simp [navigationHistoryOwnedBytes, Nat.add_comm]
    · exact ⟨hleft, hright, hinside, h.items, h.owned, h.maxItems, h.maxOwned,
        (fun hfalse => nomatch hfalse), h.rightOpen⟩
  · exact h

theorem growRight_sound
    (hroom : w.items < browserHistoryMaxItems) :
    WindowSound history selected (w.growRight history).1 := by
  unfold Window.growRight
  split
  · next hopen =>
    have hinside := h.rightOpen hopen
    have hleft := h.left
    have hright := h.right
    dsimp only
    split
    · next htakes =>
      obtain ⟨-, hfits⟩ := takes_iff.mp htakes
      refine ⟨hleft, ?_, hinside, ?_, ?_, hroom, hfits, h.leftOpen, of_decide_eq_true⟩
      · show selected ≤ w.right + 1
        omega
      · show w.items + 1 = w.right + 1 + 1 - w.left
        rw [h.items]
        omega
      · show w.owned + utf8Len (history.getD (w.right + 1) []) = _
        show _ = navigationHistoryOwnedBytes ((history.take (w.right + 1 + 1)).drop w.left)
        rw [take_succ_eq_append_getElem hinside, drop_append_of_le_length (by
          rw [length_take]; omega), h.owned, getD_entry hinside]
        simp [navigationHistoryOwnedBytes]
    · exact ⟨hleft, hright, h.inside, h.items, h.owned, h.maxItems, h.maxOwned, h.leftOpen,
        fun hfalse => nomatch hfalse⟩
  · exact h

theorem grow_sound (fuel : Nat) :
    WindowSound history selected (Window.grow history fuel w) := by
  induction fuel generalizing w with
  | zero => exact h
  | succ fuel ih =>
    unfold Window.grow
    split
    · next hturn =>
      have hleft := growLeft_sound h hturn.1
      dsimp only
      split
      · exact hleft
      · next hroom =>
        have hright := growRight_sound hleft (Nat.not_le.mp hroom)
        split
        · exact ih hright
        · exact hright
    · exact h

end Windows

/-- A history is a window of another that has its selected entry, and points at it. -/
def WindowOf (saved : List Chars) (savedIndex : Int) (history : List Chars) (historyIndex : Int) :
    Prop :=
  if saved = [] then history = [] ∧ historyIndex = -1
  else ∃ left right, left ≤ selectedIndex saved savedIndex ∧ selectedIndex saved savedIndex ≤ right ∧
    right < saved.length ∧ history = (saved.take (right + 1)).drop left ∧
    historyIndex = (selectedIndex saved savedIndex : Int) - left

theorem selectedIndex_lt (h : saved ≠ []) (savedIndex : Int) :
    selectedIndex saved savedIndex < saved.length := by
  have hclamp := clampIndex_mem h savedIndex
  unfold selectedIndex
  omega

/-- What is restored is a window of what was saved, within the bounds. -/
theorem admitRestored_ok {historyIndex : Int}
    (h : admitRestoredNavigationHistory saved savedIndex = .ok (history, historyIndex)) :
    WindowOf saved savedIndex history historyIndex ∧
      history.length ≤ browserHistoryMaxItems ∧
      navigationHistoryOwnedBytes history ≤ browserHistoryMaxOwnedBytes := by
  unfold admitRestoredNavigationHistory at h
  unfold WindowOf
  split at h
  · next hnil =>
    cases h
    rw [if_pos hnil]
    exact ⟨⟨rfl, rfl⟩, Nat.zero_le _, Nat.zero_le _⟩
  · next hne =>
    dsimp only at h
    split at h
    · cases h
    · next hurl =>
      cases h
      have hsound := grow_sound (window_start (selectedIndex_lt hne savedIndex)
        (Nat.not_lt.mp hurl)) browserHistoryMaxItems
      rw [if_neg hne]
      refine ⟨⟨_, _, hsound.left, hsound.right, hsound.inside, rfl, rfl⟩, ?_, ?_⟩
      · have hinside := hsound.inside
        rw [length_drop, length_take, Nat.min_eq_left hinside, ← hsound.items]
        exact hsound.maxItems
      · rw [← hsound.owned]
        exact hsound.maxOwned

theorem WindowOf.index {historyIndex : Int} (h : WindowOf saved savedIndex history historyIndex) :
    (history = [] ∧ historyIndex = -1) ∨ (0 ≤ historyIndex ∧ historyIndex < history.length) := by
  unfold WindowOf at h
  split at h
  · exact .inl h
  · obtain ⟨left, right, hleft, hright, hinside, rfl, rfl⟩ := h
    right
    rw [length_drop, length_take, Nat.min_eq_left hinside]
    omega

/-! What a page that is shown does. -/

section Pages
variable {φ : Type} {r : Rendering φ} {s s' : BrowserSession φ} {page : BrowserPage}

/-- Where a session has been, and what it shows. -/
structure SamePlace (s s' : BrowserSession φ) : Prop where
  history : s'.history = s.history
  index : s'.historyIndex = s.historyIndex
  page : s'.currentPage = s.currentPage

theorem refreshFieldValues_place (s : BrowserSession φ) : SamePlace s s.refreshFieldValues := by
  unfold refreshFieldValues
  cases s.currentDocument <;> exact ⟨rfl, rfl, rfl⟩

theorem normalizePage_url (h : s.normalizePage r page = .ok page') :
    utf8Len page.url ≤ browserPageUrlMaxBytes := by
  obtain ⟨hvalid, -⟩ := check_ok.mp h
  exact BrowserPage.url_of_validateRetained (mapError_ok.mp hvalid)

theorem updatePageState_cases (r : Rendering φ) (page : BrowserPage) (s : BrowserSession φ) :
    (∃ e, s.normalizePage r page = .error e ∧
        updatePageState r page s = (.error e, s)) ∨
      ∃ page' s', s.normalizePage r page = .ok page' ∧
        updatePageState r page s = (.ok (), s') ∧
        s'.history = s.history ∧ s'.historyIndex = s.historyIndex := by
  unfold updatePageState
  cases hpage : s.normalizePage r page with
  | error e => exact .inl ⟨e, rfl, rfl⟩
  | ok page' =>
    have hplace := refreshFieldValues_place ({ s with
      currentDocument := parseMicron page'.markup
      partials := extractPartialSpecs r.parseRefresh r.lineHash page'.markup
      partialBaseMarkup := some page'.markup
      partialContents := ∅
      currentPage := some page'
      generation := s.generation + 1 } : BrowserSession φ)
    exact .inr ⟨page', _, rfl, rfl, hplace.history, hplace.index⟩

/-- A page that is refused changes nothing; one that is shown leaves the history, or is added. -/
theorem setPageAndHistory_cases (r : Rendering φ) (page : BrowserPage) (addHistory : Bool)
    (s : BrowserSession φ) :
    (∃ e, s.normalizePage r page = .error e ∧
        setPageAndHistory r page addHistory s = (.error e, s)) ∨
      ∃ page' s₁ s', s.normalizePage r page = .ok page' ∧
        setPageAndHistory r page addHistory s = (.ok (), s') ∧
        s₁.history = s.history ∧ s₁.historyIndex = s.historyIndex ∧
        (s' = s₁ ∨ addHistory = true ∧ s' = s₁.pushHistory page.url) := by
  unfold setPageAndHistory
  rcases updatePageState_cases r page s with ⟨e, hpage, hrun⟩ | ⟨page', s₁, hpage, hrun, hhistory, hindex⟩
  · rw [Act.bind_error hrun]
    exact .inl ⟨e, hpage, rfl⟩
  · rw [Act.bind_ok hrun]
    refine .inr ⟨page', s₁, _, hpage, rfl, hhistory, hindex, ?_⟩
    dsimp only
    split
    · next hadd => exact .inr ⟨hadd.1, rfl⟩
    · exact .inl rfl

theorem setPageAndHistory_sound (hsound : HistorySound s) {addHistory : Bool}
    {result : Except BrowserError Unit}
    (h : setPageAndHistory r page addHistory s = (result, s')) : HistorySound s' := by
  rcases setPageAndHistory_cases r page addHistory s with
    ⟨e, -, hrun⟩ | ⟨page', s₁, s₂, hpage, hrun, hhistory, hindex, hshown⟩
  · cases hrun.symm.trans h
    exact hsound
  · cases hrun.symm.trans h
    rcases hshown with rfl | ⟨-, rfl⟩
    · exact hsound.of_eq hhistory hindex
    · exact pushHistory_sound (normalizePage_url hpage) s₁

/-! Opening. -/

/-- An address that may be opened. -/
structure Openable (resolved : Chars) : Prop where
  fits : utf8Len resolved ≤ browserPageUrlMaxBytes
  internal : isClearwebUrl resolved = false
  file : ¬("/file".toList <:+ resolved ∨ "/file/".toList <:+: resolved)

/-- The cache has a page under an address, or the runtime delivers one that the cache keeps. -/
def Delivers (r : Rendering φ) (services : Services) (s : BrowserSession φ) (resolved : Chars)
    (useCache : Bool) (page : BrowserPage) : Prop :=
  s.cachedPage r services resolved none useCache = .ok (some page) ∨
    s.cachedPage r services resolved none useCache = .ok none ∧
      s.fetchPage r services resolved none = .ok page

/-- An address leads to a page that is admitted. -/
def LeadsToPage (r : Rendering φ) (services : Services) (s : BrowserSession φ) (url : Chars)
    (useCache : Bool) : Prop :=
  ∃ resolved page page' page'', s.resolveUrl url = some resolved ∧ Openable resolved ∧
    Delivers r services s resolved useCache page ∧ s.normalizePage r page = .ok page' ∧
    s.normalizePage r page' = .ok page''

theorem refuseAddress_ok {resolved : Chars} :
    refuseAddress resolved = .ok () ↔ Openable resolved := by
  unfold refuseAddress
  rw [refuse_bind_ok, refuse_bind_ok, refuse_ok, not_lt, Bool.not_eq_true]
  exact ⟨fun ⟨hfits, hinternal, hfile⟩ => ⟨hfits, hinternal, hfile⟩,
    fun h => ⟨h.fits, h.internal, h.file⟩⟩

theorem findPage_ok :
    s.findPage r services url none useCache = .ok page' ↔
      ∃ resolved page, s.resolveUrl url = some resolved ∧ Openable resolved ∧
        Delivers r services s resolved useCache page ∧ s.normalizePage r page = .ok page' := by
  unfold findPage Delivers
  cases hresolved : s.resolveUrl url with
  | none => simp
  | some resolved =>
    rw [check_ok, refuseAddress_ok, bind_ok]
    constructor
    · rintro ⟨hopenable, cached, hcached, hpage⟩
      cases cached with
      | some page => exact ⟨resolved, page, rfl, hopenable, .inl hcached, hpage⟩
      | none =>
        obtain ⟨page, hfetch, hpage⟩ := bind_ok.mp hpage
        exact ⟨resolved, page, rfl, hopenable, .inr ⟨hcached, hfetch⟩, hpage⟩
    · rintro ⟨resolved', page, hsame, hopenable, hdelivers, hpage⟩
      obtain rfl := Option.some.inj hsame
      refine ⟨hopenable, ?_⟩
      rcases hdelivers with hcached | ⟨hcached, hfetch⟩
      · exact ⟨some page, hcached, hpage⟩
      · exact ⟨none, hcached, bind_ok.mpr ⟨page, hfetch, hpage⟩⟩

/-- An opening that fails changes nothing, and one that ends shows a page. -/
theorem openUrl_cases (r : Rendering φ) (services : Services) (url : Chars)
    (requestData : Option (TextMap Chars)) (addHistory useCache : Bool) (s : BrowserSession φ) :
    (∃ e, openUrl r services url requestData addHistory useCache s = (.error e, s)) ∨
      ∃ page s', s.findPage r services url requestData useCache = .ok page ∧
        setPageAndHistory r page addHistory s = (.ok (), s') ∧
        openUrl r services url requestData addHistory useCache s = (.ok page, s') := by
  unfold openUrl
  cases hfind : s.findPage r services url requestData useCache with
  | error e => exact .inl ⟨e, rfl⟩
  | ok page =>
    dsimp only
    rcases setPageAndHistory_cases r page addHistory s with
      ⟨e, -, hrun⟩ | ⟨page', s₁, s', -, hrun, -⟩
    · rw [Act.bind_error hrun]
      exact .inl ⟨e, rfl⟩
    · rw [Act.bind_ok hrun]
      exact .inr ⟨page, s', rfl, hrun, rfl⟩

/-- What is opened without being added to the history leaves it. -/
theorem openUrl_place {result : Except BrowserError BrowserPage}
    (h : openUrl r services url none false useCache s = (result, s')) :
    s'.history = s.history ∧ s'.historyIndex = s.historyIndex := by
  rcases openUrl_cases r services url none false useCache s with ⟨e, hrun⟩ | ⟨page, s₁, -, hset, hrun⟩
  · cases hrun.symm.trans h
    exact ⟨rfl, rfl⟩
  · cases hrun.symm.trans h
    rcases setPageAndHistory_cases r page false s with
      ⟨e, -, hfailed⟩ | ⟨page', s₂, s₃, -, hrun', hhistory, hindex, hshown⟩
    · cases hfailed.symm.trans hset
    · cases hrun'.symm.trans hset
      rcases hshown with rfl | ⟨hadd, -⟩
      · exact ⟨hhistory, hindex⟩
      · cases hadd

/-- An address is opened if and only if it leads to a page. -/
theorem openUrl_ok_iff :
    (∃ page s', openUrl r services url none false useCache s = (.ok page, s')) ↔
      LeadsToPage r services s url useCache := by
  constructor
  · rintro ⟨page', s', hopen⟩
    rcases openUrl_cases r services url none false useCache s with
      ⟨e, hrun⟩ | ⟨page, s₁, hfind, hset, -⟩
    · cases hrun.symm.trans hopen
    · obtain ⟨resolved, fetched, hresolved, hopenable, hdelivers, hpage⟩ := findPage_ok.mp hfind
      rcases setPageAndHistory_cases r page false s with ⟨e, -, hfailed⟩ | ⟨page'', _, _, hagain, -⟩
      · cases hfailed.symm.trans hset
      · exact ⟨resolved, fetched, page, page'', hresolved, hopenable, hdelivers, hpage, hagain⟩
  · rintro ⟨resolved, fetched, page, page'', hresolved, hopenable, hdelivers, hpage, hagain⟩
    have hfind := findPage_ok.mpr ⟨resolved, fetched, hresolved, hopenable, hdelivers, hpage⟩
    unfold openUrl
    rw [hfind]
    dsimp only
    rcases setPageAndHistory_cases r page false s with ⟨e, hfailed, -⟩ | ⟨_, _, s', -, hrun, -⟩
    · cases hfailed.symm.trans hagain
    · rw [Act.bind_ok hrun]
      exact ⟨page, s', rfl⟩

end Pages

/-! Runs. -/

/-- One operation, and what the cache and the runtime answer to it. -/
inductive Navigation where
  | openUrl (services : Services) (url : Chars) (requestData : Option (TextMap Chars))
      (addHistory useCache : Bool)
  | back (services : Services)
  | forward (services : Services)
  | reload (services : Services)
  | tryApplyPage (page : BrowserPage) (addHistory : Bool)
  | restorePage (page : BrowserPage) (history : List Chars) (historyIndex : Int)

section Runs
variable {φ : Type} (r : Rendering φ)

/-- What each navigation runs. -/
def Navigation.act : Navigation → Act (BrowserSession φ) BrowserError Unit
  | .openUrl services url requestData addHistory useCache => do
    let _ ← BrowserSession.openUrl r services url requestData addHistory useCache
    pure ()
  | .back services => do
    let _ ← BrowserSession.back r services
    pure ()
  | .forward services => do
    let _ ← BrowserSession.forward r services
    pure ()
  | .reload services => do
    let _ ← BrowserSession.reload r services
    pure ()
  | .tryApplyPage page addHistory => BrowserSession.tryApplyPage r page addHistory
  | .restorePage page history historyIndex => BrowserSession.restorePage r page history historyIndex

section
variable (s : BrowserSession φ)

/-- The session after all of them. -/
def navigate (navigations : List Navigation) : BrowserSession φ :=
  navigations.foldl (fun s navigation => (navigation.act r s).2) s

/-- A new session, with or without a cache and a runtime, and with any policy. -/
def Started : Prop :=
  ∃ startUrl s₀ micronplusEnabled trustedMicronplusNodes hasCache hasRuntime,
    new r startUrl = .ok s₀ ∧
      s = { s₀ with micronplusEnabled, trustedMicronplusNodes, hasCache, hasRuntime }

/-- What is opened from an entry of the history. -/
def entry (index : Int) : Chars := s.history.getD index.toNat []

/-- A step back or forward leads to a page. -/
def StepsToPage : Navigation → Prop
  | .back services =>
    s.historyIndex ≤ 0 ∨ LeadsToPage r services s (entry s (s.historyIndex - 1)) true
  | .forward services =>
    (s.history.length : Int) ≤ s.historyIndex + 1 ∨
      LeadsToPage r services s (entry s (s.historyIndex + 1)) true
  | _ => True

/-- An operation that fails leaves everything as it was. -/
def KeptOnFailure (navigation : Navigation) : Prop :=
  ∀ e s', navigation.act r s = (.error e, s') → SamePlace s s'

/-- What every session keeps to, but for failures. -/
structure NavigationLaws : Prop where
  sound : HistorySound s
  restored : ∀ page saved savedIndex s',
    restorePage r page saved savedIndex s = (.ok (), s') →
      WindowOf saved savedIndex s'.history s'.historyIndex
  returned : ∀ services services' page page' s₁ s₂,
    back r services s = (.ok (some page), s₁) →
      forward r services' s₁ = (.ok (some page'), s₂) →
      s₂.historyIndex = s.historyIndex

end

variable {r} {s s' : BrowserSession φ}

theorem refl_place (s : BrowserSession φ) : SamePlace s s := ⟨rfl, rfl, rfl⟩

/-- The state behind an action whose result is dropped. -/
theorem dropped {α : Type} {x : Act (BrowserSession φ) BrowserError α}
    {result : Except BrowserError Unit}
    (h : (x >>= fun _ => pure ()) s = (result, s')) :
    ∃ result', x s = (result', s') ∧ (∀ e, result = .error e → result' = .error e) := by
  rcases hx : x s with ⟨result', s₁⟩
  cases result' with
  | error e =>
    rw [Act.bind_error hx] at h
    cases h
    exact ⟨_, rfl, fun e' heq => by cases heq; rfl⟩
  | ok a =>
    rw [Act.bind_ok hx] at h
    cases h
    exact ⟨_, rfl, fun e' heq => nomatch heq⟩

theorem back_of_le (h : s.historyIndex ≤ 0) :
    back r services s = (.ok none, s) := if_pos h

theorem forward_of_le (h : (s.history.length : Int) ≤ s.historyIndex + 1) :
    forward r services s = (.ok none, s) := if_pos h

/-- The session with its pointer moved. -/
def movedTo (s : BrowserSession φ) (index : Int) : BrowserSession φ := { s with historyIndex := index }

theorem back_of_lt (h : 0 < s.historyIndex) :
    back r services s =
      (openUrl r services (entry s (s.historyIndex - 1)) none false true >>=
        fun page => pure (some page)) (movedTo s (s.historyIndex - 1)) := if_neg (not_le.mpr h)

theorem forward_of_lt (h : s.historyIndex + 1 < (s.history.length : Int)) :
    forward r services s =
      (openUrl r services (entry s (s.historyIndex + 1)) none false true >>=
        fun page => pure (some page)) (movedTo s (s.historyIndex + 1)) := if_neg (not_le.mpr h)

/-- What is opened from a place does not depend on the pointer. -/
theorem leadsToPage_movedTo {services : Services} {url : Chars} {useCache : Bool} {index : Int} :
    LeadsToPage r services (movedTo s index) url useCache ↔ LeadsToPage r services s url useCache :=
  Iff.rfl

/-- Opening an entry leaves the history and the pointer where it has been moved to. -/
theorem openEntry_place {index : Int}
    (h : (openUrl r services url none false true >>=
      fun page => pure (some page)) (movedTo s index) = (result, s')) :
    s'.history = s.history ∧ s'.historyIndex = index := by
  rcases hopen : openUrl r services url none false true (movedTo s index) with
    ⟨result', s₁⟩
  have hplace := openUrl_place hopen
  cases result' with
  | error e =>
    rw [Act.bind_error hopen] at h
    cases h
    exact hplace
  | ok page =>
    rw [Act.bind_ok hopen] at h
    cases h
    exact hplace

theorem back_place (h : back r services s = (result, s')) :
    s'.history = s.history ∧
      s'.historyIndex = if s.historyIndex ≤ 0 then s.historyIndex else s.historyIndex - 1 := by
  by_cases hfirst : s.historyIndex ≤ 0
  · rw [back_of_le hfirst] at h
    cases h
    rw [if_pos hfirst]
    exact ⟨rfl, rfl⟩
  · rw [back_of_lt (not_le.mp hfirst)] at h
    rw [if_neg hfirst]
    exact openEntry_place h

theorem forward_place (h : forward r services s = (result, s')) :
    s'.history = s.history ∧
      s'.historyIndex = if (s.history.length : Int) ≤ s.historyIndex + 1 then s.historyIndex
        else s.historyIndex + 1 := by
  by_cases hlast : (s.history.length : Int) ≤ s.historyIndex + 1
  · rw [forward_of_le hlast] at h
    cases h
    rw [if_pos hlast]
    exact ⟨rfl, rfl⟩
  · rw [forward_of_lt (not_le.mp hlast)] at h
    rw [if_neg hlast]
    exact openEntry_place h

/-- A reload fails before it shows anything, or opens the entry. -/
theorem reload_cases (r : Rendering φ) (services : Services) (s : BrowserSession φ) :
    (∃ result, reload r services s = (result, s)) ∨
      reload r services s =
        (openUrl r services (entry s s.historyIndex) none false false >>=
          fun page => pure (some page)) s := by
  unfold reload
  by_cases hempty : s.historyIndex < 0
  · exact .inl ⟨_, if_pos hempty⟩
  · rw [if_neg hempty]
    dsimp only
    cases s.hasCache with
    | false => exact .inr rfl
    | true =>
      cases hdelete : services.delete (cacheKey r
          (s.history.getD s.historyIndex.toNat []) none) with
      | error e =>
        left
        refine ⟨.error e, ?_⟩
        rw [if_pos rfl]
        exact Act.bind_error rfl
      | ok _ =>
        right
        rw [if_pos rfl]
        exact Act.lift_bind _ _ _

theorem restorePage_cases (r : Rendering φ) (page : BrowserPage) (saved : List Chars)
    (savedIndex : Int) (s : BrowserSession φ) :
    (∃ e, restorePage r page saved savedIndex s = (.error e, s)) ∨
      ∃ history historyIndex s', admitRestoredNavigationHistory saved savedIndex =
          .ok (history, historyIndex) ∧
        restorePage r page saved savedIndex s = (.ok (), s') ∧
        s'.history = history ∧ s'.historyIndex = historyIndex := by
  unfold restorePage
  cases hadmitted : admitRestoredNavigationHistory saved savedIndex with
  | error e => exact .inl ⟨e, Act.bind_error rfl⟩
  | ok window =>
    rw [Act.lift_bind]
    rcases updatePageState_cases r page s with ⟨e, -, hrun⟩ | ⟨page', s₁, -, hrun, -⟩
    · rw [Act.bind_error hrun]
      exact .inl ⟨e, rfl⟩
    · rw [Act.bind_ok hrun]
      exact .inr ⟨window.1, window.2, _, rfl, rfl, rfl, rfl⟩

/-- One operation keeps the invariant, however it ends. -/
theorem Navigation.sound (h : HistorySound s) (navigation : Navigation) :
    HistorySound (navigation.act r s).2 := by
  rcases hrun : navigation.act r s with ⟨result, s'⟩
  dsimp only
  cases navigation with
  | openUrl services url requestData addHistory useCache =>
    obtain ⟨result', hopen, -⟩ := dropped hrun
    rcases openUrl_cases r services url requestData addHistory useCache s with
      ⟨e, hfailed⟩ | ⟨page, s₁, -, hset, hopened⟩
    · cases hfailed.symm.trans hopen
      exact h
    · cases hopened.symm.trans hopen
      exact setPageAndHistory_sound h hset
  | back services =>
    obtain ⟨result', hback, -⟩ := dropped hrun
    obtain ⟨hhistory, hindex⟩ := back_place hback
    split at hindex
    · exact h.of_eq hhistory hindex
    · next hmoved =>
      -- whoever goes back has an entry, so the index has a range to stay in
      have hne : s.history ≠ [] := fun hnil => hmoved (by rw [h.pointer.mpr hnil]; decide)
      have hrange := h.index hne
      refine .of_index ?_ ?_ (hhistory ▸ h.items) (hhistory ▸ h.bytes)
      · omega
      · rw [hhistory]
        omega
  | forward services =>
    obtain ⟨result', hforward, -⟩ := dropped hrun
    obtain ⟨hhistory, hindex⟩ := forward_place hforward
    split at hindex
    · exact h.of_eq hhistory hindex
    · next hmoved =>
      have hne : s.history ≠ [] := by
        intro hnil
        rw [h.pointer.mpr hnil, hnil] at hmoved
        exact hmoved (by decide)
      have hrange := h.index hne
      refine .of_index ?_ ?_ (hhistory ▸ h.items) (hhistory ▸ h.bytes)
      · omega
      · rw [hhistory]
        omega
  -- a page that is loaded anew is not pushed, the history stays
  | reload services =>
    obtain ⟨result', hreload, -⟩ := dropped hrun
    rcases reload_cases r services s with ⟨early, hearly⟩ | hopens
    · cases hearly.symm.trans hreload
      exact h
    · rw [hopens] at hreload
      rcases hopen : BrowserSession.openUrl r services (entry s s.historyIndex) none false false s with
        ⟨opened, s₁⟩
      obtain ⟨hhistory, hindex⟩ := openUrl_place hopen
      cases opened with
      | error e =>
        rw [Act.bind_error hopen] at hreload
        cases hreload
        exact h.of_eq hhistory hindex
      | ok page =>
        rw [Act.bind_ok hopen] at hreload
        cases hreload
        exact h.of_eq hhistory hindex
  | tryApplyPage page addHistory => exact setPageAndHistory_sound h hrun
  | restorePage page saved savedIndex =>
    rcases restorePage_cases r page saved savedIndex s with
      ⟨e, hfailed⟩ | ⟨history, historyIndex, s₁, hadmitted, hrestored, hhistory, hindex⟩
    · cases hfailed.symm.trans hrun
      exact h
    · cases hrestored.symm.trans hrun
      obtain ⟨hwindow, hitems, hbytes⟩ := admitRestored_ok hadmitted
      rw [← hhistory] at hitems hbytes
      -- what is restored is a window of what was saved, maybe an empty one
      rcases hwindow.index with ⟨hnil, hnone⟩ | ⟨hlow, hhigh⟩
      · refine ⟨iff_of_true (hindex.trans hnone) (hhistory.trans hnil), fun hne => ?_, hitems, hbytes⟩
        exact absurd (hhistory.trans hnil) hne
      · refine .of_index ?_ ?_ hitems hbytes
        · rw [hindex]
          exact hlow
        · rw [hindex, hhistory]
          exact hhigh

theorem navigate_sound (h : HistorySound s) (navigations : List Navigation) :
    HistorySound (navigate r s navigations) := by
  induction navigations generalizing s with
  | nil => exact h
  | cons navigation rest ih => exact ih (navigation.sound h)

theorem started_sound (h : Started r s) : HistorySound s := by
  obtain ⟨startUrl, s₀, _, _, _, _, hnew, rfl⟩ := h
  unfold new at hnew
  dsimp only at hnew
  split at hnew
  · cases hnew
  · next result s₁ hrun =>
    cases hnew
    rcases updatePageState_cases r (.mockHome startUrl) _ with
      ⟨e, -, hfailed⟩ | ⟨page', s₂, -, hshown, hhistory, hindex⟩
    · cases hfailed.symm.trans hrun
    · cases hshown.symm.trans hrun
      constructor
      · exact iff_of_true hindex hhistory
      · exact fun hne => absurd hhistory hne
      · exact (congrArg length hhistory).le.trans (Nat.zero_le _)
      · exact (congrArg navigationHistoryOwnedBytes hhistory).le.trans (Nat.zero_le _)

end Runs

/-! Failures. -/

section Failures
variable {φ : Type} {r : Rendering φ} {s s' : BrowserSession φ}

/-- A step to an entry fails if and only if the entry leads to no page. -/
theorem openEntry_error_iff {index : Int} :
    (∃ e s', (openUrl r services url none false true >>=
      fun page => pure (some page)) (movedTo s index) = (.error e, s')) ↔
      ¬LeadsToPage r services s url true := by
  rw [← @leadsToPage_movedTo _ _ _ _ _ _ index, ← openUrl_ok_iff]
  rcases hopen : openUrl r services url none false true (movedTo s index) with
    ⟨result, s₁⟩
  cases result with
  | error e =>
    rw [Act.bind_error hopen]
    refine iff_of_true ⟨e, s₁, rfl⟩ ?_
    rintro ⟨page, s₂, h⟩
    cases h
  | ok page =>
    rw [Act.bind_ok hopen]
    refine iff_of_false ?_ (not_not.mpr ⟨page, s₁, rfl⟩)
    rintro ⟨e, s₂, h⟩
    cases h

/-- A step to another entry leaves everything when it fails only if it does not fail. -/
theorem keptOnFailure_moved {x : Act (BrowserSession φ) BrowserError (Option BrowserPage)}
    {services : Services} {url : Chars} {index : Int} (hmoved : index ≠ s.historyIndex)
    (hx : x s = (openUrl r services url none false true >>=
      fun page => pure (some page)) (movedTo s index)) :
    (∀ e s', (x >>= fun _ => pure ()) s = (.error e, s') → SamePlace s s') ↔
      LeadsToPage r services s url true := by
  constructor
  · intro hkept
    by_contra hleads
    obtain ⟨e, s', hfailed⟩ := openEntry_error_iff.mpr hleads
    have hplace := hkept e s' (Act.bind_error (hx.trans hfailed))
    exact hmoved ((openEntry_place hfailed).2.symm.trans hplace.index)
  · intro hleads e s' hfailed
    obtain ⟨result, hrun, herror⟩ := dropped hfailed
    rw [hx, herror e rfl] at hrun
    exact absurd hleads (openEntry_error_iff.mp ⟨e, s', hrun⟩)

/-- What ends well keeps everything when it fails. -/
theorem keptOnFailure_ok {x : Act (BrowserSession φ) BrowserError (Option BrowserPage)}
    {page : Option BrowserPage} (hx : x s = (.ok page, s)) :
    ∀ e s', (x >>= fun _ => pure ()) s = (.error e, s') → SamePlace s s' := by
  intro e s' hfailed
  rw [Act.bind_ok hx] at hfailed
  cases hfailed

/-- A failed operation leaves history, pointer and page if and only if it is no step back or
forward to an entry that leads to no page. -/
theorem keptOnFailure_iff (s : BrowserSession φ) (navigation : Navigation) :
    KeptOnFailure r s navigation ↔ StepsToPage r s navigation := by
  cases navigation with
  | openUrl services url requestData addHistory useCache =>
    refine iff_of_true (fun e s' hfailed => ?_) trivial
    obtain ⟨result, hrun, herror⟩ := dropped hfailed
    rcases openUrl_cases r services url requestData addHistory useCache s with
      ⟨e', hopen⟩ | ⟨page, s₁, -, -, hopen⟩
    · cases hopen.symm.trans hrun
      exact refl_place s
    · rw [herror e rfl] at hrun
      cases hopen.symm.trans hrun
  -- the index moves before the entry is opened, and does not move back
  | back services =>
    show (∀ e s', _ → _) ↔ _ ∨ _
    by_cases hfirst : s.historyIndex ≤ 0
    · exact iff_of_true (keptOnFailure_ok (back_of_le hfirst)) (.inl hfirst)
    · rw [or_iff_right hfirst]
      exact keptOnFailure_moved (by omega) (back_of_lt (not_le.mp hfirst))
  | forward services =>
    show (∀ e s', _ → _) ↔ _ ∨ _
    by_cases hlast : (s.history.length : Int) ≤ s.historyIndex + 1
    · exact iff_of_true (keptOnFailure_ok (forward_of_le hlast)) (.inl hlast)
    · rw [or_iff_right hlast]
      exact keptOnFailure_moved (by omega) (forward_of_lt (not_le.mp hlast))
  -- the others change nothing before the page is there
  | reload services =>
    refine iff_of_true (fun e s' hfailed => ?_) trivial
    obtain ⟨result, hrun, herror⟩ := dropped hfailed
    rcases reload_cases r services s with ⟨early, hearly⟩ | hopens
    · cases hearly.symm.trans hrun
      exact refl_place s
    · rw [hopens, herror e rfl] at hrun
      rcases openUrl_cases r services (entry s s.historyIndex) none false false s with
        ⟨e', hopen⟩ | ⟨page, s₁, -, -, hopen⟩
      · rw [Act.bind_error hopen] at hrun
        cases hrun
        exact refl_place s
      · rw [Act.bind_ok hopen] at hrun
        cases hrun
  | tryApplyPage page addHistory =>
    refine iff_of_true (fun e s' hfailed => ?_) trivial
    rcases setPageAndHistory_cases r page addHistory s with ⟨e', -, hset⟩ | ⟨_, _, s₁, -, hset, -⟩
    · cases hset.symm.trans hfailed
      exact refl_place s
    · cases hset.symm.trans hfailed
  | restorePage page saved savedIndex =>
    refine iff_of_true (fun e s' hfailed => ?_) trivial
    rcases restorePage_cases r page saved savedIndex s with ⟨e', hset⟩ | ⟨_, _, s₁, -, hset, -⟩
    · cases hset.symm.trans hfailed
      exact refl_place s
    · cases hset.symm.trans hfailed

theorem restorePage_window {page : BrowserPage}
    (h : restorePage r page saved savedIndex s = (.ok (), s')) :
    WindowOf saved savedIndex s'.history s'.historyIndex := by
  rcases restorePage_cases r page saved savedIndex s with
    ⟨e, hfailed⟩ | ⟨history, historyIndex, s₁, hadmitted, hrestored, rfl, rfl⟩
  · cases hfailed.symm.trans h
  · cases hrestored.symm.trans h
    exact (admitRestored_ok hadmitted).1

/-- Forward from where a step back has led is where it was. -/
theorem forward_back {services' : Services} {page : BrowserPage} {s₁ s₂ : BrowserSession φ}
    (hback : back r services s = (.ok (some page), s₁))
    (hforward : forward r services' s₁ = (.ok (some page'), s₂)) :
    s₂.historyIndex = s.historyIndex := by
  obtain ⟨-, hindex⟩ := back_place hback
  obtain ⟨-, hindex'⟩ := forward_place hforward
  by_cases hfirst : s.historyIndex ≤ 0
  · rw [back_of_le hfirst] at hback
    cases hback
  · rw [if_neg hfirst] at hindex
    by_cases hlast : (s₁.history.length : Int) ≤ s₁.historyIndex + 1
    · rw [forward_of_le hlast] at hforward
      cases hforward
    · rw [if_neg hlast] at hindex'
      omega

theorem navigationLaws_of_sound (h : HistorySound s) : NavigationLaws r s :=
  ⟨h, fun _ _ _ _ => restorePage_window, fun _ _ _ _ _ _ => forward_back⟩

/-- In every state of every run the history is sound, and a failed operation leaves it alone if and
only if it is no step to an entry that leads to no page. -/
theorem navigation_laws (r : Rendering φ) (h : Started r s) (navigations : List Navigation) :
    NavigationLaws r (navigate r s navigations) ∧
      ∀ navigation, KeptOnFailure r (navigate r s navigations) navigation ↔
        StepsToPage r (navigate r s navigations) navigation :=
  ⟨navigationLaws_of_sound (navigate_sound (started_sound h) navigations),
    fun navigation => keptOnFailure_iff _ navigation⟩

end Failures

/-! A page whose address leads nowhere by the time it is gone back to. -/

/-- No MicronPlus and no chat blocks. -/
def plainRendering : Rendering Nat where
  parseRefresh _ := none
  lineHash := id
  hasMicronplusMarkup _ := false
  micronplusLayout _ := .ok none
  micronplusTree _ := .ok none
  lowerMicronplusMarkup markup := (markup, [])
  diagnosticsValue _ := .null
  lowerOmenchatBlocks := id
  requestText _ := []

/-- No page is reachable. -/
def silentServices : Services where
  load _ := .ok none
  fetch _ _ := .error (.service "no path")
  store _ _ _ _ _ := .ok ()
  delete _ := .ok ()

def plainTextPage (url : String) : BrowserPage where
  url := url.toList
  markup := "text".toList
  title := []
  source := .network
  metadata := ∅
  requestData := none

/-- Two pages, one after the other. -/
def visits : List Navigation :=
  [.tryApplyPage (plainTextPage "node:/a") true, .tryApplyPage (plainTextPage "node:/b") true]

def startedSession : Option (BrowserSession Nat) :=
  (withRuntime plainRendering "node:/".toList).toOption

theorem exists_startedSession : ∃ s, startedSession = some s :=
  Option.isSome_iff_exists.mp (by decide +kernel)

theorem started_withRuntime {φ : Type} {r : Rendering φ} {startUrl : Chars} {s : BrowserSession φ}
    (h : withRuntime r startUrl = .ok s) : Started r s := by
  obtain ⟨s₀, hnew, h⟩ := bind_ok.mp h
  cases h
  exact ⟨startUrl, s₀, s₀.micronplusEnabled, s₀.trustedMicronplusNodes, true, true, hnew, rfl⟩

theorem navigation_laws_visits : ∃ s, Started plainRendering s ∧
    NavigationLaws plainRendering (navigate plainRendering s visits) ∧
      ∀ navigation, KeptOnFailure plainRendering (navigate plainRendering s visits) navigation ↔
        StepsToPage plainRendering (navigate plainRendering s visits) navigation := by
  obtain ⟨s, hs⟩ := exists_startedSession
  have hstarted : Started plainRendering s := started_withRuntime (toOption_eq_some.mp hs)
  exact ⟨s, hstarted, navigation_laws plainRendering hstarted visits⟩

/-- A step back that fails has moved the pointer. -/
theorem failed_back_moves : ∃ s, Started plainRendering s ∧
    ¬KeptOnFailure plainRendering (navigate plainRendering s visits) (.back silentServices) := by
  obtain ⟨s, hs⟩ := exists_startedSession
  have hstarted : Started plainRendering s := started_withRuntime (toOption_eq_some.mp hs)
  refine ⟨s, hstarted, fun hkept => ?_⟩
  have hindices : (startedSession.map fun s =>
      let s := navigate plainRendering s visits
      let after := (Navigation.back silentServices).act plainRendering s
      (s.historyIndex, after.2.historyIndex, after.1.toOption.isNone)) = some (1, 0, true) := by
    decide +kernel
  rw [hs, Option.map_some] at hindices
  obtain ⟨hbefore, hafter⟩ := Prod.mk.inj (Option.some.inj hindices)
  obtain ⟨hafter, hfailed⟩ := Prod.mk.inj hafter
  rcases hrun : (Navigation.back silentServices).act plainRendering
    (navigate plainRendering s visits) with ⟨result, s'⟩
  rw [hrun] at hafter hfailed
  cases result with
  | ok _ => cases hfailed
  | error e =>
    have hsame := (hkept e s' hrun).index
    rw [hbefore] at hsame
    rw [hsame] at hafter
    cases hafter

end Omen.Browser
