import Mathlib.Algebra.Order.BigOperators.Group.List
import OmenBrowser.Browser.Navigation
import OmenBrowser.Micron.Controls

/- The values of a page's controls, on navigation and on a refresh of partials.

   Both rebuild the values from the controls of the new document by the same loop, each control of
   which sets its name or not (`settingOf`). Where the settings fit, a name has the value of the last
   one that sets it (`refreshed_getElem?`): so a text field hands the old value of its name on,
   whatever page it comes from, and a checkbox or a radio button hands on what the markup says. -/
namespace Omen.Browser
open Text Micron Outcome List BrowserSession Option Std.ExtTreeMap

variable {markup : Chars} {c : FieldControl} {p : Chars × Chars} {page' : BrowserPage}

/-! Values that fit. -/

def fieldBytes (fields : TextMap Chars) : Nat :=
  (fields.toList.map fun p => utf8Len p.1 + utf8Len p.2).sum

section Maps
variable {fields : TextMap Chars} {name value : Chars}

theorem otherFieldBytes_le (fields : TextMap Chars) (name : Chars) :
    otherFieldBytes fields name ≤ fieldBytes fields := by
  refine sum_le_sum fun p _ => ?_
  dsimp only
  split
  · exact Nat.zero_le _
  · exact Nat.le_refl _

theorem fieldBytes_insert_le (fields : TextMap Chars) (name value : Chars) :
    fieldBytes (fields.insert name value) ≤ fieldBytes fields + (utf8Len name + utf8Len value) := by
  have hnodup : (fields.insert name value).toList.Nodup :=
    (distinct_keys_toList (t := fields.insert name value)).imp fun {a b} hne heq =>
      hne (by rw [heq]; exact Std.ReflCmp.compare_self)
  have hsubset : (fields.insert name value).toList ⊆ (name, value) :: fields.toList := by
    rintro ⟨n, x⟩ hmem
    have hget := mem_toList_iff_getElem?_eq_some.mp hmem
    rw [Std.ExtTreeMap.getElem?_insert] at hget
    split at hget
    · next heq =>
      rw [Std.LawfulEqCmp.eq_of_compare heq, some.inj hget]
      exact mem_cons_self
    · exact mem_cons_of_mem _ (mem_toList_iff_getElem?_eq_some.mpr hget)
  obtain ⟨rest, hperm, hsublist⟩ := List.Nodup.subperm hnodup hsubset
  have hsum := (hsublist.map fun p => utf8Len p.1 + utf8Len p.2).sum_le_sum fun _ _ => Nat.zero_le _
  rw [(hperm.map _).sum_eq, map_cons, sum_cons, Nat.add_comm] at hsum
  exact hsum

end Maps

/-! Settings. -/

def setFields (fields : TextMap Chars) (settings : List (Chars × Chars)) : TextMap Chars :=
  settings.foldl (fun fields p => (insertBoundedFieldValue fields p.1 p.2).1) fields

/-- What the last setting of a name sets it to. -/
def lastSetting (settings : List (Chars × Chars)) (name : Chars) : Option Chars :=
  (settings.reverse.find? (·.1 = name)).map Prod.snd

/-- A name and a value that a control may have. -/
structure SettingFits (p : Chars × Chars) : Prop where
  name : p.1 ≠ []
  nameBytes : utf8Len p.1 ≤ micronControlNameMaxBytes
  valueBytes : utf8Len p.2 ≤ micronControlValueMaxBytes

def settingBytes (p : Chars × Chars) : Nat := utf8Len p.1 + utf8Len p.2

/-- Settings none of which is refused, in whatever map they are made one after the other. -/
structure SettingsFit (settings : List (Chars × Chars)) : Prop where
  each : ∀ p ∈ settings, SettingFits p
  items : settings.length ≤ micronControlMaxItems
  bytes : (settings.map settingBytes).sum ≤ micronControlMaxOwnedBytes

section Settings
variable {fields : TextMap Chars} {settings : List (Chars × Chars)} {p : Chars × Chars}

theorem insertBounded_of_room (hp : SettingFits p) (hitems : fields.size < micronControlMaxItems)
    (hbytes : fieldBytes fields + settingBytes p ≤ micronControlMaxOwnedBytes) :
    (insertBoundedFieldValue fields p.1 p.2).1 = fields.insert p.1 p.2 := by
  have hother := otherFieldBytes_le fields p.1
  have hadmitted : boundedFieldValueIsAdmitted fields p.1 p.2 = true := by
    unfold boundedFieldValueIsAdmitted
    rw [if_neg, decide_eq_true_iff]
    · unfold settingBytes at hbytes
      omega
    · rintro (hname | hname | hvalue | ⟨-, hfull⟩)
      · exact hp.name hname
      · exact absurd hp.nameBytes (Nat.not_le.mpr hname)
      · exact absurd hp.valueBytes (Nat.not_le.mpr hvalue)
      · exact absurd hitems (Nat.not_lt.mpr hfull)
  unfold insertBoundedFieldValue
  rw [if_pos hadmitted]

theorem lastSetting_concat (settings : List (Chars × Chars)) (p : Chars × Chars) (name : Chars) :
    lastSetting (settings ++ [p]) name = if p.1 = name then some p.2 else lastSetting settings name := by
  unfold lastSetting
  rw [reverse_append, reverse_singleton, singleton_append, find?_cons]
  by_cases hname : p.1 = name
  · rw [decide_eq_true hname, if_pos hname]
    rfl
  · rw [decide_eq_false hname, if_neg hname]

/-- Each name has the value that it is set to last, and there is no more than what is set. -/
theorem setFields_spec (h : SettingsFit settings) :
    (∀ name : Chars, (setFields ∅ settings)[name]? = lastSetting settings name) ∧
      (setFields ∅ settings).size ≤ settings.length ∧
      fieldBytes (setFields ∅ settings) ≤ (settings.map settingBytes).sum := by
  induction settings using reverseRecOn with
  | nil => exact ⟨fun _ => rfl, Nat.le_refl _, Nat.le_refl _⟩
  | append_singleton settings p ih =>
    have hitems := h.items
    have hbytes := h.bytes
    rw [length_append, length_singleton] at hitems
    rw [map_append, map_singleton, sum_append, sum_singleton] at hbytes
    obtain ⟨hvalues, hsize, hheld⟩ := ih ⟨fun q hq => h.each q (mem_append_left _ hq),
      by omega, by omega⟩
    have hp : SettingFits p := h.each p (mem_append_right _ mem_cons_self)
    have hstep : setFields ∅ (settings ++ [p]) = (setFields ∅ settings).insert p.1 p.2 := by
      unfold setFields at hsize hheld ⊢
      rw [foldl_append, foldl_cons, foldl_nil]
      exact insertBounded_of_room hp (by omega) (by omega)
    rw [hstep]
    refine ⟨fun name => ?_, ?_, ?_⟩
    · rw [Std.ExtTreeMap.getElem?_insert, lastSetting_concat, hvalues]
      by_cases hname : p.1 = name
      · rw [if_pos hname, if_pos (by rw [hname]; exact Std.ReflCmp.compare_self)]
      · rw [if_neg hname, if_neg fun heq => hname (Std.LawfulEqCmp.eq_of_compare heq)]
    · rw [length_append, length_singleton]
      have hinsert := size_insert_le (t := setFields ∅ settings) (k := p.1) (v := p.2)
      omega
    · rw [map_append, map_singleton, sum_append, sum_singleton]
      have hinsert := fieldBytes_insert_le (setFields ∅ settings) p.1 p.2
      unfold settingBytes at hheld ⊢
      omega

end Settings

/-! Controls. -/

/-- What a control sets, with the values there were before. -/
def settingOf (existing : TextMap Chars) (control : FieldControl) : Option (Chars × Chars) :=
  if control.kind = fieldKind then
    some (control.name, existing[control.name]?.getD control.value)
  else if isCheckable control ∧ control.prechecked then some (control.name, control.value)
  else none

/-- The settings of the controls, in the order of the page. -/
def settings (existing : TextMap Chars) (cs : List FieldControl) : List (Chars × Chars) :=
  cs.filterMap (settingOf existing)

/-- The values that the loop makes of the controls of a document. -/
def refreshed (existing : TextMap Chars) (document : Document) : TextMap Chars :=
  (documentControls document).foldl (refreshControl existing) ∅

section Controls
variable {existing : TextMap Chars} {document : Document} {cs : List FieldControl}

theorem refreshControl_eq (existing fields : TextMap Chars) (control : FieldControl) :
    refreshControl existing fields control =
      setFields fields (settingOf existing control).toList := by
  unfold refreshControl settingOf
  split
  · rfl
  · split <;> rfl

theorem refreshed_eq (existing : TextMap Chars) (document : Document) :
    refreshed existing document = setFields ∅ (settings existing (documentControls document)) := by
  unfold refreshed settings
  generalize (∅ : TextMap Chars) = fields
  induction documentControls document generalizing fields with
  | nil => rfl
  | cons control rest ih =>
    rw [foldl_cons, ih, refreshControl_eq]
    cases hsetting : settingOf existing control with
    | none => rw [filterMap_cons_none hsetting]; rfl
    | some p => rw [filterMap_cons_some hsetting]; rfl

theorem refreshed_getElem? (h : SettingsFit (settings existing (documentControls document)))
    (name : Chars) :
    (refreshed existing document)[name]? =
      lastSetting (settings existing (documentControls document)) name := by
  rw [refreshed_eq]
  exact (setFields_spec h).1 name

theorem documentControls_eq (document : Document) :
    documentControls document = controls (allFragments document.rows) := by
  unfold documentControls controls allFragments
  rw [filterMap_flatMap]

theorem parsed_control (h : parseMicron markup = some document) (hc : c ∈ documentControls document)
    : ParsedControl c := by
  rw [documentControls_eq] at hc
  exact parseMicron_controls h c hc

theorem documentControls_fit (h : parseMicron markup = some document) :
    (documentControls document).length ≤ micronControlMaxItems ∧
      ((documentControls document).map FieldControl.ownedBytes).sum ≤ micronControlMaxOwnedBytes := by
  obtain ⟨document', hparse, hwithin, -⟩ := parseMicron_withinLimits markup
  cases h.symm.trans hparse
  rw [documentControls_eq]
  exact ⟨hwithin.controls, hwithin.controlBytes⟩

theorem mem_settings (hp : p ∈ settings existing cs) :
    ∃ c ∈ cs, settingOf existing c = some p := mem_filterMap.mp hp

/-- The bytes of all settings, each within those of its control. -/
theorem settings_bytes_le {weight : FieldControl → Nat}
    (h : ∀ c ∈ cs, ∀ p, settingOf existing c = some p → settingBytes p ≤ weight c) :
    ((settings existing cs).map settingBytes).sum ≤ (cs.map weight).sum := by
  induction cs with
  | nil => exact Nat.le_refl _
  | cons c rest ih =>
    have hrest := ih fun d hd => h d (mem_cons_of_mem c hd)
    unfold settings at hrest ⊢
    rw [map_cons, sum_cons]
    cases hsetting : settingOf existing c with
    | none =>
      rw [filterMap_cons_none hsetting]
      exact hrest.trans (Nat.le_add_left _ _)
    | some p =>
      rw [filterMap_cons_some hsetting, map_cons, sum_cons]
      exact Nat.add_le_add (h c mem_cons_self p hsetting) hrest

/-- The values of a session: each is one that a control may have. -/
def ValuesFit (fields : TextMap Chars) : Prop :=
  ∀ name value : Chars, fields[name]? = some value → utf8Len value ≤ micronControlValueMaxBytes

/-- A value is inserted only if it is one that a control may have. -/
theorem insertBoundedFieldValue_fit {fields : TextMap Chars} (h : ValuesFit fields)
    (name value : Chars) : ValuesFit (insertBoundedFieldValue fields name value).1 := by
  unfold insertBoundedFieldValue
  by_cases hadmitted : boundedFieldValueIsAdmitted fields name value = true
  · rw [if_pos hadmitted]
    have hbytes : utf8Len value ≤ micronControlValueMaxBytes := by
      unfold boundedFieldValueIsAdmitted at hadmitted
      split at hadmitted
      · cases hadmitted
      · next hnone =>
        push Not at hnone
        exact hnone.2.2.1
    intro n x hx
    rw [Std.ExtTreeMap.getElem?_insert] at hx
    split at hx
    · exact some.inj hx ▸ hbytes
    · exact h n x hx
  · rw [if_neg hadmitted]
    exact h

theorem refreshControl_fit (existing : TextMap Chars) {fields : TextMap Chars} (h : ValuesFit fields)
    (control : FieldControl) : ValuesFit (refreshControl existing fields control) := by
  unfold refreshControl
  split
  · exact insertBoundedFieldValue_fit h _ _
  · split
    · exact insertBoundedFieldValue_fit h _ _
    · exact h

theorem valuesFit_empty : ValuesFit ∅ := by
  intro name value hvalue
  rw [getElem?_empty] at hvalue
  cases hvalue

theorem refreshed_fit (existing : TextMap Chars) (document : Document) :
    ValuesFit (refreshed existing document) :=
  foldlRecOn _ _ valuesFit_empty fun _ h control _ => refreshControl_fit existing h control

theorem settingFits_of_parsed (hc : ParsedControl c) (hvalues : ValuesFit existing)
    (hp : settingOf existing c = some p) : SettingFits p := by
  unfold settingOf at hp
  split at hp
  · cases hp
    refine ⟨hc.name, hc.nameBytes, ?_⟩
    cases hvalue : existing[c.name]? with
    | none => exact hc.valueBytes
    | some value => exact hvalues c.name value hvalue
  · split at hp
    · cases hp
      exact ⟨hc.name, hc.nameBytes, hc.valueBytes⟩
    · cases hp

theorem settingsFit_of_bytes (h : parseMicron markup = some document) (hvalues : ValuesFit existing)
    (hbytes : ((settings existing (documentControls document)).map settingBytes).sum ≤
      micronControlMaxOwnedBytes) :
    SettingsFit (settings existing (documentControls document)) := by
  refine ⟨fun p hp => ?_, ?_, hbytes⟩
  · obtain ⟨c, hc, hsetting⟩ := mem_settings hp
    exact settingFits_of_parsed (parsed_control h hc) hvalues hsetting
  · exact (length_filterMap_le _ _).trans (documentControls_fit h).1

end Controls

/-! The control that decides on a name. -/

/-- A control that sets a name. -/
def setsName (name : Chars) (c : FieldControl) : Bool :=
  decide (c.name = name) && (decide (c.kind = fieldKind) || isCheckable c && c.prechecked)

/-- The last control that sets a name. -/
def lastSetter (cs : List FieldControl) (name : Chars) : Option FieldControl :=
  cs.reverse.find? (setsName name)

/-- What a control sets its name to. -/
def valueSet (existing : TextMap Chars) (c : FieldControl) : Chars :=
  if c.kind = fieldKind then existing[c.name]?.getD c.value else c.value

section Setters
variable {existing : TextMap Chars} {cs : List FieldControl} {name : Chars} {c : FieldControl}

theorem lastSetting_eq (existing : TextMap Chars) (cs : List FieldControl) (name : Chars) :
    lastSetting (settings existing cs) name = (lastSetter cs name).map (valueSet existing) := by
  induction cs using reverseRecOn with
  | nil => rfl
  | append_singleton cs c ih =>
    have hsettings : settings existing (cs ++ [c]) =
        settings existing cs ++ (settingOf existing c).toList := by
      unfold settings
      rw [filterMap_append]
      cases hsetting : settingOf existing c with
      | none => rw [filterMap_cons_none hsetting]; rfl
      | some p => rw [filterMap_cons_some hsetting]; rfl
    have hsetter : lastSetter (cs ++ [c]) name =
        if setsName name c then some c else lastSetter cs name := by
      unfold lastSetter
      rw [reverse_append, reverse_singleton, singleton_append, find?_cons]
      cases setsName name c <;> rfl
    rw [hsettings, hsetter]
    unfold settingOf setsName
    by_cases hkind : c.kind = fieldKind
    · rw [if_pos hkind, toList_some, lastSetting_concat, ih]
      by_cases hname : c.name = name
      · rw [if_pos hname, decide_eq_true hname, decide_eq_true hkind]
        simp [valueSet, hkind]
      · rw [if_neg hname, decide_eq_false hname, Bool.false_and, if_neg Bool.false_ne_true]
    · rw [if_neg hkind]
      by_cases hchosen : isCheckable c = true ∧ c.prechecked = true
      · rw [if_pos hchosen, toList_some, lastSetting_concat, ih]
        by_cases hname : c.name = name
        · rw [if_pos hname]
          simp [valueSet, hkind, hname, hchosen.1, hchosen.2]
        · rw [if_neg hname, decide_eq_false hname, Bool.false_and, if_neg Bool.false_ne_true]
      · have hunset : (isCheckable c && c.prechecked) = false := by
          rw [← Bool.not_eq_true, Bool.and_eq_true]
          exact hchosen
        rw [if_neg hchosen, toList_none, append_nil, ih, decide_eq_false hkind, hunset,
          Bool.or_false, Bool.and_false, if_neg Bool.false_ne_true]

theorem lastSetter_some (h : lastSetter cs name = some c) : c ∈ cs ∧ c.name = name := by
  have hmem := mem_reverse.mp (mem_of_find?_eq_some h)
  have hsets := find?_some h
  unfold setsName at hsets
  rw [Bool.and_eq_true, decide_eq_true_iff] at hsets
  exact ⟨hmem, hsets.1⟩

end Setters

/-- No text field decides on the value of its name: a checkbox or a radio button that the markup has
chosen comes behind it. -/
def Overruled (cs : List FieldControl) : Prop :=
  ∀ name c, lastSetter cs name = some c → c.kind ≠ fieldKind

/-- The most a control may set. -/
def widestBytes (c : FieldControl) : Nat :=
  utf8Len c.name + if c.kind = fieldKind then micronControlValueMaxBytes else utf8Len c.value

/-- Whatever the text fields are set to, no value is refused. -/
def Roomy (cs : List FieldControl) : Prop := (cs.map widestBytes).sum ≤ micronControlMaxOwnedBytes

section Documents
variable {existing : TextMap Chars} {document : Document} {markup : Chars}

theorem settingBytes_widest (hvalues : ValuesFit existing) (hc : ParsedControl c)
    (hp : settingOf existing c = some p) : settingBytes p ≤ widestBytes c := by
  have hfits := settingFits_of_parsed hc hvalues hp
  unfold settingOf at hp
  unfold settingBytes widestBytes
  split at hp
  · next hkind =>
    cases hp
    rw [if_pos hkind]
    exact Nat.add_le_add_left hfits.valueBytes _
  · next hkind =>
    split at hp
    · cases hp
      rw [if_neg hkind]
    · cases hp

variable (h : parseMicron markup = some document)
include h

theorem settingsFit_of_roomy (hvalues : ValuesFit existing)
    (hroomy : Roomy (documentControls document)) :
    SettingsFit (settings existing (documentControls document)) :=
  settingsFit_of_bytes h hvalues ((settings_bytes_le fun _ hc _ hp =>
    settingBytes_widest hvalues (parsed_control h hc) hp).trans hroomy)

/-- What is set in place of what there was: nothing, or a value of one byte at most. -/
theorem settingsFit_of_short
    (hshort : ∀ name value : Chars, existing[name]? = some value → utf8Len value ≤ 1) :
    SettingsFit (settings existing (documentControls document)) := by
  have hvalues : ValuesFit existing := fun name value hvalue =>
    (hshort name value hvalue).trans (by decide)
  refine settingsFit_of_bytes h hvalues ((settings_bytes_le fun c hc p hp => ?_).trans
    (documentControls_fit h).2)
  have hkinds : 1 ≤ utf8Len c.kind := by
    rcases (parsed_control h hc).kind with hkind | hkind | hkind <;> rw [hkind] <;> decide +kernel
  unfold settingOf at hp
  unfold settingBytes FieldControl.ownedBytes
  split at hp
  · cases hp
    dsimp only
    cases hvalue : existing[c.name]? with
    | none =>
      rw [getD_none]
      omega
    | some value =>
      have hone := hshort c.name value hvalue
      rw [getD_some]
      omega
  · split at hp
    · cases hp
      dsimp only
      omega
    · cases hp

/-- Where no text field decides, the values are the same whatever there was. -/
theorem refreshed_overruled {v₁ v₂ : TextMap Chars}
    (hroomy : Roomy (documentControls document)) (hoverruled : Overruled (documentControls document))
    (hv₁ : ValuesFit v₁) (hv₂ : ValuesFit v₂) : refreshed v₁ document = refreshed v₂ document := by
  refine ext_getElem? fun name => ?_
  rw [refreshed_getElem? (settingsFit_of_roomy h hv₁ hroomy),
    refreshed_getElem? (settingsFit_of_roomy h hv₂ hroomy), lastSetting_eq, lastSetting_eq]
  cases hsetter : lastSetter (documentControls document) name with
  | none => rfl
  | some c =>
    have hkind := hoverruled name c hsetter
    rw [map_some, map_some, valueSet, if_neg hkind, valueSet, if_neg hkind]

/-- A text field that decides takes over what there was. -/
theorem refreshed_differ
    (hdecides : ¬Overruled (documentControls document)) :
    ∃ v : TextMap Chars, ValuesFit v ∧ refreshed v document ≠ refreshed ∅ document := by
  unfold Overruled at hdecides
  push Not at hdecides
  obtain ⟨name, c, hsetter, hkind⟩ := hdecides
  obtain ⟨-, hname⟩ := lastSetter_some hsetter
  -- a value that differs from the field's own
  obtain ⟨value, hvalue, hother⟩ : ∃ value : Chars, utf8Len value ≤ 1 ∧ value ≠ c.value := by
    by_cases hempty : c.value = []
    · exact ⟨['x'], by decide, by rw [hempty]; exact cons_ne_nil _ _⟩
    · exact ⟨[], by decide, fun heq => hempty heq.symm⟩
  have hshort : ∀ n x : Chars, ((∅ : TextMap Chars).insert name value)[n]? = some x →
      utf8Len x ≤ 1 := by
    intro n x hx
    rw [Std.ExtTreeMap.getElem?_insert] at hx
    split at hx
    · rw [← some.inj hx]
      exact hvalue
    · rw [getElem?_empty] at hx
      cases hx
  have hnone : ∀ n x : Chars, (∅ : TextMap Chars)[n]? = some x → utf8Len x ≤ 1 := by
    intro n x hx
    rw [getElem?_empty] at hx
    cases hx
  refine ⟨(∅ : TextMap Chars).insert name value,
    fun n x hx => (hshort n x hx).trans (by decide), fun hsame => ?_⟩
  have hvalues := congrArg (fun fields : TextMap Chars => fields[name]?) hsame
  rw [refreshed_getElem? (settingsFit_of_short h hshort),
    refreshed_getElem? (settingsFit_of_short h hnone), lastSetting_eq, lastSetting_eq, hsetter,
    map_some, map_some, valueSet, if_pos hkind, valueSet, if_pos hkind, hname,
    getElem?_insert_self, getElem?_empty, getD_some,
    getD_none] at hvalues
  exact hother (some.inj hvalues)

end Documents

/-! Sessions. -/

section Sessions
variable {φ : Type} {r : Rendering φ} {s s' : BrowserSession φ} {page : BrowserPage}
  {document : Document}

/-- The session with other values. -/
def withFieldValues (s : BrowserSession φ) (fieldValues : TextMap Chars) : BrowserSession φ :=
  { s with fieldValues }

/-- A document that shows the values. -/
def filledIn (fieldValues : TextMap Chars) (document : Document) : Document :=
  mapControls (syncControl fieldValues) document

/-- A session that shows a document with the values of another one. -/
structure ShowsWith (fieldValues : TextMap Chars) (document : Document) (s : BrowserSession φ) :
    Prop where
  values : s.fieldValues = refreshed fieldValues document
  document : s.currentDocument = some (filledIn (refreshed fieldValues document) document)

/-! Whatever writes the values of a session leaves values that fit. -/

theorem refreshFieldValues_fit (s : BrowserSession φ) : ValuesFit s.refreshFieldValues.fieldValues := by
  unfold refreshFieldValues
  split
  · exact valuesFit_empty
  · exact refreshed_fit _ _

theorem installPage_fit (s : BrowserSession φ) (page : BrowserPage) :
    ValuesFit (s.installPage r page).fieldValues := refreshFieldValues_fit _

section Writers
variable (h : ValuesFit s.fieldValues)
include h

theorem setFieldValue_fit (name value : Chars) :
    ValuesFit (s.setFieldValue name value).1.fieldValues := by
  unfold setFieldValue
  dsimp only
  split
  · exact insertBoundedFieldValue_fit h name value
  · exact h

theorem applyFieldValues_fit (values : TextMap Chars) :
    ValuesFit (s.applyFieldValues values).fieldValues := by
  refine foldlRecOn _ _ h fun fields hfields p _ => ?_
  dsimp only
  split
  · exact insertBoundedFieldValue_fit hfields _ _
  · exact hfields

theorem toggleControl_fit (name value : Chars) :
    ValuesFit (s.toggleControl name value).1.fieldValues := by
  unfold toggleControl
  split
  · exact h
  · split
    · intro n x hx
      have hx : (s.fieldValues.erase name)[n]? = some x := hx
      rw [Std.ExtTreeMap.getElem?_erase] at hx
      split at hx
      · cases hx
      · exact h n x hx
    · split
      · dsimp only
        split
        · exact insertBoundedFieldValue_fit h name value
        · exact h
      · exact h

end Writers

theorem refreshFieldValues_shows {fieldValues : TextMap Chars} (hvalues : s.fieldValues = fieldValues)
    (h : s.currentDocument = some document) :
    ShowsWith fieldValues document s.refreshFieldValues := by
  unfold refreshFieldValues syncDocumentControlState
  rw [h, hvalues]
  exact ⟨rfl, rfl⟩

theorem installPage_shows (h : parseMicron page.markup = some document) :
    ShowsWith s.fieldValues document (s.installPage r page) := by
  exact refreshFieldValues_shows rfl h

/-- A page that is admitted is shown with the values there were before. -/
theorem tryApplyPage_shows (hpage : s.normalizePage r page = .ok page')
    (hdocument : parseMicron page'.markup = some document) (addHistory : Bool) :
    ∃ s', tryApplyPage r page addHistory s = (.ok (), s') ∧
      ShowsWith s.fieldValues document s' := by
  have hshown : updatePageState r page s = (.ok (), s.installPage r page') := by
    unfold updatePageState
    rw [hpage]
  have hshows := installPage_shows (r := r) (s := s) hdocument
  unfold tryApplyPage setPageAndHistory
  rw [Act.bind_ok hshown]
  refine ⟨_, rfl, ?_⟩
  dsimp only
  split
  · exact ⟨hshows.values, hshows.document⟩
  · exact hshows

/-- Whatever was typed before, a page is shown alike. -/
def Isolated (r : Rendering φ) (s : BrowserSession φ) (page : BrowserPage) (addHistory : Bool) :
    Prop :=
  ∀ v₁ v₂ s₁ s₂, ValuesFit v₁ → ValuesFit v₂ →
    tryApplyPage r page addHistory (withFieldValues s v₁) = (.ok (), s₁) →
    tryApplyPage r page addHistory (withFieldValues s v₂) = (.ok (), s₂) →
    s₁.fieldValues = s₂.fieldValues ∧ s₁.currentDocument = s₂.currentDocument

theorem isolated_iff (hpage : s.normalizePage r page = .ok page')
    (hdocument : parseMicron page'.markup = some document) (addHistory : Bool) :
    Isolated r s page addHistory ↔
      ∀ v₁ v₂, ValuesFit v₁ → ValuesFit v₂ → refreshed v₁ document = refreshed v₂ document := by
  have hshown : ∀ v, ∃ s', tryApplyPage r page addHistory (withFieldValues s v) =
      (.ok (), s') ∧ ShowsWith v document s' := fun v =>
    tryApplyPage_shows (s := withFieldValues s v) hpage hdocument addHistory
  constructor
  · intro hisolated v₁ v₂ hv₁ hv₂
    obtain ⟨s₁, hrun₁, hshows₁⟩ := hshown v₁
    obtain ⟨s₂, hrun₂, hshows₂⟩ := hshown v₂
    rw [← hshows₁.values, ← hshows₂.values]
    exact (hisolated v₁ v₂ s₁ s₂ hv₁ hv₂ hrun₁ hrun₂).1
  · intro hsame v₁ v₂ s₁ s₂ hv₁ hv₂ hrun₁ hrun₂
    obtain ⟨s₁', hrun₁', hshows₁⟩ := hshown v₁
    obtain ⟨s₂', hrun₂', hshows₂⟩ := hshown v₂
    cases hrun₁.symm.trans hrun₁'
    cases hrun₂.symm.trans hrun₂'
    rw [hshows₁.values, hshows₂.values, hshows₁.document, hshows₂.document, hsame v₁ v₂ hv₁ hv₂]
    exact ⟨rfl, rfl⟩

/-- A page is isolated only if no text field decides on a value, and it is if there is room. -/
theorem isolated_overruled (hpage : s.normalizePage r page = .ok page')
    (hdocument : parseMicron page'.markup = some document) (addHistory : Bool) :
    (Isolated r s page addHistory → Overruled (documentControls document)) ∧
      (Roomy (documentControls document) → Overruled (documentControls document) →
        Isolated r s page addHistory) := by
  rw [isolated_iff hpage hdocument]
  constructor
  · intro hsame
    by_contra hdecides
    obtain ⟨v, hv, hdiffer⟩ := refreshed_differ hdocument hdecides
    exact hdiffer (hsame v ∅ hv valuesFit_empty)
  · intro hroomy hoverruled v₁ v₂ hv₁ hv₂
    exact refreshed_overruled hdocument hroomy hoverruled hv₁ hv₂

/-! Partials. -/

/-- A control that is still there: a text field of the name, or a choice of the name and value. -/
structure SameControl (c d : FieldControl) : Prop where
  kind : d.kind = c.kind
  name : d.name = c.name
  value : isCheckable c = true → d.value = c.value

/-- What was typed, and what was chosen, is there after as before. -/
def KeepsControl (before : TextMap Chars) (after : Option Chars) (c : FieldControl) : Prop :=
  (c.kind = fieldKind → after = before[c.name]?) ∧
    (isCheckable c = true → (after = some c.value ↔ before[c.name]? = some c.value))

/-- Every control that is still there keeps its value. -/
def KeepsControls (s s' : BrowserSession φ) : Prop :=
  ∀ c ∈ s.interactiveControls, ∀ d ∈ s'.interactiveControls, SameControl c d →
    KeepsControl s.fieldValues s'.fieldValues[c.name]? c

/-- The last control of the new markup that sets the name of one that is still there sets what the
name has. -/
def MarkupKeeps (s : BrowserSession φ) (cs : List FieldControl) : Prop :=
  ∀ c ∈ s.interactiveControls, ∀ d ∈ cs, SameControl c d →
    KeepsControl s.fieldValues ((lastSetter cs c.name).map (valueSet s.fieldValues)) c

theorem documentControls_mapControls (f : FieldControl → FieldControl) (document : Document) :
    documentControls (mapControls f document) = (documentControls document).map f := by
  unfold documentControls mapControls
  rw [flatMap_map, map_flatMap]
  refine flatMap_congr fun row _ => ?_
  rw [filterMap_map, map_filterMap]
  refine filterMap_congr fun fragment _ => ?_
  cases fragment <;> rfl

theorem syncControl_kind (fields : TextMap Chars) (c : FieldControl) :
    (syncControl fields c).kind = c.kind ∧ (syncControl fields c).name = c.name := by
  unfold syncControl
  split
  · split <;> exact ⟨rfl, rfl⟩
  · split <;> exact ⟨rfl, rfl⟩

theorem syncControl_value (fields : TextMap Chars) (h : c.kind ≠ fieldKind) :
    (syncControl fields c).value = c.value := by
  unfold syncControl
  rw [if_neg h]
  split <;> rfl

theorem isCheckable_not_field (h : isCheckable c = true) : c.kind ≠ fieldKind := by
  unfold isCheckable at h
  intro hkind
  rw [hkind] at h
  exact absurd h (by decide +kernel)

theorem sameControl_sync {fields : TextMap Chars} {d : FieldControl} :
    SameControl c (syncControl fields d) ↔ SameControl c d := by
  obtain ⟨hkind, hname⟩ := syncControl_kind fields d
  have hvalue : d.kind = c.kind → isCheckable c = true → (syncControl fields d).value = d.value :=
    fun hsame hcheckable => syncControl_value fields (hsame ▸ isCheckable_not_field hcheckable)
  constructor
  · rintro ⟨hk, hn, hv⟩
    have hk := hkind.symm.trans hk
    exact ⟨hk, hname.symm.trans hn, fun h => (hvalue hk h).symm.trans (hv h)⟩
  · rintro ⟨hk, hn, hv⟩
    exact ⟨hkind.trans hk, hname.trans hn, fun h => (hvalue hk h).trans (hv h)⟩

section
variable {slot content : Chars} (h : applyPartialContent r slot content s = (.ok page, s'))
  (hdocument : parseMicron page.markup = some document)
include h hdocument

/-- A partial that is applied is shown with the values there were before. -/
theorem applyPartialContent_shows : ShowsWith s.fieldValues document s' := by
  unfold applyPartialContent at h
  dsimp only at h
  split at h
  · cases h
  · next contents page' hupdated =>
    obtain ⟨hpage, rfl⟩ := Prod.mk.inj h
    cases hpage
    exact refreshFieldValues_shows rfl hdocument

/-- A refresh keeps the controls if and only if the new markup does, where the values fit. -/
theorem keepsControls_iff (hfit : SettingsFit (settings s.fieldValues (documentControls document))) :
    KeepsControls s s' ↔ MarkupKeeps s (documentControls document) := by
  obtain ⟨hvalues, hshown⟩ := applyPartialContent_shows h hdocument
  have hcontrols : s'.interactiveControls =
      (documentControls document).map (syncControl (refreshed s.fieldValues document)) := by
    unfold interactiveControls
    rw [hshown, map_some, getD_some]
    exact documentControls_mapControls _ _
  refine forall₂_congr fun c _ => ?_
  rw [hcontrols, hvalues, refreshed_getElem? hfit, lastSetting_eq]
  constructor
  · intro hkeeps d hd hsame
    exact hkeeps _ (mem_map_of_mem hd) (sameControl_sync.mpr hsame)
  · intro hkeeps d hd hsame
    obtain ⟨d', hd', rfl⟩ := mem_map.mp hd
    exact hkeeps d' hd' (sameControl_sync.mp hsame)

end

end Sessions

/-! Both at once. -/

/-- A page is shown alike whatever was typed before only if, and where there is room if, no text
field of it decides on a value; and a refresh keeps the controls if and only if the markup does. -/
theorem field_values_laws {φ : Type} (r : Rendering φ) (s : BrowserSession φ) :
    (∀ page page' document addHistory, s.normalizePage r page = .ok page' →
      parseMicron page'.markup = some document →
      (Isolated r s page addHistory → Overruled (documentControls document)) ∧
        (Roomy (documentControls document) → Overruled (documentControls document) →
          Isolated r s page addHistory)) ∧
    ∀ slot content page s' document,
      applyPartialContent r slot content s = (.ok page, s') →
      parseMicron page.markup = some document →
      SettingsFit (settings s.fieldValues (documentControls document)) →
      (KeepsControls s s' ↔ MarkupKeeps s (documentControls document)) :=
  ⟨fun _ _ _ addHistory hpage hdocument => isolated_overruled hpage hdocument addHistory,
    fun _ _ _ _ _ h hdocument hfit => keepsControls_iff h hdocument hfit⟩

/-! A form that is handed what was typed elsewhere, and a choice that a refresh takes back. -/

/-- A page with one text field. -/
def formPage : BrowserPage := { plainTextPage "other:/" with markup := "`<user`guest>".toList }

def choicePage : BrowserPage :=
  { plainTextPage "node:/a" with markup := "`<^|mode|fast`Fast>\n`\x7bt\x7d".toList }

/-- The session that shows the choices, with one of them chosen. -/
def chosenSession : Option (BrowserSession Nat) :=
  startedSession.map fun s =>
    ((tryApplyPage plainRendering choicePage true s).2.toggleControl "mode".toList
      "fast".toList).1

def typed : TextMap Chars := (∅ : TextMap Chars).insert "user".toList "alice".toList

theorem typed_fit : ValuesFit typed := by
  intro name value hvalue
  unfold typed at hvalue
  rw [Std.ExtTreeMap.getElem?_insert] at hvalue
  split at hvalue
  · rw [← some.inj hvalue]
    decide +kernel
  · rw [getElem?_empty] at hvalue
    cases hvalue

/-- The choices are on a page without text fields, so it is isolated. -/
theorem field_values_laws_choicePage : ∃ s : BrowserSession Nat, startedSession = some s ∧
    Isolated plainRendering s choicePage true := by
  obtain ⟨s, hs⟩ := exists_startedSession
  have hlaws := (field_values_laws plainRendering s).1
  refine ⟨s, hs, ?_⟩
  have hpage : (startedSession.map fun s =>
      ((s.normalizePage plainRendering choicePage).toOption.map BrowserPage.markup)) =
        some (some choicePage.markup) := by decide +kernel
  rw [hs, map_some] at hpage
  obtain ⟨page', hpage', hmarkup⟩ := map_eq_some_iff.mp (some.inj hpage)
  have hcontrols : ((parseMicron choicePage.markup).map fun document =>
      (documentControls document).map fun c => (c.kind, widestBytes c)) =
        some [("radio".toList, 8)] := by decide +kernel
  obtain ⟨document, hdocument, hkinds⟩ := map_eq_some_iff.mp hcontrols
  refine (hlaws choicePage page' document true (toOption_eq_some.mp hpage')
    (hmarkup ▸ hdocument)).2 ?_ ?_
  · have hwidest := congrArg (fun l => (l.map Prod.snd).sum) hkinds
    rw [List.map_map] at hwidest
    exact hwidest.le.trans (by decide)
  · intro name c hsetter hkind
    have hmem := (lastSetter_some hsetter).1
    have hradio := mem_map_of_mem (f := fun c => (c.kind, widestBytes c)) hmem
    rw [hkinds, mem_singleton] at hradio
    have hfield := (congrArg Prod.fst hradio).symm.trans hkind
    exact absurd hfield (by decide +kernel)

/-- What was typed on one node is in the form of another, and a refresh takes a choice back. -/
theorem values_leak_and_choices_go :
    (∃ s : BrowserSession Nat, startedSession = some s ∧
      ¬Isolated plainRendering s formPage true) ∧
    ∃ s s' : BrowserSession Nat, chosenSession = some s ∧
      (∃ page, applyPartialContent plainRendering [] [] s = (.ok page, s')) ∧
      ¬KeepsControls s s' := by
  constructor
  · obtain ⟨s, hs⟩ := exists_startedSession
    refine ⟨s, hs, fun hisolated => ?_⟩
    -- with and without a text typed elsewhere, the same form is shown
    have hrun : (startedSession.map fun s =>
        let typedIn := tryApplyPage plainRendering formPage true (withFieldValues s typed)
        let fresh := tryApplyPage plainRendering formPage true (withFieldValues s ∅)
        (typedIn.1.toOption, fresh.1.toOption, typedIn.2.fieldValues["user".toList]?,
          fresh.2.fieldValues["user".toList]?)) =
        some (some (), some (), some "alice".toList, some "guest".toList) := by decide +kernel
    rw [hs, map_some] at hrun
    have hrun := some.inj hrun
    simp only [Prod.mk.injEq] at hrun
    obtain ⟨htyped, hfresh, halice, hguest⟩ := hrun
    have hsame := (hisolated typed ∅ _ _ typed_fit valuesFit_empty
      (Prod.ext (toOption_eq_some.mp htyped) rfl) (Prod.ext (toOption_eq_some.mp hfresh) rfl)).1
    rw [hsame, hguest] at halice
    exact absurd halice (by decide +kernel)
  · have hsome : chosenSession.isSome = true := by decide +kernel
    obtain ⟨s, hs⟩ := isSome_iff_exists.mp hsome
    -- a refresh in which the box was checked before, and is not checked behind it
    have hrun : (chosenSession.map fun s =>
        let after := applyPartialContent plainRendering [] [] s
        (after.1.toOption.isSome, s.interactiveControls.any fun c =>
          after.2.interactiveControls.any fun d =>
            decide (d.kind = c.kind) && decide (d.name = c.name) && decide (d.value = c.value) &&
              isCheckable c && decide (s.fieldValues[c.name]? = some c.value) &&
              decide (after.2.fieldValues[c.name]? = none))) = some (true, true) := by decide +kernel
    rw [hs, map_some] at hrun
    obtain ⟨hok, hlost⟩ := Prod.mk.inj (some.inj hrun)
    obtain ⟨page, hpage⟩ := isSome_iff_exists.mp hok
    refine ⟨s, (applyPartialContent plainRendering [] [] s).2, hs,
      ⟨page, Prod.ext (toOption_eq_some.mp hpage) rfl⟩, fun hkeeps => ?_⟩
    obtain ⟨c, hc, hlost⟩ := any_eq_true.mp hlost
    obtain ⟨d, hd, hlost⟩ := any_eq_true.mp hlost
    simp only [Bool.and_eq_true, decide_eq_true_eq] at hlost
    obtain ⟨⟨⟨⟨⟨hkind, hname⟩, hvalue⟩, hcheckable⟩, hbefore⟩, hafter⟩ := hlost
    have hkept := (hkeeps c hc d hd ⟨hkind, hname, fun _ => hvalue⟩).2 hcheckable
    rw [hafter] at hkept
    cases hkept.mpr hbefore

end Omen.Browser
