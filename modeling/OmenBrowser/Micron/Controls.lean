import OmenBrowser.Micron.Bounds

/- Every link and every control of a document is one that a command of one line has made: a control
   has its name and its value within their limits and is of one of three kinds, and no text of either
   goes over the end of a line. -/
namespace Omen.Micron
open Text List Option

variable {text rest raw line : Chars} {style : TextStyle} {control : FieldControl}
  {ownedBytes fuel : Nat} {fields collected : List Chars} {span : TextSpan}
  {fragments : List Fragment} {c : Char}

/-- The text ends no line. -/
def OneLine (text : Chars) : Prop := '\n' ∉ text

instance (text : Chars) : Decidable (OneLine text) := inferInstanceAs (Decidable ('\n' ∉ text))

/-- A control the parser makes, within its limits. -/
structure ParsedControl (control : FieldControl) : Prop where
  kind : control.kind = "field".toList ∨ control.kind = "checkbox".toList ∨
    control.kind = "radio".toList
  name : control.name ≠ []
  nameBytes : utf8Len control.name ≤ micronControlNameMaxBytes
  valueBytes : utf8Len control.value ≤ micronControlValueMaxBytes
  nameLine : OneLine control.name
  valueLine : OneLine control.value

/-- A link the parser makes. -/
structure ParsedLink (text : Chars) (link : LinkAction) : Prop where
  text : OneLine text
  target : OneLine link.target
  fields : ∀ field ∈ link.fields, OneLine field

def ParsedFragment : Fragment → Prop
  | .control c => ParsedControl c
  | .span s => ∀ link, s.link = some link → ParsedLink s.text link

def ParsedFragments (fragments : List Fragment) : Prop := ∀ f ∈ fragments, ParsedFragment f

theorem parsedFragments_nil : ParsedFragments [] := fun _ hf => nomatch hf

theorem ParsedFragments.append {fs gs : List Fragment} (hfs : ParsedFragments fs)
    (hgs : ParsedFragments gs) : ParsedFragments (fs ++ gs) := fun f hf =>
  (mem_append.mp hf).elim (hfs f) (hgs f)

theorem parsedFragments_one {f : Fragment} (h : ParsedFragment f) : ParsedFragments [f] :=
  fun _ hf => mem_singleton.mp hf ▸ h

theorem parsed_plainSpan (text : Chars) (style : TextStyle) : ParsedFragment (plainSpan text style) :=
  fun _ hlink => nomatch hlink

theorem OneLine.of_subset {part : Chars} (h : OneLine text) (hpart : ∀ c ∈ part, c ∈ text) :
    OneLine part := fun hmem => h (hpart _ hmem)

theorem OneLine.append (h : OneLine text) (hrest : OneLine rest) :
    OneLine (text ++ rest) := fun hmem => (mem_append.mp hmem).elim h hrest

theorem slice_subset {chars : Chars} {a b : Nat} (h : slice chars a b = some raw) :
    ∀ c ∈ raw, c ∈ chars := by
  unfold slice at h
  split at h
  · cases h
    exact fun c hc => mem_of_mem_take (mem_of_mem_drop hc)
  · cases h

/-! Controls. -/

theorem controlKind_mem (flags : Chars) :
    (controlKind flags).1 = "field".toList ∨ (controlKind flags).1 = "checkbox".toList ∨
      (controlKind flags).1 = "radio".toList := by
  unfold controlKind
  split
  · exact .inr (.inr rfl)
  · split
    · exact .inr (.inl rfl)
    · split
      · exact .inl rfl
      · exact .inl rfl

theorem getD_part_subset {cs default : Chars} {i : Nat} (hdefault : ∀ c ∈ default, c ∈ cs) :
    ∀ c ∈ (cs.splitOn '|')[i]?.getD default, c ∈ cs := by
  intro c hc
  cases hpart : (cs.splitOn '|')[i]? with
  | none =>
    rw [hpart, getD_none] at hc
    exact hdefault c hc
  | some part =>
    rw [hpart, getD_some] at hc
    exact (mem_of_mem_splitOn (mem_of_getElem? hpart) hc).1

/-- The name of a descriptor is its second part, if it has any. -/
theorem part_noBar {descriptor : Chars} (hbar : '|' ∈ descriptor) :
    '|' ∉ (descriptor.splitOn '|')[1]?.getD descriptor := by
  cases hpart : (descriptor.splitOn '|')[1]? with
  | some part =>
    rw [getD_some]
    exact fun hmem => (mem_of_mem_splitOn (mem_of_getElem? hpart) hmem).2 rfl
  | none =>
    have hlength := getElem?_eq_none_iff.mp hpart
    have hjoined : ['|'].intercalate (descriptor.splitOn '|') = descriptor :=
      intercalate_splitOn '|'
    cases hparts : descriptor.splitOn '|' with
    | nil => exact absurd hparts (splitOn_ne_nil _ _)
    | cons part rest =>
      rw [hparts] at hlength hjoined
      obtain rfl : rest = [] := eq_nil_of_length_eq_zero (by
        rw [length_cons] at hlength
        omega)
      have hsame : part = descriptor := by simpa [intercalate] using hjoined
      have hmem : part ∈ descriptor.splitOn '|' := hparts ▸ mem_cons_self
      exact absurd rfl (mem_of_mem_splitOn hmem (hsame ▸ hbar)).2

/-- What a descriptor says is of its own text. -/
theorem parseDescriptor_parsed {descriptor : Chars} {d : ControlDescriptor}
    (h : parseDescriptor descriptor = some d) :
    (d.kind = "field".toList ∨ d.kind = "checkbox".toList ∨ d.kind = "radio".toList) ∧
      (∀ c ∈ d.name, c ∈ descriptor) ∧ '|' ∉ d.name ∧ ∀ c ∈ d.fieldValue, c ∈ descriptor := by
  unfold parseDescriptor at h
  split at h
  · next hbar =>
    dsimp only [bind_eq_bind] at h
    split at h
    · cases h
    · obtain ⟨width, -, h⟩ := bind_eq_some_iff.mp h
      cases h
      exact ⟨controlKind_mem _, getD_part_subset fun _ hc => hc, part_noBar hbar,
        getD_part_subset fun _ hc => nomatch hc⟩
  · next hbar =>
    cases h
    exact ⟨.inl rfl, fun _ hc => hc, hbar, fun _ hc => nomatch hc⟩

/-- What a control of a raw text may be. -/
structure ControlOf (raw : Chars) (control : FieldControl) : Prop where
  kind : control.kind = "field".toList ∨ control.kind = "checkbox".toList ∨
    control.kind = "radio".toList
  name : control.name ≠ []
  nameBytes : utf8Len control.name ≤ micronControlNameMaxBytes
  valueBytes : utf8Len control.value ≤ micronControlValueMaxBytes
  nameChars : ∀ c ∈ control.name, c ∈ raw ∧ c ≠ '\x60' ∧ c ≠ '|'
  valueChars : ∀ c ∈ control.value, c ∈ raw

theorem parseControl_some (h : parseControl raw style = some (control, ownedBytes)) :
    ControlOf raw control := by
  unfold parseControl at h
  split at h
  · cases h
  · simp only [bind_eq_bind, bind_eq_some_iff] at h
    obtain ⟨⟨descriptor, value⟩, hsplit, d, hdescriptor, h⟩ := h
    have hparts := eq_of_splitOnce hsplit
    have htick := splitOnce_notMem hsplit
    split at h
    · cases h
    · next hlimits =>
      simp only [not_or, Nat.not_lt] at hlimits
      obtain ⟨hname, hnameBytes, hvalue, hfieldValue⟩ := hlimits
      obtain ⟨hkind, hnameText, hbar, hvalueText⟩ := parseDescriptor_parsed hdescriptor
      have hdescriptorText : ∀ c ∈ descriptor, c ∈ raw := fun c hc =>
        hparts ▸ mem_append_left _ hc
      have hbehind : ∀ c ∈ value, c ∈ raw := fun c hc =>
        hparts ▸ mem_append_right _ (mem_cons_of_mem _ hc)
      cases h
      refine ⟨hkind, hname, hnameBytes, ?_, fun c hc => ⟨hdescriptorText c (hnameText c hc), ?_, ?_⟩, ?_⟩
      · split
        · exact hvalue
        · exact hfieldValue
      · exact fun heq => htick (heq ▸ hnameText c hc)
      · exact fun heq => hbar (heq ▸ hc)
      · split
        · exact hbehind
        · exact fun c hc => hdescriptorText c (hvalueText c hc)

theorem parseControl_parsed (hraw : OneLine raw)
    (h : parseControl raw style = some (control, ownedBytes)) : ParsedControl control := by
  have hof := parseControl_some h
  exact ⟨hof.kind, hof.name, hof.nameBytes, hof.valueBytes,
    hraw.of_subset fun c hc => (hof.nameChars c hc).1, hraw.of_subset hof.valueChars⟩

/-! Links. -/

theorem collectFields_eq {input : List Chars} {totalBytes : Nat}
    (h : collectFields fields totalBytes input = some collected) : collected = fields ++ input := by
  induction input generalizing fields totalBytes with
  | nil =>
    rw [append_nil]
    exact (some.inj h).symm
  | cons field rest ih =>
    unfold collectFields at h
    split at h
    · cases h
    · split at h
      · cases h
      · rw [ih h, append_assoc, singleton_append]

theorem collectBounded_eq (h : collectBoundedLinkFields fields = some collected) :
    collected = fields :=
  collectFields_eq h

/-- Fields for which a link has room. -/
structure FieldsFit (fields : List Chars) : Prop where
  items : fields.length ≤ micronLinkMaxFields
  each : ∀ field ∈ fields, utf8Len field ≤ micronLinkFieldMaxBytes
  bytes : (fields.map utf8Len).sum ≤ micronLinkFieldsMaxBytes

theorem collectFields_isSome {fields input : List Chars} {totalBytes : Nat}
    (hitems : fields.length ≤ micronLinkMaxFields) (hbytes : totalBytes ≤ micronLinkFieldsMaxBytes) :
    (collectFields fields totalBytes input).isSome = true ↔
      fields.length + input.length ≤ micronLinkMaxFields ∧
        (∀ field ∈ input, utf8Len field ≤ micronLinkFieldMaxBytes) ∧
        totalBytes + (input.map utf8Len).sum ≤ micronLinkFieldsMaxBytes := by
  induction input generalizing fields totalBytes with
  | nil => simpa [collectFields] using ⟨hitems, hbytes⟩
  | cons field rest ih =>
    unfold collectFields
    simp only [length_cons, forall_mem_cons, map_cons, sum_cons]
    split
    · next hfull =>
      simp only [isSome_none, Bool.false_eq_true, false_iff]
      rintro ⟨hroom, ⟨hsize, -⟩, -⟩
      omega
    · next hroom =>
      split
      · simp only [isSome_none, Bool.false_eq_true, false_iff]
        rintro ⟨-, -, htotal⟩
        omega
      · next htotal =>
        have hlength : (fields ++ [field]).length = fields.length + 1 := length_append
        rw [ih (by omega) (by omega), hlength]
        constructor
        · rintro ⟨hall, hsizes, hsum⟩
          exact ⟨by omega, ⟨by omega, hsizes⟩, by omega⟩
        · rintro ⟨hall, ⟨-, hsizes⟩, hsum⟩
          exact ⟨by omega, hsizes, by omega⟩

theorem collectBounded_iff : collectBoundedLinkFields fields = some fields ↔ FieldsFit fields := by
  have hsome := @collectFields_isSome [] fields 0 (Nat.zero_le _) (Nat.zero_le _)
  simp only [length_nil, Nat.zero_add] at hsome
  constructor
  · intro h
    obtain ⟨hitems, heach, hbytes⟩ := hsome.mp (isSome_of_eq_some h)
    exact ⟨hitems, heach, hbytes⟩
  · intro h
    obtain ⟨collected, hcollected⟩ := isSome_iff_exists.mp
      (hsome.mpr ⟨h.items, h.each, h.bytes⟩)
    exact hcollected.trans (congrArg some (collectBounded_eq hcollected))

/-- The fields behind the target of a link, where it has any. -/
def linkFields : Option Chars → Option (List Chars)
  | some blob => collectBoundedLinkFields ((blob.splitOn '|').filter (· ≠ []))
  | none => some []

/-- What a link of a raw text may be. -/
structure LinkOf (raw text : Chars) (link : LinkAction) : Prop where
  chars : ∀ c ∈ text, c ∈ raw ∧ c ≠ '\x60'
  textBytes : utf8Len text ≤ micronLinkLabelMaxBytes
  target : ∀ c ∈ link.target, c ∈ raw ∧ c ≠ '\x60'
  targetNonempty : link.target ≠ []
  targetBytes : utf8Len link.target ≤ micronLinkTargetMaxBytes
  fields : ∀ field ∈ link.fields, field ≠ [] ∧ '|' ∉ field ∧ ∀ c ∈ field, c ∈ raw ∧ c ≠ '\x60'
  fieldsFit : FieldsFit link.fields

theorem linkFields_some (h : linkFields (raw.splitOn '\x60')[2]? = some fields) :
    (∀ field ∈ fields, field ≠ [] ∧ '|' ∉ field ∧ ∀ c ∈ field, c ∈ raw ∧ c ≠ '\x60') ∧
      FieldsFit fields := by
  cases hblob : (raw.splitOn '\x60')[2]? with
  | none =>
    rw [hblob] at h
    cases h
    exact ⟨(fun _ hfield => nomatch hfield), collectBounded_iff.mp rfl⟩
  | some blob =>
    rw [hblob] at h
    have hfields := collectBounded_eq h
    refine ⟨fun field hfield => ?_, collectBounded_iff.mp (hfields ▸ h)⟩
    rw [hfields] at hfield
    obtain ⟨hmem, hne⟩ := mem_filter.mp hfield
    refine ⟨of_decide_eq_true hne, fun hbar => (mem_of_mem_splitOn hmem hbar).2 rfl, fun c hc => ?_⟩
    exact mem_of_mem_splitOn (mem_of_getElem? hblob) (mem_of_mem_splitOn hmem hc).1

theorem parseLink_some (h : parseLink raw style = some span) :
    ∃ link, span = ⟨span.text, style, some link⟩ ∧ LinkOf raw span.text link := by
  unfold parseLink at h
  split at h
  · cases h
  · obtain ⟨label, hlabel, h⟩ := bind_eq_some_iff.mp h
    have hpart : ∀ {i : Nat} {part : Chars}, (raw.splitOn '\x60')[i]? = some part →
        ∀ c ∈ part, c ∈ raw ∧ c ≠ '\x60' := fun hget c hc =>
      mem_of_mem_splitOn (mem_of_getElem? hget) hc
    dsimp only at h
    split at h
    · cases h
    · next hlimits =>
      simp only [not_or, Nat.not_lt] at hlimits
      have htarget : ∀ c ∈ (raw.splitOn '\x60')[1]?.getD label, c ∈ raw ∧ c ≠ '\x60' := by
        cases htarget : (raw.splitOn '\x60')[1]? with
        | none => exact hpart hlabel
        | some target => exact hpart htarget
      obtain ⟨fields, hfields, h⟩ : ∃ fields, linkFields (raw.splitOn '\x60')[2]? = some fields ∧
          some (⟨label, style, some ⟨(raw.splitOn '\x60')[1]?.getD label, fields⟩⟩ : TextSpan) =
            some span := by
        split at h
        · next blob hblob => exact hblob ▸ bind_eq_some_iff.mp h
        · next hblob => exact hblob ▸ bind_eq_some_iff.mp h
      cases h
      obtain ⟨hof, hfit⟩ := linkFields_some hfields
      exact ⟨_, rfl, hpart hlabel, hlimits.1, htarget, hlimits.2.1, hlimits.2.2, hof, hfit⟩

theorem parseLink_parsed (hraw : OneLine raw) (h : parseLink raw style = some span) :
    ParsedFragment (.span span) := by
  obtain ⟨link, hspan, hof⟩ := parseLink_some h
  intro link' hlink
  rw [hspan] at hlink
  cases hlink
  exact ⟨hraw.of_subset fun c hc => (hof.chars c hc).1, hraw.of_subset fun c hc => (hof.target c hc).1,
    fun field hfield => hraw.of_subset fun c hc => ((hof.fields field hfield).2.2 c hc).1⟩

theorem parseShorthandLink_parsed (hraw : OneLine raw)
    (h : parseShorthandLink raw style = some span) : ParsedFragment (.span span) := by
  unfold parseShorthandLink at h
  split at h
  · cases h
  · have hparts : OneLine ((splitOnce '|' raw).getD (raw, raw)).1 ∧
        OneLine ((splitOnce '|' raw).getD (raw, raw)).2 := by
      cases hsplit : splitOnce '|' raw with
      | none => exact ⟨hraw, hraw⟩
      | some parts =>
        have hparts := eq_of_splitOnce hsplit
        exact ⟨hraw.of_subset fun c hc => hparts ▸ mem_append_left _ hc,
          hraw.of_subset fun c hc => hparts ▸ mem_append_right _ (mem_cons_of_mem _ hc)⟩
    dsimp only at h
    split at h
    · cases h
    · cases h
      intro link hlink
      cases hlink
      exact ⟨hparts.2, hparts.1, fun _ hfield => nomatch hfield⟩

theorem linkFragment_parsed {opening closing : Chars} {parsed : Option TextSpan}
    (h : ∀ span, parsed = some span → ParsedFragment (.span span)) :
    ParsedFragment (linkFragment opening raw closing style parsed) := by
  unfold linkFragment
  split
  · cases parsed with
    | none => exact parsed_plainSpan _ _
    | some span => exact h span rfl
  · exact parsed_plainSpan _ _

theorem autolink_parsed (hrest : OneLine rest) (h : autolink style fuel rest = some fragments) :
    ParsedFragments fragments := by
  induction fuel generalizing rest fragments with
  | zero => cases h
  | succ fuel ih =>
    unfold autolink at h
    split at h
    · cases h
      split
      · exact parsedFragments_nil
      · exact parsedFragments_one (parsed_plainSpan _ _)
    · simp only [bind_eq_bind, bind_eq_some_iff] at h
      obtain ⟨⟨before, candidate⟩, hcut, ⟨address, after⟩, hstop, more, hmore, h⟩ := h
      obtain ⟨rfl, -⟩ := splitAtByte_some hcut
      obtain ⟨rfl, -⟩ := splitAtByte_some hstop
      have haddress : OneLine address := hrest.of_subset fun c hc =>
        mem_append_right _ (mem_append_left _ hc)
      have hafter : OneLine after := hrest.of_subset fun c hc =>
        mem_append_right _ (mem_append_right _ hc)
      cases h
      refine ParsedFragments.append ?_ (ParsedFragments.append (parsedFragments_one ?_)
        (ih hafter hmore))
      · split
        · exact parsedFragments_one (parsed_plainSpan _ _)
        · exact parsedFragments_nil
      · intro link hlink
        split at hlink
        · cases hlink
          exact ⟨haddress, haddress, fun _ hfield => nomatch hfield⟩
        · cases hlink

/-! The scanner. -/

/-- What a line has come to so far is of the line. -/
structure ParsedInline (s : Inline) : Prop where
  fragments : ParsedFragments s.fragments
  buffer : OneLine s.buffer

section Inline
variable {chars : Chars} {s s' : Inline}

theorem ParsedInline.keep (hs : ParsedInline s) (hfragments : s'.fragments = s.fragments)
    (hbuffer : s'.buffer = s.buffer) : ParsedInline s' :=
  ⟨hfragments ▸ hs.fragments, hbuffer ▸ hs.buffer⟩

theorem ParsedInline.push (hs : ParsedInline s) (htext : OneLine text)
    (hfragments : s'.fragments = s.fragments) (hbuffer : s'.buffer = s.buffer ++ text) :
    ParsedInline s' :=
  ⟨hfragments ▸ hs.fragments, hbuffer ▸ hs.buffer.append htext⟩

theorem ParsedInline.emit (hs : ParsedInline s) {fragment : Fragment}
    (hfragment : ParsedFragment fragment) (i : Nat) : ParsedInline (s.emit fragment i) :=
  ⟨hs.fragments.append (parsedFragments_one hfragment), hs.buffer⟩

theorem flushText_parsed (h : s.flushText = some s') (hs : ParsedInline s) : ParsedInline s' := by
  unfold Inline.flushText at h
  split at h
  · cases h
    exact hs
  · obtain ⟨fragments, hfragments, h⟩ := bind_eq_some_iff.mp h
    cases h
    exact ⟨hs.fragments.append (autolink_parsed hs.buffer hfragments), fun hmem => nomatch hmem⟩

theorem color_parsed {ch : Char} (hch : ch ≠ '\n') (h : s.color chars ch = some s')
    (hs : ParsedInline s) : ParsedInline s' := by
  unfold Inline.color at h
  simp only [bind_eq_bind, bind_eq_some_iff] at h
  obtain ⟨rest, -, ⟨color, consumed⟩, -, h⟩ := h
  split at h
  · cases h
    have hspilled : OneLine ['\x60', ch] := by simpa [OneLine] using hch.symm
    exact hs.push hspilled rfl rfl
  · split at h <;> cases h <;> exact hs.keep rfl rfl

theorem gray_parsed (h : s.gray chars = some s') (hs : ParsedInline s) : ParsedInline s' := by
  unfold Inline.gray at h
  split at h
  · simp only [bind_eq_bind, bind_eq_some_iff] at h
    obtain ⟨first, -, second, -, h⟩ := h
    cases h
    exact hs.keep rfl rfl
  · cases h
    exact hs.keep rfl rfl

theorem shorthand_parsed (hchars : OneLine chars) (h : s.shorthand chars = some s')
    (hs : ParsedInline s) : ParsedInline s' := by
  unfold Inline.shorthand at h
  split at h
  · obtain ⟨raw, hraw, h⟩ := bind_eq_some_iff.mp h
    cases h
    exact hs.emit (linkFragment_parsed fun span hspan =>
      parseShorthandLink_parsed (hchars.of_subset (slice_subset hraw)) hspan) _
  · cases h
    exact hs.push (by decide : OneLine "`a".toList) rfl rfl

theorem link_parsed (hchars : OneLine chars) (h : s.link chars = some s') (hs : ParsedInline s) :
    ParsedInline s' := by
  unfold Inline.link at h
  split at h
  · obtain ⟨raw, hraw, h⟩ := bind_eq_some_iff.mp h
    cases h
    exact hs.emit (linkFragment_parsed fun span hspan =>
      parseLink_parsed (hchars.of_subset (slice_subset hraw)) hspan) _
  · cases h
    exact hs.push (by decide : OneLine "`[".toList) rfl rfl

theorem admitControl_parsed (hraw : OneLine raw)
    (h : s.admitControl raw = some (control, ownedBytes)) : ParsedControl control := by
  unfold Inline.admitControl at h
  split at h
  · obtain ⟨hparsed, -⟩ := filter_eq_some_iff.mp h
    split at hparsed
    · exact parseControl_parsed hraw hparsed
    · cases hparsed
  · cases h

theorem control_parsed (hchars : OneLine chars) (h : s.control chars = some s')
    (hs : ParsedInline s) : ParsedInline s' := by
  unfold Inline.control at h
  split at h
  · obtain ⟨raw, hraw, h⟩ := bind_eq_some_iff.mp h
    split at h
    · next control ownedBytes hadmitted =>
      cases h
      exact ⟨hs.fragments.append (parsedFragments_one
        (admitControl_parsed (hchars.of_subset (slice_subset hraw)) hadmitted)), hs.buffer⟩
    · cases h
      exact hs.emit (parsed_plainSpan _ _) _
  · cases h
    exact hs.push (by decide : OneLine "`<".toList) rfl rfl

theorem ne_of_getElem? {i : Nat} (hchars : OneLine chars) (h : chars[i]? = some c) :
    c ≠ '\n' := fun hc => hchars (hc ▸ mem_of_getElem? h)

theorem oneLine_singleton (hc : c ≠ '\n') : OneLine [c] := fun hmem =>
  hc (mem_singleton.mp hmem).symm

theorem inlineCommand_parsed (hchars : OneLine chars) (h : inlineCommand chars s = some s')
    (hs : ParsedInline s) : ParsedInline s' := by
  obtain ⟨ch, hch, h⟩ := bind_eq_some_iff.mp h
  have hne := ne_of_getElem? hchars hch
  split at h
  case h_1 =>
    cases h
    exact hs.push (oneLine_singleton hne) rfl rfl
  case h_6 =>
    split at h
    · next next hnext =>
      cases h
      exact hs.push (oneLine_singleton (ne_of_getElem? hchars hnext)) rfl rfl
    · cases h
      exact hs.keep rfl rfl
  case h_7 => exact color_parsed hne h hs
  case h_10 => exact gray_parsed h hs
  case h_11 => exact shorthand_parsed hchars h hs
  case h_13 => exact link_parsed hchars h hs
  case h_14 => exact control_parsed hchars h hs
  all_goals
    cases h
    exact hs.keep rfl rfl

theorem inlineStep_parsed (hchars : OneLine chars) (h : inlineStep chars s = some s')
    (hs : ParsedInline s) : ParsedInline s' := by
  obtain ⟨ch, hch, h⟩ := bind_eq_some_iff.mp h
  have hone := oneLine_singleton (ne_of_getElem? hchars hch)
  split at h
  · split at h
    · cases h
      exact hs.push hone rfl rfl
    · cases h
      exact hs.keep rfl rfl
  · split at h
    · cases h
      exact hs.push hone rfl rfl
    · obtain ⟨s₁, hflush, h⟩ := bind_eq_some_iff.mp h
      have hflushed := flushText_parsed hflush hs
      dsimp only at h
      split at h
      · cases h
        exact hflushed.keep rfl rfl
      · exact inlineCommand_parsed hchars h (hflushed.keep rfl rfl)

theorem inlineLoop_parsed (hchars : OneLine chars) (h : inlineLoop chars fuel s = some s')
    (hs : ParsedInline s) : ParsedInline s' := by
  induction fuel generalizing s with
  | zero => cases h
  | succ fuel ih =>
    unfold inlineLoop at h
    split at h
    · obtain ⟨s₁, hstep, h⟩ := bind_eq_some_iff.mp h
      exact ih h (inlineStep_parsed hchars hstep hs)
    · cases h
      exact hs

end Inline

theorem parseInline_parsed {state state' : ParserState} {preEscape : Bool} (hline : OneLine line)
    (h : parseInlineAndControlsWithStyle line state style preEscape = some (fragments, state')) :
    ParsedFragments fragments := by
  obtain ⟨s, hloop, h⟩ := bind_eq_some_iff.mp h
  obtain ⟨s', hflush, h⟩ := bind_eq_some_iff.mp h
  cases h
  have hscanned := inlineLoop_parsed hline hloop ⟨parsedFragments_nil, fun hmem => nomatch hmem⟩
  exact (flushText_parsed hflush hscanned).fragments

/-! Lines. -/

section Rows
variable {line logical : Chars} {state state' : ParserState} {preEscape : Bool}
  {row : Option RenderRow}

theorem textRow_parsed (hlogical : OneLine logical)
    (h : textRow logical state preEscape line = some (row, state')) :
    ParsedFragments (rowFragments row) := by
  obtain ⟨⟨fragments, state₁⟩, hparse, h⟩ := bind_eq_some_iff.mp h
  have hparsed : ParsedFragments fragments := parseInline_parsed hlogical hparse
  dsimp only at h
  split at h
  · cases h
    exact parsedFragments_nil
  · cases h
    exact hparsed

theorem headingRow_parsed (hlogical : OneLine logical)
    (h : headingRow logical state line = some (row, state')) :
    ParsedFragments (rowFragments row) := by
  obtain ⟨⟨fragments, state₁⟩, hparse, h⟩ := bind_eq_some_iff.mp h
  have htext : OneLine (logical.dropWhile (· == '>')) :=
    hlogical.of_subset fun c hc => (dropWhile_suffix _).subset hc
  have hparsed : ParsedFragments fragments := parseInline_parsed htext hparse
  cases h
  exact hparsed

theorem parseLogical_parsed
    {again : Chars → ParserState → Option (Option RenderRow × ParserState)}
    (hlogical : OneLine logical)
    (hagain : ∀ rest state₁, OneLine rest → again rest state₁ = some (row, state') →
      ParsedFragments (rowFragments row))
    (h : parseLogical again logical state preEscape line = some (row, state')) :
    ParsedFragments (rowFragments row) := by
  unfold parseLogical at h
  split at h
  · cases h
    exact parsedFragments_nil
  · split at h
    · split at h
      · obtain ⟨⟨before, rest⟩, hcut, h⟩ := bind_eq_some_iff.mp h
        obtain ⟨hparts, -⟩ := splitAtByte_some hcut
        exact hagain _ _ (hlogical.of_subset fun c hc => hparts ▸ mem_append_right _ hc) h
      · cases h
        exact parsedFragments_nil
    · split at h
      · exact headingRow_parsed hlogical h
      · split at h
        · cases h
          exact parsedFragments_nil
        · exact textRow_parsed hlogical h

theorem mem_stripEscape (h : c ∈ (stripEscape line).1) : c ∈ line := by
  unfold stripEscape at h
  split at h
  · exact mem_cons_of_mem _ h
  · exact h

theorem mem_colorPrefixed {color : Chars} (h : colorPrefixedLine line = some (color, rest))
    (hc : c ∈ rest) : c ∈ line := by
  obtain ⟨⟨before, after⟩, hcut, h⟩ := bind_eq_some_iff.mp h
  obtain ⟨hparts, -⟩ := splitAtByte_some hcut
  rw [hparts]
  dsimp only at h
  split at h
  · split at h
    · cases h
      exact mem_append_right _ hc
    · split at h
      · cases h
      · cases h
        exact mem_append_right _ hc
  · cases h

theorem parseLineFuel_parsed (hline : OneLine line)
    (h : parseLineFuel fuel line state = some (row, state')) :
    ParsedFragments (rowFragments row) := by
  induction fuel generalizing line state with
  | zero => cases h
  | succ fuel ih =>
    have hlogical : OneLine (stripEscape line).1 := hline.of_subset fun c hc => mem_stripEscape hc
    unfold parseLineFuel at h
    split at h
    · cases h
      exact parsedFragments_nil
    · split at h
      · cases h
        exact parsedFragments_one (parsed_plainSpan _ _)
      · split at h
        · cases h
          exact parsedFragments_nil
        · dsimp only at h
          split at h
          · cases h
            exact parsedFragments_nil
          · split at h
            · cases h
              exact parsedFragments_nil
            · split at h
              · next color rest hcolor =>
                split at h
                · cases h
                  exact parsedFragments_nil
                · have hrest : OneLine rest := hlogical.of_subset fun c hc =>
                    mem_colorPrefixed hcolor hc
                  exact parseLogical_parsed hrest (fun _ _ hone hrest => ih hone hrest) h
              · exact parseLogical_parsed hlogical (fun _ _ hone hrest => ih hone hrest) h

end Rows

theorem scanLine_parsed {limits : Limits} {state : ParserState} {metadata : Metadata}
    {scanned : Scanned} (hline : OneLine line)
    (h : scanLine limits line state metadata = some scanned) :
    ParsedFragments (rowFragments scanned.row) := by
  unfold scanLine at h
  split at h
  · cases h
    exact parsedFragments_nil
  · split at h
    · split at h <;> cases h <;> exact parsedFragments_nil
    · split at h
      · cases h
        exact parsedFragments_nil
      · obtain ⟨⟨row, state'⟩, hparse, h⟩ := bind_eq_some_iff.mp h
        cases h
        exact parseLineFuel_parsed hline hparse

/-! Documents. -/

theorem linesFrom_oneLine (hline : OneLine line) :
    ∀ rawLine ∈ linesFrom line text, OneLine rawLine := by
  induction text generalizing line with
  | nil =>
    intro rawLine hmem
    unfold linesFrom at hmem
    split at hmem
    · cases hmem
    · rw [mem_singleton.mp hmem]
      exact hline
  | cons c rest ih =>
    intro rawLine hmem
    unfold linesFrom at hmem
    split at hmem
    · next h => cases h
    · next h =>
      obtain ⟨-, rfl⟩ := cons.inj h
      obtain rfl | hmem := mem_cons.mp hmem
      · split
        · exact hline.of_subset fun c hc => mem_of_mem_dropLast hc
        · exact hline
      · exact ih (fun hnil : '\n' ∈ [] => nomatch hnil) _ hmem
    · next hc h =>
      obtain ⟨rfl, rfl⟩ := cons.inj h
      exact ih (hline.append (oneLine_singleton fun hnew => hc hnew)) _ hmem

theorem lines_oneLine (markup : Chars) : ∀ rawLine ∈ lines markup, OneLine rawLine :=
  linesFrom_oneLine fun hnil => nomatch hnil

/-- What is admitted of a row is of the row, where the links may be gone. -/
theorem admitFragments_parsed (limits : Limits) (state : ParserState)
    (h : ParsedFragments fragments) :
    ParsedFragments (admitFragments limits fragments state).1 := by
  induction fragments generalizing state with
  | nil => exact parsedFragments_nil
  | cons fragment rest ih =>
    have hrest : ParsedFragments rest := fun f hf => h f (mem_cons_of_mem _ hf)
    have hfirst := h fragment mem_cons_self
    unfold admitFragments
    split
    · exact parsedFragments_nil
    · split
      · next span =>
        dsimp only
        split
        · exact parsedFragments_nil
        · refine (parsedFragments_one ?_).append (ih _ hrest)
          unfold admitLink
          split
          · exact hfirst
          · split
            · exact hfirst
            · exact fun link hlink => nomatch hlink
      · next control => exact (parsedFragments_one hfirst).append (ih _ hrest)

theorem parseLines_parsed {limits : Limits} {rawLines : List Chars} {p p' : Parsing}
    (hlines : ∀ line ∈ rawLines, OneLine line) (h : parseLines limits rawLines p = some p')
    (hp : ParsedFragments (allFragments p.rows)) : ParsedFragments (allFragments p'.rows) := by
  induction rawLines generalizing p with
  | nil =>
    cases h
    exact hp
  | cons line rest ih =>
    have hrest : ∀ line ∈ rest, OneLine line := fun l hl => hlines l (mem_cons_of_mem _ hl)
    obtain ⟨scanned, hscan, h⟩ := bind_eq_some_iff.mp h
    have hrow := scanLine_parsed (hlines line mem_cons_self) hscan
    dsimp only at h
    split at h
    · exact ih hrest h hp
    · next row hrow' =>
      rw [hrow'] at hrow
      split at h
      · cases h
        exact hp
      · refine ih hrest h ?_
        rw [allFragments, flatMap_append, ← allFragments, flatMap_singleton]
        exact hp.append (admitFragments_parsed limits scanned.state hrow)

section
variable {markup : Chars} {document : Document} (h : parseMicron markup = some document)
include h

/-- Whatever a document shows has been parsed of one line of the page. -/
theorem parseMicron_parsed : ParsedFragments (allFragments document.rows) := by
  obtain ⟨p, hparse, h⟩ := bind_eq_some_iff.mp h
  have hparsed := parseLines_parsed (lines_oneLine markup) hparse parsedFragments_nil
  cases h
  split
  · rw [allFragments, flatMap_append, ← allFragments, flatMap_singleton]
    exact hparsed.append (parsedFragments_one (parsed_plainSpan _ _))
  · exact hparsed

/-- The controls of a document are those that the parser makes of control commands. -/
theorem parseMicron_controls : ∀ c ∈ controls (allFragments document.rows), ParsedControl c := by
  intro c hc
  obtain ⟨fragment, hmem, hcontrol⟩ := mem_filterMap.mp hc
  have hparsed := parseMicron_parsed h fragment hmem
  cases fragment with
  | span s => cases hcontrol
  | control control =>
    cases hcontrol
    exact hparsed

end

end Omen.Micron
