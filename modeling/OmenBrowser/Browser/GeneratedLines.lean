import OmenBrowser.Browser.Page
import OmenBrowser.Micron.Commands

/- The lines that MicronPlus makes of buttons and inputs (`link_line` and `control_line`), parsed
   again.

   Neither generator escapes anything, and the parser knows no escape within a command. So a line is
   shown as what it was made of exactly if no text in it holds a character that ends its part, and
   each part is within the parser's limits (`linkShown_iff`, `controlShown_iff`). -/
namespace Omen.Browser
open Text Micron List Option

variable {c : Char}

def maxExplicitControlWidth : Nat := 96

/-! Links. -/

/-- The line of a link, as both generators write it. -/
def linkLine (label target : Chars) (fields : List Chars) : Chars :=
  if fields = [] then "`[".toList ++ label ++ "`".toList ++ target ++ "]".toList
  else "`[".toList ++ label ++ "`".toList ++ target ++ "`".toList ++ ['|'].intercalate fields ++
    "]".toList

/-- The line is shown as one link, and nothing else. -/
def LinkShown (line label target : Chars) (fields : List Chars) : Prop :=
  ∃ document row span, parseMicron line = some document ∧ document.rows = [row] ∧
    row.fragments = [.span span] ∧ span.text = label ∧ span.link = some ⟨target, fields⟩

/-- A character that ends no part of a link. -/
def LinkChar (c : Char) : Prop := c ≠ '\n' ∧ c ≠ '\x60' ∧ c ≠ ']'

/-- The label, the target and the fields end nothing before its end, within the limits. -/
structure LinkFits (label target : Chars) (fields : List Chars) : Prop where
  labelChars : ∀ c ∈ label, LinkChar c
  labelBytes : utf8Len label ≤ micronLinkLabelMaxBytes
  targetChars : ∀ c ∈ target, LinkChar c
  targetNonempty : target ≠ []
  targetBytes : utf8Len target ≤ micronLinkTargetMaxBytes
  fieldChars : ∀ field ∈ fields, field ≠ [] ∧ '|' ∉ field ∧ ∀ c ∈ field, LinkChar c
  fieldsFit : FieldsFit fields

/-- What stands between the brackets. -/
def linkRaw (label target : Chars) (fields : List Chars) : Chars :=
  label ++ '\x60' :: (target ++ if fields = [] then [] else '\x60' :: ['|'].intercalate fields)

section Links
variable {label target : Chars} {fields : List Chars}

theorem linkLine_eq (label target : Chars) (fields : List Chars) :
    linkLine label target fields = '\x60' :: '[' :: (linkRaw label target fields ++ [']']) := by
  unfold linkLine linkRaw
  split
  · simp
  · simp

theorem intercalate_cons_cons (separator : Char) (part next : Chars) (rest : List Chars) :
    [separator].intercalate (part :: next :: rest) =
      part ++ separator :: [separator].intercalate (next :: rest) := by
  simp [intercalate]

variable {parts : List Chars} {separator : Char}

theorem mem_intercalate (h : c ∈ [separator].intercalate parts) :
    c = separator ∨ ∃ part ∈ parts, c ∈ part := by
  induction parts with
  | nil => cases h
  | cons part rest ih =>
    cases rest with
    | nil => exact .inr ⟨part, mem_cons_self, by simpa [intercalate] using h⟩
    | cons next rest =>
      rw [intercalate_cons_cons] at h
      rcases mem_append.mp h with hpart | htail
      · exact .inr ⟨part, mem_cons_self, hpart⟩
      · rcases mem_cons.mp htail with rfl | hrest
        · exact .inl rfl
        · exact (ih hrest).imp_right fun ⟨p, hp, hc⟩ => ⟨p, mem_cons_of_mem _ hp, hc⟩

theorem mem_intercalate_of_mem {part : Chars} (hpart : part ∈ parts) (hc : c ∈ part) :
    c ∈ [separator].intercalate parts := by
  induction parts with
  | nil => cases hpart
  | cons first rest ih =>
    cases rest with
    | nil =>
      rw [← mem_singleton.mp hpart]
      simpa [intercalate] using hc
    | cons next rest =>
      rw [intercalate_cons_cons]
      rcases mem_cons.mp hpart with rfl | hpart
      · exact mem_append_left _ hc
      · exact mem_append_right _ (mem_cons_of_mem _ (ih hpart))

theorem utf8Len_intercalate (hseparator : separator.utf8Size = 1) (parts : List Chars) :
    utf8Len ([separator].intercalate parts) ≤ (parts.map utf8Len).sum + parts.length := by
  induction parts with
  | nil => exact Nat.zero_le _
  | cons part rest ih =>
    cases rest with
    | nil => simp [intercalate]
    | cons next rest =>
      rw [intercalate_cons_cons, utf8Len_append, utf8Len_cons, hseparator, map_cons,
        sum_cons, length_cons]
      omega

/-- A character of the line between the brackets is of a part, or sets parts off. -/
theorem mem_linkRaw (h : c ∈ linkRaw label target fields) :
    c = '\x60' ∨ c = '|' ∨ c ∈ label ∨ c ∈ target ∨ ∃ field ∈ fields, c ∈ field := by
  rcases mem_append.mp h with hlabel | hrest
  · exact .inr (.inr (.inl hlabel))
  · rcases mem_cons.mp hrest with rfl | hrest
    · exact .inl rfl
    · rcases mem_append.mp hrest with htarget | hrest
      · exact .inr (.inr (.inr (.inl htarget)))
      · split at hrest
        · cases hrest
        · rcases mem_cons.mp hrest with rfl | hrest
          · exact .inl rfl
          · rcases mem_intercalate hrest with rfl | hfield
            · exact .inr (.inl rfl)
            · exact .inr (.inr (.inr (.inr hfield)))

theorem linkRaw_notMem (hbacktick : c ≠ '\x60') (hbar : c ≠ '|') (hlabel : c ∉ label)
    (htarget : c ∉ target) (hfields : ∀ field ∈ fields, c ∉ field) :
    c ∉ linkRaw label target fields := by
  intro hmem
  rcases mem_linkRaw hmem with h | h | h | h | ⟨field, hfield, h⟩
  · exact hbacktick h
  · exact hbar h
  · exact hlabel h
  · exact htarget h
  · exact hfields field hfield h

/-- The parts between the backticks. -/
theorem splitOn_linkRaw (hlabel : '\x60' ∉ label) (htarget : '\x60' ∉ target)
    (hfields : ∀ field ∈ fields, '\x60' ∉ field) :
    (linkRaw label target fields).splitOn '\x60' =
      label :: target :: if fields = [] then [] else [['|'].intercalate fields] := by
  have hjoin : linkRaw label target fields = ['\x60'].intercalate
      (label :: target :: if fields = [] then [] else [['|'].intercalate fields]) := by
    unfold linkRaw
    split <;> simp [intercalate]
  have hblob : '\x60' ∉ ['|'].intercalate fields := fun hmem =>
    (mem_intercalate hmem).elim (by decide) fun ⟨field, hfield, hc⟩ => hfields field hfield hc
  rw [hjoin]
  refine splitOn_intercalate '\x60' (fun part hpart => ?_) (cons_ne_nil _ _)
  rcases mem_cons.mp hpart with rfl | hpart
  · exact hlabel
  · rcases mem_cons.mp hpart with rfl | hpart
    · exact htarget
    · split at hpart
      · cases hpart
      · rw [mem_singleton.mp hpart]
        exact hblob

theorem linkFields_blob (hfields : ∀ field ∈ fields, field ≠ [] ∧ '|' ∉ field)
    (hne : fields ≠ []) (hfit : FieldsFit fields) :
    linkFields (some (['|'].intercalate fields)) = some fields := by
  have hsplit : (['|'].intercalate fields).splitOn '|' = fields :=
    splitOn_intercalate '|' (fun field hfield => (hfields field hfield).2) hne
  have hfilter : fields.filter (· ≠ []) = fields :=
    filter_eq_self.mpr fun field hfield => decide_eq_true (hfields field hfield).1
  unfold linkFields
  dsimp only
  rw [hsplit, hfilter]
  exact collectBounded_iff.mpr hfit

theorem LinkFits.rawBytes (h : LinkFits label target fields) :
    utf8Len (linkRaw label target fields) ≤ micronLinkRawMaxBytes := by
  have hblob := @utf8Len_intercalate '|' rfl fields
  have hitems := h.fieldsFit.items
  have hbytes := h.fieldsFit.bytes
  have hlabel := h.labelBytes
  have htarget := h.targetBytes
  have htick : ∀ cs, utf8Len ('\x60' :: cs) = 1 + utf8Len cs := fun cs => utf8Len_cons ..
  unfold micronLinkMaxFields at hitems
  unfold micronLinkFieldsMaxBytes at hbytes
  unfold micronLinkLabelMaxBytes at hlabel
  unfold micronLinkTargetMaxBytes at htarget
  unfold linkRaw micronLinkRawMaxBytes
  rw [utf8Len_append, htick, utf8Len_append]
  split
  · rw [utf8Len_nil]
    omega
  · rw [htick]
    omega

/-- The parts of a link that fits are read back. -/
theorem parseLink_raw (h : LinkFits label target fields) (style : TextStyle) :
    parseLink (linkRaw label target fields) style = some ⟨label, style, some ⟨target, fields⟩⟩ := by
  have htick : ∀ {cs : Chars}, (∀ c ∈ cs, LinkChar c) → '\x60' ∉ cs := fun hcs hmem =>
    (hcs _ hmem).2.1 rfl
  have hparts := splitOn_linkRaw (htick h.labelChars) (htick h.targetChars) fun field hfield =>
    htick (h.fieldChars field hfield).2.2
  have hraw : ¬(linkRaw label target fields = [] ∨
      micronLinkRawMaxBytes < utf8Len (linkRaw label target fields)) := by
    rintro (hempty | hlong)
    · exact append_ne_nil_of_right_ne_nil _ (cons_ne_nil _ _) hempty
    · exact absurd h.rawBytes (Nat.not_le.mpr hlong)
  have hlimits : ¬(micronLinkLabelMaxBytes < utf8Len label ∨ target = [] ∨
      micronLinkTargetMaxBytes < utf8Len target) := by
    rintro (hlong | hempty | hlong)
    · exact absurd h.labelBytes (Nat.not_le.mpr hlong)
    · exact h.targetNonempty hempty
    · exact absurd h.targetBytes (Nat.not_le.mpr hlong)
  unfold parseLink
  rw [if_neg hraw, hparts]
  dsimp only [getElem?_cons_zero, getElem?_cons_succ, getD_some,
    bind_eq_bind, bind_some]
  rw [if_neg hlimits]
  by_cases hfields : fields = []
  · subst hfields
    rfl
  · have hread := linkFields_blob (fun field hfield => ⟨(h.fieldChars field hfield).1,
      (h.fieldChars field hfield).2.1⟩) hfields h.fieldsFit
    unfold linkFields at hread
    dsimp only at hread
    rw [if_neg hfields]
    dsimp only [getElem?_cons_zero]
    rw [hread]
    rfl

/-- The line is shown as what it was made of exactly if that fits. -/
theorem linkShown_iff : LinkShown (linkLine label target fields) label target fields ↔
    LinkFits label target fields := by
  rw [linkLine_eq]
  constructor
  · rintro ⟨document, row, span, hparse, hrows, hrow, rfl, hlink⟩
    have hmem : Fragment.span span ∈ allFragments document.rows := by
      rw [hrows, allFragments, flatMap_singleton, hrow]
      exact mem_singleton_self _
    have hparsed := parseMicron_parsed hparse _ hmem _ hlink
    have hone : OneLine (linkRaw span.text target fields) :=
      linkRaw_notMem (by decide) (by decide) hparsed.text hparsed.target hparsed.fields
    have hline : OneLine ('\x60' :: '[' :: (linkRaw span.text target fields ++ [']'])) :=
      oneLine_command (by decide) (by decide) hone
    -- the first bracket, wherever it comes from, ends the link
    obtain ⟨raw, rest, hcut, hraw⟩ := eq_append_cons_of_mem
      (mem_append_right (linkRaw span.text target fields) (mem_singleton_self ']'))
    rw [hcut] at hparse hline
    have hfirst := eq_first_of_page hline (by decide) (by decide) (inlineStep_link hraw) rfl hparse
      hrows hrow fun text style hplain => by
        rw [Fragment.span.inj hplain] at hlink
        cases hlink
    obtain ⟨link, hspan, hof⟩ := parseLink_some (linkFragment_link hfirst hlink)
    rw [hspan] at hlink
    cases hlink
    have hchar : ∀ c, c ∈ raw ∧ c ≠ '\x60' → LinkChar c := by
      rintro c ⟨hc, htick⟩
      refine ⟨fun heq => hline ?_, htick, fun heq => hraw (heq ▸ hc)⟩
      exact mem_cons_of_mem _ (mem_cons_of_mem _ (mem_append_left _ (heq ▸ hc)))
    exact ⟨fun c hc => hchar c (hof.chars c hc), hof.textBytes, fun c hc => hchar c (hof.target c hc),
      hof.targetNonempty, hof.targetBytes, fun field hfield => ⟨(hof.fields field hfield).1,
        (hof.fields field hfield).2.1, fun c hc => hchar c ((hof.fields field hfield).2.2 c hc)⟩,
      hof.fieldsFit⟩
  · intro h
    have hbracket : ']' ∉ linkRaw label target fields := linkRaw_notMem (by decide) (by decide)
      (fun hmem => (h.labelChars _ hmem).2.2 rfl) (fun hmem => (h.targetChars _ hmem).2.2 rfl)
      fun field hfield hmem => ((h.fieldChars field hfield).2.2 _ hmem).2.2 rfl
    have hone : OneLine (linkRaw label target fields) := linkRaw_notMem (by decide) (by decide)
      (fun hmem => (h.labelChars _ hmem).1 rfl) (fun hmem => (h.targetChars _ hmem).1 rfl)
      fun field hfield hmem => ((h.fieldChars field hfield).2.2 _ hmem).1 rfl
    have hline : OneLine ('\x60' :: '[' :: (linkRaw label target fields ++ [']'])) :=
      oneLine_command (by decide) (by decide) hone
    have hfragment : linkFragment "`[".toList (linkRaw label target fields) "]".toList
        ParserState.default.style (parseLink (linkRaw label target fields) ParserState.default.style) =
        .span ⟨label, ParserState.default.style, some ⟨target, fields⟩⟩ := by
      unfold linkFragment
      rw [if_pos h.rawBytes, parseLink_raw h]
    have hstep := @inlineStep_link .default _ [] hbracket
    rw [hfragment] at hstep
    have hlen : utf8Len ('\x60' :: '[' :: (linkRaw label target fields ++ [']'])) ≤
        micronDocumentMaxLineBytes := by
      have hraw := h.rawBytes
      rw [commandLine_bytes _ rfl rfl]
      unfold micronLinkRawMaxBytes at hraw
      unfold micronDocumentMaxLineBytes
      omega
    have hbytes : utf8Len target + (fields.map utf8Len).sum ≤ micronDocumentLinkActionsMaxBytes := by
      have htarget := h.targetBytes
      have hfields := h.fieldsFit.bytes
      unfold micronLinkTargetMaxBytes at htarget
      unfold micronLinkFieldsMaxBytes at hfields
      unfold micronDocumentLinkActionsMaxBytes
      omega
    obtain ⟨document, row, hparse, hrows, hrow⟩ := parseMicron_only hline hlen (by decide) (by decide)
      hstep rfl rfl (by simp [Inline.emit]) rfl h.labelBytes fun link hlink => by
        cases hlink
        exact hbytes
    exact ⟨document, row, _, hparse, hrows, hrow, rfl, rfl⟩

end Links

/-! Controls. -/

variable (attrs : TextMap Chars)

/-- The width of the first attribute that gives one, at most the largest. -/
def explicitControlWidth : Option Nat :=
  ((((attrs["width".toList]?.or attrs["cols".toList]?).or attrs["size".toList]?).bind parseU64).filter
    (0 < ·)).map (min · maxExplicitControlWidth)

/-- The value of the first attribute that gives one. -/
def controlValue : Chars :=
  ((attrs["value".toList]?.or attrs["default".toList]?).or attrs["placeholder".toList]?).getD []

/-- Whether what is typed is hidden; `false`, `0` and `no` say that it is not. -/
def controlMasked : Bool :=
  ((attrs["masked".toList]?.or attrs["password".toList]?).or attrs["secret".toList]?).any fun value =>
    !(value == "false".toList || value == "0".toList || value == "no".toList)

/-- The line of a text field. -/
def controlLine (name : Chars) (fallbackWidth : Nat) : Chars :=
  let width := (explicitControlWidth attrs).getD (max fallbackWidth 1)
  let mask := if controlMasked attrs then "!".toList else []
  "`<".toList ++ mask ++ width.repr.toList ++ "|".toList ++ name ++ "`".toList ++ controlValue attrs ++
    ">".toList

/-- The line is shown as one control, and nothing else. -/
def ControlShown (line name value : Chars) : Prop :=
  ∃ document row control, parseMicron line = some document ∧ document.rows = [row] ∧
    row.fragments = [.control control] ∧ control.name = name ∧ control.value = value

/-- The name, the value and the width are read back as they are. -/
structure ControlFits (name value : Chars) (width : Nat) : Prop where
  nameChars : ∀ c ∈ name, c ≠ '\n' ∧ c ≠ '\x60' ∧ c ≠ '|' ∧ c ≠ '>'
  nameNonempty : name ≠ []
  nameBytes : utf8Len name ≤ micronControlNameMaxBytes
  valueChars : ∀ c ∈ value, c ≠ '\n' ∧ c ≠ '>'
  valueBytes : utf8Len value ≤ micronControlValueMaxBytes
  width : width ≤ micronControlMaxWidth

def controlFlags (masked : Bool) (width : Nat) : Chars :=
  (if masked then ['!'] else []) ++ width.repr.toList

/-- What stands between the angle brackets. -/
def controlRaw (masked : Bool) (width : Nat) (name value : Chars) : Chars :=
  (controlFlags masked width ++ '|' :: name) ++ '\x60' :: value

section Controls
variable {masked : Bool} {width : Nat} {name value : Chars}

theorem controlLine_eq (name : Chars) (fallbackWidth : Nat) :
    controlLine attrs name fallbackWidth =
      '\x60' :: '<' :: (controlRaw (controlMasked attrs)
        ((explicitControlWidth attrs).getD (max fallbackWidth 1)) name (controlValue attrs) ++ ['>']) := by
  unfold controlLine controlRaw controlFlags
  simp

theorem mem_controlFlags (h : c ∈ controlFlags masked width) : c = '!' ∨ c.isDigit = true := by
  rcases mem_append.mp h with hmask | hdigit
  · split at hmask
    · exact .inl (mem_singleton.mp hmask)
    · cases hmask
  · exact .inr (isDigit_repr hdigit)

theorem controlFlags_notMem (hmask : c ≠ '!') (hdigit : c.isDigit = false) :
    c ∉ controlFlags masked width := fun hmem =>
  (mem_controlFlags hmem).elim hmask fun h => by rw [hdigit] at h; cases h

theorem controlRaw_notMem (hmask : c ≠ '!') (hdigit : c.isDigit = false) (hbar : c ≠ '|')
    (htick : c ≠ '\x60') (hname : c ∉ name) (hvalue : c ∉ value) :
    c ∉ controlRaw masked width name value := by
  intro hmem
  rcases mem_append.mp hmem with hdescriptor | hmem
  · rcases mem_append.mp hdescriptor with hflags | hmem
    · exact controlFlags_notMem hmask hdigit hflags
    · exact (mem_cons.mp hmem).elim hbar hname
  · exact (mem_cons.mp hmem).elim htick hvalue

/-- The flags are read back. -/
theorem controlKind_flags :
    controlKind (controlFlags masked width) = ("field".toList, masked, width.repr.toList) := by
  have hradio : '^' ∉ controlFlags masked width := controlFlags_notMem (by decide) (by decide)
  have hcheck : '?' ∉ controlFlags masked width := controlFlags_notMem (by decide) (by decide)
  have hmark : '!' ∉ width.repr.toList := fun hmem => absurd (isDigit_repr hmem) (by decide)
  unfold controlKind
  rw [if_neg hradio, if_neg hcheck]
  unfold controlFlags
  cases masked with
  | false =>
    rw [if_neg (by simpa using hmark)]
    rfl
  | true =>
    have hfilter : width.repr.toList.filter (· ≠ '!') = width.repr.toList :=
      filter_eq_self.mpr fun c hc => decide_eq_true fun heq => hmark (heq ▸ hc)
    rw [if_pos (by simp), filter_append, hfilter]
    rfl

theorem utf8Size_digit (h : c.isDigit = true) : c.utf8Size = 1 := by
  have hbound : c.val ≤ 57 := by
    simp only [Char.isDigit, Bool.and_eq_true, decide_eq_true_eq] at h
    exact h.2
  have hascii : c.val ≤ 0x7f := UInt32.le_trans hbound (by decide)
  exact if_pos hascii

theorem utf8Len_digits {digits : Chars} (h : ∀ c ∈ digits, c.isDigit = true) :
    utf8Len digits = digits.length := by
  induction digits with
  | nil => rfl
  | cons c digits ih =>
    rw [utf8Len_cons, utf8Size_digit (h c mem_cons_self),
      ih fun d hd => h d (mem_cons_of_mem _ hd), length_cons, Nat.add_comm]

theorem controlFlags_bytes (hwidth : width < 2 ^ 64) :
    utf8Len (controlFlags masked width) ≤ micronControlFlagsMaxBytes := by
  have hdigits : utf8Len width.repr.toList ≤ 20 := by
    rw [utf8Len_digits fun c hc => isDigit_repr hc, Nat.toList_repr]
    exact (Nat.length_toDigits_le_iff (by decide) (by decide)).mpr
      (Nat.lt_of_lt_of_le hwidth (by decide))
  have hmask : utf8Len (if masked then ['!'] else []) ≤ 1 := by
    cases masked <;> decide
  unfold controlFlags micronControlFlagsMaxBytes
  rw [utf8Len_append]
  omega

/-- So is the descriptor of a plain name. -/
theorem parseDescriptor_flags (hwidth : 1 ≤ width ∧ width < 2 ^ 64) (hname : '|' ∉ name) :
    parseDescriptor (controlFlags masked width ++ '|' :: name) =
      if width ≤ micronControlMaxWidth then some
        { kind := "field".toList, name, width, masked, prechecked := false, fieldValue := [] }
      else none := by
  have hflags : '|' ∉ controlFlags masked width := controlFlags_notMem (by decide) (by decide)
  have hjoin : controlFlags masked width ++ '|' :: name =
      ['|'].intercalate [controlFlags masked width, name] := by simp [intercalate]
  have hparts : (controlFlags masked width ++ '|' :: name).splitOn '|' =
      [controlFlags masked width, name] := by
    rw [hjoin]
    refine splitOn_intercalate '|' (fun part hpart => ?_) (cons_ne_nil _ _)
    simp only [mem_cons, not_mem_nil, or_false] at hpart
    rcases hpart with rfl | rfl
    · exact hflags
    · exact hname
  have hread : controlWidth width.repr.toList =
      if width ≤ micronControlMaxWidth then some width else none := by
    unfold controlWidth
    rw [if_neg (repr_ne_nil width), parseU64_repr, if_pos hwidth.2]
    simp only [hwidth.1, true_and]
  have hlimits : ¬((none : Option Chars).isSome = true ∨
      micronControlFlagsMaxBytes < utf8Len (controlFlags masked width)) := by
    rintro (h | h)
    · cases h
    · exact absurd (controlFlags_bytes hwidth.2) (Nat.not_le.mpr h)
  unfold parseDescriptor
  rw [if_pos (mem_append_right _ mem_cons_self), hparts]
  dsimp only [getElem?_cons_zero, getElem?_cons_succ, getElem?_nil, getD_some]
  rw [if_neg hlimits, controlKind_flags]
  rw [hread]
  split <;> rfl

/-- What the parser makes of the line of a plain name. -/
theorem parseControl_raw (hwidth : 1 ≤ width ∧ width < 2 ^ 64) (hbar : '|' ∉ name)
    (htick : '\x60' ∉ name) (style : TextStyle) :
    parseControl (controlRaw masked width name value) style =
      if micronControlRawMaxBytes < utf8Len (controlRaw masked width name value) ∨
          micronControlMaxWidth < width ∨ name = [] ∨ micronControlNameMaxBytes < utf8Len name ∨
          micronControlValueMaxBytes < utf8Len value then none
      else some
        ({ kind := "field".toList, name, value, label := [], width, masked, prechecked := false, style },
          utf8Len "field".toList + utf8Len name + utf8Len value + 0 + optionLen style.fg +
            optionLen style.bg) := by
  have hsplit : splitOnce '\x60' (controlRaw masked width name value) =
      some (controlFlags masked width ++ '|' :: name, value) := by
    refine splitOnce_append (fun hmem => ?_) _
    rcases mem_append.mp hmem with hflags | hmem
    · exact controlFlags_notMem (by decide) (by decide) hflags
    · exact (mem_cons.mp hmem).elim (by decide) htick
  have hempty : ¬micronControlValueMaxBytes < utf8Len ([] : Chars) := by decide
  unfold parseControl
  split
  · next hlong => rw [if_pos (.inl hlong)]
  · next hlong =>
    rw [hsplit, bind_eq_bind, bind_some]
    dsimp only
    rw [parseDescriptor_flags hwidth hbar]
    split
    · next hfits =>
      have hnarrow : ¬micronControlMaxWidth < width := Nat.not_lt.mpr hfits
      rw [bind_eq_bind, bind_some]
      simp only [hempty, or_false, hlong, hnarrow, false_or]
      rfl
    · next hwide =>
      rw [if_pos (.inr (.inl (Nat.lt_of_not_le hwide)))]
      rfl

theorem ControlFits.rawBytes (h : ControlFits name value width) (masked : Bool)
    (hwidth : width < 2 ^ 64) :
    utf8Len (controlRaw masked width name value) ≤ micronControlRawMaxBytes := by
  have hflags := @controlFlags_bytes masked width hwidth
  have hname := h.nameBytes
  have hvalue := h.valueBytes
  have hbar : utf8Len ('|' :: name) = 1 + utf8Len name := utf8Len_cons ..
  have htick : utf8Len ('\x60' :: value) = 1 + utf8Len value := utf8Len_cons ..
  unfold micronControlFlagsMaxBytes at hflags
  unfold micronControlNameMaxBytes at hname
  unfold micronControlValueMaxBytes at hvalue
  unfold controlRaw micronControlRawMaxBytes
  rw [utf8Len_append, utf8Len_append, hbar, htick]
  omega

/-- A control that fits is admitted, where the page has no other. -/
theorem exists_admitControl (masked : Bool) (hwidth : 1 ≤ width ∧ width < 2 ^ 64)
    (h : ControlFits name value width) :
    ∃ control ownedBytes,
      (Inline.start .default false).admitControl (controlRaw masked width name value) =
        some (control, ownedBytes) ∧ control.name = name ∧ control.value = value := by
  have hraw := h.rawBytes masked hwidth.2
  have hlimits : ¬(micronControlRawMaxBytes < utf8Len (controlRaw masked width name value) ∨
      micronControlMaxWidth < width ∨ name = [] ∨ micronControlNameMaxBytes < utf8Len name ∨
      micronControlValueMaxBytes < utf8Len value) := by
    rintro (hlong | hwide | hempty | hlong | hlong)
    · exact absurd hraw (Nat.not_le.mpr hlong)
    · exact absurd h.width (Nat.not_le.mpr hwide)
    · exact h.nameNonempty hempty
    · exact absurd h.nameBytes (Nat.not_le.mpr hlong)
    · exact absurd h.valueBytes (Nat.not_le.mpr hlong)
  have hparse := @parseControl_raw masked width name value hwidth
    (fun hmem => (h.nameChars _ hmem).2.2.1 rfl) (fun hmem => (h.nameChars _ hmem).2.1 rfl)
    ParserState.default.style
  rw [if_neg hlimits] at hparse
  -- kind, name, value and style are all that is charged
  have hroom : utf8Len "field".toList + utf8Len name + utf8Len value + 0 +
      optionLen ParserState.default.style.fg + optionLen ParserState.default.style.bg ≤
        micronControlMaxOwnedBytes := by
    have hname := h.nameBytes
    have hvalue := h.valueBytes
    have hkind : utf8Len "field".toList = 5 := by decide
    have hstyle : optionLen ParserState.default.style.fg + optionLen ParserState.default.style.bg ≤
      16 := by decide
    unfold micronControlNameMaxBytes at hname
    unfold micronControlValueMaxBytes at hvalue
    unfold micronControlMaxOwnedBytes
    rw [hkind]
    omega
  have hitems : (Inline.start .default false).state.controlItems < micronControlMaxItems := by decide
  have hadmits : (Inline.start .default false).admitControl (controlRaw masked width name value) =
      parseControl (controlRaw masked width name value) ParserState.default.style := by
    rw [hparse]
    unfold Inline.admitControl
    rw [if_pos hraw, if_pos hitems]
    refine filter_eq_some_iff.mpr ⟨hparse, decide_eq_true ?_⟩
    show 0 + _ ≤ _
    rw [Nat.zero_add]
    exact hroom
  exact ⟨_, _, hadmits.trans hparse, rfl, rfl⟩

theorem parseControl_of_admit {s : Inline} {raw : Chars} {parsed : FieldControl × Nat}
    (h : s.admitControl raw = some parsed) : parseControl raw s.currentStyle = some parsed := by
  unfold Inline.admitControl at h
  split at h
  · obtain ⟨hparsed, -⟩ := filter_eq_some_iff.mp h
    split at hparsed
    · exact hparsed
    · cases hparsed
  · cases h

/-- The line is shown as the control it was made of exactly if that fits. -/
theorem controlShown_raw (hwidth : 1 ≤ width ∧ width < 2 ^ 64) :
    ControlShown ('\x60' :: '<' :: (controlRaw masked width name value ++ ['>'])) name value ↔
      ControlFits name value width := by
  constructor
  · rintro ⟨document, row, control, hparse, hrows, hrow, rfl, rfl⟩
    have hmem : Fragment.control control ∈ allFragments document.rows := by
      rw [hrows, allFragments, flatMap_singleton, hrow]
      exact mem_singleton_self _
    have hparsed : ParsedControl control := parseMicron_parsed hparse _ hmem
    have hone : OneLine (controlRaw masked width control.name control.value) :=
      controlRaw_notMem (by decide) (by decide) (by decide) (by decide) hparsed.nameLine
        hparsed.valueLine
    have hline : OneLine ('\x60' :: '<' ::
        (controlRaw masked width control.name control.value ++ ['>'])) :=
      oneLine_command (by decide) (by decide) hone
    -- the first angle bracket, wherever it comes from, ends the control
    obtain ⟨raw, rest, hcut, hraw⟩ := eq_append_cons_of_mem
      (mem_append_right (controlRaw masked width control.name control.value)
        (mem_singleton_self '>'))
    have hstep := @inlineStep_control .default raw rest hraw
    rw [← hcut] at hstep
    have hmore : ∀ text style, Fragment.control control ≠ plainSpan text style := fun _ _ h => by cases h
    cases hadmits : (Inline.start .default false).admitControl raw with
    | none =>
      rw [hadmits] at hstep
      exact absurd (eq_first_of_page hline (by decide) (by decide) hstep rfl hparse hrows hrow hmore)
        (hmore _ _)
    | some admitted =>
      obtain ⟨found, ownedBytes⟩ := admitted
      rw [hadmits] at hstep
      have hfirst := eq_first_of_page hline (by decide) (by decide) hstep rfl hparse hrows hrow hmore
      obtain rfl := Fragment.control.inj hfirst
      have hcontrol : parseControl raw ParserState.default.style = some (control, ownedBytes) :=
        parseControl_of_admit hadmits
      have hof := parseControl_some hcontrol
      have hnotClosing : '>' ∉ controlRaw masked width control.name control.value :=
        controlRaw_notMem (by decide) (by decide) (by decide) (by decide)
          (fun hc => hraw (hof.nameChars _ hc).1) fun hc => hraw (hof.valueChars _ hc)
      have hsame : raw = controlRaw masked width control.name control.value := by
        have hfound := splitOnce_append hraw rest
        rw [← hcut, splitOnce_append hnotClosing] at hfound
        exact (Prod.mk.inj (some.inj hfound)).1.symm
      rw [hsame, parseControl_raw hwidth (fun hc => (hof.nameChars _ hc).2.2 rfl)
        fun hc => (hof.nameChars _ hc).2.1 rfl] at hcontrol
      split at hcontrol
      · cases hcontrol
      · next hlimits =>
        simp only [not_or, Nat.not_lt] at hlimits
        obtain ⟨-, hnarrow, -⟩ := hlimits
        exact ⟨fun c hc => ⟨fun heq => hparsed.nameLine (heq ▸ hc), (hof.nameChars c hc).2.1,
            (hof.nameChars c hc).2.2, fun heq => hraw (heq ▸ (hof.nameChars c hc).1)⟩,
          hof.name, hof.nameBytes, fun c hc => ⟨fun heq => hparsed.valueLine (heq ▸ hc),
            fun heq => hraw (heq ▸ hof.valueChars c hc)⟩, hof.valueBytes, hnarrow⟩
  · intro h
    have hclosing : '>' ∉ controlRaw masked width name value :=
      controlRaw_notMem (by decide) (by decide) (by decide) (by decide)
        (fun hc => (h.nameChars _ hc).2.2.2 rfl) fun hc => (h.valueChars _ hc).2 rfl
    have hone : OneLine (controlRaw masked width name value) :=
      controlRaw_notMem (by decide) (by decide) (by decide) (by decide)
        (fun hc => (h.nameChars _ hc).1 rfl) fun hc => (h.valueChars _ hc).1 rfl
    have hline : OneLine ('\x60' :: '<' :: (controlRaw masked width name value ++ ['>'])) :=
      oneLine_command (by decide) (by decide) hone
    obtain ⟨control, ownedBytes, hadmits, hname, hvalue⟩ := exists_admitControl masked hwidth h
    have hstep := @inlineStep_control .default _ [] hclosing
    rw [hadmits] at hstep
    have hlen : utf8Len ('\x60' :: '<' :: (controlRaw masked width name value ++ ['>'])) ≤
        micronDocumentMaxLineBytes := by
      have hraw := h.rawBytes masked hwidth.2
      rw [commandLine_bytes _ rfl rfl]
      unfold micronControlRawMaxBytes at hraw
      unfold micronDocumentMaxLineBytes
      omega
    obtain ⟨document, row, hparse, hrows, hrow⟩ := parseMicron_only hline hlen (by decide) (by decide)
      hstep rfl rfl (by simp [Inline.emit]) rfl (Nat.zero_le _) fun link hlink => by cases hlink
    exact ⟨document, row, control, hparse, hrows, hrow, hname, hvalue⟩

theorem explicitControlWidth_some {attrs : TextMap Chars} {width : Nat}
    (h : explicitControlWidth attrs = some width) : 1 ≤ width ∧ width ≤ maxExplicitControlWidth := by
  obtain ⟨parsed, hparsed, rfl⟩ := map_eq_some_iff.mp h
  have hpositive : 0 < parsed := of_decide_eq_true (filter_eq_some_iff.mp hparsed).2
  unfold maxExplicitControlWidth
  omega

/-- The control of an input is shown with the name and the value exactly if they fit. -/
theorem controlShown_iff (name : Chars) {fallbackWidth : Nat} (hfallback : fallbackWidth < 2 ^ 64) :
    ControlShown (controlLine attrs name fallbackWidth) name (controlValue attrs) ↔
      ControlFits name (controlValue attrs)
        ((explicitControlWidth attrs).getD (max fallbackWidth 1)) := by
  rw [controlLine_eq]
  refine controlShown_raw ?_
  cases hwidth : explicitControlWidth attrs with
  | none =>
    rw [getD_none]
    omega
  | some width =>
    obtain ⟨hpositive, hbounded⟩ := explicitControlWidth_some hwidth
    unfold maxExplicitControlWidth at hbounded
    rw [getD_some]
    omega

end Controls
end Omen.Browser
