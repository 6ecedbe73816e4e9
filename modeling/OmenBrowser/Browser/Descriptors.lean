import OmenBrowser.Browser.GeneratedLines
import OmenBrowser.Client.Events
import OmenBrowser.Protocol.Negotiation

/- OMENchat descriptors (`chat/descriptor.rs`): a block of a page, the link it is lowered to, and
   what is read back from the link.

   Correspondence (Rust ↔ Lean):
     `String`                        ↔ its characters
     the loop over the lines         ↔ `readBlock`
     the loop over the link's fields ↔ `readLinkField`, folded; `none` is `return false`
     `to_micron_lines`, `link_line`  ↔ both are `linkLine`: the formats are the same -/
namespace Omen.Browser
open Text Micron Protocol List Option

-- `∀ c ∈ chars` is decided along the list, not over every character there is
attribute [local instance (high)] decidableBAll

variable {cs value key : Chars} {maxBytes : Nat} {rooms : List Chars} {d d' : OmenChatDescriptor}
  {p : Chars × Chars}

def omenchatDescriptorMaxBytes : Nat := 64 * 1024
def omenchatDescriptorMaxLines : Nat := 128
def omenchatDescriptorLineMaxBytes : Nat := 32 * 1024
def omenchatDescriptorPathMaxBytes : Nat := 4 * 1024
def omenchatDescriptorThemeMaxBytes : Nat := 256
def omenchatDescriptorSignatureMaxBytes : Nat := 16 * 1024
def omenchatDescriptorMaxRoomHints : Nat := 64
def omenchatDescriptorMaxCapabilities : Nat := 64
def omenchatDescriptorCapabilityMaxBytes : Nat := 128
def omenchatDescriptorCapabilitiesMaxBytes : Nat := 8 * 1024
def omenchatLinkMaxFields : Nat := 32
def omenchatLinkFieldsMaxBytes : Nat := 16 * 1024
def chatServerDisplayMaxBytes : Nat := 256
def chatServerDestinationMaxBytes : Nat := 4 * 1024
def chatRoomNameMaxBytes : Nat := 64

/-- What a page says of a chat server. -/
structure OmenChatDescriptor where
  serverDestination : Chars
  serverLxmfDestination : Option Chars
  displayName : Option Chars
  descriptorPath : Option Chars
  themeHint : Option Chars
  roomsHint : List Chars
  capabilities : List Chars
  localDisplayName : Option Chars
  descriptorRevision : Option Nat
  signature : Option Chars
  deriving DecidableEq

open OmenChatDescriptor

def OmenChatDescriptor.empty : OmenChatDescriptor :=
  ⟨[], none, none, none, none, [], [], none, none, none⟩

/-! Values. -/

/-- A text that is too long ends in an ellipsis within the limit. -/
def boundedText (value : Chars) (maxBytes : Nat) : Chars :=
  if utf8Len value ≤ maxBytes then value
  else if maxBytes < '…'.utf8Size then []
  else Client.takeBytes (maxBytes - '…'.utf8Size) value ++ ['…']

/-- A text without the quotes around it. -/
def unquote (value : Chars) : Chars :=
  match value with
  | '"' :: rest => if rest.getLast? = some '"' then rest.dropLast else value
  | _ => value

/-- A text that is shown is cut where it is too long; a blank one is none. -/
def displayOptional (value : Chars) (maxBytes : Nat) : Option Chars :=
  if trimChars value = [] then none else some (boundedText value maxBytes)

/-- A text that is used as it is is refused where it is too long. -/
def exactOptional (value : Chars) (maxBytes : Nat) : Option (Option Chars) :=
  if trimChars value = [] then some none
  else if utf8Len value ≤ maxBytes then some (some value)
  else none

/-- The loop of `parse_bounded_list`. -/
def collectItems (maxItems maxItemBytes maxTotalBytes : Nat) (output : List Chars) (totalBytes : Nat) :
    List Chars → Option (List Chars)
  | [] => some output
  | item :: rest =>
    if maxItems ≤ output.length ∨ maxItemBytes < utf8Len item then none
    else if maxTotalBytes < totalBytes + utf8Len item then none
    else collectItems maxItems maxItemBytes maxTotalBytes (output ++ [item])
      (totalBytes + utf8Len item) rest

/-- The items between commas, trimmed, those that are not blank. -/
def parseBoundedList (value : Chars) (maxItems maxItemBytes maxTotalBytes : Nat) :
    Option (List Chars) :=
  collectItems maxItems maxItemBytes maxTotalBytes [] 0
    (((value.splitOn ',').map trimChars).filter (· ≠ []))

/-- A list of rooms, in a block and in a link. -/
def parseRooms (value : Chars) : Option (List Chars) :=
  parseBoundedList value omenchatDescriptorMaxRoomHints chatRoomNameMaxBytes
    (omenchatDescriptorMaxRoomHints * chatRoomNameMaxBytes)

/-! Blocks. -/

/-- What a line of a block sets. -/
def OmenChatDescriptor.set (d : OmenChatDescriptor) (key value : Chars) : Option OmenChatDescriptor :=
  if key = "server".toList then
    if utf8Len value ≤ chatServerDestinationMaxBytes then some { d with serverDestination := value }
    else none
  else if key = "lxmf".toList then
    (exactOptional value chatServerDestinationMaxBytes).map fun lxmf =>
      { d with serverLxmfDestination := lxmf }
  else if key = "name".toList then
    some { d with displayName := displayOptional value chatServerDisplayMaxBytes }
  else if key = "descriptor".toList then
    (exactOptional value omenchatDescriptorPathMaxBytes).map fun path =>
      { d with descriptorPath := path }
  else if key = "theme".toList then
    (exactOptional value omenchatDescriptorThemeMaxBytes).map fun theme => { d with themeHint := theme }
  else if key = "rooms_hint".toList then
    (parseRooms value).map fun rooms => { d with roomsHint := rooms }
  else if key = "capabilities".toList then
    (parseBoundedList value omenchatDescriptorMaxCapabilities omenchatDescriptorCapabilityMaxBytes
      omenchatDescriptorCapabilitiesMaxBytes).map fun capabilities => { d with capabilities }
  else if key = "descriptor_revision".toList then
    some { d with descriptorRevision := parseU64 value }
  else if key = "signature".toList then
    (exactOptional value omenchatDescriptorSignatureMaxBytes).map fun signature =>
      { d with signature }
  else if key = "protocol".toList ∧ value ≠ protocolName.toList then none
  else some d

/-- The loop of `from_block`. -/
def readBlock : List Chars → Nat → Bool → OmenChatDescriptor → Option OmenChatDescriptor
  | [], _, _, d => some d
  | rawLine :: rest, lineIndex, inBlock, d =>
    if omenchatDescriptorMaxLines ≤ lineIndex ∨ omenchatDescriptorLineMaxBytes < utf8Len rawLine then
      none
    else
      let line := trimChars rawLine
      if line = [] then readBlock rest (lineIndex + 1) inBlock d
      else if line = "[omenchat]".toList then readBlock rest (lineIndex + 1) true d
      else if inBlock = false then readBlock rest (lineIndex + 1) inBlock d
      else if ['['] <+: line then some d
      else
        match splitOnce '=' line with
        | none => readBlock rest (lineIndex + 1) inBlock d
        | some (key, value) =>
          match d.set (trimChars key) (unquote (trimChars value)) with
          | none => none
          | some d => readBlock rest (lineIndex + 1) inBlock d

/-- `from_block`: a block without a server is no descriptor. -/
def OmenChatDescriptor.fromBlock (block : Chars) : Option OmenChatDescriptor :=
  if omenchatDescriptorMaxBytes < utf8Len block then none
  else
    match readBlock (lines block) 0 false .empty with
    | none => none
    | some d => if d.serverDestination = [] then none else some d

/-! Links. -/

/-- A field without the delimiters of its place. -/
def sanitizeLinkField (value : Chars) : Chars :=
  trimChars (value.map fun c => if c = '\x60' ∨ c = '|' then ' ' else c)

/-- A field of an optional text that is not empty. -/
def keyField (key : Chars) (value : Option Chars) : List Chars :=
  match value.filter (· ≠ []) with
  | some value => [key ++ '=' :: sanitizeLinkField value]
  | none => []

section
variable (d : OmenChatDescriptor)

/-- `link_fields`. -/
def OmenChatDescriptor.linkFields : List Chars :=
  keyField "name".toList d.displayName ++ keyField "lxmf".toList d.serverLxmfDestination ++
    keyField "theme".toList d.themeHint ++
    if d.roomsHint = [] then []
    else ["rooms_hint".toList ++ '=' :: sanitizeLinkField ([','].intercalate d.roomsHint)]

/-- The name of the server, with no backtick in it. -/
def OmenChatDescriptor.linkLabel : Chars :=
  (d.displayName.getD "Open OMENchat".toList).map fun c => if c = '\x60' then '\'' else c

def OmenChatDescriptor.linkTarget : Chars :=
  "omenchat://".toList ++ d.serverDestination.filter (· ≠ '\x60')

/-- The line the block is replaced by. -/
def OmenChatDescriptor.toMicronLines : List Chars :=
  [linkLine d.linkLabel d.linkTarget d.linkFields]

end

/-! Reading a link. -/

def stripPrefix (before text : Chars) : Option Chars :=
  if before <+: text then some (text.drop before.length) else none

/-- What stands behind the scheme, which is written with or without slashes. -/
def normalizeOmenchatLinkDestination (link : Chars) : Option Chars :=
  let trimmed := trimChars link
  ((stripPrefix "omenchat://".toList trimmed).or (stripPrefix "omenchat:".toList trimmed)).map
    fun rest => (trimChars rest).dropWhile (· == '/')

/-- `from_omenchat_link`: the server of a link, and nothing else. -/
def OmenChatDescriptor.fromOmenchatLink (link : Chars) : Option OmenChatDescriptor :=
  match normalizeOmenchatLinkDestination link with
  | none => none
  | some destination =>
    if destination = [] ∨ chatServerDestinationMaxBytes < utf8Len destination then none
    else some { empty with serverDestination := destination }

/-- What the loop over the fields of a link keeps. -/
structure LinkFieldsRead where
  displayName : Option (Option Chars)
  lxmf : Option (Option Chars)
  theme : Option (Option Chars)
  rooms : Option (List Chars)

def LinkFieldsRead.empty : LinkFieldsRead := ⟨none, none, none, none⟩

/-- A field of a link; those with other keys are passed over, and a value that is too long ends the
loop. -/
def readLinkField (read : LinkFieldsRead) (field : Chars) : Option LinkFieldsRead :=
  match splitOnce '=' field with
  | none => some read
  | some (key, value) =>
    let key := trimChars key
    let value := trimChars value
    if key = "name".toList ∨ key = "display_name".toList then
      if value = [] then some read
      else some { read with displayName := some (displayOptional value chatServerDisplayMaxBytes) }
    else if key = "lxmf".toList then
      if value = [] then some read
      else (exactOptional value chatServerDestinationMaxBytes).map fun lxmf =>
        { read with lxmf := some lxmf }
    else if key = "theme".toList then
      if value = [] then some read
      else (exactOptional value omenchatDescriptorThemeMaxBytes).map fun theme =>
        { read with theme := some theme }
    else if key = "rooms".toList ∨ key = "rooms_hint".toList then
      (parseRooms value).map fun rooms => { read with rooms := some rooms }
    else some read

/-- Whether the fields are applied, and what the descriptor is then. -/
def OmenChatDescriptor.applyLinkFields (d : OmenChatDescriptor) (fields : List Chars) :
    Bool × OmenChatDescriptor :=
  if omenchatLinkMaxFields < fields.length ∨
      omenchatLinkFieldsMaxBytes < (fields.map utf8Len).sum then (false, d)
  else
    match fields.foldlM readLinkField .empty with
    | none => (false, d)
    | some read =>
      (true, { d with
        displayName := read.displayName.getD d.displayName
        serverLxmfDestination := read.lxmf.getD d.serverLxmfDestination
        themeHint := read.theme.getD d.themeHint
        roomsHint := read.rooms.getD d.roomsHint })

/-! What a block can say. -/

/-- A room as a block can name it. -/
structure RoomHint (room : Chars) : Prop where
  nonempty : room ≠ []
  trimmed : trimChars room = room
  whole : ',' ∉ room
  bytes : utf8Len room ≤ chatRoomNameMaxBytes
  line : OneLine room

/-- A text of a block within its limit. -/
def TextWithin (value : Option Chars) (maxBytes : Nat) : Prop :=
  ∀ text, value = some text → utf8Len text ≤ maxBytes ∧ OneLine text

/-- What holds of a descriptor while a block is read. -/
structure DescriptorOf (d : OmenChatDescriptor) : Prop where
  serverBytes : utf8Len d.serverDestination ≤ chatServerDestinationMaxBytes
  serverLine : OneLine d.serverDestination
  name : TextWithin d.displayName chatServerDisplayMaxBytes
  lxmf : TextWithin d.serverLxmfDestination chatServerDestinationMaxBytes
  theme : TextWithin d.themeHint omenchatDescriptorThemeMaxBytes
  rooms : ∀ room ∈ d.roomsHint, RoomHint room
  roomItems : d.roomsHint.length ≤ omenchatDescriptorMaxRoomHints
  roomBytes : (d.roomsHint.map utf8Len).sum ≤ omenchatDescriptorMaxRoomHints * chatRoomNameMaxBytes

theorem takeBytes_le (n : Nat) (cs : Chars) : utf8Len (Client.takeBytes n cs) ≤ n := by
  induction cs generalizing n with
  | nil => exact Nat.zero_le _
  | cons c cs ih =>
    unfold Client.takeBytes
    split
    · next hfits =>
      have hrest := ih (n - c.utf8Size)
      rw [utf8Len_cons]
      omega
    · exact Nat.zero_le _

theorem takeBytes_subset {n : Nat} {c : Char} (h : c ∈ Client.takeBytes n cs) : c ∈ cs := by
  induction cs generalizing n with
  | nil => exact h
  | cons d cs ih =>
    unfold Client.takeBytes at h
    split at h
    · exact (mem_cons.mp h).elim (fun heq => heq ▸ mem_cons_self) fun hmem =>
        mem_cons_of_mem _ (ih hmem)
    · cases h

theorem boundedText_le : utf8Len (boundedText value maxBytes) ≤ maxBytes := by
  unfold boundedText
  split
  · next h => exact h
  · split
    · exact Nat.zero_le _
    · next hroom =>
      have hfront := takeBytes_le (maxBytes - '…'.utf8Size) value
      have hdots : utf8Len ['…'] = '…'.utf8Size := rfl
      rw [utf8Len_append, hdots]
      omega

theorem boundedText_line (h : OneLine value) : OneLine (boundedText value maxBytes) := by
  unfold boundedText
  split
  · exact h
  · split
    · exact fun hnil : '\n' ∈ [] => nomatch hnil
    · refine OneLine.append (h.of_subset fun c hc => takeBytes_subset hc) ?_
      exact oneLine_singleton (by decide)

theorem mem_unquote {c : Char} (h : c ∈ unquote value) : c ∈ value := by
  unfold unquote at h
  split at h
  · split at h
    · exact mem_cons_of_mem _ (mem_of_mem_dropLast h)
    · exact h
  · exact h

theorem displayOptional_within (h : OneLine value) :
    TextWithin (displayOptional value maxBytes) maxBytes := by
  intro text htext
  unfold displayOptional at htext
  split at htext
  · cases htext
  · cases htext
    exact ⟨boundedText_le, boundedText_line h⟩

theorem exactOptional_within {read : Option Chars} (h : OneLine value)
    (hread : exactOptional value maxBytes = some read) : TextWithin read maxBytes := by
  intro text htext
  unfold exactOptional at hread
  split at hread
  · rw [← some.inj hread] at htext
    cases htext
  · split at hread
    · next hfits =>
      rw [← some.inj hread] at htext
      cases htext
      exact ⟨hfits, h⟩
    · cases hread

/-- The loop takes the items as they are, within its limits. -/
theorem collectItems_some {maxItems maxItemBytes maxTotalBytes totalBytes : Nat}
    {items output read : List Chars} (hitems : output.length ≤ maxItems)
    (hbytes : totalBytes ≤ maxTotalBytes) :
    collectItems maxItems maxItemBytes maxTotalBytes output totalBytes items = some read ↔
      read = output ++ items ∧ output.length + items.length ≤ maxItems ∧
        (∀ item ∈ items, utf8Len item ≤ maxItemBytes) ∧
        totalBytes + (items.map utf8Len).sum ≤ maxTotalBytes := by
  induction items generalizing output totalBytes with
  | nil =>
    simp only [collectItems, append_nil, length_nil, map_nil, sum_nil,
      Nat.add_zero, some.injEq, not_mem_nil, false_implies, implies_true, true_and]
    exact ⟨fun heq => ⟨heq.symm, hitems, hbytes⟩, fun h => h.1.symm⟩
  | cons item rest ih =>
    unfold collectItems
    simp only [length_cons, forall_mem_cons, map_cons, sum_cons]
    split
    · next hfull =>
      simp only [reduceCtorEq, false_iff]
      rintro ⟨-, hroom, ⟨hsize, -⟩, -⟩
      omega
    · next hroom =>
      split
      · simp only [reduceCtorEq, false_iff]
        rintro ⟨-, -, -, htotal⟩
        omega
      · next htotal =>
        have hlength : (output ++ [item]).length = output.length + 1 := length_append
        rw [ih (by omega) (by omega), hlength, append_assoc, singleton_append]
        constructor
        · rintro ⟨hread, hall, hsizes, hsum⟩
          exact ⟨hread, by omega, ⟨by omega, hsizes⟩, by omega⟩
        · rintro ⟨hread, hall, ⟨-, hsizes⟩, hsum⟩
          exact ⟨hread, by omega, hsizes, by omega⟩

/-- The items of a list of rooms. -/
def roomItems (value : Chars) : List Chars :=
  ((value.splitOn ',').map trimChars).filter (· ≠ [])

theorem parseRooms_some :
    parseRooms value = some rooms ↔
      rooms = roomItems value ∧ rooms.length ≤ omenchatDescriptorMaxRoomHints ∧
        (∀ room ∈ rooms, utf8Len room ≤ chatRoomNameMaxBytes) ∧
        (rooms.map utf8Len).sum ≤ omenchatDescriptorMaxRoomHints * chatRoomNameMaxBytes := by
  unfold parseRooms parseBoundedList
  rw [collectItems_some (Nat.zero_le _) (Nat.zero_le _), nil_append, length_nil,
    Nat.zero_add, Nat.zero_add]
  constructor
  · rintro ⟨rfl, h⟩
    exact ⟨rfl, h⟩
  · rintro ⟨rfl, h⟩
    exact ⟨rfl, h⟩

theorem mem_roomItems {room : Chars} (h : room ∈ roomItems value) :
    room ≠ [] ∧ trimChars room = room ∧ ',' ∉ room ∧ ∀ c ∈ room, c ∈ value := by
  obtain ⟨hmem, hne⟩ := mem_filter.mp h
  obtain ⟨part, hpart, rfl⟩ := mem_map.mp hmem
  exact ⟨of_decide_eq_true hne, trimChars_trimChars part,
    fun hcomma => (mem_of_mem_splitOn hpart (mem_trimChars hcomma)).2 rfl,
    fun c hc => (mem_of_mem_splitOn hpart (mem_trimChars hc)).1⟩

theorem OmenChatDescriptor.set_of (hd : DescriptorOf d) (hvalue : OneLine value)
    (h : d.set key value = some d') : DescriptorOf d' := by
  -- the key is one of those that are known, in the order they are tried
  rcases ite_eq_iff.mp h with ⟨-, h⟩ | ⟨-, h⟩
  · rcases ite_eq_iff.mp h with ⟨hfits, h⟩ | ⟨-, h⟩
    · cases h
      exact { hd with serverBytes := hfits, serverLine := hvalue }
    · cases h
  rcases ite_eq_iff.mp h with ⟨-, h⟩ | ⟨-, h⟩
  · obtain ⟨lxmf, hread, rfl⟩ := map_eq_some_iff.mp h
    exact { hd with lxmf := exactOptional_within hvalue hread }
  rcases ite_eq_iff.mp h with ⟨-, h⟩ | ⟨-, h⟩
  · cases h
    exact { hd with name := displayOptional_within hvalue }
  rcases ite_eq_iff.mp h with ⟨-, h⟩ | ⟨-, h⟩
  · obtain ⟨path, -, rfl⟩ := map_eq_some_iff.mp h
    exact { hd with }
  rcases ite_eq_iff.mp h with ⟨-, h⟩ | ⟨-, h⟩
  · obtain ⟨theme, hread, rfl⟩ := map_eq_some_iff.mp h
    exact { hd with theme := exactOptional_within hvalue hread }
  rcases ite_eq_iff.mp h with ⟨-, h⟩ | ⟨-, h⟩
  · obtain ⟨rooms, hread, rfl⟩ := map_eq_some_iff.mp h
    obtain ⟨rfl, hitems, hsizes, hbytes⟩ := parseRooms_some.mp hread
    refine { hd with rooms := fun room hroom => ?_, roomItems := hitems, roomBytes := hbytes }
    obtain ⟨hne, htrim, hwhole, hmem⟩ := mem_roomItems hroom
    exact ⟨hne, htrim, hwhole, hsizes room hroom, hvalue.of_subset hmem⟩
  rcases ite_eq_iff.mp h with ⟨-, h⟩ | ⟨-, h⟩
  · obtain ⟨capabilities, -, rfl⟩ := map_eq_some_iff.mp h
    exact { hd with }
  rcases ite_eq_iff.mp h with ⟨-, h⟩ | ⟨-, h⟩
  · cases h
    exact { hd with }
  rcases ite_eq_iff.mp h with ⟨-, h⟩ | ⟨-, h⟩
  · obtain ⟨signature, -, rfl⟩ := map_eq_some_iff.mp h
    exact { hd with }
  rcases ite_eq_iff.mp h with ⟨-, h⟩ | ⟨-, h⟩
  · cases h
  · cases h
    exact hd

theorem descriptorOf_empty : DescriptorOf .empty where
  serverBytes := Nat.zero_le _
  serverLine := fun hnil : '\n' ∈ [] => nomatch hnil
  name := fun _ h => nomatch h
  lxmf := fun _ h => nomatch h
  theme := fun _ h => nomatch h
  rooms := fun _ h => nomatch h
  roomItems := Nat.zero_le _
  roomBytes := Nat.zero_le _

theorem readBlock_of {rawLines : List Chars} {lineIndex : Nat} {inBlock : Bool}
    (hlines : ∀ line ∈ rawLines, OneLine line) (hd : DescriptorOf d)
    (h : readBlock rawLines lineIndex inBlock d = some d') : DescriptorOf d' := by
  induction rawLines generalizing lineIndex inBlock d with
  | nil =>
    cases h
    exact hd
  | cons rawLine rest ih =>
    have hrest : ∀ line ∈ rest, OneLine line := fun l hl => hlines l (mem_cons_of_mem _ hl)
    have hline : OneLine (trimChars rawLine) :=
      (hlines rawLine mem_cons_self).of_subset fun c hc => mem_trimChars hc
    unfold readBlock at h
    split at h
    · cases h
    · dsimp only at h
      split at h
      · exact ih hrest hd h
      · split at h
        · exact ih hrest hd h
        · split at h
          · exact ih hrest hd h
          · split at h
            · cases h
              exact hd
            · split at h
              · exact ih hrest hd h
              · next key value hcut =>
                have hparts := eq_of_splitOnce hcut
                have hvalue : OneLine (unquote (trimChars value)) := by
                  refine hline.of_subset fun c hc => ?_
                  rw [hparts]
                  exact mem_append_right _ (mem_cons_of_mem _
                    (mem_trimChars (mem_unquote hc)))
                split at h
                · cases h
                · next d₁ hset => exact ih hrest (set_of hd hvalue hset) h

theorem fromBlock_of {block : Chars} (h : fromBlock block = some d) :
    DescriptorOf d ∧ d.serverDestination ≠ [] := by
  unfold fromBlock at h
  split at h
  · cases h
  · split at h
    · cases h
    · next hread =>
      split at h
      · cases h
      · next hne =>
        cases h
        exact ⟨readBlock_of (lines_oneLine block) descriptorOf_empty hread, hne⟩

/-! What the link keeps of it. -/

section Sanitize
variable {value : Chars} {c : Char}

/-- A character of a field is one of the text, or the blank that stands for a delimiter. -/
theorem mem_sanitize (h : c ∈ sanitizeLinkField value) :
    c ≠ '\x60' ∧ c ≠ '|' ∧ (c = ' ' ∨ c ∈ value) := by
  obtain ⟨d, hd, rfl⟩ := mem_map.mp (mem_trimChars h)
  split
  · exact ⟨by decide, by decide, .inl rfl⟩
  · next hplain =>
    obtain ⟨htick, hbar⟩ := not_or.mp hplain
    exact ⟨htick, hbar, .inr hd⟩

/-- What is neither a delimiter nor white space is kept. -/
theorem mem_sanitize_of_mem (hc : isWhitespace c = false) (htick : c ≠ '\x60') (hbar : c ≠ '|')
    (h : c ∈ value) : c ∈ sanitizeLinkField value := by
  have hmapped : c ∈ value.map fun c => if c = '\x60' ∨ c = '|' then ' ' else c :=
    mem_map.mpr ⟨c, h, if_neg (not_or.mpr ⟨htick, hbar⟩)⟩
  exact (mem_of_trimChars hmapped).resolve_left fun hwhite => by
    rw [hc] at hwhite
    cases hwhite

theorem sanitize_of_plain (htrim : trimChars value = value) (htick : '\x60' ∉ value)
    (hbar : '|' ∉ value) : sanitizeLinkField value = value := by
  have hmap : (value.map fun c => if c = '\x60' ∨ c = '|' then ' ' else c) = value := by
    have hsame : ∀ c ∈ value, (if c = '\x60' ∨ c = '|' then ' ' else c) = c := by
      intro c hc
      have hnotTick : c ≠ '\x60' := fun heq => htick (heq ▸ hc)
      have hnotBar : c ≠ '|' := fun heq => hbar (heq ▸ hc)
      rw [if_neg (not_or.mpr ⟨hnotTick, hnotBar⟩)]
    exact (map_congr_left hsame).trans (map_id' value)
  unfold sanitizeLinkField
  rw [hmap, htrim]

theorem trimChars_sublist (cs : Chars) : (trimChars cs).Sublist cs := by
  unfold trimChars
  refine List.Sublist.trans ?_ (dropWhile_sublist isWhitespace)
  rw [← reverse_sublist, reverse_reverse]
  exact dropWhile_sublist _

theorem utf8Len_trimChars (cs : Chars) : utf8Len (trimChars cs) ≤ utf8Len cs := by
  exact ((trimChars_sublist cs).map Char.utf8Size).sum_le_sum fun _ _ => Nat.zero_le _

theorem utf8Len_map_le {f : Char → Char} (h : ∀ c, (f c).utf8Size ≤ c.utf8Size) (cs : Chars) :
    utf8Len (cs.map f) ≤ utf8Len cs := by
  induction cs with
  | nil => exact Nat.le_refl _
  | cons c cs ih =>
    rw [map_cons, utf8Len_cons, utf8Len_cons]
    exact Nat.add_le_add (h c) ih

theorem utf8Len_sanitize (value : Chars) : utf8Len (sanitizeLinkField value) ≤ utf8Len value := by
  refine Nat.le_trans (utf8Len_trimChars _) (utf8Len_map_le (fun c => ?_) _)
  split
  · exact c.utf8Size_pos
  · exact Nat.le_refl _

end Sanitize

/-! The destination. -/

section Destination
variable {server : Chars}

/-- Only the end of a text that begins with other characters is trimmed. -/
theorem trimChars_append {before : Chars} (hne : before ≠ [])
    (hbefore : ∀ c ∈ before, isWhitespace c = false) (cs : Chars) :
    trimChars (before ++ cs) = before ++ (cs.reverse.dropWhile isWhitespace).reverse := by
  have hfront : (before ++ cs).dropWhile isWhitespace = before ++ cs := by
    cases before with
    | nil => exact absurd rfl hne
    | cons c rest =>
      rw [cons_append, dropWhile_cons_of_neg]
      rw [hbefore c mem_cons_self]
      exact Bool.false_ne_true
  have hback : before.reverse.dropWhile isWhitespace = before.reverse := by
    cases hreverse : before.reverse with
    | nil => rfl
    | cons c rest =>
      have hc : c ∈ before := mem_reverse.mp (hreverse ▸ mem_cons_self)
      rw [dropWhile_cons_of_neg]
      rw [hbefore c hc]
      exact Bool.false_ne_true
  unfold trimChars
  rw [hfront, reverse_append, dropWhile_append, hback]
  split
  · next hempty =>
    rw [isEmpty_iff.mp hempty]
    simp
  · simp

/-- The end of a text may be trimmed first. -/
theorem trimChars_rtrim (cs : Chars) :
    trimChars (cs.reverse.dropWhile isWhitespace).reverse = trimChars cs := by
  show ((cs.rdropWhile isWhitespace).dropWhile isWhitespace).rdropWhile isWhitespace = trimChars cs
  rw [dropWhile_rdropWhile, rdropWhile_idempotent]
  rfl

theorem normalize_linkTarget (server : Chars) :
    normalizeOmenchatLinkDestination ("omenchat://".toList ++ server) =
      some ((trimChars server).dropWhile (· == '/')) := by
  have hscheme : ∀ c ∈ "omenchat://".toList, isWhitespace c = false := by decide
  have hprefix : "omenchat://".toList <+:
      "omenchat://".toList ++ (server.reverse.dropWhile isWhitespace).reverse :=
    prefix_append _ _
  unfold normalizeOmenchatLinkDestination stripPrefix
  rw [trimChars_append (by decide) hscheme]
  dsimp only
  rw [if_pos hprefix, some_or, map_some, drop_left, trimChars_rtrim]

theorem eq_of_fromOmenchatLink {link : Chars} {found : OmenChatDescriptor}
    (h : fromOmenchatLink link = some found) :
    found = { empty with serverDestination := found.serverDestination } := by
  unfold fromOmenchatLink at h
  split at h
  · cases h
  · split at h
    · cases h
    · cases h
      rfl

/-- The destination is read back exactly if nothing of it is removed. -/
theorem fromOmenchatLink_iff (hd : DescriptorOf d) (hne : d.serverDestination ≠ []) :
    fromOmenchatLink d.linkTarget =
        some { empty with serverDestination := d.serverDestination } ↔
      '\x60' ∉ d.serverDestination ∧ trimChars d.serverDestination = d.serverDestination ∧
        d.serverDestination.head? ≠ some '/' := by
  unfold fromOmenchatLink linkTarget
  rw [normalize_linkTarget]
  dsimp only
  constructor
  · intro h
    split at h
    · cases h
    · have hsame := congrArg serverDestination (some.inj h)
      dsimp only at hsame
      have htick : '\x60' ∉ d.serverDestination := by
        intro hmem
        rw [← hsame] at hmem
        have hkept := (trimChars_sublist _).subset ((dropWhile_sublist _).subset hmem)
        exact absurd rfl (of_decide_eq_true (mem_filter.mp hkept).2)
      have hfilter : d.serverDestination.filter (· ≠ '\x60') = d.serverDestination :=
        filter_eq_self.mpr fun c hc => decide_eq_true fun heq => htick (heq ▸ hc)
      rw [hfilter] at hsame
      -- neither step may shorten the text
      have hdrop : ((trimChars d.serverDestination).dropWhile (· == '/')).length ≤
          (trimChars d.serverDestination).length := (dropWhile_sublist _).length_le
      have htrimmed : trimChars d.serverDestination = d.serverDestination :=
        (trimChars_sublist _).eq_of_length_le (by rwa [hsame] at hdrop)
      rw [htrimmed] at hsame
      refine ⟨htick, htrimmed, fun hslash => ?_⟩
      cases hserver : d.serverDestination with
      | nil => exact hne hserver
      | cons c rest =>
        rw [hserver] at hslash hsame
        cases hslash
        rw [dropWhile_cons_of_pos rfl] at hsame
        have hshort := (dropWhile_sublist (p := (· == '/')) (l := rest)).length_le
        rw [hsame, length_cons] at hshort
        omega
  · rintro ⟨htick, htrimmed, hslash⟩
    have hfilter : d.serverDestination.filter (· ≠ '\x60') = d.serverDestination :=
      filter_eq_self.mpr fun c hc => decide_eq_true fun heq => htick (heq ▸ hc)
    have hdrop : d.serverDestination.dropWhile (· == '/') = d.serverDestination := by
      cases hserver : d.serverDestination with
      | nil => rfl
      | cons c rest =>
        rw [hserver] at hslash
        refine dropWhile_cons_of_neg fun heq => hslash ?_
        rw [eq_of_beq heq]
        rfl
    have hfits : ¬(d.serverDestination = [] ∨
        chatServerDestinationMaxBytes < utf8Len d.serverDestination) := by
      rintro (hempty | hlong)
      · exact hne hempty
      · exact absurd hd.serverBytes (Nat.not_le.mpr hlong)
    rw [hfilter, htrimmed, hdrop, if_neg hfits]

end Destination

/-! The fields. -/

/-- The texts that the fields of the link are made of, under their keys. -/
def keyText (key : Chars) (value : Option Chars) : List (Chars × Chars) :=
  match value.filter (· ≠ []) with
  | some value => [(key, value)]
  | none => []

/-- The keys of the link with their texts, before they are sanitized. -/
def OmenChatDescriptor.linkTexts (d : OmenChatDescriptor) : List (Chars × Chars) :=
  keyText "name".toList d.displayName ++ keyText "lxmf".toList d.serverLxmfDestination ++
    keyText "theme".toList d.themeHint ++
    if d.roomsHint = [] then [] else [("rooms_hint".toList, [','].intercalate d.roomsHint)]

def linkField (p : Chars × Chars) : Chars := p.1 ++ '=' :: sanitizeLinkField p.2

section Fields
variable {d : OmenChatDescriptor} {read : LinkFieldsRead}

theorem keyField_eq (key : Chars) (value : Option Chars) :
    keyField key value = (keyText key value).map linkField := by
  unfold keyField keyText
  split <;> rfl

theorem linkFields_eq (d : OmenChatDescriptor) : d.linkFields = d.linkTexts.map linkField := by
  unfold OmenChatDescriptor.linkFields OmenChatDescriptor.linkTexts
  rw [map_append, map_append, map_append, keyField_eq, keyField_eq, keyField_eq]
  split <;> rfl

theorem mem_keyText {value : Option Chars} (h : p ∈ keyText key value) :
    p.1 = key ∧ value = some p.2 := by
  unfold keyText at h
  split at h
  · next text hvalue =>
    obtain rfl := mem_singleton.mp h
    exact ⟨rfl, (filter_eq_some_iff.mp hvalue).1⟩
  · cases h

theorem keyText_mem {text : Chars} {value : Option Chars} (hvalue : value = some text)
    (hne : text ≠ []) : (key, text) ∈ keyText key value := by
  unfold keyText
  rw [hvalue, filter_some, if_pos (decide_eq_true hne)]
  exact mem_singleton_self _

/-- Each text of the link is one of these four. -/
theorem mem_linkTexts (h : p ∈ d.linkTexts) :
    p.1 = "name".toList ∧ d.displayName = some p.2 ∨
      p.1 = "lxmf".toList ∧ d.serverLxmfDestination = some p.2 ∨
      p.1 = "theme".toList ∧ d.themeHint = some p.2 ∨
      p.1 = "rooms_hint".toList ∧ d.roomsHint ≠ [] ∧ p.2 = [','].intercalate d.roomsHint := by
  rcases mem_append.mp h with h | hrooms
  · rcases mem_append.mp h with h | htheme
    · rcases mem_append.mp h with hname | hlxmf
      · exact .inl (mem_keyText hname)
      · exact .inr (.inl (mem_keyText hlxmf))
    · exact .inr (.inr (.inl (mem_keyText htheme)))
  · split at hrooms
    · cases hrooms
    · next hne =>
      obtain rfl := mem_singleton.mp hrooms
      exact .inr (.inr (.inr ⟨rfl, hne, rfl⟩))

theorem length_linkTexts (d : OmenChatDescriptor) : d.linkTexts.length ≤ 4 := by
  have hkey : ∀ key value, (keyText key value).length ≤ 1 := by
    intro key value
    unfold keyText
    split
    · exact Nat.le_refl _
    · exact Nat.zero_le _
  have hname := hkey "name".toList d.displayName
  have hlxmf := hkey "lxmf".toList d.serverLxmfDestination
  have htheme := hkey "theme".toList d.themeHint
  have hrooms : (if d.roomsHint = [] then []
      else [("rooms_hint".toList, [','].intercalate d.roomsHint)]).length ≤ 1 := by
    split
    · exact Nat.zero_le _
    · exact Nat.le_refl _
  unfold linkTexts
  rw [length_append, length_append, length_append]
  omega

/-! Rooms. -/

theorem trimChars_eq_self (hhead : ∀ c, cs.head? = some c → isWhitespace c = false)
    (hlast : ∀ c, cs.getLast? = some c → isWhitespace c = false) : trimChars cs = cs := by
  have hfront : cs.dropWhile isWhitespace = cs := by
    cases cs with
    | nil => rfl
    | cons c rest => exact dropWhile_cons_of_neg (by simp [hhead c rfl])
  have hback : cs.reverse.dropWhile isWhitespace = cs.reverse := by
    cases hreverse : cs.reverse with
    | nil => rfl
    | cons c rest =>
      have hc : cs.getLast? = some c := by
        rw [← head?_reverse, hreverse]
        rfl
      exact dropWhile_cons_of_neg (by simp [hlast c hc])
  unfold trimChars
  rw [hfront, hback, reverse_reverse]

theorem ends_of_trimmed (h : trimChars cs = cs) :
    (∀ c, cs.head? = some c → isWhitespace c = false) ∧
      ∀ c, cs.getLast? = some c → isWhitespace c = false := by
  have hdrop : cs.dropWhile isWhitespace = cs := h ▸ dropWhile_trimChars cs
  have hback : cs.reverse.dropWhile isWhitespace = cs.reverse := by
    have hkept : (trimChars cs).rdropWhile isWhitespace = trimChars cs := rdropWhile_idempotent _ _
    rw [h] at hkept
    exact reverse_eq_iff.mp hkept
  have hkept : ∀ {l : Chars} {c : Char}, l.dropWhile isWhitespace = l → l.head? = some c →
      isWhitespace c = false := by
    intro l c hl hc
    have hfirst := head?_dropWhile_not isWhitespace l
    rw [hl, hc] at hfirst
    exact hfirst
  exact ⟨fun c hc => hkept hdrop hc, fun c hc => hkept hback (by rw [head?_reverse, hc])⟩

/-- Rooms are joined to a text that begins and ends as they do. -/
theorem trimChars_rooms (h : ∀ room ∈ rooms, RoomHint room) :
    trimChars ([','].intercalate rooms) = [','].intercalate rooms := by
  have hends : (∀ c, ([','].intercalate rooms).head? = some c → isWhitespace c = false) ∧
      ∀ c, ([','].intercalate rooms).getLast? = some c → isWhitespace c = false := by
    induction rooms with
    | nil => exact ⟨(fun c hc => nomatch hc), fun c hc => nomatch hc⟩
    | cons room rest ih =>
      have hroom := h room mem_cons_self
      obtain ⟨hhead, hlast⟩ := ends_of_trimmed hroom.trimmed
      cases rest with
      | nil =>
        have hone : [','].intercalate [room] = room := by simp [intercalate]
        rw [hone]
        exact ⟨hhead, hlast⟩
      | cons next rest =>
        obtain ⟨-, hlastRest⟩ := ih fun r hr => h r (mem_cons_of_mem _ hr)
        rw [intercalate_cons_cons]
        constructor
        · intro c hc
          rw [head?_append_of_ne_nil _ hroom.nonempty] at hc
          exact hhead c hc
        · intro c hc
          rw [getLast?_append_of_ne_nil _ (cons_ne_nil _ _), getLast?_cons] at hc
          cases hrest : ([','].intercalate (next :: rest)).getLast? with
          | none =>
            rw [hrest] at hc
            cases hc
            decide
          | some d =>
            rw [hrest] at hc
            cases hc
            exact hlastRest _ hrest
  exact trimChars_eq_self hends.1 hends.2

theorem roomItems_rooms (h : ∀ room ∈ rooms, RoomHint room) (hne : rooms ≠ []) :
    roomItems ([','].intercalate rooms) = rooms := by
  have hsplit : ([','].intercalate rooms).splitOn ',' = rooms :=
    splitOn_intercalate ',' (fun room hroom => (h room hroom).whole) hne
  have hmap : rooms.map trimChars = rooms :=
    (map_congr_left fun room hroom => (h room hroom).trimmed).trans (map_id' rooms)
  unfold roomItems
  rw [hsplit, hmap]
  exact filter_eq_self.mpr fun room hroom => decide_eq_true (h room hroom).nonempty

/-- The rooms are read back exactly if none of them holds a delimiter of links. -/
theorem parseRooms_iff (hd : DescriptorOf d) (hne : d.roomsHint ≠ []) :
    parseRooms (sanitizeLinkField ([','].intercalate d.roomsHint)) = some d.roomsHint ↔
      ∀ room ∈ d.roomsHint, '\x60' ∉ room ∧ '|' ∉ room := by
  rw [parseRooms_some]
  constructor
  · rintro ⟨hrooms, -⟩ room hroom
    rw [hrooms] at hroom
    have hchars := (mem_roomItems hroom).2.2.2
    exact ⟨fun hmem => (mem_sanitize (hchars _ hmem)).1 rfl,
      fun hmem => (mem_sanitize (hchars _ hmem)).2.1 rfl⟩
  · intro h
    have hplain : ∀ c, c ≠ ',' → (∀ room ∈ d.roomsHint, c ∉ room) →
        c ∉ [','].intercalate d.roomsHint := fun c hcomma hrooms hmem =>
      (mem_intercalate hmem).elim hcomma fun ⟨room, hroom, hc⟩ => hrooms room hroom hc
    rw [sanitize_of_plain (trimChars_rooms hd.rooms)
      (hplain _ (by decide) fun room hroom => (h room hroom).1)
      (hplain _ (by decide) fun room hroom => (h room hroom).2), roomItems_rooms hd.rooms hne]
    exact ⟨rfl, hd.roomItems, fun room hroom => (hd.rooms room hroom).bytes, hd.roomBytes⟩

/-! The fields read. -/

theorem trimChars_sanitize (value : Chars) :
    trimChars (sanitizeLinkField value) = sanitizeLinkField value := trimChars_trimChars _

theorem splitOnce_linkField (hkey : '=' ∉ key) (value : Chars) :
    splitOnce '=' (linkField (key, value)) = some (key, sanitizeLinkField value) :=
  splitOnce_append hkey _

/-- A sanitized text within the limit is kept. -/
theorem exactOptional_sanitize (h : utf8Len value ≤ maxBytes) :
    ∃ kept, exactOptional (sanitizeLinkField value) maxBytes = some kept := by
  have hfits : utf8Len (sanitizeLinkField value) ≤ maxBytes := Nat.le_trans (utf8Len_sanitize value) h
  unfold exactOptional
  split
  · exact ⟨_, rfl⟩
  · exact ⟨_, rfl⟩

section
variable (read : LinkFieldsRead)

theorem read_name (value : Chars) :
    ∃ read', readLinkField read (linkField ("name".toList, value)) = some read' ∧
      read'.rooms = read.rooms := by
  unfold readLinkField
  rw [splitOnce_linkField (by decide)]
  dsimp only
  rw [if_pos (.inl rfl)]
  split <;> exact ⟨_, rfl, rfl⟩

/-- A text that is kept as it is, within its limit. -/
theorem read_exact (hkey : key = "lxmf".toList ∧ maxBytes = chatServerDestinationMaxBytes ∨
      key = "theme".toList ∧ maxBytes = omenchatDescriptorThemeMaxBytes)
    (h : utf8Len value ≤ maxBytes) :
    ∃ read', readLinkField read (linkField (key, value)) = some read' ∧
      read'.rooms = read.rooms := by
  obtain ⟨kept, hkept⟩ := exactOptional_sanitize h
  have heq : '=' ∉ key := by
    rcases hkey with ⟨rfl, -⟩ | ⟨rfl, -⟩ <;> decide
  unfold readLinkField
  rw [splitOnce_linkField heq]
  dsimp only
  rw [trimChars_sanitize]
  rcases hkey with ⟨rfl, rfl⟩ | ⟨rfl, rfl⟩
  · rw [if_neg (by decide), if_pos (by decide), hkept]
    split <;> exact ⟨_, rfl, rfl⟩
  · rw [if_neg (by decide), if_neg (by decide), if_pos (by decide), hkept]
    split <;> exact ⟨_, rfl, rfl⟩

theorem read_rooms (value : Chars) : readLinkField read (linkField ("rooms_hint".toList, value)) =
      (parseRooms (sanitizeLinkField value)).map fun rooms => { read with rooms := some rooms } := by
  unfold readLinkField
  rw [splitOnce_linkField (by decide)]
  dsimp only
  rw [if_neg (by decide), if_neg (by decide), if_neg (by decide), if_pos (by decide),
    trimChars_sanitize]

end

/-- A field that says nothing of rooms is read, and leaves them. -/
theorem foldlM_keyText {value : Option Chars} (hread : ∀ read text, utf8Len text ≤ maxBytes →
      ∃ read', readLinkField read (linkField (key, text)) = some read' ∧ read'.rooms = read.rooms)
    (h : TextWithin value maxBytes) (read : LinkFieldsRead) :
    ∃ read', ((keyText key value).map linkField).foldlM readLinkField read = some read' ∧
      read'.rooms = read.rooms := by
  unfold keyText
  split
  · next text hvalue =>
    obtain ⟨read', hfield, hrooms⟩ := hread read text (h text (filter_eq_some_iff.mp hvalue).1).1
    refine ⟨read', ?_, hrooms⟩
    rw [map_singleton, foldlM_cons, hfield, bind_eq_bind, bind_some]
    rfl
  · exact ⟨read, rfl, rfl⟩

/-- The fields of a descriptor are read, if the rooms are. -/
theorem foldlM_linkFields (hd : DescriptorOf d) :
    ∃ read, read.rooms = none ∧ d.linkFields.foldlM readLinkField .empty =
      if d.roomsHint = [] then some read
      else (parseRooms (sanitizeLinkField ([','].intercalate d.roomsHint))).map fun rooms =>
        { read with rooms := some rooms } := by
  obtain ⟨read₁, hname, hrooms₁⟩ :=
    foldlM_keyText (fun read text _ => read_name read text) hd.name .empty
  obtain ⟨read₂, hlxmf, hrooms₂⟩ :=
    foldlM_keyText (fun read _ => read_exact read (.inl ⟨rfl, rfl⟩)) hd.lxmf read₁
  obtain ⟨read₃, htheme, hrooms₃⟩ :=
    foldlM_keyText (fun read _ => read_exact read (.inr ⟨rfl, rfl⟩)) hd.theme read₂
  refine ⟨read₃, by rw [hrooms₃, hrooms₂, hrooms₁]; rfl, ?_⟩
  rw [linkFields_eq]
  unfold linkTexts
  rw [map_append, map_append, map_append, foldlM_append, foldlM_append,
    foldlM_append, hname]
  simp only [bind_eq_bind, bind_some]
  rw [hlxmf]
  simp only [bind_some]
  rw [htheme, bind_some]
  split
  · rfl
  · rw [map_singleton, foldlM_cons, read_rooms]
    cases parseRooms (sanitizeLinkField ([','].intercalate d.roomsHint)) <;> rfl

theorem utf8Len_linkField (p : Chars × Chars) :
    utf8Len (linkField p) = utf8Len p.1 + 1 + utf8Len (sanitizeLinkField p.2) := by
  have hequal : Char.utf8Size '=' = 1 := rfl
  rw [linkField, utf8Len_append, utf8Len_cons, hequal, Nat.add_assoc]

theorem keyText_bytes {key : Chars} {value : Option Chars} {maxBytes : Nat}
    (h : TextWithin value maxBytes) :
    (((keyText key value).map linkField).map utf8Len).sum ≤ utf8Len key + 1 + maxBytes := by
  unfold keyText
  split
  · next text hvalue =>
    have hfits := (h text (filter_eq_some_iff.mp hvalue).1).1
    have hkept := utf8Len_sanitize text
    rw [map_singleton, map_singleton, sum_singleton, utf8Len_linkField]
    dsimp only
    omega
  · exact Nat.zero_le _

theorem utf8Len_rooms (hd : DescriptorOf d) :
    utf8Len ([','].intercalate d.roomsHint) ≤ 4160 := by
  have hjoin := @utf8Len_intercalate ',' rfl d.roomsHint
  have hitems := hd.roomItems
  have hbytes := hd.roomBytes
  unfold omenchatDescriptorMaxRoomHints at hitems hbytes
  unfold chatRoomNameMaxBytes at hbytes
  omega

/-- A descriptor's fields are never too many for a descriptor. -/
theorem linkFields_within (hd : DescriptorOf d) : d.linkFields.length ≤ 4 ∧
    (d.linkFields.map utf8Len).sum ≤ omenchatLinkFieldsMaxBytes := by
  have hname := @keyText_bytes "name".toList _ _ hd.name
  have hlxmf := @keyText_bytes "lxmf".toList _ _ hd.lxmf
  have htheme := @keyText_bytes "theme".toList _ _ hd.theme
  have hrooms : (((if d.roomsHint = [] then []
      else [("rooms_hint".toList, [','].intercalate d.roomsHint)]).map linkField).map utf8Len).sum ≤
        4180 := by
    split
    · exact Nat.zero_le _
    · have hkept := utf8Len_sanitize ([','].intercalate d.roomsHint)
      have hjoin := utf8Len_rooms hd
      have hkey : utf8Len "rooms_hint".toList = 10 := by decide
      rw [map_singleton, map_singleton, sum_singleton, utf8Len_linkField]
      dsimp only
      omega
  have hnameKey : utf8Len "name".toList = 4 := by decide
  have hlxmfKey : utf8Len "lxmf".toList = 4 := by decide
  have hthemeKey : utf8Len "theme".toList = 5 := by decide
  unfold chatServerDisplayMaxBytes at hname
  unfold chatServerDestinationMaxBytes at hlxmf
  unfold omenchatDescriptorThemeMaxBytes at htheme
  rw [linkFields_eq, length_map]
  refine ⟨length_linkTexts d, ?_⟩
  unfold linkTexts omenchatLinkFieldsMaxBytes
  rw [map_append, map_append, map_append, map_append, map_append,
    map_append, sum_append, sum_append, sum_append]
  omega

/-- The rooms are recovered exactly if they are read back. -/
theorem applyLinkFields_iff (hd : DescriptorOf d) {target : OmenChatDescriptor}
    (htarget : target.roomsHint = []) :
    (target.applyLinkFields d.linkFields).2.serverDestination = target.serverDestination ∧
      ((target.applyLinkFields d.linkFields).1 = true ∧
          (target.applyLinkFields d.linkFields).2.roomsHint = d.roomsHint ↔
        ∀ room ∈ d.roomsHint, '\x60' ∉ room ∧ '|' ∉ room) := by
  obtain ⟨hitems, hbytes⟩ := linkFields_within hd
  have hlimits : ¬(omenchatLinkMaxFields < d.linkFields.length ∨
      omenchatLinkFieldsMaxBytes < (d.linkFields.map utf8Len).sum) := by
    unfold omenchatLinkMaxFields
    omega
  obtain ⟨read, hnone, hfold⟩ := foldlM_linkFields hd
  unfold applyLinkFields
  rw [if_neg hlimits, hfold]
  by_cases hempty : d.roomsHint = []
  · rw [if_pos hempty]
    dsimp only
    rw [hnone, getD_none, htarget, hempty]
    exact ⟨rfl, iff_of_true ⟨rfl, rfl⟩ fun _ hroom => nomatch hroom⟩
  · rw [if_neg hempty, ← parseRooms_iff hd hempty]
    cases hrooms : parseRooms (sanitizeLinkField ([','].intercalate d.roomsHint)) with
    | none => exact ⟨rfl, iff_of_false (fun h => nomatch h.1) fun h => nomatch h⟩
    | some rooms =>
      refine ⟨rfl, ?_⟩
      rw [map_some]
      dsimp only
      rw [getD_some, some_inj]
      exact ⟨fun h => h.2, fun h => ⟨rfl, h⟩⟩

end Fields

/-! The whole link. -/

/-- The link of a descriptor is shown as it is, and leads back to the server and its rooms. -/
def DescriptorShown (d : OmenChatDescriptor) : Prop :=
  ∃ line found, d.toMicronLines = [line] ∧ LinkShown line d.linkLabel d.linkTarget d.linkFields ∧
    fromOmenchatLink d.linkTarget = some found ∧
    (found.applyLinkFields d.linkFields).1 = true ∧
    (found.applyLinkFields d.linkFields).2.serverDestination = d.serverDestination ∧
    (found.applyLinkFields d.linkFields).2.roomsHint = d.roomsHint

/-- No text of the descriptor holds a delimiter of its place, or exceeds the limit of a field. -/
structure DescriptorClean (d : OmenChatDescriptor) : Prop where
  name : ∀ name, d.displayName = some name → ']' ∉ name
  server : ∀ c ∈ d.serverDestination, c ≠ '\x60' ∧ c ≠ ']'
  serverTrimmed : trimChars d.serverDestination = d.serverDestination
  serverHead : d.serverDestination.head? ≠ some '/'
  lxmf : ∀ lxmf, d.serverLxmfDestination = some lxmf → ']' ∉ lxmf ∧
    utf8Len (linkField ("lxmf".toList, lxmf)) ≤ micronLinkFieldMaxBytes
  theme : ∀ theme, d.themeHint = some theme → ']' ∉ theme
  rooms : ∀ room ∈ d.roomsHint, ∀ c ∈ room, c ≠ '\x60' ∧ c ≠ '|' ∧ c ≠ ']'
  roomsBytes : utf8Len (linkField ("rooms_hint".toList, [','].intercalate d.roomsHint)) ≤
    micronLinkFieldMaxBytes

section Whole
variable {d : OmenChatDescriptor}

/-- A text of the link within the limit of a field, that ends no part of it. -/
def TextClean (p : Chars × Chars) : Prop :=
  ']' ∉ p.2 ∧ utf8Len (linkField p) ≤ micronLinkFieldMaxBytes

theorem textClean_of_field (hchars : ∀ c ∈ linkField p, LinkChar c)
    (hbytes : utf8Len (linkField p) ≤ micronLinkFieldMaxBytes) : TextClean p := by
  refine ⟨fun hmem => ?_, hbytes⟩
  have hkept : ']' ∈ sanitizeLinkField p.2 := mem_sanitize_of_mem (by decide) (by decide) (by decide) hmem
  exact (hchars _ (mem_append_right _ (mem_cons_of_mem _ hkept))).2.2 rfl

/-- Every text of a clean descriptor is clean, and of one line. -/
theorem linkTexts_clean (hd : DescriptorOf d) (h : DescriptorClean d) (hp : p ∈ d.linkTexts) :
    TextClean p ∧ OneLine p.2 ∧
      ∀ c ∈ p.1, LinkChar c ∧ c ≠ '|' := by
  have hshort : ∀ {key text : Chars} {maxBytes : Nat}, utf8Len text ≤ maxBytes →
      utf8Len key + 1 + maxBytes ≤ micronLinkFieldMaxBytes →
        utf8Len (linkField (key, text)) ≤ micronLinkFieldMaxBytes := by
    intro key text maxBytes htext hroom
    have hkept := utf8Len_sanitize text
    rw [utf8Len_linkField]
    dsimp only
    omega
  have hkeys : ∀ key ∈ ["name".toList, "lxmf".toList, "theme".toList, "rooms_hint".toList],
      ∀ c ∈ key, LinkChar c ∧ c ≠ '|' := by
    unfold LinkChar
    decide
  obtain ⟨key, text⟩ := p
  rcases mem_linkTexts hp with ⟨rfl, hname⟩ | ⟨rfl, hlxmf⟩ | ⟨rfl, htheme⟩ | ⟨rfl, hne, rfl⟩
  · obtain ⟨hbytes, hline⟩ := hd.name _ hname
    exact ⟨⟨h.name _ hname, hshort hbytes (by decide)⟩, hline, hkeys _ (by simp)⟩
  · exact ⟨h.lxmf _ hlxmf, (hd.lxmf _ hlxmf).2, hkeys _ (by simp)⟩
  · obtain ⟨hbytes, hline⟩ := hd.theme _ htheme
    exact ⟨⟨h.theme _ htheme, hshort hbytes (by decide)⟩, hline, hkeys _ (by simp)⟩
  · refine ⟨⟨fun hmem => ?_, h.roomsBytes⟩, fun hmem => ?_, hkeys _ (by simp)⟩
    · exact (mem_intercalate hmem).elim (by decide) fun ⟨room, hroom, hc⟩ =>
        (h.rooms room hroom _ hc).2.2 rfl
    · exact (mem_intercalate hmem).elim (by decide) fun ⟨room, hroom, hc⟩ =>
        (hd.rooms room hroom).line hc

theorem linkField_chars (hp : TextClean p) (hline : OneLine p.2)
    (hkey : ∀ c ∈ p.1, LinkChar c ∧ c ≠ '|') :
    linkField p ≠ [] ∧ '|' ∉ linkField p ∧ ∀ c ∈ linkField p, LinkChar c := by
  have hchar : ∀ c ∈ linkField p, LinkChar c ∧ c ≠ '|' := by
    intro c hc
    rcases mem_append.mp hc with hmem | hmem
    · exact hkey c hmem
    · rcases mem_cons.mp hmem with rfl | hmem
      · exact ⟨⟨by decide, by decide, by decide⟩, by decide⟩
      · obtain ⟨htick, hbar, hfrom⟩ := mem_sanitize hmem
        rcases hfrom with rfl | hfrom
        · exact ⟨⟨by decide, by decide, by decide⟩, by decide⟩
        · exact ⟨⟨fun heq => hline (heq ▸ hfrom), htick, fun heq => hp.1 (heq ▸ hfrom)⟩, hbar⟩
  exact ⟨append_ne_nil_of_right_ne_nil _ (cons_ne_nil _ _),
    fun hmem => (hchar _ hmem).2 rfl, fun c hc => (hchar c hc).1⟩

/-- The label of a clean descriptor ends no part of the link. -/
theorem linkLabel_fits (hd : DescriptorOf d) (h : DescriptorClean d) :
    (∀ c ∈ d.linkLabel, LinkChar c) ∧ utf8Len d.linkLabel ≤ micronLinkLabelMaxBytes := by
  have hname : (']' ∉ d.displayName.getD "Open OMENchat".toList ∧
      OneLine (d.displayName.getD "Open OMENchat".toList)) ∧
      utf8Len (d.displayName.getD "Open OMENchat".toList) ≤ chatServerDisplayMaxBytes := by
    cases hdisplay : d.displayName with
    | none => decide
    | some name => exact ⟨⟨h.name _ hdisplay, (hd.name _ hdisplay).2⟩, (hd.name _ hdisplay).1⟩
  constructor
  · intro c hc
    obtain ⟨b, hb, rfl⟩ := mem_map.mp hc
    split
    · exact ⟨by decide, by decide, by decide⟩
    · next htick =>
      exact ⟨fun heq => hname.1.2 (heq ▸ hb), htick, fun heq => hname.1.1 (heq ▸ hb)⟩
  · have hmapped : utf8Len d.linkLabel ≤ utf8Len (d.displayName.getD "Open OMENchat".toList) := by
      refine utf8Len_map_le (fun c => ?_) _
      split
      · exact c.utf8Size_pos
      · exact Nat.le_refl _
    exact Nat.le_trans hmapped (Nat.le_trans hname.2 (by decide))

theorem linkFits_of_clean (hd : DescriptorOf d) (h : DescriptorClean d) :
    LinkFits d.linkLabel d.linkTarget d.linkFields := by
  obtain ⟨hlabel, hlabelBytes⟩ := linkLabel_fits hd h
  obtain ⟨hitems, hbytes⟩ := linkFields_within hd
  have hfields : ∀ field ∈ d.linkFields, (field ≠ [] ∧ '|' ∉ field ∧ ∀ c ∈ field, LinkChar c) ∧
      utf8Len field ≤ micronLinkFieldMaxBytes := by
    rw [linkFields_eq]
    intro field hfield
    obtain ⟨p, hp, rfl⟩ := mem_map.mp hfield
    obtain ⟨hclean, hline, hkey⟩ := linkTexts_clean hd h hp
    exact ⟨linkField_chars hclean hline hkey, hclean.2⟩
  have hscheme : ∀ c ∈ "omenchat://".toList, LinkChar c := by
    unfold LinkChar
    decide
  exact {
    labelChars := hlabel
    labelBytes := hlabelBytes
    targetChars := fun c hc => (mem_append.mp hc).elim (hscheme c) fun hmem => by
      have hserver := (mem_filter.mp hmem).1
      exact ⟨fun heq => hd.serverLine (heq ▸ hserver), (h.server c hserver).1, (h.server c hserver).2⟩
    targetNonempty := append_ne_nil_of_left_ne_nil (by decide) _
    targetBytes := by
      have hscheme : utf8Len "omenchat://".toList = 11 := by decide
      have hserver := hd.serverBytes
      have hfilter : utf8Len (d.serverDestination.filter (· ≠ '\x60')) ≤ utf8Len d.serverDestination :=
        (filter_sublist.map Char.utf8Size).sum_le_sum fun _ _ => Nat.zero_le _
      unfold chatServerDestinationMaxBytes at hserver
      unfold linkTarget micronLinkTargetMaxBytes
      rw [utf8Len_append, hscheme]
      omega
    fieldChars := fun field hfield => (hfields field hfield).1
    fieldsFit := ⟨Nat.le_trans hitems (by decide), fun field hfield => (hfields field hfield).2,
      Nat.le_trans hbytes (by decide)⟩ }

/-- Of a link that fits, every text is clean. -/
theorem linkTexts_of_fits (h : LinkFits d.linkLabel d.linkTarget d.linkFields)
    (hp : p ∈ d.linkTexts) : TextClean p := by
  have hmem : linkField p ∈ d.linkFields := by
    rw [linkFields_eq]
    exact mem_map_of_mem hp
  exact textClean_of_field (h.fieldChars _ hmem).2.2 (h.fieldsFit.each _ hmem)

theorem mem_linkTexts_of {text : Chars} (h : (key, text) ∈ keyText "name".toList d.displayName ++
      keyText "lxmf".toList d.serverLxmfDestination ++ keyText "theme".toList d.themeHint) :
    (key, text) ∈ d.linkTexts := mem_append_left _ h

/-- A descriptor whose link fits is clean, as far as the link shows. -/
theorem clean_of_linkFits (h : LinkFits d.linkLabel d.linkTarget d.linkFields)
    (htick : '\x60' ∉ d.serverDestination)
    (htrimmed : trimChars d.serverDestination = d.serverDestination)
    (hslash : d.serverDestination.head? ≠ some '/')
    (hrooms : ∀ room ∈ d.roomsHint, '\x60' ∉ room ∧ '|' ∉ room) : DescriptorClean d := by
  have hempty : ∀ key ∈ ["name".toList, "lxmf".toList, "theme".toList, "rooms_hint".toList],
      TextClean (key, []) := by
    unfold TextClean
    decide
  have htext : ∀ {key : Chars} {text : Chars},
      key ∈ ["name".toList, "lxmf".toList, "theme".toList, "rooms_hint".toList] →
      (text ≠ [] → (key, text) ∈ d.linkTexts) → TextClean (key, text) := by
    intro key text hkey hmem
    by_cases hne : text = []
    · rw [hne]
      exact hempty key hkey
    · exact linkTexts_of_fits h (hmem hne)
  have hjoined : TextClean ("rooms_hint".toList, [','].intercalate d.roomsHint) := by
    refine htext (by simp) fun hne => mem_append_right _ ?_
    rw [if_neg fun hnil => hne (by rw [hnil]; rfl)]
    exact mem_singleton_self _
  exact {
    name := fun name hname => (htext (by simp) fun hne => mem_linkTexts_of (mem_append_left _
      (mem_append_left _ (keyText_mem hname hne)))).1
    server := fun c hc => by
      have hcTick : c ≠ '\x60' := fun heq => htick (heq ▸ hc)
      have hkept : c ∈ d.linkTarget :=
        mem_append_right _ (mem_filter.mpr ⟨hc, decide_eq_true hcTick⟩)
      exact ⟨hcTick, (h.targetChars c hkept).2.2⟩
    serverTrimmed := htrimmed
    serverHead := hslash
    lxmf := fun lxmf hlxmf => htext (by simp) fun hne => mem_linkTexts_of (mem_append_left _
      (mem_append_right _ (keyText_mem hlxmf hne)))
    theme := fun theme htheme => (htext (by simp) fun hne => mem_linkTexts_of (mem_append_right _
      (keyText_mem htheme hne))).1
    rooms := fun room hroom c hc => by
      refine ⟨fun heq => (hrooms room hroom).1 (heq ▸ hc), fun heq => (hrooms room hroom).2 (heq ▸ hc),
        fun heq => hjoined.1 ?_⟩
      exact heq ▸ mem_intercalate_of_mem hroom hc
    roomsBytes := hjoined.2 }

/-- The link of a block's descriptor is shown as it is and leads back exactly if the descriptor is
clean. -/
theorem descriptorShown_iff (hd : DescriptorOf d) (hne : d.serverDestination ≠ []) :
    DescriptorShown d ↔ DescriptorClean d := by
  constructor
  · rintro ⟨line, found, hlines, hshown, hfound, happlied, hserver, hrooms⟩
    obtain rfl := (cons.inj hlines).1
    have hfits := linkShown_iff.mp hshown
    have hsame : found =
        { empty with serverDestination := found.serverDestination } :=
      eq_of_fromOmenchatLink hfound
    have hempty : found.roomsHint = [] := congrArg roomsHint hsame
    obtain ⟨hkept, hroomsIff⟩ := applyLinkFields_iff hd hempty
    rw [hkept] at hserver
    rw [hsame, hserver] at hfound
    obtain ⟨htick, htrimmed, hslash⟩ := (fromOmenchatLink_iff hd hne).mp hfound
    exact clean_of_linkFits hfits htick htrimmed hslash (hroomsIff.mp ⟨happlied, hrooms⟩)
  · intro h
    have htick : '\x60' ∉ d.serverDestination := fun hmem => (h.server _ hmem).1 rfl
    have hfound := (fromOmenchatLink_iff hd hne).mpr ⟨htick, h.serverTrimmed, h.serverHead⟩
    obtain ⟨hkept, hroomsIff⟩ := @applyLinkFields_iff d hd
      { empty with serverDestination := d.serverDestination } rfl
    obtain ⟨happlied, hrooms⟩ := hroomsIff.mpr fun room hroom =>
      ⟨fun hmem => (h.rooms room hroom _ hmem).1 rfl, fun hmem => (h.rooms room hroom _ hmem).2.1 rfl⟩
    exact ⟨_, _, rfl, linkShown_iff.mpr (linkFits_of_clean hd h), hfound, happlied, hkept, hrooms⟩

end Whole

/-! The three generators. -/

/-- Each generated line is shown as what it was made of exactly if no text of it holds a delimiter of
its place, and each is within the parser's limits. -/
theorem generated_lines_shown_iff (label target : Chars) (fields : List Chars) (attrs : TextMap Chars)
    (name : Chars) (fallbackWidth : Nat) (block : Chars) (d : OmenChatDescriptor) :
    (LinkShown (linkLine label target fields) label target fields ↔ LinkFits label target fields) ∧
    (fallbackWidth < 2 ^ 64 →
      (ControlShown (controlLine attrs name fallbackWidth) name (controlValue attrs) ↔
        ControlFits name (controlValue attrs)
          ((explicitControlWidth attrs).getD (max fallbackWidth 1)))) ∧
    (fromBlock block = some d → (DescriptorShown d ↔ DescriptorClean d)) := by
  refine ⟨linkShown_iff, fun hfallback => controlShown_iff attrs name hfallback, fun hblock => ?_⟩
  obtain ⟨hd, hne⟩ := fromBlock_of hblock
  exact descriptorShown_iff hd hne

/-- A block with a name and two rooms. -/
def clubBlock : Chars := "[omenchat]\nserver=abcd\nname=Club\nrooms_hint=lobby, games".toList

def clubDescriptor : OmenChatDescriptor :=
  { empty with
    serverDestination := "abcd".toList
    displayName := some "Club".toList
    roomsHint := ["lobby".toList, "games".toList] }

theorem clubBlock_shown : DescriptorShown clubDescriptor := by
  refine ((generated_lines_shown_iff [] [] [] ∅ [] 24 clubBlock clubDescriptor).2.2
    (by decide +kernel)).mpr ?_
  exact {
    name := fun name hname => by
      cases hname
      decide
    server := by decide
    serverTrimmed := by decide
    serverHead := by decide
    lxmf := fun _ hlxmf => nomatch hlxmf
    theme := fun _ htheme => nomatch htheme
    rooms := by decide
    roomsBytes := by decide }

/-- The name of the club with a bracket in it. -/
def bracketBlock : Chars := "[omenchat]\nserver=abcd\nname=Club [1]".toList

/-- A bracket in a button's label, an angle bracket in a typed value and a bracket in a server's name:
none is shown as what it was made of, and the button leads to a part of its own label. -/
theorem delimiters_cut_lines :
    ¬LinkShown (linkLine "Read [1]".toList "/page/a.mu".toList []) "Read [1]".toList
        "/page/a.mu".toList [] ∧
      (parseMicron (linkLine "Read [1]".toList "/page/a.mu".toList [])).map
          (fun document => (links (allFragments document.rows)).map LinkAction.target) =
        some ["Read [1".toList] ∧
      ¬ControlShown (controlLine ((∅ : TextMap Chars).insert "value".toList "a>b".toList) "q".toList 24)
        "q".toList "a>b".toList ∧
      ∃ d, fromBlock bracketBlock = some d ∧ ¬DescriptorShown d := by
  refine ⟨fun h => ?_, by decide +kernel, fun h => ?_, ?_⟩
  · exact absurd (linkShown_iff.mp h).labelChars (by unfold LinkChar; decide)
  · have hvalue : controlValue ((∅ : TextMap Chars).insert "value".toList "a>b".toList) = "a>b".toList := by
      decide +kernel
    rw [← hvalue] at h
    have hfits := (controlShown_iff _ _ (by decide)).mp h
    rw [hvalue] at hfits
    exact absurd hfits.valueChars (by decide)
  · have hblock : fromBlock bracketBlock =
        some { empty with
          serverDestination := "abcd".toList
          displayName := some "Club [1]".toList } := by decide +kernel
    obtain ⟨hd, hne⟩ := fromBlock_of hblock
    exact ⟨_, hblock, fun h => ((descriptorShown_iff hd hne).mp h).name _ rfl (by decide)⟩

end Omen.Browser
