import OmenBrowser.Micron.Admission

/- A document is within its limits, and where it says that no limit was applied it is the document
   that the same parse makes without them.

   The run over the lines keeps the counters with the rows; at the end the notice has room of its
   own. -/
namespace Omen.Micron
open Text Sql List Option Bool

/-! Metadata. -/

structure MetadataFits (metadata : Metadata) : Prop where
  items : metadata.rows.length ≤ micronMetadataMaxItems
  bytes : Metadata.ownedBytes metadata ≤ micronMetadataMaxOwnedBytes

theorem put_ownedBytes (metadata : Metadata) (key value : Chars) :
    Metadata.ownedBytes (metadata.put (key, value)) =
      Metadata.ownedBytes (metadata.erase key) + utf8Len key + utf8Len value := by
  have hrows : (metadata.put (key, value)).rows = (key, value) :: (metadata.erase key).rows := rfl
  rw [Metadata.ownedBytes, hrows, map_cons, sum_cons, ← Metadata.ownedBytes]
  dsimp only
  omega

/-- A key of the metadata takes its own place, another one more. -/
theorem put_items (metadata : Metadata) (key value : Chars) :
    (metadata.put (key, value)).rows.length ≤
      if metadata.find? key = none then metadata.rows.length + 1 else metadata.rows.length := by
  have hrows : (metadata.put (key, value)).rows.length = (metadata.erase key).rows.length + 1 := rfl
  rw [hrows]
  split
  · exact Nat.succ_le_succ (length_filter_le _ _)
  · next hsome =>
    obtain ⟨entry, hentry⟩ := ne_none_iff_exists'.mp hsome
    obtain ⟨hmem, hkey⟩ := Table.find?_eq_some.mp hentry
    refine length_filter_lt_length_iff_exists.mpr ⟨entry, hmem, ?_⟩
    simp [hkey]

theorem applyMetadataDirective_charged (limits : Limits) (key value : Chars) (state : ParserState)
    (metadata : Metadata) :
    LineCharged state [] (applyMetadataDirective limits key value state metadata).2.1 := by
  have hnone : LineCharged state [] state := lineCharged_of_none rfl rfl rfl
  unfold applyMetadataDirective
  dsimp only
  split
  · exact hnone
  · split
    · exact hnone
    · unfold applyStyleDirective
      split
      · exact lineCharged_of_none rfl rfl rfl
      · split
        · exact lineCharged_of_none rfl rfl rfl
        · split
          · exact lineCharged_of_none rfl rfl rfl
          · exact hnone

variable {metadata : Metadata} {line : Chars} {state state' : ParserState}
  {fragments : List Fragment} {p : Parsing}

/-- A directive keeps the metadata within its limits. -/
theorem applyMetadataDirective_fits (key value : Chars) (state : ParserState)
    (h : MetadataFits metadata) :
    MetadataFits (applyMetadataDirective documentLimits key value state metadata).2.2 := by
  unfold applyMetadataDirective
  dsimp only
  split
  · exact h
  · next hkey =>
    split
    · exact h
    · next hbytes =>
      rw [not_eq_true] at hbytes
      constructor
      · refine Nat.le_trans (put_items metadata _ _) ?_
        split
        · next hnew =>
          have hroom : reached documentLimits.metadataItems metadata.rows.length = false := by
            by_contra hfull
            rw [not_eq_false] at hfull
            exact hkey (.inr (.inr (.inr (.inr ⟨hnew, hfull⟩))))
          exact reached_eq_false.mp hroom
        · exact h.items
      · rw [put_ownedBytes]
        exact exceeded_eq_false.mp hbytes

/-! Lines. -/

theorem exists_scanLine (limits : Limits) (line : Chars) (state : ParserState) (metadata : Metadata) :
    ∃ scanned, scanLine limits line state metadata = some scanned ∧
      LineCharged state (rowFragments scanned.row) scanned.state := by
  have hnone : LineCharged state [] state := lineCharged_of_none rfl rfl rfl
  unfold scanLine
  split
  · exact ⟨_, rfl, hnone⟩
  · split
    · split
      · exact ⟨_, rfl, hnone⟩
      · exact ⟨_, rfl, applyMetadataDirective_charged limits _ _ state metadata⟩
    · split
      · exact ⟨_, rfl, applyMetadataDirective_charged limits _ _ state metadata⟩
      · obtain ⟨row, state', hrow, hcharged⟩ := parseLine_ends line state
        rw [hrow]
        exact ⟨_, rfl, hcharged⟩

theorem scanLine_charged {limits : Limits} {scanned : Scanned}
    (h : scanLine limits line state metadata = some scanned) :
    LineCharged state (rowFragments scanned.row) scanned.state := by
  obtain ⟨scanned', hscan, hcharged⟩ := exists_scanLine limits line state metadata
  rw [h] at hscan
  cases hscan
  exact hcharged

theorem scanLine_fits {scanned : Scanned}
    (h : scanLine documentLimits line state metadata = some scanned) (hfits : MetadataFits metadata)
    : MetadataFits scanned.metadata := by
  unfold scanLine at h
  split at h
  · cases h
    exact hfits
  · split at h
    · split at h
      · cases h
        exact hfits
      · cases h
        exact applyMetadataDirective_fits _ _ _ hfits
    · split at h
      · cases h
        exact applyMetadataDirective_fits _ _ _ hfits
      · obtain ⟨parsed, _, h⟩ := bind_eq_some_iff.mp h
        cases h
        exact hfits

/-! The run over the lines. -/

def allFragments (rows : List RenderRow) : List Fragment := rows.flatMap RenderRow.fragments

/-- The counters count what the rows hold, and are within the limits. -/
structure Bounded (p : Parsing) : Prop where
  rows : p.rows.length ≤ micronDocumentMaxRows - 1
  fragments : p.state.fragmentItems = (allFragments p.rows).length
  text : p.state.spanTextBytes = utf8Len (spanText (allFragments p.rows))
  links : p.state.linkActionItems = (links (allFragments p.rows)).length
  linkBytes : p.state.linkActionOwnedBytes = linkBytes (allFragments p.rows)
  controls : (controls (allFragments p.rows)).length ≤ p.state.controlItems
  controlBytes : controlBytes (allFragments p.rows) ≤ p.state.controlOwnedBytes
  documentFits : p.state.DocumentFits
  controlsFit : p.state.ControlsFit
  metadata : MetadataFits p.metadata

theorem LineCharged.counters (h : LineCharged state fragments state') :
    state'.fragmentItems = state.fragmentItems ∧ state'.spanTextBytes = state.spanTextBytes ∧
      state'.linkActionItems = state.linkActionItems ∧
      state'.linkActionOwnedBytes = state.linkActionOwnedBytes ∧
      state'.limitsApplied = state.limitsApplied := by
  have hcharged := h.charged
  simp only [ParserState.charged, Prod.mk.injEq] at hcharged
  exact hcharged

theorem LineCharged.documentFits (h : LineCharged state fragments state')
    (hfits : state.DocumentFits) : state'.DocumentFits := by
  obtain ⟨hitems, htext, hlinks, hlinkBytes, _⟩ := h.counters
  exact ⟨hitems ▸ hfits.fragments, htext ▸ hfits.text, hlinks ▸ hfits.links,
    hlinkBytes ▸ hfits.linkBytes⟩

/-- A line that makes no row. -/
theorem Bounded.scanned (h : Bounded p) (hcharged : LineCharged p.state fragments state)
    (hmetadata : MetadataFits metadata) (limitsApplied : Bool) :
    Bounded { p with state, metadata, limitsApplied } := by
  obtain ⟨hitems, htext, hlinks, hlinkBytes, _⟩ := hcharged.counters
  exact
    { rows := h.rows
      fragments := hitems.trans h.fragments
      text := htext.trans h.text
      links := hlinks.trans h.links
      linkBytes := hlinkBytes.trans h.linkBytes
      controls := Nat.le_trans h.controls (hcharged.items ▸ Nat.le_add_right _ _)
      controlBytes := Nat.le_trans h.controlBytes (hcharged.bytes ▸ Nat.le_add_right _ _)
      documentFits := hcharged.documentFits h.documentFits
      controlsFit := hcharged.fit h.controlsFit
      metadata := hmetadata }

theorem controlBytes_le {fs gs : List Fragment} (h : (controls fs).Sublist (controls gs)) :
    controlBytes fs ≤ controlBytes gs :=
  (h.map FieldControl.ownedBytes).sum_le_sum fun _ _ => Nat.zero_le _

/-- A line that makes a row. -/
theorem Bounded.admitted (h : Bounded p) {row : RenderRow}
    (hcharged : LineCharged p.state row.fragments state) (hmetadata : MetadataFits metadata)
    (limitsApplied : Bool) (hroom : p.rows.length < micronDocumentMaxRows - 1) :
    Bounded
      { state := (admitRowFragments documentLimits row state).2
        rows := p.rows ++ [(admitRowFragments documentLimits row state).1]
        metadata
        limitsApplied } := by
  have hadmits := admitFragments_admits row.fragments state
  obtain ⟨hitems, htext, hlinks, hlinkBytes, _⟩ := hcharged.counters
  have hall : allFragments (p.rows ++ [(admitRowFragments documentLimits row state).1]) =
      allFragments p.rows ++ (admitFragments documentLimits row.fragments state).1 := by
    rw [allFragments, flatMap_append, ← allFragments, flatMap_singleton]
    rfl
  have hstate : (admitRowFragments documentLimits row state).2 =
      (admitFragments documentLimits row.fragments state).2 := rfl
  constructor
  all_goals try rw [hall]
  case rows =>
    rw [length_append, length_singleton]
    exact hroom
  case fragments => rw [hstate, hadmits.items, hitems, h.fragments, length_append]
  case text => rw [hstate, hadmits.text, htext, h.text, spanText_append, utf8Len_append]
  case links => rw [hstate, hadmits.links, hlinks, h.links, links_append, length_append]
  case linkBytes => rw [hstate, hadmits.linkBytes, hlinkBytes, h.linkBytes, linkBytes_append]
  case controls =>
    rw [hstate, hadmits.controlItems, hcharged.items, controls_append, length_append]
    exact Nat.add_le_add h.controls hadmits.controls.length_le
  case controlBytes =>
    rw [hstate, hadmits.controlOwnedBytes, hcharged.bytes, controlBytes_append]
    exact Nat.add_le_add h.controlBytes (controlBytes_le hadmits.controls)
  case documentFits => exact hadmits.fits (hcharged.documentFits h.documentFits)
  case controlsFit =>
    have hfit := hcharged.fit h.controlsFit
    rwa [ParserState.ControlsFit, ← hadmits.controlItems, ← hadmits.controlOwnedBytes] at hfit
  case metadata => exact hmetadata

/-- The run over any lines ends, within the limits. -/
theorem exists_parseLines (rawLines : List Chars) (h : Bounded p) :
    ∃ p', parseLines documentLimits rawLines p = some p' ∧ Bounded p' := by
  induction rawLines generalizing p with
  | nil => exact ⟨p, rfl, h⟩
  | cons line rest ih =>
    obtain ⟨scanned, hscan, hcharged⟩ := exists_scanLine documentLimits line p.state p.metadata
    have hmetadata := scanLine_fits hscan h.metadata
    have hscanned := h.scanned hcharged hmetadata (p.limitsApplied || !scanned.admitted)
    unfold parseLines
    rw [hscan, bind_eq_bind, bind_some]
    cases hrow : scanned.row with
    | none => exact ih hscanned
    | some row =>
      rw [hrow] at hcharged
      dsimp only
      split
      · exact ⟨_, rfl, h.scanned hcharged hmetadata true⟩
      · next hfull =>
        rw [not_eq_true] at hfull
        exact ih (h.admitted hcharged hmetadata _ (reached_eq_false.mp hfull))

/-! The parse without limits. -/

section Unlimited
variable {limits : Limits}

/-- A directive that is taken is taken without limits. -/
theorem applyMetadataDirective_unlimited {key value : Chars}
    (h : (applyMetadataDirective limits key value state metadata).1 = true) :
    applyMetadataDirective noLimits key value state metadata =
      applyMetadataDirective limits key value state metadata := by
  unfold applyMetadataDirective at h ⊢
  dsimp only at h ⊢
  split at h
  · cases h
  · next hkey =>
    split at h
    · cases h
    · next hbytes =>
      rw [if_neg hkey, if_neg hbytes, if_neg ?_, if_neg ?_]
      · exact false_ne_true
      · rintro (hempty | h | h | ⟨_, h⟩ | ⟨_, h⟩)
        · exact hkey (.inl hempty)
        all_goals cases h

theorem scanDirective_unlimited {key value : Chars}
    (h : (scanDirective limits key value state metadata).admitted = true) :
    scanDirective noLimits key value state metadata = scanDirective limits key value state metadata := by
  unfold scanDirective
  rw [applyMetadataDirective_unlimited h]

theorem scanLine_unlimited {scanned : Scanned}
    (h : scanLine limits line state metadata = some scanned) (hadmitted : scanned.admitted = true) :
    scanLine noLimits line state metadata = some scanned := by
  unfold scanLine at h ⊢
  have hline : ¬exceeded noLimits.lineBytes (utf8Len line) = true := false_ne_true
  rw [if_neg hline]
  split at h
  · cases h
    cases hadmitted
  · split at h
    · next hmeta =>
      rw [if_pos hmeta]
      split at h
      · exact h
      · cases h
        rw [scanDirective_unlimited hadmitted]
    · next hmeta =>
      rw [if_neg hmeta]
      split at h
      · cases h
        rw [scanDirective_unlimited hadmitted]
      · exact h

/-- What applies no limit is what is done without limits, and found none applied. -/
theorem admitLink_unlimited {span : TextSpan}
    (h : (admitLink limits span state).2.limitsApplied = false) :
    admitLink noLimits span state = admitLink limits span state ∧ state.limitsApplied = false := by
  obtain ⟨text, style, link⟩ := span
  cases link with
  | none => exact ⟨rfl, h⟩
  | some link =>
    have hnone : ¬reached noLimits.linkActions state.linkActionItems = true ∧
        ¬exceeded noLimits.linkActionBytes (state.linkActionOwnedBytes + link.ownedBytes) = true :=
      ⟨false_ne_true, false_ne_true⟩
    unfold admitLink at h ⊢
    dsimp only at h ⊢
    rw [if_pos hnone]
    split at h
    · next hroom =>
      rw [if_pos hroom]
      exact ⟨rfl, h⟩
    · cases h

theorem admitFragments_unlimited
    (h : (admitFragments limits fragments state).2.limitsApplied = false) :
    admitFragments noLimits fragments state = admitFragments limits fragments state ∧
      state.limitsApplied = false := by
  induction fragments generalizing state with
  | nil => exact ⟨rfl, h⟩
  | cons fragment rest ih =>
    have hitems : ¬reached noLimits.fragments state.fragmentItems = true := false_ne_true
    unfold admitFragments at h ⊢
    rw [if_neg hitems]
    split at h
    · cases h
    · next hroom =>
      rw [if_neg hroom]
      cases fragment with
      | span span =>
        have hbytes : ¬exceeded noLimits.spanTextBytes (state.spanTextBytes + utf8Len span.text) = true :=
          false_ne_true
        dsimp only at h ⊢
        rw [if_neg hbytes]
        split at h
        · cases h
        · next htext =>
          rw [if_neg htext]
          obtain ⟨hrest, hlink⟩ := ih h
          obtain ⟨hsame, hstate⟩ := admitLink_unlimited hlink
          rw [hsame, hrest]
          exact ⟨rfl, hstate⟩
      | control control =>
        obtain ⟨hrest, hstate⟩ := ih h
        rw [hrest]
        exact ⟨rfl, hstate⟩

/-- A run over lines that applied no limit is the run without limits. -/
theorem parseLines_unlimited {rawLines : List Chars} {p' : Parsing}
    (h : parseLines limits rawLines p = some p') (happlied : p'.limitsApplied = false)
    (hstate : p'.state.limitsApplied = false) :
    parseLines noLimits rawLines p = some p' ∧ p.limitsApplied = false ∧
      p.state.limitsApplied = false := by
  induction rawLines generalizing p with
  | nil =>
    cases h
    exact ⟨rfl, happlied, hstate⟩
  | cons line rest ih =>
    unfold parseLines at h ⊢
    simp only [bind_eq_bind, bind_eq_some_iff] at h
    obtain ⟨scanned, hscan, h⟩ := h
    have hsame : scanned.state.limitsApplied = p.state.limitsApplied :=
      (scanLine_charged hscan).counters.2.2.2.2
    -- a flag that is clear behind the line was clear before, and the line was admitted
    have hflags : (p.limitsApplied || !scanned.admitted) = false →
        scanned.admitted = true ∧ p.limitsApplied = false := by
      intro hflags
      rw [or_eq_false_iff, not_eq_false'] at hflags
      exact ⟨hflags.2, hflags.1⟩
    cases hrow : scanned.row with
    | none =>
      rw [hrow] at h
      obtain ⟨hrest, happlied, hbefore⟩ := ih h
      obtain ⟨hadmitted, hfirst⟩ := hflags happlied
      rw [scanLine_unlimited hscan hadmitted, bind_eq_bind, bind_some, hrow]
      exact ⟨hrest, hfirst, hsame ▸ hbefore⟩
    | some row =>
      rw [hrow] at h
      dsimp only at h
      split at h
      · cases h
        cases happlied
      · obtain ⟨hrest, happlied, hbefore⟩ := ih h
        obtain ⟨hadmitted, hfirst⟩ := hflags happlied
        obtain ⟨hfragments, hscanned⟩ := admitFragments_unlimited hbefore
        have hsameRow : admitRowFragments noLimits row scanned.state =
            admitRowFragments limits row scanned.state := by
          rw [admitRowFragments, hfragments]
          rfl
        have hrows : ¬reached noLimits.rows p.rows.length = true := false_ne_true
        rw [scanLine_unlimited hscan hadmitted, bind_eq_bind, bind_some, hrow]
        dsimp only
        rw [if_neg hrows, hsameRow]
        exact ⟨hrest, hfirst, hsame ▸ hscanned⟩

end Unlimited

/-! Documents. -/

/-- A document within the limits, its notice included. -/
structure Document.WithinLimits (doc : Document) : Prop where
  rows : doc.rows.length ≤ micronDocumentMaxRows
  fragments : (allFragments doc.rows).length ≤ micronDocumentMaxFragments
  text : utf8Len (spanText (allFragments doc.rows)) ≤ micronDocumentSpanTextMaxBytes
  links : (links (allFragments doc.rows)).length ≤ micronDocumentMaxLinkActions
  linkBytes : linkBytes (allFragments doc.rows) ≤ micronDocumentLinkActionsMaxBytes
  controls : (controls (allFragments doc.rows)).length ≤ micronControlMaxItems
  controlBytes : controlBytes (allFragments doc.rows) ≤ micronControlMaxOwnedBytes
  metadata : MetadataFits doc.metadata

theorem bounded_start : Bounded ⟨.default, [], .empty, false⟩ where
  rows := Nat.zero_le _
  fragments := rfl
  text := rfl
  links := rfl
  linkBytes := rfl
  controls := Nat.le_refl _
  controlBytes := Nat.le_refl _
  documentFits := ⟨Nat.zero_le _, Nat.zero_le _, Nat.zero_le _, Nat.zero_le _⟩
  controlsFit := ⟨Nat.zero_le _, Nat.zero_le _⟩
  metadata := ⟨Nat.zero_le _, Nat.zero_le _⟩

/-- The rows of a run are within the limits, and so are they with the notice. -/
theorem Bounded.withinLimits (h : Bounded p) (limitsApplied notice : Bool) :
    Document.WithinLimits
      ⟨if notice then p.rows ++ [limitNoticeRow p.state] else p.rows, p.metadata, limitsApplied⟩ := by
  have hnotice : utf8Len micronDocumentLimitNotice ≤ micronDocumentSpanTextMaxBytes := by decide
  have hrows := h.rows
  have hfragments := h.fragments ▸ h.documentFits.fragments
  have htext := h.text ▸ h.documentFits.text
  have hlinks := h.links ▸ h.documentFits.links
  have hlinkBytes := h.linkBytes ▸ h.documentFits.linkBytes
  have hcontrols := Nat.le_trans h.controls h.controlsFit.1
  have hcontrolBytes := Nat.le_trans h.controlBytes h.controlsFit.2
  cases notice with
  | false =>
    exact ⟨Nat.le_trans hrows (Nat.sub_le _ _), Nat.le_trans hfragments (Nat.sub_le _ _),
      Nat.le_trans htext (Nat.sub_le _ _), hlinks, hlinkBytes, hcontrols, hcontrolBytes, h.metadata⟩
  | true =>
    -- the run keeps a row, a fragment and its text free for the notice
    have hall : allFragments (p.rows ++ [limitNoticeRow p.state]) =
        allFragments p.rows ++ [plainSpan micronDocumentLimitNotice p.state.style] := by
      rw [allFragments, flatMap_append, ← allFragments, flatMap_singleton]
      rfl
    constructor
    all_goals try rw [if_pos rfl, hall]
    case rows =>
      rw [if_pos rfl, length_append, length_singleton]
      exact Nat.add_le_of_le_sub (by decide) hrows
    case fragments =>
      rw [length_append, length_singleton]
      exact Nat.add_le_of_le_sub (by decide) hfragments
    case text =>
      rw [spanText_append, utf8Len_append]
      exact Nat.add_le_of_le_sub hnotice htext
    case links =>
      rw [links_append, length_append]
      exact hlinks
    case linkBytes =>
      rw [linkBytes_append]
      exact hlinkBytes
    case controls =>
      rw [controls_append, length_append]
      exact hcontrols
    case controlBytes =>
      rw [controlBytes_append]
      exact hcontrolBytes
    case metadata => exact h.metadata

/-- Any markup makes a document. It is within the limits; where none was applied it is the document
of the parse without limits, and where one was its last row says so. -/
theorem parseMicron_withinLimits (markup : Chars) :
    ∃ doc, parseMicron markup = some doc ∧ doc.WithinLimits ∧
      (doc.limitsApplied = false → parseMicronWith noLimits markup = some doc) ∧
      (doc.limitsApplied = true → ∃ state, doc.rows.getLast? = some (limitNoticeRow state)) := by
  obtain ⟨p, hparse, hbounded⟩ := exists_parseLines (lines markup) bounded_start
  unfold parseMicron parseMicronWith
  rw [hparse, bind_eq_bind, bind_some]
  refine ⟨_, rfl, hbounded.withinLimits _ _, fun happlied => ?_, fun happlied => ?_⟩
  · obtain ⟨hlines, hstate⟩ := or_eq_false_iff.mp happlied
    rw [(parseLines_unlimited hparse hlines hstate).1]
    rfl
  · refine ⟨p.state, ?_⟩
    rw [if_pos happlied, getLast?_concat]

end Omen.Micron
