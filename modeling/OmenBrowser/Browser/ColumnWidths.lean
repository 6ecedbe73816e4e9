import OmenBrowser.Lib.Ints
import OmenBrowser.Micron.Parser

/- How much of the screen the layout attributes of a MicronPlus page take (`browser/micronplus.rs`):
   the widths of the columns of a group, and the rows of scroll boxes and logs.

   Correspondence (Rust ↔ Lean):
     `usize` attributes               ↔ `UInt64`; what is computed of them is a `Nat`, by the
                                        saturating operations, within the range
     `a / b`, which panics on zero    ↔ `checkedDiv`
     `Vec` of columns                 ↔ a list that fits into memory
     the rows a body is rendered to   ↔ a function of the width it is rendered at -/
namespace Omen.Browser
open Ints Micron List

/-- What stands between two columns. -/
def defaultColumnGap : Chars := "   ".toList

/-- `usize::saturating_mul`. -/
def saturatingMul (a b : Nat) : Nat := min u64Max (a * b)

/-- `checked_div`. -/
def checkedDiv (a b : Nat) : Option Nat := if b = 0 then none else some (a / b)

/-! Columns. -/

/-- What the attributes of a column ask for. -/
structure MicronPlusColumnLayout where
  width : Option UInt64
  weight : UInt64
  deriving DecidableEq, Repr

/-- A column takes 72 bytes, and a `Vec` no more than `isize::MAX` of them. -/
structure MicronPlusColumnGroup where
  columns : List MicronPlusColumnLayout
  fits : 72 * columns.length < 2 ^ 63

/-- What the first pass over the columns adds up. -/
structure Shares where
  remaining : Nat
  weighted : Nat
  totalWeight : Nat
  deriving DecidableEq, Repr

/-- No column is narrower than eight cells. -/
def fixedWidth (width : UInt64) : Nat := max width.toNat 8

/-- A column of weight zero counts as one of weight one. -/
def columnWeight (column : MicronPlusColumnLayout) : Nat := max column.weight.toNat 1

/-- A column takes its fixed width off what is left, or its weight off the weights. -/
def Shares.add (s : Shares) (column : MicronPlusColumnLayout) : Shares :=
  match column.width with
  | some width => { s with remaining := s.remaining - fixedWidth width }
  | none =>
    { s with
      weighted := s.weighted + 1
      totalWeight := saturatingCount s.totalWeight (columnWeight column) }

/-- The second pass: a fixed column has its width, a weighted one its share, the last what is left. -/
def assignWidths (s : Shares) : Nat → Nat → List MicronPlusColumnLayout → Option (List Nat)
  | _, _, [] => some []
  | offset, assigned, column :: rest =>
    match column.width with
    | some width => do
      let widths ← assignWidths s offset assigned rest
      some (fixedWidth width :: widths)
    | none =>
      if offset = s.weighted - 1 then do
        let widths ← assignWidths s (offset + 1) assigned rest
        some (max (s.remaining - assigned) 8 :: widths)
      else do
        let share ← checkedDiv (saturatingMul s.remaining (columnWeight column)) s.totalWeight
        let widths ← assignWidths s (offset + 1) (saturatingCount assigned (max share 8)) rest
        some (max share 8 :: widths)

variable (group : MicronPlusColumnGroup)

/-- The columns of a tree are laid out by it too, with their widths and weights. -/
def distributeColumnWidths (available : Nat) : Option (List Nat) :=
  let s := group.columns.foldl Shares.add ⟨available, 0, 0⟩
  assignWidths
    { s with
      remaining := max s.remaining (saturatingMul 8 s.weighted)
      totalWeight := max s.totalWeight 1 } 0 0 group.columns

/-- The cells between the columns. -/
def gutterTotal (columns : Nat) : Nat := saturatingMul defaultColumnGap.length (columns - 1)

variable (viewport : UInt64)

/-- The widths a group of columns is rendered with in a viewport. -/
def columnWidths : Option (List Nat) :=
  distributeColumnWidths group
    (max (viewport.toNat - gutterTotal group.columns.length) group.columns.length)

/-! Rows. -/

structure ControlRef where
  name : Chars
  kind : Chars
  value : Chars
  offset : Nat
  length : Nat
  masked : Bool
  deriving DecidableEq, Repr

/-- One place of a row, and what a click on it does. -/
structure Cell where
  ch : Char
  style : TextStyle
  link : Option LinkAction
  control : Option ControlRef
  cursor : Bool
  deriving DecidableEq, Repr

/-- A row as it is shown. -/
structure RenderedRow where
  cells : List Cell
  align : Micron.Alignment
  depth : Nat
  baseStyle : TextStyle
  wrap : Bool
  deriving DecidableEq, Repr

def plainCell (ch : Char) : Cell := ⟨ch, .default, none, none, false⟩

def renderedPlainRow (cells : List Cell) : RenderedRow := ⟨cells, .left, 0, .default, false⟩

def emptyRow : RenderedRow := renderedPlainRow []

/-- The cells at exactly this width. -/
def padOrTruncateCells (cells : List Cell) (width : Nat) : List Cell :=
  let out := cells.take width
  out ++ replicate (width - out.length) (plainCell ' ')

/-- The upper or lower border of a box, with its title in it. -/
def boxBorderRow (left fill right : Char) (innerWidth : Nat) (title : Option Chars) : RenderedRow :=
  match title.filter (· ≠ []) with
  | some title =>
    let titleCells := ((' ' :: title ++ [' ']).take innerWidth).map fun ch =>
      { plainCell ch with style := { TextStyle.default with bold := true } }
    renderedPlainRow (plainCell left :: titleCells ++
      replicate (innerWidth - titleCells.length) (plainCell fill) ++ [plainCell right])
  | none =>
    renderedPlainRow (plainCell left :: replicate innerWidth (plainCell fill) ++
      [plainCell right])

/-- The last rows, as many as there may be. -/
def lastRows (limit : Nat) (rows : List RenderedRow) : List RenderedRow :=
  rows.drop (rows.length - limit)

/-- Rows in a box, which a height makes exactly that high. -/
def boxedRows (innerRows : List RenderedRow) (innerWidth : Nat) (title : Option Chars)
    (height : Option UInt64) : List RenderedRow :=
  let bodyRows := match height with
    | some height =>
      let kept := lastRows height.toNat innerRows
      kept ++ replicate (height.toNat - kept.length) emptyRow
    | none => innerRows
  boxBorderRow '┌' '─' '┐' innerWidth title ::
    bodyRows.map (fun row => renderedPlainRow
      (plainCell '│' :: padOrTruncateCells row.cells innerWidth ++ [plainCell '│'])) ++
    [boxBorderRow '└' '─' '┘' innerWidth none]

/-- The last rows, where a limit is given. -/
def limitRows (limit : Option UInt64) (rows : List RenderedRow) : List RenderedRow :=
  match limit with
  | some limit => lastRows limit.toNat rows
  | none => rows

def widgetInnerWidth (width : Nat) : Nat := max (width - 2) 8

variable (body : Nat → List RenderedRow)

/-- A scrollbox: its body in a box of its height. -/
def renderTreeScrollboxRows (title : Option Chars) (height : Option UInt64) (width : Nat) :
    List RenderedRow :=
  let innerWidth := widgetInnerWidth width
  boxedRows (limitRows height (body innerWidth)) innerWidth (title.filter (· ≠ [])) height

/-- The smaller of the limits that are given. -/
def logLimit : Option UInt64 → Option UInt64 → Option UInt64
  | some max, some height => some (min max height)
  | some max, none => some max
  | none, some height => some height
  | none, none => none

/-- A log: the last rows of its body in a box. -/
def renderTreeLogRows (height max : Option UInt64) (width : Nat) : List RenderedRow :=
  let innerWidth := widgetInnerWidth width
  boxedRows (limitRows (logLimit max height) (body innerWidth)) innerWidth none height

/-! The widths that are chosen. -/

/-- What a weighted column is given of `rest` where it is not the last. -/
def share (rest totalWeight weight : Nat) : Nat :=
  max (saturatingMul rest weight / totalWeight) 8

/-- What the columns of a fixed width take together. -/
def MicronPlusColumnGroup.fixedTotal : Nat :=
  ((group.columns.filterMap (·.width)).map fixedWidth).sum

/-- The weights of the columns without a width of their own. -/
def weights (columns : List MicronPlusColumnLayout) : List Nat :=
  (columns.filter (·.width.isNone)).map columnWeight

/-- The weights are shares of this many. -/
def totalWeight (columns : List MicronPlusColumnLayout) : Nat :=
  max (min u64Max (weights columns).sum) 1

/-- What there is for columns, gutters aside: the viewport, and eight cells for each in any case. -/
def columnRoom : Nat :=
  max (viewport.toNat - 3 * (group.columns.length - 1)) (8 * group.columns.length)

/-- The fixed columns leave eight cells for every weighted one, and so do, for the last of these,
    the shares of the others. -/
structure ColumnsFit (group : MicronPlusColumnGroup) (viewport : UInt64) : Prop where
  fixed : group.fixedTotal + 8 * (weights group.columns).length ≤ columnRoom group viewport
  shares : weights group.columns ≠ [] →
    ((weights group.columns).dropLast.map
      (share (columnRoom group viewport - group.fixedTotal) (totalWeight group.columns))).sum + 8 ≤
        columnRoom group viewport - group.fixedTotal

section Widths
variable {s : Shares} {columns : List MicronPlusColumnLayout} {column : MicronPlusColumnLayout}

theorem weights_fixed {width : UInt64} (h : column.width = some width) :
    weights (column :: columns) = weights columns := by
  simp [weights, h]

theorem weights_weighted (h : column.width = none) :
    weights (column :: columns) = columnWeight column :: weights columns := by
  simp [weights, h]

/-- The first pass takes the fixed widths off and counts the others. -/
theorem foldl_add (s : Shares) (columns : List MicronPlusColumnLayout)
    (htotal : s.totalWeight ≤ u64Max) :
    columns.foldl Shares.add s =
      { remaining := s.remaining - ((columns.filterMap (·.width)).map fixedWidth).sum
        weighted := s.weighted + (weights columns).length
        totalWeight := min u64Max (s.totalWeight + (weights columns).sum) } := by
  induction columns generalizing s with
  | nil =>
    obtain ⟨remaining, weighted, total⟩ := s
    simpa [weights] using htotal
  | cons column columns ih =>
    rw [foldl_cons]
    cases hwidth : column.width with
    | some width =>
      have hadd : s.add column = { s with remaining := s.remaining - fixedWidth width } := by
        rw [Shares.add, hwidth]
      rw [hadd, ih { s with remaining := s.remaining - fixedWidth width } htotal, weights_fixed hwidth]
      simp only [filterMap_cons, hwidth, map_cons, sum_cons, Shares.mk.injEq, and_true]
      omega
    | none =>
      have hadd : s.add column = { s with
          weighted := s.weighted + 1
          totalWeight := saturatingCount s.totalWeight (columnWeight column) } := by
        rw [Shares.add, hwidth]
      have hcount : saturatingCount s.totalWeight (columnWeight column) ≤ u64Max := Nat.min_le_left _ _
      rw [hadd, ih ⟨s.remaining, s.weighted + 1, saturatingCount s.totalWeight (columnWeight column)⟩ hcount,
        weights_weighted hwidth]
      simp only [filterMap_cons, hwidth, length_cons, sum_cons, Shares.mk.injEq,
        true_and, saturatingCount]
      omega

/-- What the second pass chooses adds up to the fixed widths, the shares, and for the last weighted
    column what they leave, or eight cells. -/
theorem assignWidths_sum {offset assigned : Nat} (hdivisor : s.totalWeight ≠ 0)
    (hremaining : s.remaining ≤ u64Max) (hassigned : assigned ≤ u64Max)
    (hcount : offset + (weights columns).length = s.weighted) :
    ∃ widths, assignWidths s offset assigned columns = some widths ∧
      (∀ width ∈ widths, width ≤ u64Max) ∧
      widths.sum = ((columns.filterMap (·.width)).map fixedWidth).sum +
        (if weights columns = [] then 0
         else ((weights columns).dropLast.map (share s.remaining s.totalWeight)).sum +
          max (s.remaining - (assigned +
            ((weights columns).dropLast.map (share s.remaining s.totalWeight)).sum)) 8) := by
  induction columns generalizing offset assigned with
  | nil => exact ⟨[], rfl, (fun _ h => nomatch h), rfl⟩
  | cons column columns ih =>
    unfold assignWidths
    cases hwidth : column.width with
    | some width =>
      rw [weights_fixed hwidth] at hcount ⊢
      obtain ⟨widths, hrest, hbound, hsum⟩ := ih hassigned hcount
      have hfixed : fixedWidth width ≤ u64Max := by
        have hlt := width.toNat_lt
        unfold fixedWidth u64Max
        omega
      refine ⟨fixedWidth width :: widths, ?_, ?_, ?_⟩
      · simp [hrest]
      · exact forall_mem_cons.mpr ⟨hfixed, hbound⟩
      · simp only [filterMap_cons, hwidth, map_cons, sum_cons, hsum]
        omega
    | none =>
      rw [weights_weighted hwidth] at hcount ⊢
      simp only [length_cons] at hcount
      -- the last weighted column takes what is left, the others their share
      by_cases hlast : offset = s.weighted - 1
      · have hnone : weights columns = [] := length_eq_zero_iff.mp (by omega)
        obtain ⟨widths, hrest, hbound, hsum⟩ := @ih (offset + 1) assigned hassigned (by omega)
        refine ⟨max (s.remaining - assigned) 8 :: widths, ?_, ?_, ?_⟩
        · rw [if_pos hlast, hrest]
          rfl
        · refine forall_mem_cons.mpr ⟨?_, hbound⟩
          unfold u64Max at hremaining ⊢
          omega
        · simp [hsum, hnone, hwidth]
          omega
      · have hsome : weights columns ≠ [] := by
          intro hnone
          rw [hnone, length_nil] at hcount
          omega
        let given := share s.remaining s.totalWeight (columnWeight column)
        have hgiven : given ≤ u64Max := by
          have hproduct : saturatingMul s.remaining (columnWeight column) ≤ u64Max := Nat.min_le_left _ _
          have hshare := (Nat.div_le_self _ s.totalWeight).trans hproduct
          refine Nat.max_le.mpr ⟨hshare, ?_⟩
          decide
        obtain ⟨widths, hrest, hbound, hsum⟩ := @ih (offset + 1)
          (saturatingCount assigned given) (Nat.min_le_left _ _) (by omega)
        refine ⟨given :: widths, ?_, forall_mem_cons.mpr ⟨hgiven, hbound⟩, ?_⟩
        · rw [if_neg hlast, checkedDiv, if_neg hdivisor]
          change (assignWidths s (offset + 1) (saturatingCount assigned given) columns).bind _ = _
          rw [hrest]
          rfl
        · rw [sum_cons, hsum, if_neg hsome, if_neg (cons_ne_nil _ _),
            dropLast_cons_of_ne_nil hsome]
          simp only [filterMap_cons, hwidth, map_cons, sum_cons, saturatingCount]
          omega

end Widths

theorem eight_le_fixedTotal (columns : List MicronPlusColumnLayout) :
    8 * columns.length ≤
      ((columns.filterMap (·.width)).map fixedWidth).sum + 8 * (weights columns).length := by
  induction columns with
  | nil => exact Nat.zero_le _
  | cons column columns ih =>
    cases hwidth : column.width with
    | some width =>
      rw [weights_fixed hwidth]
      simp only [filterMap_cons, hwidth, map_cons, sum_cons, length_cons]
      have hleast : 8 ≤ fixedWidth width := Nat.le_max_right _ _
      omega
    | none =>
      rw [weights_weighted hwidth]
      simp only [filterMap_cons, hwidth, length_cons]
      omega

/-- The columns and their gutters stay within the viewport, or within eight cells each, iff what is
    fixed and the least that is given leave room. -/
theorem columnWidths_fit_iff :
    ∃ widths, columnWidths group viewport = some widths ∧ (∀ width ∈ widths, width ≤ u64Max) ∧
      (widths.sum + 3 * (group.columns.length - 1) ≤
          max viewport.toNat (8 * group.columns.length + 3 * (group.columns.length - 1)) ↔
        ColumnsFit group viewport) := by
  obtain ⟨columns, hfits⟩ := group
  have hviewport := viewport.toNat_lt
  have hgutter : gutterTotal columns.length = 3 * (columns.length - 1) := by
    unfold gutterTotal saturatingMul u64Max
    rw [show defaultColumnGap.length = 3 from rfl]
    omega
  have hweights : (weights columns).length ≤ columns.length := by
    unfold weights
    rw [length_map]
    exact length_filter_le _ _
  have hleast := eight_le_fixedTotal columns
  set fixed := ((columns.filterMap (·.width)).map fixedWidth).sum with hfixed
  -- what is shared among the weighted columns
  let available := max (viewport.toNat - 3 * (columns.length - 1)) columns.length
  let remaining := max (available - fixed) (8 * (weights columns).length)
  have hchosen : columnWidths ⟨columns, hfits⟩ viewport = assignWidths
      ⟨remaining, (weights columns).length, totalWeight columns⟩ 0 0 columns := by
    unfold columnWidths distributeColumnWidths
    rw [foldl_add _ _ (Nat.zero_le _), hgutter]
    simp only [Nat.zero_add]
    have hmul : saturatingMul 8 (weights columns).length = 8 * (weights columns).length := by
      unfold saturatingMul u64Max
      omega
    rw [hmul]
    rfl
  have hremaining : remaining ≤ u64Max := by
    unfold u64Max
    omega
  have hdivisor : totalWeight columns ≠ 0 := by
    unfold totalWeight
    omega
  obtain ⟨widths, hwidths, hbound, hsum⟩ := assignWidths_sum
    (s := ⟨remaining, (weights columns).length, totalWeight columns⟩) hdivisor hremaining
    (Nat.zero_le _) (Nat.zero_add _)
  refine ⟨widths, hchosen.trans hwidths, hbound, ?_⟩
  rw [hsum]
  dsimp only
  have hroom : columnRoom ⟨columns, hfits⟩ viewport =
      max (viewport.toNat - 3 * (columns.length - 1)) (8 * columns.length) := rfl
  have hfixedTotal : MicronPlusColumnGroup.fixedTotal ⟨columns, hfits⟩ = fixed := rfl
  by_cases hnone : weights columns = []
  · rw [if_pos hnone]
    rw [hnone, length_nil] at hleast
    constructor
    · intro h
      refine ⟨?_, fun hsome => absurd hnone hsome⟩
      rw [hfixedTotal, hroom, hnone, length_nil]
      omega
    · intro h
      have hfit := h.fixed
      rw [hfixedTotal, hroom, hnone, length_nil] at hfit
      omega
  · rw [if_neg hnone, Nat.zero_add]
    have hsome : 0 < (weights columns).length := length_pos_iff.mpr hnone
    -- where the fixed columns leave enough, the rest is what the room leaves
    have hrest : fixed + 8 * (weights columns).length ≤ columnRoom ⟨columns, hfits⟩ viewport →
        remaining = columnRoom ⟨columns, hfits⟩ viewport - fixed := by
      intro hfit
      rw [hroom] at hfit ⊢
      omega
    constructor
    · intro h
      have hfit : fixed + 8 * (weights columns).length ≤ columnRoom ⟨columns, hfits⟩ viewport := by
        rw [hroom]
        omega
      refine ⟨hfit, fun _ => ?_⟩
      rw [hfixedTotal, ← hrest hfit]
      rw [hroom] at hfit
      change (((weights columns).dropLast.map (share remaining (totalWeight columns))).sum) + 8 ≤ _
      omega
    · intro h
      have hfit := h.fixed
      have hshares := h.shares hnone
      rw [hfixedTotal] at hfit hshares
      rw [← hrest hfit] at hshares
      have hequal := hrest hfit
      rw [hroom] at hequal hfit
      change (((weights columns).dropLast.map (share remaining (totalWeight columns))).sum) + 8 ≤ _
        at hshares
      omega

/-! Rows of a box. -/

section Boxes
variable {rows : List RenderedRow} {title : Option Chars} {height limit : Option UInt64}
  {innerWidth : Nat}

theorem length_lastRows (limit : Nat) (rows : List RenderedRow) :
    (lastRows limit rows).length = min limit rows.length := by
  unfold lastRows
  rw [length_drop]
  omega

theorem length_boxedRows :
    (boxedRows rows innerWidth title height).length =
      (height.elim rows.length UInt64.toNat) + 2 := by
  unfold boxedRows
  cases height with
  | none => simp
  | some height =>
    simp only [length_cons, length_append, length_map, length_replicate,
      length_lastRows, Option.elim_some, length_nil]
    omega

theorem length_limitRows_le : (limitRows limit rows).length ≤ rows.length := by
  unfold limitRows
  split
  · rw [length_lastRows]
    exact Nat.min_le_right _ _
  · exact Nat.le_refl _

/-- A height within the rows there are, or within those of a document. -/
def HeightFits (height : Option UInt64) (content : Nat) : Prop :=
  ∀ rows, height = some rows → rows.toNat ≤ max content micronDocumentMaxRows

theorem boxedRows_fit_iff {content : Nat} (hcontent : rows.length ≤ content) :
    (boxedRows rows innerWidth title height).length ≤ max content micronDocumentMaxRows + 2 ↔
      HeightFits height content := by
  rw [length_boxedRows, Nat.add_le_add_iff_right]
  unfold HeightFits
  cases height with
  | none => exact iff_of_true (hcontent.trans (Nat.le_max_left _ _)) nofun
  | some height => simp

end Boxes

/-- Columns stay within the screen, and scroll boxes and logs within their rows or those of a
    document, iff the fixed widths and the weights leave room and the height is not beyond it. -/
theorem layout_bounded_iff (group : MicronPlusColumnGroup) (viewport : UInt64)
    (body : Nat → List RenderedRow) (title : Option Chars) (height max : Option UInt64)
    (width : Nat) :
    (∃ widths, columnWidths group viewport = some widths ∧ (∀ width ∈ widths, width ≤ u64Max) ∧
      (widths.sum + 3 * (group.columns.length - 1) ≤
          Max.max viewport.toNat (8 * group.columns.length + 3 * (group.columns.length - 1)) ↔
        ColumnsFit group viewport)) ∧
    ((renderTreeScrollboxRows body title height width).length ≤
        Max.max (body (widgetInnerWidth width)).length micronDocumentMaxRows + 2 ↔
      HeightFits height (body (widgetInnerWidth width)).length) ∧
    ((renderTreeLogRows body height max width).length ≤
        Max.max (body (widgetInnerWidth width)).length micronDocumentMaxRows + 2 ↔
      HeightFits height (body (widgetInnerWidth width)).length) :=
  ⟨columnWidths_fit_iff group viewport, boxedRows_fit_iff length_limitRows_le,
    boxedRows_fit_iff length_limitRows_le⟩

/-- A single column of a million cells. -/
def wideGroup : MicronPlusColumnGroup := ⟨[⟨some 1000000, 1⟩], by decide⟩

/-- On a screen of eighty cells one column is a million cells wide, and an empty box as many rows
    high. -/
theorem attributes_blow_up_screen :
    (∃ widths, columnWidths wideGroup 80 = some widths ∧
      ¬widths.sum + 3 * (wideGroup.columns.length - 1) ≤
        max 80 (8 * wideGroup.columns.length + 3 * (wideGroup.columns.length - 1))) ∧
    ¬(renderTreeScrollboxRows (fun _ => []) none (some 1000000) 80).length ≤
      max 0 micronDocumentMaxRows + 2 := by
  refine ⟨⟨[1000000], by decide, by decide⟩, ?_⟩
  unfold renderTreeScrollboxRows
  rw [length_boxedRows]
  decide

end Omen.Browser
