import IsmsPortal.Foundation.TableLayout
import Mathlib.Data.List.Sort
import Mathlib.Data.List.TakeWhile
import Mathlib.Order.Basic

/-! # The table of a sheet

A sheet is shown as a table. A merged range is one cell that spans the visible columns and rows of the
range, and a text that does not fit spans the empty cells to its right. The other cells of a row are
left out, so that what is left falls into the right columns again.
-/

namespace Filters.SheetTable

open Foundation TableLayout

universe u v

structure Range (ρ : Type u) (κ : Type v) where
  firstColumn : κ
  lastColumn : κ
  headerRow : ρ
  lastRow : ρ

/-- What counts of a cell: its text, the style `pre` of its white space, its alignment, and whether
it has a background or a left border. -/
structure SheetCell where
  text : String
  pre : Bool
  textAlign : Option String
  background : Bool
  borderLeft : Bool
deriving DecidableEq

structure Row (ρ : Type u) (κ : Type v) where
  number : ρ
  cells : κ → Option SheetCell

structure Sheet (ρ : Type u) (κ : Type v) where
  columns : List κ
  merges : List (Range ρ κ)
  hasFilter : Bool

variable {ρ : Type u} {κ : Type v} [LinearOrder ρ] [LinearOrder κ]

namespace Range

variable (range : Range ρ κ)

def hasRow (row : ρ) : Bool := range.headerRow ≤ row && row ≤ range.lastRow

def hasColumn (column : κ) : Bool := range.firstColumn ≤ column && column ≤ range.lastColumn

def covers (row : ρ) (column : κ) : Bool := range.hasRow row && range.hasColumn column

end Range

/-! ## Cells -/

section Cells

variable (sheet : Sheet ρ κ) (visibleRows : List (Row ρ κ))

def mergeAt (row : Row ρ κ) (column : κ) : Option (Range ρ κ) :=
  sheet.merges.find? fun range => range.covers row.number column

def mergedColumns (merge : Range ρ κ) : List κ := sheet.columns.filter merge.hasColumn

def mergedRows (merge : Range ρ κ) : List ρ :=
  (visibleRows.map Row.number).filter merge.hasRow

/-- A text that may go on to the right. -/
def overflows (row : Row ρ κ) (column : κ) : Bool :=
  !sheet.hasFilter && (mergeAt sheet row column).isNone &&
    (row.cells column).any fun cell => cell.text ≠ "" && cell.pre &&
      cell.textAlign ≠ some "right" && cell.textAlign ≠ some "center"

/-- A cell that a text to its left may cover. -/
def blank (row : Row ρ κ) (column : κ) : Bool :=
  !((row.cells column).any fun cell => cell.text ≠ "" || cell.background || cell.borderLeft) &&
    !(sheet.merges.any fun range => range.covers row.number column)

/-- The columns that the text of a cell goes on to. -/
def overflowOf (row : Row ρ κ) (column : κ) (rest : List κ) : List κ :=
  if overflows sheet row column then rest.takeWhile (blank sheet row) else []

/-- The cells of the columns that are left, and the columns that are covered. -/
def rowCells (row : Row ρ κ) : List κ → List κ → List (Cell (ρ × κ))
  | _, [] => []
  | overflow, column :: rest =>
      if column ∈ overflow then rowCells row overflow rest
      else
        match mergeAt sheet row column with
        | some merge =>
            let columns := mergedColumns sheet merge
            let rows := mergedRows visibleRows merge
            if columns.head? ≠ some column ∨ rows.head? ≠ some row.number then
              rowCells row overflow rest
            else ⟨(row.number, column), columns.length, rows.length⟩ :: rowCells row overflow rest
        | none =>
            let following := overflowOf sheet row column rest
            ⟨(row.number, column), 1 + following.length, 1⟩ ::
              rowCells row (overflow ++ following) rest

def cells (row : Row ρ κ) : List (Cell (ρ × κ)) := rowCells sheet visibleRows row [] sheet.columns

/-! ## What is shown -/

/-- The text in front of an empty cell goes on to it. -/
def spills (row : Row ρ κ) (before : List κ) : Option κ :=
  (before.reverse.dropWhile (blank sheet row)).head?.filter (overflows sheet row)

/-- The cell that a slot shows: the first visible one of a merged range, or the one whose text goes
on to the slot, or its own. -/
def shown (row : Row ρ κ) (column : κ) : ρ × κ :=
  match mergeAt sheet row column with
  | some merge => ((mergedRows visibleRows merge).headD row.number,
      (mergedColumns sheet merge).headD column)
  | none =>
      if blank sheet row column then
        (row.number, (spills sheet row (sheet.columns.takeWhile (· < column))).getD column)
      else (row.number, column)

end Cells

/-! ## Sheets as they are read -/

/-- The columns are in order, and no two merged ranges have a cell in common. -/
structure Sheet.Regular (sheet : Sheet ρ κ) : Prop where
  columns : sheet.columns.Pairwise (· < ·)
  merges : sheet.merges.Pairwise fun left right =>
    ∀ row column, left.covers row column = true → right.covers row column = false

/-- The rows of a part of the table: a merged range that has one of them has no other visible
rows. -/
structure IsPart (sheet : Sheet ρ κ) (visibleRows rows : List (Row ρ κ)) : Prop where
  order : (rows.map Row.number).Pairwise (· < ·)
  merges : ∀ merge ∈ sheet.merges, ∀ row ∈ rows, merge.hasRow row.number = true →
    mergedRows visibleRows merge = mergedRows rows merge

section Regular

variable {sheet : Sheet ρ κ} {visibleRows : List (Row ρ κ)}

omit [LinearOrder κ] in
theorem Range.hasRow_of_between {range : Range ρ κ} {low middle high : ρ}
    (hlow : range.hasRow low = true) (hhigh : range.hasRow high = true) (hfirst : low ≤ middle)
    (hlast : middle ≤ high) : range.hasRow middle = true := by
  simp only [Range.hasRow, Bool.and_eq_true, decide_eq_true_eq] at hlow hhigh ⊢
  exact ⟨hlow.1.trans hfirst, hlast.trans hhigh.2⟩

omit [LinearOrder ρ] in
theorem Range.hasColumn_of_between {range : Range ρ κ} {low middle high : κ}
    (hlow : range.hasColumn low = true) (hhigh : range.hasColumn high = true)
    (hfirst : low ≤ middle) (hlast : middle ≤ high) : range.hasColumn middle = true := by
  simp only [Range.hasColumn, Bool.and_eq_true, decide_eq_true_eq] at hlow hhigh ⊢
  exact ⟨hlow.1.trans hfirst, hlast.trans hhigh.2⟩

theorem Range.covers_iff {range : Range ρ κ} {row : ρ} {column : κ} :
    range.covers row column = true ↔ range.hasRow row = true ∧ range.hasColumn column = true := by
  rw [Range.covers, Bool.and_eq_true]

theorem mergeAt_eq_some_iff (hregular : sheet.Regular) {row : Row ρ κ} {column : κ}
    {merge : Range ρ κ} :
    mergeAt sheet row column = some merge ↔
      merge ∈ sheet.merges ∧ merge.covers row.number column = true := by
  constructor
  · intro h
    exact ⟨List.mem_of_find?_eq_some h, by simpa using List.find?_some h⟩
  · rintro ⟨hmem, hcovers⟩
    have hdisjoint := hregular.merges
    unfold mergeAt
    generalize sheet.merges = merges at hmem hdisjoint
    induction merges with
    | nil => cases hmem
    | cons head rest ih =>
        obtain ⟨hhead, hrest⟩ := List.pairwise_cons.mp hdisjoint
        obtain rfl | hmem := List.mem_cons.mp hmem
        · rw [List.find?_cons, hcovers]
        · have hfirst : head.covers row.number column = false := by
            by_contra hfirst
            rw [hhead merge hmem row.number column (by simpa using hfirst)] at hcovers
            cases hcovers
          rw [List.find?_cons, hfirst]
          exact ih hmem hrest

theorem mergeAt_of_blank {row : Row ρ κ} {column : κ} (h : blank sheet row column = true) :
    mergeAt sheet row column = none := by
  simp only [blank, Bool.and_eq_true, Bool.not_eq_true', List.any_eq_false] at h
  rw [mergeAt, List.find?_eq_none]
  exact h.2

/-- Between two elements of an ordered list that satisfy a convex predicate all do, so the first
ones that do are all of them. -/
theorem not_of_mem_dropWhile {α : Type u} [LinearOrder α] {holds : α → Bool}
    (hconvex : ∀ low middle high, holds low = true → holds high = true → low ≤ middle →
      middle ≤ high → holds middle = true) {head : α} {values : List α}
    (horder : (head :: values).Pairwise (· < ·)) (hhead : holds head = true) :
    ∀ value ∈ values.dropWhile holds, holds value = false := by
  induction values with
  | nil => exact fun _ h => absurd h List.not_mem_nil
  | cons next rest ih =>
      obtain ⟨hfirst, hrest⟩ := List.pairwise_cons.mp horder
      obtain ⟨hnext, htail⟩ := List.pairwise_cons.mp hrest
      by_cases hholds : holds next = true
      · rw [List.dropWhile_cons_of_pos hholds]
        refine ih (List.pairwise_cons.mpr ⟨fun value hvalue => ?_, htail⟩)
        exact hfirst value (List.mem_cons_of_mem _ hvalue)
      · rw [List.dropWhile_cons_of_neg hholds]
        intro value hvalue
        by_contra hvalueholds
        refine hholds (hconvex head next value hhead (by simpa using hvalueholds)
          (hfirst next List.mem_cons_self).le ?_)
        obtain rfl | hvalue := List.mem_cons.mp hvalue
        · exact le_refl _
        · exact (hnext value hvalue).le

/-- The visible columns of a merged range, from its first one on. -/
theorem filter_eq_takeWhile {α : Type u} [LinearOrder α] {holds : α → Bool}
    (hconvex : ∀ low middle high, holds low = true → holds high = true → low ≤ middle →
      middle ≤ high → holds middle = true) {head : α} {before values : List α}
    (horder : (before ++ head :: values).Pairwise (· < ·)) (hhead : holds head = true)
    (hbefore : ∀ value ∈ before, holds value = false) :
    (before ++ head :: values).filter holds = head :: values.takeWhile holds := by
  obtain ⟨_, hsuffix, _⟩ := List.pairwise_append.mp horder
  have hfirst : before.filter holds = [] := by
    rw [List.filter_eq_nil_iff]
    intro value hvalue
    rw [hbefore value hvalue]
    exact Bool.false_ne_true
  rw [List.filter_append, hfirst, List.nil_append, List.filter_cons_of_pos hhead]
  have hlast : (values.dropWhile holds).filter holds = [] := by
    rw [List.filter_eq_nil_iff]
    intro value hvalue
    rw [not_of_mem_dropWhile hconvex hsuffix hhead value hvalue]
    exact Bool.false_ne_true
  conv_lhs => rw [← List.takeWhile_append_dropWhile (p := holds) (l := values)]
  rw [List.filter_append, hlast, List.append_nil, List.filter_eq_self.mpr]
  exact fun value hvalue => List.mem_takeWhile_imp hvalue

/-! ## One row -/

/-- What the rows from here on show of a merged range. -/
def depth (merge : Range ρ κ) (rows : List (Row ρ κ)) : Nat :=
  (rows.map Row.number).countP merge.hasRow

/-- What covers a slot of a row, with the rows that follow it. -/
def slotAt (sheet : Sheet ρ κ) (visibleRows : List (Row ρ κ)) (row : Row ρ κ)
    (later : List (Row ρ κ)) (column : κ) : Slot (ρ × κ) :=
  (shown sheet visibleRows row column,
    match mergeAt sheet row column with
    | some merge => depth merge (row :: later)
    | none => 1)

/-- What reaches down to a slot of a row, with the rows before it and after it. -/
def aboveAt (sheet : Sheet ρ κ) (visibleRows earlier : List (Row ρ κ)) (row : Row ρ κ)
    (later : List (Row ρ κ)) (column : κ) : Option (Slot (ρ × κ)) :=
  (mergeAt sheet row column).bind fun merge =>
    if earlier.any fun other => merge.hasRow other.number then
      some (slotAt sheet visibleRows row later column)
    else none

variable {earlier later : List (Row ρ κ)} {row : Row ρ κ}

theorem IsPart.mergedRows_eq (hregular : sheet.Regular)
    (hpart : IsPart sheet visibleRows (earlier ++ row :: later)) {column : κ} {merge : Range ρ κ}
    (hmerge : mergeAt sheet row column = some merge) :
    mergedRows visibleRows merge = mergedRows earlier merge ++
      row.number :: mergedRows later merge := by
  obtain ⟨hmem, hcovers⟩ := (mergeAt_eq_some_iff hregular).mp hmerge
  have hrow := (Range.covers_iff.mp hcovers).1
  rw [hpart.merges merge hmem row (by simp) hrow]
  unfold mergedRows
  rw [List.map_append, List.map_cons, List.filter_append, List.filter_cons_of_pos hrow]

/-- A range that starts in the row. -/
theorem mergedRows_of_first (hregular : sheet.Regular)
    (hpart : IsPart sheet visibleRows (earlier ++ row :: later)) {column : κ} {merge : Range ρ κ}
    (hmerge : mergeAt sheet row column = some merge)
    (hfirst : (earlier.any fun other => merge.hasRow other.number) = false) :
    (mergedRows visibleRows merge).head? = some row.number ∧
      (mergedRows visibleRows merge).length = depth merge (row :: later) := by
  have hnone : mergedRows earlier merge = [] := by
    unfold mergedRows
    rw [List.filter_eq_nil_iff]
    intro number hnumber
    obtain ⟨other, hother, rfl⟩ := List.mem_map.mp hnumber
    simpa using List.any_eq_false.mp hfirst other hother
  have hrow := (Range.covers_iff.mp ((mergeAt_eq_some_iff hregular).mp hmerge).2).1
  rw [hpart.mergedRows_eq hregular hmerge, hnone, List.nil_append]
  refine ⟨rfl, ?_⟩
  rw [depth, List.map_cons, List.countP_cons_of_pos hrow, List.length_cons, mergedRows,
    List.countP_eq_length_filter]

/-- A range that an earlier row is in. -/
theorem mergedRows_of_later (hregular : sheet.Regular)
    (hpart : IsPart sheet visibleRows (earlier ++ row :: later)) {column : κ} {merge : Range ρ κ}
    (hmerge : mergeAt sheet row column = some merge)
    (hearlier : (earlier.any fun other => merge.hasRow other.number) = true) :
    (mergedRows visibleRows merge).head? ≠ some row.number := by
  obtain ⟨other, hother, hhas⟩ := List.any_eq_true.mp hearlier
  have hmember : other.number ∈ mergedRows earlier merge :=
    List.mem_filter.mpr ⟨List.mem_map_of_mem hother, hhas⟩
  rw [hpart.mergedRows_eq hregular hmerge]
  obtain ⟨head, rest, hlist⟩ := List.exists_cons_of_ne_nil (List.ne_nil_of_mem hmember)
  rw [hlist, List.cons_append, List.head?_cons]
  intro hsame
  obtain ⟨front, hfront, hnumber⟩ := List.mem_map.mp
    (List.mem_filter.mp (hlist ▸ List.mem_cons_self : head ∈ mergedRows earlier merge)).1
  have horder := hpart.order
  rw [List.map_append, List.pairwise_append] at horder
  have hlt := horder.2.2 front.number (List.mem_map_of_mem hfront) row.number (by simp)
  rw [hnumber, Option.some.inj hsame] at hlt
  exact lt_irrefl _ hlt

/-- Columns that are covered emit nothing. -/
theorem rowCells_covered {overflow : List κ} {block rest : List κ} {merge : Range ρ κ}
    (hblock : ∀ column ∈ block, mergeAt sheet row column = some merge ∧
      (mergedColumns sheet merge).head? ≠ some column) :
    rowCells sheet visibleRows row overflow (block ++ rest) =
      rowCells sheet visibleRows row overflow rest := by
  induction block with
  | nil => rfl
  | cons column block ih =>
      obtain ⟨hmerge, hhead⟩ := hblock column List.mem_cons_self
      rw [List.cons_append, rowCells]
      split
      next => exact ih fun other hother => hblock other (List.mem_cons_of_mem _ hother)
      next =>
        simp only [hmerge, ne_eq, hhead, not_false_eq_true, true_or, if_true]
        exact ih fun other hother => hblock other (List.mem_cons_of_mem _ hother)

theorem rowCells_overflow {overflow : List κ} {block rest : List κ}
    (hblock : ∀ column ∈ block, column ∈ overflow) :
    rowCells sheet visibleRows row overflow (block ++ rest) =
      rowCells sheet visibleRows row overflow rest := by
  induction block with
  | nil => rfl
  | cons column block ih =>
      rw [List.cons_append, rowCells, if_pos (hblock column List.mem_cons_self)]
      exact ih fun other hother => hblock other (List.mem_cons_of_mem _ hother)

/-- Where a cell of the row begins: the first column of the ones that are left is not in a range of
the column before it that starts in the row, and no text goes on to it. -/
structure Boundary (sheet : Sheet ρ κ) (earlier : List (Row ρ κ)) (row : Row ρ κ)
    (before : List κ) (column : κ) : Prop where
  merge : ∀ merge, mergeAt sheet row column = some merge →
    (earlier.any fun other => merge.hasRow other.number) = false →
    ∀ other ∈ before, merge.hasColumn other = false
  blank : blank sheet row column = true → spills sheet row before = none

theorem boundary_nil (column : κ) : Boundary sheet earlier row [] column where
  merge _ _ _ _ h := absurd h List.not_mem_nil
  blank _ := rfl

theorem spills_append (before : List κ) (column : κ) :
    spills sheet row (before ++ [column]) =
      if blank sheet row column then spills sheet row before
      else if overflows sheet row column then some column else none := by
  unfold spills
  rw [List.reverse_append, List.reverse_singleton, List.singleton_append]
  split
  next hblank => rw [List.dropWhile_cons_of_pos hblank]
  next hblank =>
    rw [List.dropWhile_cons_of_neg hblank, List.head?_cons, Option.filter_some]

/-- The first column after a block of columns of a cell. -/
theorem boundary_append (hregular : sheet.Regular) {before block rest : List κ} {column : κ}
    (hblock : block ≠ []) (hordered : (before ++ block ++ column :: rest).Pairwise (· < ·))
    (hmerge : ∀ last ∈ block, ∀ merge, mergeAt sheet row last = some merge →
      (earlier.any fun other => merge.hasRow other.number) = false →
      merge.hasColumn column = false)
    (hblank : blank sheet row column = true → spills sheet row (before ++ block) = none) :
    Boundary sheet earlier row (before ++ block) column where
  merge merge hcolumn hfirst other hother := by
    -- a range with an earlier column has the last one
    by_contra hhas
    obtain ⟨hmem, hcovers⟩ := (mergeAt_eq_some_iff hregular).mp hcolumn
    obtain ⟨hrow, hcolumns⟩ := Range.covers_iff.mp hcovers
    obtain ⟨hbefore, _, hlast⟩ := List.pairwise_append.mp hordered
    obtain ⟨init, last, rfl⟩ := (List.eq_nil_or_concat' block).resolve_left hblock
    have hlt : last < column := hlast last (by simp) column List.mem_cons_self
    have hle : other ≤ last := by
      rw [← List.append_assoc] at hbefore hother
      obtain hother | hother := List.mem_append.mp hother
      · exact ((List.pairwise_append.mp hbefore).2.2 other hother last
          (List.mem_singleton_self _)).le
      · exact (List.mem_singleton.mp hother).le
    have hhaslast : merge.hasColumn last = true :=
      Range.hasColumn_of_between (by simpa using hhas) hcolumns hle hlt.le
    have hsame : mergeAt sheet row last = some merge :=
      (mergeAt_eq_some_iff hregular).mpr ⟨hmem, Range.covers_iff.mpr ⟨hrow, hhaslast⟩⟩
    rw [hmerge last (by simp) merge hsame hfirst] at hcolumns
    cases hcolumns
  blank := hblank

theorem takeWhile_lt {before rest : List κ} {column : κ}
    (hordered : (before ++ column :: rest).Pairwise (· < ·)) :
    (before ++ column :: rest).takeWhile (· < column) = before := by
  rw [List.takeWhile_append_of_pos, List.takeWhile_cons_of_neg]
  · exact List.append_nil _
  · simp
  · intro other hother
    simpa using (List.pairwise_append.mp hordered).2.2 other hother column List.mem_cons_self

theorem blank_eq_false_of_merge {column : κ} {merge : Range ρ κ}
    (hmerge : mergeAt sheet row column = some merge) : blank sheet row column = false := by
  by_contra hblank
  rw [mergeAt_of_blank (by simpa using hblank)] at hmerge
  cases hmerge

theorem overflows_eq_false_of_merge {column : κ} {merge : Range ρ κ}
    (hmerge : mergeAt sheet row column = some merge) : overflows sheet row column = false := by
  simp [overflows, hmerge]

theorem spills_of_merge {before : List κ} {column : κ} {merge : Range ρ κ}
    (hmerge : mergeAt sheet row column = some merge) :
    spills sheet row (before ++ [column]) = none := by
  rw [spills_append, blank_eq_false_of_merge hmerge, overflows_eq_false_of_merge hmerge]
  rfl

theorem blank_eq_false_of_overflows {column : κ} (h : overflows sheet row column = true) :
    blank sheet row column = false := by
  simp only [overflows, Bool.and_eq_true, Option.any_eq_true] at h
  obtain ⟨_, cell, hcell, hproper⟩ := h
  simp_all [blank]

/-- The text of a column goes on to the blank columns after it. -/
theorem spills_blank {before blanks : List κ} {column : κ}
    (hoverflows : overflows sheet row column = true)
    (hblanks : ∀ other ∈ blanks, blank sheet row other = true) :
    spills sheet row (before ++ column :: blanks) = some column := by
  unfold spills
  rw [List.reverse_append, List.reverse_cons, List.append_assoc, List.dropWhile_append_of_pos]
  · have hneg : ¬blank sheet row column = true := by
      simp [blank_eq_false_of_overflows hoverflows]
    rw [List.singleton_append, List.dropWhile_cons_of_neg hneg, List.head?_cons,
      Option.filter_some, if_pos hoverflows]
  · exact fun other hother => hblanks other (List.mem_reverse.mp hother)

/-- A cell that covers a block of columns. -/
theorem covers_block {block rest : List κ} {content : ρ × κ} {rows : Nat}
    {emitted : List (Cell (ρ × κ))} (hblock : block ≠ [])
    (habove : ∀ column ∈ block, aboveAt sheet visibleRows earlier row later column = none)
    (hslot : ∀ column ∈ block, slotAt sheet visibleRows row later column = (content, rows))
    (hrest : Covers (rest.map (aboveAt sheet visibleRows earlier row later)) emitted
      (rest.map (slotAt sheet visibleRows row later))) :
    Covers ((block ++ rest).map (aboveAt sheet visibleRows earlier row later))
      (⟨content, block.length, rows⟩ :: emitted)
      ((block ++ rest).map (slotAt sheet visibleRows row later)) := by
  rw [List.map_append, List.map_append, List.map_eq_replicate_iff.mpr habove,
    List.map_eq_replicate_iff.mpr hslot]
  have hlength : 0 < (⟨content, block.length, rows⟩ : Cell (ρ × κ)).columns :=
    List.length_pos_of_ne_nil hblock
  exact .cell hlength hrest

/-- The columns that are left of a row. -/
structure Left (sheet : Sheet ρ κ) (earlier : List (Row ρ κ)) (row : Row ρ κ)
    (before suffix overflow : List κ) : Prop where
  columns : sheet.columns = before ++ suffix
  overflow : ∀ column ∈ suffix, column ∉ overflow
  boundary : ∀ column rest, suffix = column :: rest → Boundary sheet earlier row before column

variable {before block rest overflow : List κ} {column : κ}

theorem Left.append (hregular : sheet.Regular)
    (h : Left sheet earlier row before (block ++ rest) overflow) {more : List κ}
    (hblock : block ≠ []) (hmore : ∀ other ∈ more, other ∈ block)
    (hmerge : ∀ column ∈ rest.head?, ∀ last ∈ block, ∀ merge, mergeAt sheet row last = some merge →
      (earlier.any fun other => merge.hasRow other.number) = false →
      merge.hasColumn column = false)
    (hblank : ∀ column ∈ rest.head?, blank sheet row column = true →
      spills sheet row (before ++ block) = none) :
    Left sheet earlier row (before ++ block) rest (overflow ++ more) where
  columns := by rw [h.columns, List.append_assoc]
  overflow column hcolumn hmem := by
    obtain hmem | hmem := List.mem_append.mp hmem
    · exact h.overflow column (List.mem_append_right _ hcolumn) hmem
    · have hordered := hregular.columns
      rw [h.columns, ← List.append_assoc] at hordered
      exact lt_irrefl column ((List.pairwise_append.mp hordered).2.2 column
        (List.mem_append_right _ (hmore column hmem)) column hcolumn)
  boundary column others hrest := by
    subst hrest
    have hordered := hregular.columns
    rw [h.columns, ← List.append_assoc] at hordered
    exact boundary_append hregular hblock hordered (hmerge column rfl) (hblank column rfl)

/-- A range that begins in the row. -/
theorem covers_range (hregular : sheet.Regular)
    (hpart : IsPart sheet visibleRows (earlier ++ row :: later)) {merge : Range ρ κ}
    (h : Left sheet earlier row before (column :: rest) overflow)
    (hmerge : mergeAt sheet row column = some merge)
    (hfirst : (earlier.any fun other => merge.hasRow other.number) = false)
    (ih : Left sheet earlier row (before ++ column :: rest.takeWhile merge.hasColumn)
        (rest.dropWhile merge.hasColumn) overflow →
      Covers ((rest.dropWhile merge.hasColumn).map (aboveAt sheet visibleRows earlier row later))
        (rowCells sheet visibleRows row overflow (rest.dropWhile merge.hasColumn))
        ((rest.dropWhile merge.hasColumn).map (slotAt sheet visibleRows row later))) :
    Covers ((column :: rest).map (aboveAt sheet visibleRows earlier row later))
      (rowCells sheet visibleRows row overflow (column :: rest))
      ((column :: rest).map (slotAt sheet visibleRows row later)) := by
  obtain ⟨hmem, hcovers⟩ := (mergeAt_eq_some_iff hregular).mp hmerge
  obtain ⟨hrow, hcolumn⟩ := Range.covers_iff.mp hcovers
  obtain ⟨hhead, hlength⟩ := mergedRows_of_first hregular hpart hmerge hfirst
  have hordered := hregular.columns
  rw [h.columns] at hordered
  have hcolumns : mergedColumns sheet merge = column :: rest.takeWhile merge.hasColumn := by
    rw [mergedColumns, h.columns]
    refine filter_eq_takeWhile (fun _ _ _ => Range.hasColumn_of_between) hordered hcolumn ?_
    exact (h.boundary column rest rfl).merge merge hmerge hfirst
  have hblock : ∀ other ∈ column :: rest.takeWhile merge.hasColumn,
      mergeAt sheet row other = some merge := by
    intro other hother
    obtain rfl | hother := List.mem_cons.mp hother
    · exact hmerge
    · exact (mergeAt_eq_some_iff hregular).mpr
        ⟨hmem, Range.covers_iff.mpr ⟨hrow, List.mem_takeWhile_imp hother⟩⟩
  have hsplit : column :: rest =
      (column :: rest.takeWhile merge.hasColumn) ++ rest.dropWhile merge.hasColumn := by
    rw [List.cons_append, List.takeWhile_append_dropWhile]
  have hleft : Left sheet earlier row (before ++ column :: rest.takeWhile merge.hasColumn)
      (rest.dropWhile merge.hasColumn) overflow := by
    rw [hsplit] at h
    rw [← List.append_nil overflow]
    refine h.append hregular (List.cons_ne_nil _ _) nofun ?_ ?_
    · intro next hnext last hlast other hother _
      rw [hblock last hlast] at hother
      obtain rfl := Option.some.inj hother
      exact not_of_mem_dropWhile (fun _ _ _ => Range.hasColumn_of_between)
        (List.pairwise_append.mp hordered).2.1 hcolumn next (List.mem_of_mem_head? hnext)
    · intro _ _ _
      obtain ⟨init, last, hinit⟩ := (List.eq_nil_or_concat'
        (column :: rest.takeWhile merge.hasColumn)).resolve_left (List.cons_ne_nil _ _)
      rw [hinit, ← List.append_assoc]
      exact spills_of_merge (hblock last (by rw [hinit]; simp))
  have hemitted : rowCells sheet visibleRows row overflow (column :: rest) =
      ⟨(row.number, column), (column :: rest.takeWhile merge.hasColumn).length,
        depth merge (row :: later)⟩ ::
        rowCells sheet visibleRows row overflow (rest.dropWhile merge.hasColumn) := by
    rw [rowCells, if_neg (h.overflow column List.mem_cons_self), hmerge]
    have hfits : ¬((mergedColumns sheet merge).head? ≠ some column ∨
        (mergedRows visibleRows merge).head? ≠ some row.number) := by
      rw [hcolumns, hhead]
      simp
    simp only
    rw [if_neg hfits, hcolumns, hlength]
    refine congrArg _ ?_
    conv_lhs => rw [← List.takeWhile_append_dropWhile (p := merge.hasColumn) (l := rest)]
    refine rowCells_covered fun other hother =>
      ⟨hblock other (List.mem_cons_of_mem _ hother), ?_⟩
    rw [hcolumns, List.head?_cons]
    intro hsame
    have hlt := (List.pairwise_cons.mp (List.pairwise_append.mp hordered).2.1).1 other
      ((List.takeWhile_sublist _).subset hother)
    rw [Option.some.inj hsame] at hlt
    exact lt_irrefl _ hlt
  rw [hemitted, hsplit]
  refine covers_block (List.cons_ne_nil _ _) (fun other hother => ?_) (fun other hother => ?_)
    (ih hleft)
  · rw [aboveAt, hblock other hother, Option.bind_some, hfirst]
    rfl
  · rw [slotAt, shown, hblock other hother]
    simp only
    rw [hcolumns, List.headD_cons, List.headD_eq_head?_getD, hhead]
    rfl

/-- A range that an earlier row is in. -/
theorem covers_above (hregular : sheet.Regular)
    (hpart : IsPart sheet visibleRows (earlier ++ row :: later)) {merge : Range ρ κ}
    (h : Left sheet earlier row before (column :: rest) overflow)
    (hmerge : mergeAt sheet row column = some merge)
    (hearlier : (earlier.any fun other => merge.hasRow other.number) = true)
    (ih : Left sheet earlier row (before ++ [column]) rest overflow →
      Covers (rest.map (aboveAt sheet visibleRows earlier row later))
        (rowCells sheet visibleRows row overflow rest)
        (rest.map (slotAt sheet visibleRows row later))) :
    Covers ((column :: rest).map (aboveAt sheet visibleRows earlier row later))
      (rowCells sheet visibleRows row overflow (column :: rest))
      ((column :: rest).map (slotAt sheet visibleRows row later)) := by
  have habove : aboveAt sheet visibleRows earlier row later column =
      some (slotAt sheet visibleRows row later column) := by
    rw [aboveAt, hmerge, Option.bind_some, if_pos hearlier]
  have hleft : Left sheet earlier row (before ++ [column]) rest overflow := by
    rw [← List.append_nil overflow]
    refine Left.append hregular h (List.cons_ne_nil _ _) nofun ?_ ?_
    · intro _ _ last hlast other hother hfirst
      rw [List.mem_singleton.mp hlast, hmerge] at hother
      rw [← Option.some.inj hother, hearlier] at hfirst
      cases hfirst
    · exact fun _ _ _ => spills_of_merge hmerge
  rw [rowCells, if_neg (h.overflow column List.mem_cons_self), hmerge, List.map_cons,
    List.map_cons, habove]
  simp only
  rw [if_pos (.inr (mergedRows_of_later hregular hpart hmerge hearlier))]
  exact .above (ih hleft)

theorem slotAt_of_overflows (hregular : sheet.Regular) {blanks : List κ}
    (hcolumns : sheet.columns = before ++ column :: (blanks ++ rest))
    (hoverflows : overflows sheet row column = true)
    (hblanks : ∀ other ∈ blanks, blank sheet row other = true) :
    ∀ other ∈ column :: blanks,
      slotAt sheet visibleRows row later other = ((row.number, column), 1) := by
  have hordered := hregular.columns
  intro other hother
  obtain rfl | hother := List.mem_cons.mp hother
  · have hmerge : mergeAt sheet row other = none := by
      simp only [overflows, Bool.and_eq_true, Option.isNone_iff_eq_none] at hoverflows
      exact hoverflows.1.2
    simp [slotAt, shown, hmerge, blank_eq_false_of_overflows hoverflows]
  · obtain ⟨front, back, rfl⟩ := List.append_of_mem hother
    have hblank := hblanks other hother
    have htake : sheet.columns.takeWhile (· < other) = before ++ column :: front := by
      have hsplit : sheet.columns = (before ++ column :: front) ++ other :: (back ++ rest) := by
        rw [hcolumns]
        simp
      rw [hsplit] at hordered ⊢
      exact takeWhile_lt hordered
    have hspills : spills sheet row (before ++ column :: front) = some column :=
      spills_blank hoverflows fun value hvalue => hblanks value (List.mem_append_left _ hvalue)
    simp [slotAt, shown, mergeAt_of_blank hblank, hblank, htake, hspills]

/-- A cell that is not in a range, with the empty cells that its text goes on to. -/
theorem covers_single (hregular : sheet.Regular)
    (h : Left sheet earlier row before (column :: rest) overflow)
    (hmerge : mergeAt sheet row column = none)
    (ih : ∀ {following next : List κ}, rest = following ++ next →
      Left sheet earlier row (before ++ column :: following) next (overflow ++ following) →
        Covers (next.map (aboveAt sheet visibleRows earlier row later))
          (rowCells sheet visibleRows row (overflow ++ following) next)
          (next.map (slotAt sheet visibleRows row later))) :
    Covers ((column :: rest).map (aboveAt sheet visibleRows earlier row later))
      (rowCells sheet visibleRows row overflow (column :: rest))
      ((column :: rest).map (slotAt sheet visibleRows row later)) := by
  rw [rowCells, if_neg (h.overflow column List.mem_cons_self), hmerge]
  simp only
  by_cases hoverflows : overflows sheet row column = true
  · -- the text goes on to the blank cells that follow
    rw [overflowOf, if_pos hoverflows]
    generalize hblanks : rest.takeWhile (blank sheet row) = blanks
    generalize hnext : rest.dropWhile (blank sheet row) = next
    have hrest : rest = blanks ++ next := by
      rw [← hblanks, ← hnext, List.takeWhile_append_dropWhile]
    have hblank : ∀ other ∈ blanks, blank sheet row other = true := fun other hother =>
      List.mem_takeWhile_imp (hblanks ▸ hother)
    subst hrest
    have hnone : ∀ other ∈ column :: blanks, mergeAt sheet row other = none := by
      intro other hother
      obtain rfl | hother := List.mem_cons.mp hother
      · exact hmerge
      · exact mergeAt_of_blank (hblank other hother)
    have hleft : Left sheet earlier row (before ++ column :: blanks) next (overflow ++ blanks) := by
      refine Left.append hregular h (List.cons_ne_nil _ _)
        (fun _ => List.mem_cons_of_mem _) ?_ ?_
      · intro _ _ last hlast merge hsome
        rw [hnone last hlast] at hsome
        cases hsome
      · intro value hvalue hblankvalue
        obtain ⟨others, rfl⟩ := List.head?_eq_some_iff.mp hvalue
        have hfirst := List.head?_dropWhile_not (blank sheet row) (blanks ++ value :: others)
        rw [hnext] at hfirst
        simp [hblankvalue] at hfirst
    rw [rowCells_overflow fun other hother => List.mem_append_right _ hother, ← List.cons_append,
      Nat.add_comm, ← List.length_cons]
    refine covers_block (List.cons_ne_nil _ _) (fun other hother => ?_)
      (slotAt_of_overflows hregular h.columns hoverflows hblank) (ih rfl hleft)
    rw [aboveAt, hnone other hother, Option.bind_none]
  · rw [overflowOf, if_neg hoverflows, List.length_nil]
    have hspills : blank sheet row column = true → spills sheet row before = none :=
      (h.boundary column rest rfl).blank
    have hleft : Left sheet earlier row (before ++ [column]) rest (overflow ++ []) := by
      refine Left.append hregular h (List.cons_ne_nil _ _) nofun ?_ ?_
      · intro _ _ last hlast merge hsome
        rw [List.mem_singleton.mp hlast, hmerge] at hsome
        cases hsome
      · intro _ _ _
        rw [spills_append, if_neg hoverflows]
        split
        · exact hspills ‹_›
        · rfl
    refine covers_block (List.cons_ne_nil column []) (fun other hother => ?_)
      (fun other hother => ?_) (ih rfl hleft)
    · rw [List.mem_singleton.mp hother, aboveAt, hmerge, Option.bind_none]
    · have hordered := hregular.columns
      rw [h.columns] at hordered
      have htake : sheet.columns.takeWhile (· < column) = before := by
        rw [h.columns]
        exact takeWhile_lt hordered
      rw [List.mem_singleton.mp hother]
      by_cases hblank : blank sheet row column = true
      · simp [slotAt, shown, hmerge, hblank, htake, hspills hblank]
      · simp [slotAt, shown, hmerge, hblank]

/-- **One row.** Its cells cover the columns that no range reaches down to. -/
theorem covers_rowCells (hregular : sheet.Regular)
    (hpart : IsPart sheet visibleRows (earlier ++ row :: later)) (n : Nat) {suffix : List κ}
    (hlength : suffix.length ≤ n) (h : Left sheet earlier row before suffix overflow) :
    Covers (suffix.map (aboveAt sheet visibleRows earlier row later))
      (rowCells sheet visibleRows row overflow suffix)
      (suffix.map (slotAt sheet visibleRows row later)) := by
  induction n generalizing before suffix overflow with
  | zero =>
      rw [List.eq_nil_of_length_eq_zero (Nat.le_zero.mp hlength)]
      exact .nil
  | succ n ih =>
      cases suffix with
      | nil => exact .nil
      | cons column rest =>
          rw [List.length_cons] at hlength
          cases hmerge : mergeAt sheet row column with
          | some merge =>
              cases hearlier : earlier.any fun other => merge.hasRow other.number with
              | true => exact covers_above hregular hpart h hmerge hearlier (ih (by omega))
              | false =>
                  refine covers_range hregular hpart h hmerge hearlier (ih ?_)
                  have := (List.dropWhile_sublist merge.hasColumn (l := rest)).length_le
                  omega
          | none =>
              refine covers_single hregular h hmerge fun {following next} hrest => ih ?_
              rw [hrest, List.length_append] at hlength
              omega

theorem covers_cells (hregular : sheet.Regular)
    (hpart : IsPart sheet visibleRows (earlier ++ row :: later)) :
    Covers (sheet.columns.map (aboveAt sheet visibleRows earlier row later))
      (cells sheet visibleRows row) (sheet.columns.map (slotAt sheet visibleRows row later)) :=
  covers_rowCells hregular hpart _ (Nat.le_refl _)
    ⟨rfl, fun _ _ => List.not_mem_nil, fun column _ _ => boundary_nil column⟩

/-! ## The rows of a part -/

/-- What reaches down to the first of the rows that are left. -/
def reaches (sheet : Sheet ρ κ) (visibleRows earlier : List (Row ρ κ)) :
    List (Row ρ κ) → κ → Option (Slot (ρ × κ))
  | [], _ => none
  | row :: later, column => aboveAt sheet visibleRows earlier row later column

omit [LinearOrder κ] in
theorem depth_cons {merge : Range ρ κ} (hrow : merge.hasRow row.number = true) :
    depth merge (row :: later) = depth merge later + 1 := by
  rw [depth, List.map_cons, List.countP_cons_of_pos hrow]
  rfl

omit [LinearOrder κ] in
/-- A range that has a row and a later one has the next one. -/
theorem hasRow_next (hpart : IsPart sheet visibleRows (earlier ++ row :: later))
    {merge : Range ρ κ} (hrow : merge.hasRow row.number = true) (hdepth : 0 < depth merge later) :
    ∃ next rest, later = next :: rest ∧ merge.hasRow next.number = true := by
  cases later with
  | nil => exact absurd hdepth (Nat.lt_irrefl 0)
  | cons next rest =>
      refine ⟨next, rest, rfl, ?_⟩
      obtain ⟨number, hnumber, hhas⟩ := List.countP_pos_iff.mp hdepth
      have horder := hpart.order
      rw [List.map_append, List.map_cons, List.pairwise_append] at horder
      obtain ⟨hrows, hlater⟩ := List.pairwise_cons.mp horder.2.1
      refine Range.hasRow_of_between hrow hhas (hrows next.number (by simp)).le ?_
      obtain rfl | hnumber := List.mem_cons.mp hnumber
      · exact le_refl _
      · exact ((List.pairwise_cons.mp hlater).1 number hnumber).le

omit [LinearOrder κ] in
/-- A range that an earlier row and a row are in has the last of the earlier rows. -/
theorem hasRow_last {next : Row ρ κ} {rest : List (Row ρ κ)}
    (hpart : IsPart sheet visibleRows (earlier ++ row :: next :: rest)) {merge : Range ρ κ}
    (hearlier : ((earlier ++ [row]).any fun other => merge.hasRow other.number) = true)
    (hnext : merge.hasRow next.number = true) : merge.hasRow row.number = true := by
  obtain ⟨other, hother, hhas⟩ := List.any_eq_true.mp hearlier
  have horder := hpart.order
  rw [List.map_append, List.map_cons, List.map_cons, List.pairwise_append] at horder
  refine Range.hasRow_of_between hhas hnext ?_
    ((List.pairwise_cons.mp horder.2.1).1 next.number List.mem_cons_self).le
  obtain hother | hother := List.mem_append.mp hother
  · exact (horder.2.2 other.number (List.mem_map_of_mem hother) row.number List.mem_cons_self).le
  · rw [List.mem_singleton.mp hother]

/-- What a row leaves reaches down to the next one. -/
theorem down_slotAt (hregular : sheet.Regular)
    (hpart : IsPart sheet visibleRows (earlier ++ row :: later)) (column : κ) :
    (slotAt sheet visibleRows row later column).down =
      reaches sheet visibleRows (earlier ++ [row]) later column := by
  -- a range that reaches down to the next row is the one of this row
  have hsame : ∀ next rest merge, later = next :: rest →
      mergeAt sheet next column = some merge →
      ((earlier ++ [row]).any fun other => merge.hasRow other.number) = true →
      mergeAt sheet row column = some merge := by
    rintro next rest merge rfl hmerge hany
    obtain ⟨hmem, hcovers⟩ := (mergeAt_eq_some_iff hregular).mp hmerge
    obtain ⟨hnext, hcolumn⟩ := Range.covers_iff.mp hcovers
    exact (mergeAt_eq_some_iff hregular).mpr
      ⟨hmem, Range.covers_iff.mpr ⟨hasRow_last hpart hany hnext, hcolumn⟩⟩
  cases hmerge : mergeAt sheet row column with
  | none =>
      have hslot : (slotAt sheet visibleRows row later column).down = none := by
        simp [slotAt, hmerge, Slot.down]
      rw [hslot]
      cases later with
      | nil => rfl
      | cons next rest =>
          rw [reaches, aboveAt, eq_comm, Option.bind_eq_none_iff]
          intro merge hnext
          refine if_neg fun hany => ?_
          rw [hsame next rest merge rfl hnext hany] at hmerge
          cases hmerge
  | some merge =>
      obtain ⟨hmem, hcovers⟩ := (mergeAt_eq_some_iff hregular).mp hmerge
      obtain ⟨hrow, hcolumn⟩ := Range.covers_iff.mp hcovers
      have hslot : (slotAt sheet visibleRows row later column).2 = depth merge later + 1 := by
        rw [slotAt, hmerge]
        exact depth_cons hrow
      by_cases hdepth : 0 < depth merge later
      · obtain ⟨next, rest, rfl, hnext⟩ := hasRow_next hpart hrow hdepth
        have hmergenext : mergeAt sheet next column = some merge :=
          (mergeAt_eq_some_iff hregular).mpr ⟨hmem, Range.covers_iff.mpr ⟨hnext, hcolumn⟩⟩
        have hany : ((earlier ++ [row]).any fun other => merge.hasRow other.number) = true := by
          simp [hrow]
        have hhead : (mergedRows visibleRows merge).head? ≠ none := by
          rw [hpart.mergedRows_eq hregular hmerge]
          simp
        obtain ⟨first, hfirst⟩ := Option.ne_none_iff_exists'.mp hhead
        have hshown : shown sheet visibleRows next column = shown sheet visibleRows row column := by
          simp only [shown, hmerge, hmergenext, List.headD_eq_head?_getD, hfirst]
          rfl
        rw [reaches, aboveAt, hmergenext, Option.bind_some, if_pos hany, Slot.down, hslot,
          if_neg (by omega), Nat.add_sub_cancel]
        simp only [slotAt, hmerge, hmergenext, hshown]
      · rw [Slot.down, hslot, if_pos (by omega)]
        cases later with
        | nil => rfl
        | cons next rest =>
            rw [reaches, aboveAt, eq_comm, Option.bind_eq_none_iff]
            intro other hother
            refine if_neg fun hany => hdepth ?_
            have hother' := hsame next rest other rfl hother hany
            rw [hmerge] at hother'
            obtain rfl := Option.some.inj hother'
            have hnext := (Range.covers_iff.mp ((mergeAt_eq_some_iff hregular).mp hother).2).1
            rw [depth_cons hnext]
            exact Nat.succ_pos _

theorem placeRows_cells (hregular : sheet.Regular) {rows : List (Row ρ κ)}
    (hpart : IsPart sheet visibleRows (earlier ++ rows)) :
    placeRows (sheet.columns.map (reaches sheet visibleRows earlier rows))
      (rows.map (cells sheet visibleRows)) =
        some (rows.map fun row => sheet.columns.map (shown sheet visibleRows row)) := by
  induction rows generalizing earlier with
  | nil =>
      rw [List.map_nil, placeRows, if_pos]
      · rfl
      · simp [reaches]
  | cons row later ih =>
      have hlater : IsPart sheet visibleRows (earlier ++ [row] ++ later) := by
        rwa [← List.append_cons]
      have hrest := ih hlater
      have hdown : (sheet.columns.map (slotAt sheet visibleRows row later)).map Slot.down =
          sheet.columns.map (reaches sheet visibleRows (earlier ++ [row]) later) := by
        rw [List.map_map]
        exact List.map_congr_left fun column _ => down_slotAt hregular hpart column
      have hrow : placeRow none (sheet.columns.map (reaches sheet visibleRows earlier (row :: later)))
          (cells sheet visibleRows row) =
            some (sheet.columns.map (slotAt sheet visibleRows row later)) :=
        (covers_cells hregular hpart).placeRow_eq
      simp only [List.map_cons, placeRows, hrow, hdown, hrest, Option.bind_eq_bind,
        Option.bind_some, Option.pure_def, List.map_map]
      rfl

end Regular

theorem placeRows_part {sheet : Sheet ρ κ} {visibleRows rows : List (Row ρ κ)}
    (hregular : sheet.Regular) (hpart : IsPart sheet visibleRows rows) :
    placeRows (sheet.columns.map fun _ => none) (rows.map (cells sheet visibleRows)) =
      some (rows.map fun row => sheet.columns.map (shown sheet visibleRows row)) := by
  have hnone : (fun _ : κ => none) = reaches sheet visibleRows [] rows := by
    funext column
    cases rows with
    | nil => rfl
    | cons row later =>
        rw [reaches, aboveAt, eq_comm, Option.bind_eq_none_iff]
        exact fun _ _ => rfl
  rw [hnone]
  exact placeRows_cells hregular hpart

omit [LinearOrder κ] in
/-- A merged range is in one of two parts. -/
theorem mergedRows_append {first second : List (Row ρ κ)} {merge : Range ρ κ}
    (h : ∀ row ∈ second, merge.hasRow row.number = false) :
    mergedRows (first ++ second) merge = mergedRows first merge := by
  have hnone : mergedRows second merge = [] := by
    unfold mergedRows
    rw [List.filter_eq_nil_iff]
    intro number hnumber
    obtain ⟨row, hrow, rfl⟩ := List.mem_map.mp hnumber
    simp [h row hrow]
  unfold mergedRows at hnone ⊢
  rw [List.map_append, List.filter_append, hnone, List.append_nil]

/-- **The table of a sheet.** The head of the table is the row of the filter, and its body are the
rows that are displayed. If no merged range has rows of both, the cells fall into place: every slot
of a row and a visible column is covered once, by the cell that the sheet shows there, and no cell
reaches below the head or the body. -/
theorem cells_fall_into_place {sheet : Sheet ρ κ} {header : Option (Row ρ κ)}
    {displayed : List (Row ρ κ)} (hregular : sheet.Regular)
    (horder : ((header.toList ++ displayed).map Row.number).Pairwise (· < ·))
    (hheader : ∀ merge ∈ sheet.merges, ∀ head ∈ header, merge.hasRow head.number = true →
      ∀ row ∈ displayed, merge.hasRow row.number = false) :
    ∀ rows, rows = header.toList ∨ rows = displayed →
      placeRows (sheet.columns.map fun _ => none)
          (rows.map (cells sheet (header.toList ++ displayed))) =
        some (rows.map fun row =>
          sheet.columns.map (shown sheet (header.toList ++ displayed) row)) := by
  rw [List.map_append, List.pairwise_append] at horder
  rintro rows (rfl | rfl)
  · refine placeRows_part hregular ⟨horder.1, fun merge hmerge row hrow hhas => ?_⟩
    exact mergedRows_append (hheader merge hmerge row (by simpa using hrow) hhas)
  · refine placeRows_part hregular ⟨horder.2.1, fun merge hmerge row hrow hhas => ?_⟩
    cases header with
    | none => rfl
    | some head =>
        have hhead : merge.hasRow head.number = false := by
          by_contra hhead
          rw [hheader merge hmerge head rfl (by simpa using hhead) row hrow] at hhas
          cases hhas
        unfold mergedRows
        rw [Option.toList_some, List.singleton_append, List.map_cons,
          List.filter_cons_of_neg (by simp [hhead])]

/-! A range of two columns and three rows of which one is hidden, and a text that goes on to the empty
cells next to it. -/

def textCell (text : String) : SheetCell := ⟨text, true, none, false, false⟩

def sheetExample : Sheet Nat Nat where
  columns := [0, 2, 3, 5]
  merges := [⟨2, 4, 1, 4⟩, ⟨3, 3, 6, 7⟩]
  hasFilter := false

def rowExample (number : Nat) : Row Nat Nat where
  number := number
  cells column := if column = 0 then some (textCell "long text") else none

def rowsExample : List (Row Nat Nat) := [1, 2, 4, 6].map rowExample

theorem sheetExample_regular : sheetExample.Regular where
  columns := by decide
  merges := by
    simp only [sheetExample, List.pairwise_cons, List.mem_singleton, forall_eq, Range.covers,
      Range.hasRow, Range.hasColumn, Bool.and_eq_true, decide_eq_true_eq]
    refine ⟨fun row column h => ?_, by simp⟩
    simp only [Bool.and_eq_false_iff, decide_eq_false_iff_not]
    omega

/-! With a filter: the head has a range of its own. -/

def headedSheet : Sheet Nat Nat where
  columns := [0, 2, 3, 5]
  merges := [⟨0, 2, 1, 1⟩, ⟨2, 4, 2, 4⟩]
  hasFilter := true

def bodyExample : List (Row Nat Nat) := [2, 4, 6].map rowExample

theorem headedSheet_regular : headedSheet.Regular where
  columns := by decide
  merges := by
    simp only [headedSheet, List.pairwise_cons, List.mem_singleton, forall_eq, Range.covers,
      Range.hasRow, Range.hasColumn, Bool.and_eq_true, decide_eq_true_eq]
    refine ⟨fun row column h => ?_, by simp⟩
    simp only [Bool.and_eq_false_iff, decide_eq_false_iff_not]
    omega

theorem cells_fall_into_place_merged :
    placeRows (sheetExample.columns.map fun _ => none)
        (rowsExample.map (cells sheetExample rowsExample)) =
      some (rowsExample.map fun row =>
        sheetExample.columns.map (shown sheetExample rowsExample row)) ∧
      ∀ rows, rows = [rowExample 1] ∨ rows = bodyExample →
        placeRows (headedSheet.columns.map fun _ => none)
            (rows.map (cells headedSheet (rowExample 1 :: bodyExample))) =
          some (rows.map fun row =>
            headedSheet.columns.map (shown headedSheet (rowExample 1 :: bodyExample) row)) := by
  have horder :
      (((none : Option (Row Nat Nat)).toList ++ rowsExample).map Row.number).Pairwise (· < ·) := by
    decide
  have hheaded :
      (((some (rowExample 1)).toList ++ bodyExample).map Row.number).Pairwise (· < ·) := by
    decide
  refine ⟨cells_fall_into_place sheetExample_regular horder (fun _ _ _ h => nomatch h) rowsExample
    (.inr rfl), cells_fall_into_place headedSheet_regular hheaded ?_⟩
  intro merge hmerge head hhead hhas row hrow
  obtain rfl := Option.some.inj hhead
  revert merge row
  decide

example : rowsExample.map (fun row => sheetExample.columns.map (shown sheetExample rowsExample row)) =
    [[(1, 0), (1, 2), (1, 2), (1, 5)], [(2, 0), (1, 2), (1, 2), (2, 5)],
      [(4, 0), (1, 2), (1, 2), (4, 5)], [(6, 0), (6, 0), (6, 3), (6, 5)]] := by
  decide

end Filters.SheetTable
