import Mathlib.Data.List.Basic

/-! # Layout of a table

The rows of a table are lists of cells that may span columns and rows. A cell goes to the first column
that no cell of an earlier row reaches down to, and covers as many columns as it spans. The layout is
defined if every slot of the columns is covered once and no cell reaches below the last row.
-/

namespace Foundation.TableLayout

universe u

variable {α : Type u}

structure Cell (α : Type u) where
  content : α
  columns : Nat
  rows : Nat
deriving DecidableEq

/-- What covers a slot, and how many rows down from there. -/
abbrev Slot (α : Type u) := α × Nat

def Cell.slot (cell : Cell α) : Slot α := (cell.content, cell.rows)

/-- The part of a cell after its first column. -/
def Cell.rest (cell : Cell α) : Option (Cell α) :=
  if cell.columns ≤ 1 then none else some { cell with columns := cell.columns - 1 }

/-- Lay out the cells of a row: the cell that is not at its last column, and what reaches down to
the columns. -/
def placeRow : Option (Cell α) → List (Option (Slot α)) → List (Cell α) → Option (List (Slot α))
  | none, [], [] => some []
  | none, some slot :: above, cells => (placeRow none above cells).map (slot :: ·)
  | none, none :: above, cell :: cells => (placeRow cell.rest above cells).map (cell.slot :: ·)
  | some cell, none :: above, cells => (placeRow cell.rest above cells).map (cell.slot :: ·)
  | _, _, _ => none

/-- What reaches down to the next row. -/
def Slot.down (slot : Slot α) : Option (Slot α) :=
  if slot.2 ≤ 1 then none else some (slot.1, slot.2 - 1)

/-- Lay out rows: what each slot shows. -/
def placeRows : List (Option (Slot α)) → List (List (Cell α)) → Option (List (List α))
  | above, [] => if above.all Option.isNone then some [] else none
  | above, cells :: rows => do
      let slots ← placeRow none above cells
      let rest ← placeRows (slots.map Slot.down) rows
      return slots.map Prod.fst :: rest

/-- Cells that cover a row. -/
inductive Covers : List (Option (Slot α)) → List (Cell α) → List (Slot α) → Prop
  | nil : Covers [] [] []
  | above {slot : Slot α} {above : List (Option (Slot α))} {cells : List (Cell α)}
      {slots : List (Slot α)} (h : Covers above cells slots) :
      Covers (some slot :: above) cells (slot :: slots)
  | cell {cell : Cell α} {above : List (Option (Slot α))} {cells : List (Cell α)}
      {slots : List (Slot α)} (hcolumns : 0 < cell.columns) (h : Covers above cells slots) :
      Covers (List.replicate cell.columns none ++ above) (cell :: cells)
        (List.replicate cell.columns cell.slot ++ slots)

/-- The columns of a cell one after the other. -/
theorem placeRow_rest (cell : Cell α) {above : List (Option (Slot α))} {cells : List (Cell α)}
    {slots : List (Slot α)} (h : placeRow none above cells = some slots) :
    placeRow cell.rest (List.replicate (cell.columns - 1) none ++ above) cells =
      some (List.replicate (cell.columns - 1) cell.slot ++ slots) := by
  obtain ⟨content, columns, rows⟩ := cell
  induction columns with
  | zero => simpa [Cell.rest] using h
  | succ columns ih =>
      cases columns with
      | zero => simpa [Cell.rest] using h
      | succ columns =>
          have hrest : Cell.rest ⟨content, columns + 1 + 1, rows⟩ =
              some ⟨content, columns + 1, rows⟩ := by
            simp [Cell.rest]
          rw [hrest]
          simp only [Nat.add_sub_cancel, List.replicate_succ, List.cons_append, placeRow] at ih ⊢
          rw [ih]
          rfl

theorem Covers.placeRow_eq {above : List (Option (Slot α))} {cells : List (Cell α)}
    {slots : List (Slot α)} (h : Covers above cells slots) :
    placeRow none above cells = some slots := by
  induction h with
  | nil => rfl
  | above _ ih => rw [placeRow, ih, Option.map_some]
  | @cell cell above cells slots hcolumns _ ih =>
      obtain ⟨columns, hcolumns⟩ := Nat.exists_eq_succ_of_ne_zero (Nat.ne_of_gt hcolumns)
      have hrest := placeRow_rest cell ih
      rw [hcolumns] at hrest ⊢
      rw [List.replicate_succ, List.replicate_succ, List.cons_append, List.cons_append, placeRow]
      simp only [Nat.succ_eq_add_one, Nat.add_sub_cancel] at hrest
      rw [hrest, Option.map_some]

end Foundation.TableLayout
