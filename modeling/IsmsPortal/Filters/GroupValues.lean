import IsmsPortal.Foundation.Carry
import IsmsPortal.Foundation.JsString
import IsmsPortal.Foundation.OrderedMap

/-! # Values of the groups of a sheet

A filter may take the rows of a group with the row that names it: a blank cell then counts as the
nearest cell above it. The loop carries the values of the row before along and forgets them at a row
without any text.
-/

namespace Filters.GroupValues

open Foundation Carry

universe u

variable {κ : Type u} [DecidableEq κ]

/-! ## The loop -/

structure ExcelCell where
  text : String

/-- Rows and columns have numbers, which are keys of maps and records. -/
structure ExcelRow (κ : Type u) where
  number : κ
  cells : OrderedMap κ ExcelCell

/-- `text.trim()` is not empty. -/
def isVisible (text : String) : Bool := JsString.trim text ≠ ""

/-- `Object.values(row.cells).some((cell) => cell.text.trim())`. -/
def ExcelRow.hasText (row : ExcelRow κ) : Bool :=
  row.cells.entries.any fun entry => isVisible entry.2.text

/-- `row.cells[column]?.text || ""`. -/
def ExcelRow.text (row : ExcelRow κ) (column : κ) : String :=
  ((row.cells.lookup column).map ExcelCell.text).getD ""

/-- The loop over the columns. -/
def currentValues (columns : List κ) (row : ExcelRow κ) (previous : OrderedMap κ String) :
    OrderedMap κ String :=
  columns.foldl (fun current column =>
    let text := row.text column
    current.set column (if isVisible text then text else (previous.lookup column).getD "")) ∅

/-- The loop over the rows. -/
def groupLoop (columns : List κ) : List (ExcelRow κ) → OrderedMap κ String →
    OrderedMap κ (OrderedMap κ String) → OrderedMap κ (OrderedMap κ String)
  | [], _, values => values
  | row :: rows, previous, values =>
      if row.hasText then
        let current := currentValues columns row previous
        groupLoop columns rows current (values.set row.number current)
      else groupLoop columns rows ∅ (values.set row.number ∅)

def excelGroupValues (rows : List (ExcelRow κ)) (columns : List κ) :
    OrderedMap κ (OrderedMap κ String) :=
  groupLoop columns rows ∅ ∅

/-! ## What a group is -/

/-- From one place to another no row is without text. -/
def InBlock (rows : List (ExcelRow κ)) (first last : Nat) : Prop :=
  ∀ (place : Nat) (row : ExcelRow κ), first ≤ place → place ≤ last → rows[place]? = some row →
    row.hasText = true

/-- The text is in the last cell of the column, up to the row, that is not blank, and no row without
text is between them. -/
def IsNearest (rows : List (ExcelRow κ)) (last : Nat) (column : κ) (text : String) : Prop :=
  ∃ (place : Nat) (row : ExcelRow κ), place ≤ last ∧ rows[place]? = some row ∧
    row.text column = text ∧ isVisible text = true ∧ InBlock rows place last ∧
    ∀ (later : Nat) (other : ExcelRow κ), place < later → later ≤ last →
      rows[later]? = some other → isVisible (other.text column) = false

/-! ## One row -/

theorem hasText_of_isVisible {row : ExcelRow κ} {column : κ}
    (h : isVisible (row.text column) = true) : row.hasText = true := by
  unfold ExcelRow.text at h
  cases hcell : row.cells.lookup column with
  | none =>
      rw [hcell] at h
      exact absurd h (by decide)
  | some cell =>
      rw [hcell] at h
      exact List.any_eq_true.mpr ⟨⟨column, cell⟩, OrderedMap.mem_of_lookup hcell, h⟩

/-- The values that the loop carries behind a row. -/
def afterRow (columns : List κ) (previous : OrderedMap κ String) (row : ExcelRow κ) :
    OrderedMap κ String :=
  if row.hasText then currentValues columns row previous else ∅

theorem groupLoop_cons (columns : List κ) (row : ExcelRow κ) (rows : List (ExcelRow κ))
    (previous : OrderedMap κ String) (values : OrderedMap κ (OrderedMap κ String)) :
    groupLoop columns (row :: rows) previous values =
      groupLoop columns rows (afterRow columns previous row)
        (values.set row.number (afterRow columns previous row)) := by
  rw [groupLoop, afterRow]
  split
  next => rfl
  next => rfl

theorem lookup_currentValues (columns : List κ) (row : ExcelRow κ)
    (previous : OrderedMap κ String) (column : κ) :
    (currentValues columns row previous).lookup column =
      if column ∈ columns then
        some (if isVisible (row.text column) then row.text column
          else (previous.lookup column).getD "")
      else none := by
  induction columns using List.reverseRecOn with
  | nil => rfl
  | append_singleton columns other ih =>
      unfold currentValues at ih ⊢
      rw [List.foldl_append, List.foldl_cons, List.foldl_nil, OrderedMap.lookup_set, ih]
      by_cases heq : column = other
      · subst heq
        simp
      · simp [heq]

/-- What a row does to the value of a column. -/
def mark (column : κ) (row : ExcelRow κ) : Mark String :=
  if row.hasText then
    if isVisible (row.text column) then .put (row.text column) else .keep
  else .reset

theorem mark_eq_put_iff {column : κ} {row : ExcelRow κ} {text : String} :
    mark column row = .put text ↔ row.text column = text ∧ isVisible text = true := by
  unfold mark
  split
  next htext =>
    split
    next hvisible => grind
    next hblank => grind
  next hempty =>
    have hblank : ¬ isVisible (row.text column) = true := mt hasText_of_isVisible hempty
    grind

theorem mark_eq_keep_iff {column : κ} {row : ExcelRow κ} :
    mark column row = .keep ↔ row.hasText = true ∧ isVisible (row.text column) = false := by
  unfold mark
  split
  next htext => simp [htext]
  next hempty => simp [hempty]

/-! ## Columns -/

theorem isLast_iff_isNearest {rows : List (ExcelRow κ)} {last : Nat} {column : κ} {text : String} :
    IsLast ((rows.take (last + 1)).map (mark column)) text ↔ IsNearest rows last column text := by
  have hmark (place : Nat) (result : Mark String) :
      ((rows.take (last + 1)).map (mark column))[place]? = some result ↔
        place ≤ last ∧ ∃ row, rows[place]? = some row ∧ mark column row = result := by
    rw [List.getElem?_map, List.getElem?_take]
    split
    next hlt => simp [Nat.le_of_lt_succ hlt]
    next hge => simp [show ¬ place ≤ last by omega]
  constructor
  · rintro ⟨place, hput, hlater⟩
    obtain ⟨hplace, row, hrow, hput⟩ := (hmark _ _).mp hput
    obtain ⟨htext, hvisible⟩ := mark_eq_put_iff.mp hput
    have hkeep (later : Nat) (other : ExcelRow κ) (hafter : place < later) (hle : later ≤ last)
        (hother : rows[later]? = some other) : mark column other = .keep :=
      hlater later _ hafter ((hmark _ _).mpr ⟨hle, other, hother, rfl⟩)
    refine ⟨place, row, hplace, hrow, htext, hvisible, ?_, ?_⟩
    · intro later other hfrom hle hother
      obtain heq | hafter := Nat.eq_or_lt_of_le hfrom
      · subst heq
        obtain rfl : row = other := Option.some.inj (hrow.symm.trans hother)
        have hshown : isVisible (row.text column) = true := by rwa [htext]
        exact hasText_of_isVisible hshown
      · exact (mark_eq_keep_iff.mp (hkeep later other hafter hle hother)).1
    · intro later other hafter hle hother
      exact (mark_eq_keep_iff.mp (hkeep later other hafter hle hother)).2
  · rintro ⟨place, row, hplace, hrow, htext, hvisible, hblock, hblank⟩
    refine ⟨place, (hmark _ _).mpr ⟨hplace, row, hrow, mark_eq_put_iff.mpr ⟨htext, hvisible⟩⟩, ?_⟩
    intro later result hafter hresult
    obtain ⟨hle, other, hother, rfl⟩ := (hmark _ _).mp hresult
    exact mark_eq_keep_iff.mpr
      ⟨hblock later other hafter.le hle hother, hblank later other hafter hle hother⟩

/-- The values that the loop carries behind some rows. -/
def afterRows (columns : List κ) (rows : List (ExcelRow κ)) : OrderedMap κ String :=
  rows.foldl (afterRow columns) ∅

theorem afterRows_concat (columns : List κ) (rows : List (ExcelRow κ)) (row : ExcelRow κ) :
    afterRows columns (rows ++ [row]) = afterRow columns (afterRows columns rows) row := by
  simp [afterRows]

theorem value_afterRows {columns : List κ} {column : κ} (hcolumn : column ∈ columns)
    (rows : List (ExcelRow κ)) :
    ((afterRows columns rows).lookup column).getD "" =
      (carried (rows.map (mark column))).getD "" := by
  induction rows using List.reverseRecOn with
  | nil => rfl
  | append_singleton rows row ih =>
      rw [afterRows_concat, List.map_append, List.map_singleton, carried_concat, afterRow, mark]
      split
      next htext =>
        rw [lookup_currentValues, if_pos hcolumn, ih, Option.getD_some]
        split
        next hvisible => rfl
        next hblank => rfl
      next hempty => rfl

/-- Behind a row with text a column has the nearest text, or none. -/
theorem lookup_afterRow {columns : List κ} {rows : List (ExcelRow κ)} {place : Nat}
    {row : ExcelRow κ} {column : κ} (hrow : rows[place]? = some row)
    (htext : row.hasText = true) (hcolumn : column ∈ columns) :
    ∃ text, (afterRows columns (rows.take (place + 1))).lookup column = some text ∧
      (IsNearest rows place column text ∨
        text = "" ∧ ∀ other, ¬ IsNearest rows place column other) := by
  have hvalue := value_afterRows hcolumn (rows.take (place + 1))
  have hsome : (afterRows columns (rows.take (place + 1))).lookup column ≠ none := by
    rw [List.take_add_one, hrow, Option.toList_some, afterRows_concat, afterRow, if_pos htext,
      lookup_currentValues, if_pos hcolumn]
    exact Option.some_ne_none _
  obtain ⟨text, hlookup⟩ := Option.ne_none_iff_exists'.mp hsome
  refine ⟨text, hlookup, ?_⟩
  rw [hlookup, Option.getD_some] at hvalue
  cases hcarried : carried ((rows.take (place + 1)).map (mark column)) with
  | none =>
      rw [hcarried] at hvalue
      refine .inr ⟨hvalue, ?_⟩
      intro other hnearest
      exact carried_eq_none_iff.mp hcarried other (isLast_iff_isNearest.mpr hnearest)
  | some found =>
      rw [hcarried] at hvalue
      obtain rfl : text = found := hvalue
      exact .inl (isLast_iff_isNearest.mp (carried_eq_some_iff.mp hcarried))

/-! ## The map -/

theorem lookup_groupLoop_of_notMem {columns : List κ} {rows : List (ExcelRow κ)} {number : κ}
    (hnumber : number ∉ rows.map ExcelRow.number) (previous : OrderedMap κ String)
    (values : OrderedMap κ (OrderedMap κ String)) :
    (groupLoop columns rows previous values).lookup number = values.lookup number := by
  induction rows generalizing previous values with
  | nil => rfl
  | cons row rows ih =>
      rw [List.map_cons, List.mem_cons, not_or] at hnumber
      rw [groupLoop_cons, ih hnumber.2, OrderedMap.lookup_set, if_neg hnumber.1]

theorem lookup_groupLoop {columns : List κ} {rows : List (ExcelRow κ)} {place : Nat}
    {row : ExcelRow κ} (hnumbers : (rows.map ExcelRow.number).Nodup)
    (hrow : rows[place]? = some row) (previous : OrderedMap κ String)
    (values : OrderedMap κ (OrderedMap κ String)) :
    (groupLoop columns rows previous values).lookup row.number =
      some ((rows.take (place + 1)).foldl (afterRow columns) previous) := by
  induction rows generalizing place previous values with
  | nil => cases hrow
  | cons head rows ih =>
      obtain ⟨hhead, hrest⟩ := List.nodup_cons.mp hnumbers
      rw [groupLoop_cons]
      cases place with
      | zero =>
          obtain rfl : head = row := Option.some.inj hrow
          rw [lookup_groupLoop_of_notMem hhead, OrderedMap.lookup_set, if_pos rfl]
          rfl
      | succ place => exact ih hrest hrow _ _

theorem keys_groupLoop {columns : List κ} {rows : List (ExcelRow κ)}
    (hnumbers : (rows.map ExcelRow.number).Nodup) (previous : OrderedMap κ String)
    {values : OrderedMap κ (OrderedMap κ String)}
    (hnew : ∀ row ∈ rows, row.number ∉ values) :
    (groupLoop columns rows previous values).keys = values.keys ++ rows.map ExcelRow.number := by
  induction rows generalizing previous values with
  | nil => simp [groupLoop]
  | cons head rows ih =>
      obtain ⟨hhead, hrest⟩ := List.nodup_cons.mp hnumbers
      have hkeys : (values.set head.number (afterRow columns previous head)).keys =
          values.keys ++ [head.number] := by
        have hentries := OrderedMap.entries_set_of_notMem (hnew head List.mem_cons_self)
          (afterRow columns previous head)
        simp [AList.keys, List.keys, hentries]
      rw [groupLoop_cons, ih hrest, hkeys]
      · simp
      · intro row hrow
        rw [AList.mem_keys, hkeys, List.mem_append, List.mem_singleton, not_or]
        refine ⟨hnew row (List.mem_cons_of_mem _ hrow), ?_⟩
        intro heq
        exact hhead (heq ▸ List.mem_map_of_mem hrow)

/-- Rows with different numbers have their own entries. The one of a row without text is empty; a
column of another row has the nearest text at or above it in the block, or an empty text. -/
theorem excelGroupValues_nearest (rows : List (ExcelRow κ)) (columns : List κ)
    (hnumbers : (rows.map ExcelRow.number).Nodup) :
    (excelGroupValues rows columns).keys = rows.map ExcelRow.number ∧
      ∀ (place : Nat) (row : ExcelRow κ), rows[place]? = some row →
        ∃ values, (excelGroupValues rows columns).lookup row.number = some values ∧
          (row.hasText = false → values.entries = []) ∧
          (row.hasText = true → (∀ column, column ∈ values ↔ column ∈ columns) ∧
            ∀ column ∈ columns, ∃ text, values.lookup column = some text ∧
              (IsNearest rows place column text ∨
                text = "" ∧ ∀ other, ¬ IsNearest rows place column other)) := by
  constructor
  · exact keys_groupLoop hnumbers ∅ fun row _ => AList.notMem_empty _
  · intro place row hrow
    have hlast : afterRows columns (rows.take (place + 1)) =
        afterRow columns (afterRows columns (rows.take place)) row := by
      rw [List.take_add_one, hrow, Option.toList_some, afterRows_concat]
    refine ⟨_, lookup_groupLoop hnumbers hrow ∅ ∅, ?_, ?_⟩
    · intro hempty
      have hvalues : afterRows columns (rows.take (place + 1)) = ∅ := by
        rw [hlast, afterRow, hempty]
        rfl
      exact congrArg AList.entries hvalues
    · intro htext
      refine ⟨?_, fun column hcolumn => lookup_afterRow hrow htext hcolumn⟩
      intro column
      have hmem : column ∈ afterRows columns (rows.take (place + 1)) ↔ column ∈ columns := by
        rw [← AList.lookup_isSome, hlast, afterRow, if_pos htext, lookup_currentValues]
        split <;> simp_all
      exact hmem

/-- Two groups and a row without text behind them. -/
def groupRows : List (ExcelRow Nat) :=
  [⟨1, OrderedMap.set ∅ 0 ⟨"Owner A"⟩⟩, ⟨2, OrderedMap.set ∅ 1 ⟨"Detail A"⟩⟩,
    ⟨3, OrderedMap.set ∅ 0 ⟨"Owner B"⟩⟩, ⟨4, OrderedMap.set ∅ 1 ⟨"Detail B"⟩⟩, ⟨5, ∅⟩]

theorem groupRows_nearest :
    (excelGroupValues groupRows [0]).keys = [1, 2, 3, 4, 5] ∧
      ∃ values, (excelGroupValues groupRows [0]).lookup 4 = some values ∧
        ∃ text, values.lookup 0 = some text ∧ (IsNearest groupRows 3 0 text ∨
          text = "" ∧ ∀ other, ¬ IsNearest groupRows 3 0 other) := by
  obtain ⟨hkeys, hrows⟩ := excelGroupValues_nearest groupRows [0] (by decide)
  obtain ⟨values, hlookup, -, htext⟩ := hrows 3 ⟨4, OrderedMap.set ∅ 1 ⟨"Detail B"⟩⟩ rfl
  have hdetail : (⟨4, OrderedMap.set ∅ 1 ⟨"Detail B"⟩⟩ : ExcelRow Nat).hasText = true := by decide
  exact ⟨hkeys, values, hlookup, (htext hdetail).2 0 (List.mem_singleton_self 0)⟩

end Filters.GroupValues
