import Mathlib.Data.List.Sublists
import Mathlib.Order.Bounds.Basic
import Mathlib.Order.MinMax

/-! # Longest common subsequences

The size of a longest common subsequence of two lists follows from the sizes for their tails: a
common head is always worth taking, and of two different heads one can be left out. A row of
the table for these sizes has the size for every tail of the second list.
-/

namespace Foundation.CommonSubsequence

universe u

variable {α : Type u}

/-- The sizes of the common subsequences. -/
def sizes (left right : List α) : Set Nat :=
  {size | ∃ common : List α, common.Sublist left ∧ common.Sublist right ∧ common.length = size}

/-- The size of a longest common subsequence. -/
def IsLongest (left right : List α) (size : Nat) : Prop := IsGreatest (sizes left right) size

variable {left right : List α} {first second : α} {size more : Nat}

theorem IsLongest.le_length (hlongest : IsLongest left right size) :
    size ≤ left.length ∧ size ≤ right.length := by
  obtain ⟨common, hleft, hright, rfl⟩ := hlongest.1
  exact ⟨hleft.length_le, hright.length_le⟩

theorem IsLongest.unique (hlongest : IsLongest left right size)
    (hother : IsLongest left right more) : size = more :=
  IsGreatest.unique hlongest hother

theorem isLongest_nil_left (right : List α) : IsLongest [] right 0 := by
  refine ⟨⟨[], List.nil_sublist _, List.nil_sublist _, rfl⟩, ?_⟩
  rintro _ ⟨common, hleft, -, rfl⟩
  simpa using hleft.length_le

theorem isLongest_nil_right (left : List α) : IsLongest left [] 0 := by
  refine ⟨⟨[], List.nil_sublist _, List.nil_sublist _, rfl⟩, ?_⟩
  rintro _ ⟨common, -, hright, rfl⟩
  simpa using hright.length_le

/-- A common head is taken. -/
theorem IsLongest.cons (hlongest : IsLongest left right size) :
    IsLongest (first :: left) (first :: right) (size + 1) := by
  constructor
  · obtain ⟨common, hleft, hright, rfl⟩ := hlongest.1
    exact ⟨first :: common, hleft.cons_cons first, hright.cons_cons first, rfl⟩
  · rintro _ ⟨common, hleft, hright, rfl⟩
    -- Without its first element the subsequence is one of the tails.
    have htail := hlongest.2 ⟨common.tail, hleft.tail, hright.tail, rfl⟩
    rw [List.length_tail] at htail
    omega

/-- Of two different heads one is left out. -/
theorem sublist_of_ne (hne : first ≠ second) {common : List α}
    (hleft : common.Sublist (first :: left)) (hright : common.Sublist (second :: right)) :
    common.Sublist left ∨ common.Sublist right := by
  rcases List.sublist_cons_iff.mp hleft with hleft | ⟨rest, rfl, -⟩
  · exact .inl hleft
  · rcases List.sublist_cons_iff.mp hright with hright | ⟨rest', hsame, -⟩
    · exact .inr hright
    · exact absurd (List.cons.inj hsame).1 hne

/-- The better of the two ways to leave a head out. -/
theorem IsLongest.skip (hne : first ≠ second) (hleft : IsLongest left (second :: right) size)
    (hright : IsLongest (first :: left) right more) :
    IsLongest (first :: left) (second :: right) (max size more) := by
  constructor
  · rcases max_choice size more with hmax | hmax
    · obtain ⟨common, hcommon, hother, hsize⟩ := hleft.1
      exact ⟨common, hcommon.cons first, hother, hsize.trans hmax.symm⟩
    · obtain ⟨common, hcommon, hother, hsize⟩ := hright.1
      exact ⟨common, hcommon, hother.cons second, hsize.trans hmax.symm⟩
  · rintro _ ⟨common, hcommon, hother, rfl⟩
    rcases sublist_of_ne hne hcommon hother with hless | hless
    · exact le_max_of_le_left (hleft.2 ⟨common, hless, hother, rfl⟩)
    · exact le_max_of_le_right (hright.2 ⟨common, hcommon, hless, rfl⟩)

/-! ## Rows -/

/-- The row has the sizes for every tail of the second list. -/
def RowIs (left : List α) : List α → List Nat → Prop
  | [], row => row = [0]
  | _ :: _, [] => False
  | head :: right, size :: row => IsLongest left (head :: right) size ∧ RowIs left right row

theorem RowIs.head {row : List Nat} (hrow : RowIs left right row) :
    IsLongest left right (row.headD 0) := by
  cases right with
  | nil =>
      rw [RowIs] at hrow
      rw [hrow]
      exact isLongest_nil_right left
  | cons head right =>
      cases row with
      | nil => exact hrow.elim
      | cons size row => exact hrow.1

/-- An entry of the row. -/
theorem RowIs.getElem {row : List Nat} (hrow : RowIs left right row) {position : Nat}
    (hposition : position ≤ right.length) :
    IsLongest left (right.drop position) (row[position]?.getD 0) := by
  induction right generalizing row position with
  | nil =>
      obtain rfl : position = 0 := by simpa using hposition
      rw [RowIs] at hrow
      simpa [hrow] using isLongest_nil_right left
  | cons head right ih =>
      cases row with
      | nil => exact hrow.elim
      | cons size row =>
          cases position with
          | zero => exact hrow.1
          | succ position => simpa using ih hrow.2 (by simpa using hposition)

theorem rowIs_nil (right : List α) : RowIs [] right (List.replicate (right.length + 1) 0) := by
  induction right with
  | nil => rfl
  | cons head right ih => exact ⟨isLongest_nil_left _, ih⟩

end Foundation.CommonSubsequence
