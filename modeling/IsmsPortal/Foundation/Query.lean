import Mathlib.Data.List.Sort
import Mathlib.Data.List.Nodup
import Mathlib.Data.List.Pairwise
import Mathlib.Tactic.Linarith

/-! # Ordered queries and keyset pagination

A query selects rows, orders them and truncates the answer. When the order
does not separate two rows the database may return them in either order, so
the general notion is a relation; an order by a unique key has one answer.
Keyset pagination reads a table page by page, each page starting after the
last key of the previous one. For unique keys it visits every row above the
first cursor once, in key order.
-/

namespace Foundation.Query

universe u v

variable {α : Type u}

/-- `answer` lists the selected rows in an order the query allows. -/
def IsAnswer (selects : α → Bool) (orderBy : α → α → Prop) (rows answer : List α) : Prop :=
  answer.Perm (rows.filter selects) ∧ answer.Pairwise orderBy

/-- `answer` is what an unordered query with `take` may return: all selected
rows, or `take` of them. -/
def IsSelection (selects : α → Bool) (take : Nat) (rows answer : List α) : Prop :=
  answer.Nodup ∧ (∀ row ∈ answer, row ∈ rows ∧ selects row = true) ∧ answer.length ≤ take ∧
    (answer.length = take ∨ ∀ row ∈ rows, selects row = true → row ∈ answer)

instance [DecidableEq α] (selects : α → Bool) (take : Nat) (rows answer : List α) :
    Decidable (IsSelection selects take rows answer) :=
  inferInstanceAs (Decidable (_ ∧ _ ∧ _ ∧ _))

/-- A query with `orderBy` and `take`, ties broken by the position in the table. -/
def findMany (selects : α → Bool) (orderBy : α → α → Prop) [DecidableRel orderBy]
    (take : Nat) (rows : List α) : List α :=
  ((rows.filter selects).insertionSort orderBy).take take

/-- The first row of an ordered query. -/
def findFirst (selects : α → Bool) (orderBy : α → α → Prop) [DecidableRel orderBy]
    (rows : List α) : Option α :=
  ((rows.filter selects).insertionSort orderBy).head?

/-- `row` may come first in an answer. -/
def IsFirst (selects : α → Bool) (orderBy : α → α → Prop) (rows : List α) (row : α) : Prop :=
  row ∈ rows ∧ selects row = true ∧ ∀ other ∈ rows, selects other = true → orderBy row other

instance [DecidableEq α] (selects : α → Bool) (orderBy : α → α → Prop) [DecidableRel orderBy]
    (rows : List α) (row : α) : Decidable (IsFirst selects orderBy rows row) :=
  inferInstanceAs (Decidable (_ ∧ _ ∧ _))

/-- The first row of a query may come first in an answer. -/
theorem isFirst_findFirst {selects : α → Bool} {orderBy : α → α → Prop} [DecidableRel orderBy]
    [Std.Total orderBy] [IsTrans α orderBy] {rows : List α} {row : α}
    (hfirst : findFirst selects orderBy rows = some row) : IsFirst selects orderBy rows row := by
  obtain ⟨rest, hrest⟩ := List.head?_eq_some_iff.mp hfirst
  have hsorted := List.pairwise_insertionSort orderBy (rows.filter selects)
  rw [hrest, List.pairwise_cons] at hsorted
  have hmem : ∀ other, other ∈ rows ∧ selects other = true ↔ other = row ∨ other ∈ rest := by
    intro other
    rw [← List.mem_filter, ← List.mem_insertionSort orderBy, hrest, List.mem_cons]
  obtain ⟨hrow, hselects⟩ := (hmem row).mpr (.inl rfl)
  refine ⟨hrow, hselects, fun other hother hother' => ?_⟩
  rcases (hmem other).mp ⟨hother, hother'⟩ with rfl | hlater
  · exact (Std.Total.total other other).elim id id
  · exact hsorted.1 other hlater

theorem findFirst_eq_none {selects : α → Bool} {orderBy : α → α → Prop} [DecidableRel orderBy]
    {rows : List α} (hnone : findFirst selects orderBy rows = none) :
    ∀ row ∈ rows, selects row = false := by
  intro row hrow
  rw [findFirst, List.head?_eq_none_iff] at hnone
  by_contra hselects
  have hmem : row ∈ (rows.filter selects).insertionSort orderBy := by
    rw [List.mem_insertionSort, List.mem_filter]
    exact ⟨hrow, by simpa using hselects⟩
  rw [hnone] at hmem
  cases hmem

/-! ## One row without an order -/

section Picks

variable {p : α → Bool} {selected left right : List α}

/-- `answer` is what a query for one row without an order may return, when these rows are
selected. -/
def IsPick (selected : List α) : Option α → Prop
  | none => selected = []
  | some row => row ∈ selected

theorem IsPick.mem {answer : Option α} (hpick : IsPick selected answer) {row : α}
    (hrow : row ∈ answer.toList) : row ∈ selected := by
  cases answer with
  | none => cases hrow
  | some picked =>
      rw [Option.toList_some, List.mem_singleton] at hrow
      rw [hrow]
      exact hpick

theorem IsPick.any_of_forall {answer : Option α} (hpick : IsPick selected answer)
    (hne : selected ≠ []) (hall : ∀ row ∈ selected, p row = true) :
    answer.any p = true := by
  cases answer with
  | none => exact absurd hpick hne
  | some row => exact hall row hpick

/-- The first selected row is an answer. -/
theorem isPick_head? (selected : List α) : IsPick selected selected.head? := by
  cases selected with
  | nil => rfl
  | cons row rest => exact List.mem_cons_self

/-- When not all rows have a property, some answer does not have it. -/
theorem exists_isPick_not_any (hnot : ¬(selected ≠ [] ∧ ∀ row ∈ selected, p row = true)) :
    ∃ answer, IsPick selected answer ∧ answer.any p = false := by
  by_cases hempty : selected = []
  · exact ⟨none, hempty, rfl⟩
  · simp only [ne_eq, hempty, not_false_eq_true, true_and, not_forall] at hnot
    obtain ⟨row, hrow, hp⟩ := hnot
    exact ⟨some row, hrow, by simpa using hp⟩

/-- One of two selections is not empty, and all its rows have the property. -/
def Uniform (p : α → Bool) (left right : List α) : Prop :=
  (left ≠ [] ∧ ∀ row ∈ left, p row = true) ∨ (right ≠ [] ∧ ∀ row ∈ right, p row = true)

instance [DecidableEq α] (p : α → Bool) (left right : List α) :
    Decidable (Uniform p left right) :=
  inferInstanceAs (Decidable (_ ∨ _))

/-- Two queries always return a row with the property, in whatever order the database
reads the rows, when all rows of one of them have it. -/
theorem picks_any_iff :
    (∀ first second, IsPick left first → IsPick right second →
      (first.any p || second.any p) = true) ↔ Uniform p left right := by
  constructor
  · intro hall
    by_contra hnot
    obtain ⟨hleft, hright⟩ := not_or.mp hnot
    obtain ⟨first, hfirst, hfirstNot⟩ := exists_isPick_not_any hleft
    obtain ⟨second, hsecond, hsecondNot⟩ := exists_isPick_not_any hright
    have hany := hall first second hfirst hsecond
    rw [hfirstNot, hsecondNot] at hany
    cases hany
  · rintro (⟨hne, hforall⟩ | ⟨hne, hforall⟩) first second hfirst hsecond
    · rw [hfirst.any_of_forall hne hforall, Bool.true_or]
    · rw [hsecond.any_of_forall hne hforall, Bool.or_true]

/-- Two queries say whether a row with the property is selected, in whatever order the
database reads the rows. -/
theorem picks_agree_iff :
    (∀ first second, IsPick left first → IsPick right second →
      (first.any p || second.any p) = (left ++ right).any p) ↔
      ((left ++ right).any p = true → Uniform p left right) := by
  constructor
  · intro hall hany
    rw [← picks_any_iff]
    intro first second hfirst hsecond
    rw [hall first second hfirst hsecond]
    exact hany
  · intro huniform first second hfirst hsecond
    by_cases hany : (left ++ right).any p = true
    · rw [hany]
      exact picks_any_iff.mpr (huniform hany) first second hfirst hsecond
    · have hnone : (∀ row ∈ left, p row = false) ∧ ∀ row ∈ right, p row = false := by
        simpa using hany
      rw [Bool.eq_false_of_not_eq_true hany, Bool.or_eq_false_iff]
      constructor
      · cases first with
        | none => rfl
        | some row => exact hnone.1 row hfirst
      · cases second with
        | none => rfl
        | some row => exact hnone.2 row hsecond

theorem isPick_map {β : Type v} {f : β → α} {rows : List β} {answer : Option α} :
    IsPick (rows.map f) answer ↔ ∃ picked, IsPick rows picked ∧ picked.map f = answer := by
  constructor
  · intro hpick
    cases answer with
    | none => exact ⟨none, List.map_eq_nil_iff.mp hpick, rfl⟩
    | some row =>
        obtain ⟨picked, hpicked, rfl⟩ := List.mem_map.mp hpick
        exact ⟨some picked, hpicked, rfl⟩
  · rintro ⟨picked, hpick, rfl⟩
    cases picked with
    | none => exact List.map_eq_nil_iff.mpr hpick
    | some row => exact List.mem_map_of_mem hpick

end Picks

/-! ## Truncated answers with ties -/

section Ties

variable {selects : α → Bool} {rank : α → Int} {rows answer : List α}

/-- A row among the first `count` of an answer has fewer than `count` rows
strictly before it. -/
theorem IsAnswer.countP_lt_of_mem_take {count : Nat} {row : α}
    (hanswer : IsAnswer selects (fun left right => rank left ≤ rank right) rows answer)
    (hrow : row ∈ answer.take count)
    (hselects : ∀ other ∈ rows, rank other < rank row → selects other = true) :
    rows.countP (fun other => rank other < rank row) < count := by
  obtain ⟨i, hi, hget⟩ := List.getElem_of_mem hrow
  obtain ⟨hcount, hlength⟩ : i < count ∧ i < answer.length := by
    rw [List.length_take] at hi
    exact ⟨hi.trans_le (Nat.min_le_left _ _), hi.trans_le (Nat.min_le_right _ _)⟩
  rw [List.getElem_take] at hget
  have hafter : (answer.drop i).countP (fun other => rank other < rank row) = 0 := by
    rw [List.countP_eq_zero]
    intro other hother
    rw [List.drop_eq_getElem_cons hlength, hget, List.mem_cons] at hother
    have hsorted := hanswer.2.sublist (List.drop_sublist i answer)
    rw [List.drop_eq_getElem_cons hlength, hget, List.pairwise_cons] at hsorted
    rw [decide_eq_true_eq, not_lt]
    rcases hother with rfl | hrest
    · exact le_refl _
    · exact hsorted.1 other hrest
  calc
    rows.countP (fun other => rank other < rank row)
        = (rows.filter selects).countP (fun other => rank other < rank row) := by
          rw [List.countP_filter]
          apply List.countP_congr
          intro other hother
          rw [Bool.and_eq_true, decide_eq_true_eq]
          exact ⟨fun hlt => ⟨hlt, hselects other hother hlt⟩, And.left⟩
    _ = answer.countP (fun other => rank other < rank row) := (hanswer.1.countP_eq _).symm
    _ = (answer.take i).countP (fun other => rank other < rank row) := by
          conv_lhs => rw [← List.take_append_drop i answer]
          rw [List.countP_append, hafter, Nat.add_zero]
    _ ≤ (answer.take i).length := List.countP_le_length
    _ < count := by
          rw [List.length_take]
          exact (Nat.min_le_left _ _).trans_lt hcount

/-- A selected row with at most `count` rows up to its rank is among the first
`count` of every answer. -/
theorem IsAnswer.mem_take_of_countP_le {count : Nat} {row : α}
    (hanswer : IsAnswer selects (fun left right => rank left ≤ rank right) rows answer)
    (hrow : row ∈ rows) (hselects : selects row = true)
    (hfew : rows.countP (fun other => rank other ≤ rank row) ≤ count) :
    row ∈ answer.take count := by
  have hmem : row ∈ answer := hanswer.1.mem_iff.mpr (List.mem_filter.mpr ⟨hrow, hselects⟩)
  rw [← List.take_append_drop count answer, List.mem_append] at hmem
  rcases hmem with htake | hdrop
  · exact htake
  · exfalso
    have hpairs := hanswer.2
    rw [← List.take_append_drop count answer, List.pairwise_append] at hpairs
    have hfront : (answer.take count).countP (fun other => rank other ≤ rank row) = count := by
      have hlength : count < answer.length := by
        by_contra hshort
        rw [List.drop_eq_nil_of_le (not_lt.mp hshort)] at hdrop
        exact absurd hdrop List.not_mem_nil
      have hall : (answer.take count).countP (fun other => rank other ≤ rank row) =
          (answer.take count).length := by
        rw [List.countP_eq_length]
        intro other hother
        rw [decide_eq_true_eq]
        exact hpairs.2.2 other hother row hdrop
      rw [hall, List.length_take, Nat.min_eq_left hlength.le]
    have hback : 0 < (answer.drop count).countP (fun other => rank other ≤ rank row) :=
      List.countP_pos_iff.mpr ⟨row, hdrop, by rw [decide_eq_true_eq]⟩
    have hanswerCount : answer.countP (fun other => rank other ≤ rank row) ≤ count := by
      rw [hanswer.1.countP_eq]
      exact (List.filter_sublist.countP_le).trans hfew
    rw [← List.take_append_drop count answer, List.countP_append, hfront] at hanswerCount
    omega

end Ties

theorem mem_findMany {selects : α → Bool} {orderBy : α → α → Prop} [DecidableRel orderBy]
    {take : Nat} {rows : List α} {row : α} (hrow : row ∈ findMany selects orderBy take rows) :
    row ∈ rows ∧ selects row = true := by
  have hsorted := List.mem_of_mem_take hrow
  rw [List.mem_insertionSort, List.mem_filter] at hsorted
  exact hsorted

/-- The answer of a query keeps a unique column unique. -/
theorem nodup_findMany {selects : α → Bool} {orderBy : α → α → Prop} [DecidableRel orderBy]
    {take : Nat} {rows : List α} {β : Type v} {column : α → β} (hunique : (rows.map column).Nodup) :
    ((findMany selects orderBy take rows).map column).Nodup := by
  refine ((List.take_sublist _ _).map column).nodup ?_
  rw [((List.perm_insertionSort orderBy _).map column).nodup_iff]
  exact (List.filter_sublist.map column).nodup hunique

/-- The rows a truncated query leaves out: those not selected, and selected
ones that follow every returned row. -/
theorem findMany_split (selects : α → Bool) (orderBy : α → α → Prop) [DecidableRel orderBy]
    [Std.Total orderBy] [IsTrans α orderBy] (take : Nat) (rows : List α) :
    ∃ others : List α, rows.Perm (findMany selects orderBy take rows ++ others) ∧
      ∀ row ∈ findMany selects orderBy take rows, ∀ other ∈ others,
        selects other = true → orderBy row other := by
  set sorted := (rows.filter selects).insertionSort orderBy with hsorted
  refine ⟨sorted.drop take ++ rows.filter fun row => !selects row, ?_, ?_⟩
  · unfold findMany
    rw [← hsorted, ← List.append_assoc, List.take_append_drop]
    exact (List.filter_append_perm selects rows).symm.trans
      ((List.perm_insertionSort orderBy _).symm.append_right _)
  · intro row hrow other hother hselects
    rcases List.mem_append.mp hother with hdrop | hunselected
    · have hpairs : sorted.Pairwise orderBy := List.pairwise_insertionSort _ _
      rw [← List.take_append_drop take sorted] at hpairs
      exact (List.pairwise_append.mp hpairs).2.2 row hrow other hdrop
    · have hnot := (List.mem_filter.mp hunselected).2
      rw [hselects] at hnot
      exact absurd hnot (by decide)

/-! ## Rows left by a deletion -/

section Deletion

variable {keep : α → Bool} {rows : List α}

theorem filter_isPrefix
    (hkeep : rows.Pairwise fun before after => keep after = true → keep before = true) :
    rows.filter keep <+: rows := by
  induction rows with
  | nil => exact List.prefix_refl []
  | cons row rest ih =>
      obtain ⟨hrow, hrest⟩ := List.pairwise_cons.mp hkeep
      by_cases hkept : keep row = true
      · rw [List.filter_cons_of_pos hkept]
        exact (List.prefix_cons_inj row).mpr (ih hrest)
      · have hnone : rest.filter keep = [] := by
          rw [List.filter_eq_nil_iff]
          intro other hother hotherKept
          exact hkept (hrow other hother hotherKept)
        rw [List.filter_cons_of_neg hkept, hnone]
        exact List.nil_prefix

theorem filter_isSuffix
    (hkeep : rows.Pairwise fun before after => keep before = true → keep after = true) :
    rows.filter keep <:+ rows := by
  rw [← List.reverse_prefix, ← List.filter_reverse]
  apply filter_isPrefix
  rw [List.pairwise_reverse]
  exact hkeep

/-- Where nothing is dropped between two kept rows, the kept rows are a segment. -/
theorem filter_isInfix
    (hkeep : ∀ (i j k : Nat) (hij : i < j) (hjk : j < k) (hk : k < rows.length),
      keep rows[i] = true → keep rows[k] = true → keep rows[j] = true) :
    rows.filter keep <:+: rows := by
  induction rows with
  | nil => exact List.infix_refl []
  | cons row rest ih =>
      by_cases hkept : keep row = true
      · rw [List.filter_cons_of_pos hkept]
        apply List.IsPrefix.isInfix
        refine (List.prefix_cons_inj row).mpr (filter_isPrefix ?_)
        rw [List.pairwise_iff_getElem]
        intro j k _ hk hjk
        exact hkeep 0 (j + 1) (k + 1) (by omega) (by omega) (by simpa using hk) hkept
      · rw [List.filter_cons_of_neg hkept]
        refine (ih fun i j k hij hjk hk => ?_).trans (List.suffix_cons row rest).isInfix
        exact hkeep (i + 1) (j + 1) (k + 1) (by omega) (by omega) (by simpa using hk)

end Deletion

/-! ## Nullable integer keys -/

section Keys

variable (key : α → Option Int)

/-- The order of a nullable integer column. -/
def byKey (left right : α) : Prop := (key left).getD 0 ≤ (key right).getD 0

instance : DecidableRel (byKey key) := fun left right =>
  inferInstanceAs (Decidable ((key left).getD 0 ≤ (key right).getD 0))

instance : Std.Total (byKey key) := ⟨fun _ _ => le_total _ _⟩

instance : IsTrans α (byKey key) := ⟨fun _ _ _ => le_trans⟩

/-- The key is present and lies above the cursor; a null key never does. -/
def above (cursor : Int) (row : α) : Bool := (key row).any (cursor < ·)

variable {key} in
theorem above_iff {cursor : Int} {row : α} :
    above key cursor row = true ↔ ∃ value, key row = some value ∧ cursor < value := by
  simp [above, Option.any_eq_true_iff_get, Option.isSome_iff_exists]
  constructor
  · rintro ⟨⟨value, hvalue⟩, hlt⟩
    exact ⟨value, hvalue, by simpa [hvalue] using hlt⟩
  · rintro ⟨value, hvalue, hlt⟩
    exact ⟨⟨value, hvalue⟩, by simpa [hvalue] using hlt⟩

/-- The rows with a key, in key order. -/
def keyed (rows : List α) : List α :=
  (rows.filter fun row => (key row).isSome).insertionSort (byKey key)

/-- Present keys increase strictly along the list. -/
def StrictlyKeyed (rows : List α) : Prop :=
  rows.Pairwise fun left right => ∃ low high, key left = some low ∧ key right = some high ∧
    low < high

variable {key}

theorem mem_keyed {rows : List α} {row : α} :
    row ∈ keyed key rows ↔ row ∈ rows ∧ (key row).isSome = true := by
  rw [keyed, List.mem_insertionSort, List.mem_filter]

theorem keyed_perm (rows : List α) :
    (keyed key rows).Perm (rows.filter fun row => (key row).isSome) :=
  List.perm_insertionSort _ _

theorem map_key_filter (rows : List α) :
    (rows.filter fun row => (key row).isSome).map key = (rows.filterMap key).map some := by
  induction rows with
  | nil => rfl
  | cons row rest ih => cases hkey : key row <;> simp [hkey, ih]

/-- Distinct keys make a key order strict. -/
theorem strictlyKeyed_of_sorted {rows arranged : List α} (hunique : (rows.filterMap key).Nodup)
    (hperm : arranged.Perm (rows.filter fun row => (key row).isSome))
    (hsorted : arranged.Pairwise (byKey key)) : StrictlyKeyed key arranged := by
  have hdistinct : arranged.Pairwise fun left right => key left ≠ key right := by
    have hnodup : (arranged.map key).Nodup := by
      rw [(hperm.map key).nodup_iff, map_key_filter]
      exact hunique.map (Option.some_injective _)
    rwa [List.Nodup, List.pairwise_map] at hnodup
  have hkey : ∀ row ∈ arranged, ∃ value, key row = some value := by
    intro row hrow
    exact Option.isSome_iff_exists.mp (List.mem_filter.mp (hperm.mem_iff.mp hrow)).2
  refine (hsorted.and hdistinct).imp_of_mem ?_
  intro left right hleft hright hpair
  obtain ⟨low, hlow⟩ := hkey left hleft
  obtain ⟨high, hhigh⟩ := hkey right hright
  refine ⟨low, high, hlow, hhigh, ?_⟩
  have hle : low ≤ high := by simpa [byKey, hlow, hhigh] using hpair.1
  have hne : low ≠ high := fun heq => hpair.2 (by rw [hlow, hhigh, heq])
  omega

theorem keyed_strict {rows : List α} (hunique : (rows.filterMap key).Nodup) :
    StrictlyKeyed key (keyed key rows) :=
  strictlyKeyed_of_sorted hunique (keyed_perm rows) (List.pairwise_insertionSort _ _)

theorem StrictlyKeyed.byKey {rows : List α} (hstrict : StrictlyKeyed key rows) :
    rows.Pairwise (byKey key) := by
  refine hstrict.imp ?_
  rintro left right ⟨low, high, hlow, hhigh, hlt⟩
  simp only [Query.byKey, hlow, hhigh, Option.getD_some]
  exact hlt.le

/-- A strictly keyed arrangement of the rows with a key is *the* key order. -/
theorem eq_keyed {rows arranged : List α} (hstrict : StrictlyKeyed key arranged)
    (hperm : arranged.Perm (rows.filter fun row => (key row).isSome)) :
    arranged = keyed key rows := by
  refine (hperm.trans (keyed_perm rows).symm).eq_of_pairwise ?_ hstrict.byKey
    (List.pairwise_insertionSort _ _)
  intro left right hleft hright hle hge
  have hdistinct : arranged.Pairwise fun left right =>
      (key left).getD 0 ≠ (key right).getD 0 := by
    refine hstrict.imp ?_
    rintro left right ⟨low, high, hlow, hhigh, hlt⟩
    simp only [hlow, hhigh, Option.getD_some]
    exact hlt.ne
  have : Std.Symm fun left right : α => (key left).getD 0 ≠ (key right).getD 0 :=
    ⟨fun _ _ hne => hne.symm⟩
  have hmem : right ∈ arranged := (hperm.trans (keyed_perm rows).symm).mem_iff.mpr hright
  by_contra hne
  exact hdistinct.forall hleft hmem hne (le_antisymm hle hge)

/-- The first row in descending key order is the last one in key order. -/
theorem findFirst_desc {rows : List α} (hunique : (rows.filterMap key).Nodup) :
    findFirst (fun row => (key row).isSome) (fun left right => byKey key right left) rows =
      (keyed key rows).getLast? := by
  have : Std.Total fun left right : α => Query.byKey key right left :=
    ⟨fun _ _ => le_total _ _⟩
  have : IsTrans α fun left right : α => Query.byKey key right left :=
    ⟨fun _ _ _ hfirst hsecond => le_trans hsecond hfirst⟩
  set descending := (rows.filter fun row => (key row).isSome).insertionSort
    fun left right => Query.byKey key right left with hdescending
  have hperm : descending.reverse.Perm (rows.filter fun row => (key row).isSome) :=
    (List.reverse_perm _).trans (List.perm_insertionSort _ _)
  have hsorted : descending.reverse.Pairwise (Query.byKey key) := by
    rw [List.pairwise_reverse]
    exact List.pairwise_insertionSort _ _
  rw [← eq_keyed (strictlyKeyed_of_sorted hunique hperm hsorted) hperm, List.getLast?_reverse]
  rfl

/-! ## Keyset pagination -/

variable (key) in
/-- One page: the first `take` rows whose key lies above the cursor. -/
def pageAfter (take : Nat) (rows : List α) (cursor : Int) : List α :=
  findMany (above key cursor) (byKey key) take rows

theorem lt_of_mem_pageAfter {take : Nat} {rows : List α} {cursor : Int} {row : α}
    (hrow : row ∈ pageAfter key take rows cursor) :
    row ∈ rows ∧ ∃ value, key row = some value ∧ cursor < value :=
  ⟨(mem_findMany hrow).1, above_iff.mp (mem_findMany hrow).2⟩

/-- Moving the cursor to a row of the page leaves fewer rows above it. -/
theorem above_shrinks {take : Nat} {rows : List α} {cursor : Int} {row : α}
    (hrow : row ∈ pageAfter key take rows cursor) :
    (rows.filter (above key ((key row).getD cursor))).length <
      (rows.filter (above key cursor)).length := by
  obtain ⟨hmem, value, hvalue, hlt⟩ := lt_of_mem_pageAfter hrow
  have hsub : rows.filter (above key ((key row).getD cursor)) =
      (rows.filter (above key cursor)).filter (above key value) := by
    rw [List.filter_filter, hvalue, Option.getD_some]
    apply List.filter_congr
    intro other _
    rw [Bool.eq_iff_iff, Bool.and_eq_true, above_iff, above_iff]
    constructor
    · rintro ⟨key', hkey', hlt'⟩
      exact ⟨⟨key', hkey', hlt'⟩, ⟨key', hkey', hlt.trans hlt'⟩⟩
    · rintro ⟨habove, _⟩
      exact habove
  rw [hsub, List.length_filter_lt_length_iff_exists]
  refine ⟨row, List.mem_filter.mpr ⟨hmem, above_iff.mpr ⟨value, hvalue, hlt⟩⟩, ?_⟩
  rw [above_iff]
  rintro ⟨value', hvalue', hlt'⟩
  rw [hvalue, Option.some.injEq] at hvalue'
  omega

variable (key) in
/-- Read a table page by page, folding `visit` over the rows of each page and
moving the cursor to the key of its last row, until a page is empty. -/
def scanPages {σ : Type v} (take : Nat) (visit : σ → α → σ) (rows : List α)
    (cursor : Int) (state : σ) : σ :=
  if hpage : pageAfter key take rows cursor = [] then state
  else
    scanPages take visit rows ((key ((pageAfter key take rows cursor).getLast hpage)).getD cursor)
      ((pageAfter key take rows cursor).foldl visit state)
termination_by (rows.filter (above key cursor)).length
decreasing_by exact above_shrinks (List.getLast_mem hpage)

/-- A page is the beginning of the key order above the cursor. -/
theorem pageAfter_eq_take {take : Nat} {rows : List α} {cursor : Int}
    (hunique : (rows.filterMap key).Nodup) :
    pageAfter key take rows cursor = ((keyed key rows).filter (above key cursor)).take take := by
  have hstrict := (keyed_strict hunique).filter (above key cursor)
  have hkeyed : keyed key (rows.filter (above key cursor)) =
      (keyed key rows).filter (above key cursor) := by
    refine (eq_keyed hstrict ?_).symm
    rw [List.filter_comm]
    exact (keyed_perm rows).filter _
  have hsome : (rows.filter (above key cursor)).filter (fun row => (key row).isSome) =
      rows.filter (above key cursor) := by
    rw [List.filter_eq_self]
    intro row hrow
    obtain ⟨value, hvalue, _⟩ := above_iff.mp (List.mem_filter.mp hrow).2
    simp [hvalue]
  rw [pageAfter, findMany, ← hkeyed, keyed, hsome]

/-- Along strictly increasing keys, the rows above the key of one row are the
rows after it. -/
theorem filter_above_append {before after : List α} {row : α} {value : Int}
    (hvalue : key row = some value)
    (hstrict : StrictlyKeyed key (before ++ row :: after)) :
    (before ++ row :: after).filter (above key value) = after := by
  obtain ⟨_, hafter, hacross⟩ := List.pairwise_append.mp hstrict
  have hbefore : before.filter (above key value) = [] := by
    rw [List.filter_eq_nil_iff]
    intro other hother habove
    obtain ⟨low, high, hlow, hhigh, hlt⟩ := hacross other hother row List.mem_cons_self
    obtain ⟨value', hvalue', hlt'⟩ := above_iff.mp habove
    rw [hvalue, Option.some.injEq] at hhigh
    rw [hlow, Option.some.injEq] at hvalue'
    omega
  have hself : above key value row = false := by
    rw [Bool.eq_false_iff, ne_eq, above_iff]
    rintro ⟨value', hvalue', hlt'⟩
    rw [hvalue, Option.some.injEq] at hvalue'
    omega
  have hrest : after.filter (above key value) = after := by
    rw [List.filter_eq_self]
    intro other hother
    obtain ⟨low, high, hlow, hhigh, hlt⟩ := (List.pairwise_cons.mp hafter).1 other hother
    rw [hvalue, Option.some.injEq] at hlow
    exact above_iff.mpr ⟨high, hhigh, by omega⟩
  rw [List.filter_append, hbefore, List.filter_cons_of_neg (by simp [hself]), hrest,
    List.nil_append]

theorem filter_above_of_lt {rows : List α} {low high : Int} (hlt : low < high) :
    (rows.filter (above key low)).filter (above key high) = rows.filter (above key high) := by
  rw [List.filter_filter]
  apply List.filter_congr
  intro row _
  rw [Bool.eq_iff_iff, Bool.and_eq_true, above_iff, above_iff]
  constructor
  · rintro ⟨hhigh, _⟩
    exact hhigh
  · rintro ⟨value, hvalue, hvalue_lt⟩
    exact ⟨⟨value, hvalue, hvalue_lt⟩, ⟨value, hvalue, hlt.trans hvalue_lt⟩⟩

/-- **Pagination is transparent.** For unique keys and non-empty pages, the
scan visits the rows above its cursor once each, in key order. -/
theorem scanPages_eq_foldl {σ : Type v} {take : Nat} (htake : 0 < take)
    (visit : σ → α → σ) {rows : List α} (hunique : (rows.filterMap key).Nodup)
    (cursor : Int) (state : σ) :
    scanPages key take visit rows cursor state =
      ((keyed key rows).filter (above key cursor)).foldl visit state := by
  induction cursor, state using scanPages.induct key take visit rows with
  | case1 cursor state hpage =>
      rw [scanPages, dif_pos hpage]
      rw [pageAfter_eq_take hunique, List.take_eq_nil_iff] at hpage
      rw [hpage.resolve_left (by omega)]
      rfl
  | case2 cursor state hpage ih =>
      rw [scanPages, dif_neg hpage, ih]
      set last := (pageAfter key take rows cursor).getLast hpage with hlast
      set remaining := (keyed key rows).filter (above key cursor) with hremaining
      obtain ⟨_, value, hvalue, hlt⟩ := lt_of_mem_pageAfter (List.getLast_mem hpage)
      have hsplit : remaining = (pageAfter key take rows cursor).dropLast ++
          last :: remaining.drop take := by
        conv_lhs => rw [← List.take_append_drop take remaining]
        rw [hremaining, ← pageAfter_eq_take hunique, ← hremaining, List.append_cons, hlast,
          List.dropLast_append_getLast hpage]
      have hnext : (keyed key rows).filter (above key value) = remaining.drop take := by
        rw [← filter_above_of_lt hlt, ← hremaining]
        conv_lhs => rw [hsplit]
        exact filter_above_append hvalue (hsplit ▸ (keyed_strict hunique).filter _)
      rw [hvalue, Option.getD_some, hnext, pageAfter_eq_take hunique, ← List.foldl_append,
        List.take_append_drop]

end Keys

end Foundation.Query
