import Mathlib.Algebra.Ring.Nat
import Mathlib.Data.List.Induction

/-! # Bits in groups

Numbers of a fixed width as texts of binary digits, and texts cut into groups of one length. Bits
that are cut into groups, padded and joined again are the bits they were, with less than a group of
padding at the end.
-/

namespace Foundation.Regrouping

/-! ## Binary digits -/

/-- `n.toString(2).padStart(width, "0")`. -/
def binary (width n : Nat) : List Char := (Nat.toDigits 2 n).leftpad width '0'

/-- The text has binary digits only. -/
def IsBinary (text : List Char) : Prop := ∀ c ∈ text, c = '0' ∨ c = '1'

theorem ofDigitChars_binary (width n : Nat) : Nat.ofDigitChars 2 (binary width n) 0 = n := by
  rw [binary, List.leftpad, Nat.ofDigitChars_append, Nat.ofDigitChars_replicate_zero, Nat.mul_zero,
    Nat.ofDigitChars_toDigits (by omega) (by omega)]

theorem length_binary {width n : Nat} (hwidth : 0 < width) (hn : n < 2 ^ width) :
    (binary width n).length = width := by
  have hdigits := (Nat.length_toDigits_le_iff (by omega : 1 < 2) hwidth).mpr hn
  rw [binary, List.length_leftpad]
  omega

theorem isBinary_toDigits (n : Nat) : IsBinary (Nat.toDigits 2 n) := by
  induction n using Nat.strongRecOn with
  | ind n ih =>
    have hdigit : ∀ d < 2, d.digitChar = '0' ∨ d.digitChar = '1' := by decide
    by_cases hn : n < 2
    · rw [Nat.toDigits_of_lt_base hn]
      intro c hc
      obtain rfl := List.mem_singleton.mp hc
      exact hdigit n hn
    · rw [Nat.toDigits_of_base_le (by omega) (by omega)]
      intro c hc
      rcases List.mem_append.mp hc with hfront | hlast
      · exact ih (n / 2) (by omega) c hfront
      · obtain rfl := List.mem_singleton.mp hlast
        exact hdigit (n % 2) (by omega)

theorem isBinary_binary (width n : Nat) : IsBinary (binary width n) := by
  intro c hc
  rcases List.mem_append.mp hc with hzero | hdigit
  · exact .inl (List.eq_of_mem_replicate hzero)
  · exact isBinary_toDigits n c hdigit

theorem ofDigitChars_concat (text : List Char) (c : Char) :
    Nat.ofDigitChars 2 (text ++ [c]) 0 = 2 * Nat.ofDigitChars 2 text 0 + (c.toNat - '0'.toNat) := by
  rw [Nat.ofDigitChars_append, Nat.ofDigitChars_cons, Nat.ofDigitChars_nil]

/-- Texts of one length that are read as one number are equal. -/
theorem eq_of_ofDigitChars_eq {text text' : List Char} (htext : IsBinary text)
    (htext' : IsBinary text') (hlength : text.length = text'.length)
    (hvalue : Nat.ofDigitChars 2 text 0 = Nat.ofDigitChars 2 text' 0) : text = text' := by
  -- Induction from the end: the last digit is the number modulo two.
  induction text using List.reverseRecOn generalizing text' with
  | nil => exact (List.length_eq_zero_iff.mp hlength.symm).symm
  | append_singleton front c ih =>
      rcases List.eq_nil_or_concat text' with rfl | ⟨front', c', rfl⟩
      · simp at hlength
      · rw [List.concat_eq_append] at htext' hlength hvalue ⊢
        rw [ofDigitChars_concat, ofDigitChars_concat] at hvalue
        have hfront : IsBinary front := fun d hd => htext d (List.mem_append_left _ hd)
        have hfront' : IsBinary front' := fun d hd => htext' d (List.mem_append_left _ hd)
        have hc := htext c (by simp)
        have hc' := htext' c' (by simp)
        have hdigits : c = c' ∧
            Nat.ofDigitChars 2 front 0 = Nat.ofDigitChars 2 front' 0 := by
          rcases hc with rfl | rfl <;> rcases hc' with rfl | rfl <;> simp at hvalue ⊢ <;> omega
        rw [hdigits.1, ih hfront hfront' (by simpa using hlength) hdigits.2]

theorem ofDigitChars_lt {text : List Char} (htext : IsBinary text) :
    Nat.ofDigitChars 2 text 0 < 2 ^ text.length := by
  induction text using List.reverseRecOn with
  | nil => simp
  | append_singleton front c ih =>
      have hfront := ih fun d hd => htext d (List.mem_append_left _ hd)
      rw [ofDigitChars_concat, List.length_append, List.length_singleton, Nat.pow_succ]
      rcases htext c (by simp) with rfl | rfl <;> simp <;> omega

/-- The digits of the number that a text is read as. -/
theorem binary_ofDigitChars {text : List Char} (htext : IsBinary text) (hne : text ≠ []) :
    binary text.length (Nat.ofDigitChars 2 text 0) = text := by
  have hpos := List.length_pos_iff.mpr hne
  refine eq_of_ofDigitChars_eq (isBinary_binary _ _) htext
    (length_binary hpos (ofDigitChars_lt htext)) ?_
  rw [ofDigitChars_binary]

/-! ## Groups -/

section Groups

variable {α : Type*}

/-- The first groups of the length, as many as are asked for. -/
def groups (width : Nat) : Nat → List α → List (List α)
  | 0, _ => []
  | count + 1, text => text.take width :: groups width count (text.drop width)

/-- `text.match(/.{width}/g)`. -/
def fullGroups (width : Nat) (text : List α) : List (List α) :=
  groups width (text.length / width) text

/-- `text.match(/.{1,width}/g)`. -/
def allGroups (width : Nat) (text : List α) : List (List α) :=
  groups width ((text.length + (width - 1)) / width) text

/-- Groups of one length are found again in their join. -/
theorem groups_flatten {width : Nat} {parts : List (List α)}
    (hparts : ∀ part ∈ parts, part.length = width) (rest : List α) :
    groups width parts.length (parts.flatten ++ rest) = parts := by
  induction parts with
  | nil => rfl
  | cons part parts ih =>
      have hpart := hparts part List.mem_cons_self
      rw [List.length_cons, groups, List.flatten_cons, List.append_assoc, List.take_left' hpart,
        List.drop_left' hpart, ih fun other hother => hparts other (List.mem_cons_of_mem _ hother)]

/-- A rest that is shorter than a group is left out. -/
theorem fullGroups_flatten {width : Nat} {parts : List (List α)}
    (hparts : ∀ part ∈ parts, part.length = width) {rest : List α} (hrest : rest.length < width) :
    fullGroups width (parts.flatten ++ rest) = parts := by
  have hlength : parts.flatten.length = parts.length * width := by
    rw [List.length_flatten, List.map_congr_left hparts, List.map_const',
      List.sum_replicate_nat]
  have hcount : (parts.flatten ++ rest).length / width = parts.length := by
    rw [List.length_append, hlength, Nat.mul_comm, Nat.mul_add_div (by omega),
      Nat.div_eq_of_lt hrest, Nat.add_zero]
  rw [fullGroups, hcount, groups_flatten hparts]

/-- A text in groups: all are full but the last, which is not empty. -/
theorem allGroups_pad {width : Nat} (hwidth : 0 < width) (text : List α) (a : α) :
    (∀ part ∈ allGroups width text, part ≠ [] ∧ part.length ≤ width ∧ part ⊆ text) ∧
      ∃ padding < width, ((allGroups width text).map (List.rightpad width a)).flatten =
        text ++ List.replicate padding a := by
  unfold allGroups
  generalize hcount : (text.length + (width - 1)) / width = count
  induction count generalizing text with
  | zero =>
      have hnil : text = [] := by
        rcases Nat.div_eq_zero_iff.mp hcount with hzero | hlt
        · omega
        · exact List.length_eq_zero_iff.mp (by omega)
      subst hnil
      exact ⟨by simp [groups], 0, hwidth, rfl⟩
  | succ count ih =>
      have hne : text ≠ [] := by
        rintro rfl
        rw [List.length_nil, Nat.zero_add, Nat.div_eq_of_lt (by omega)] at hcount
        cases hcount
      have hrest : ((text.drop width).length + (width - 1)) / width = count := by
        rw [List.length_drop]
        by_cases hlt : text.length < width
        · have hone : (text.length + (width - 1)) / width = 1 := by
            have hpos := List.length_pos_iff.mpr hne
            exact Nat.div_eq_of_lt_le (by omega) (by omega)
          rw [Nat.sub_eq_zero_of_le (Nat.le_of_lt hlt), Nat.zero_add, Nat.div_eq_of_lt (by omega)]
          omega
        · have hshift : text.length + (width - 1) =
              (text.length - width + (width - 1)) + width := by omega
          rw [hshift, Nat.add_div_right _ hwidth] at hcount
          omega
      obtain ⟨hparts, padding, hpadding, hflatten⟩ := ih (text.drop width) hrest
      refine ⟨?_, ?_⟩
      · intro part hpart
        rcases List.mem_cons.mp hpart with rfl | htail
        · refine ⟨?_, List.length_take_le _ _, List.take_subset _ _⟩
          simp [hne]
          omega
        · obtain ⟨hnonempty, hshort, hsubset⟩ := hparts part htail
          exact ⟨hnonempty, hshort, fun c hc => List.drop_subset _ _ (hsubset hc)⟩
      · rw [groups, List.map_cons, List.flatten_cons, hflatten]
        by_cases hlt : width ≤ text.length
        · refine ⟨padding, hpadding, ?_⟩
          have hfull : (text.take width).length = width := by simp [hlt]
          rw [List.rightpad, hfull, Nat.sub_self, List.replicate_zero, List.append_nil,
            ← List.append_assoc, List.take_append_drop]
        · -- The last group: nothing is left after it.
          have hnil : text.drop width = [] := List.drop_eq_nil_of_le (by omega)
          have hnone : count = 0 := by
            rw [← hrest, hnil, List.length_nil, Nat.zero_add, Nat.div_eq_of_lt (by omega)]
          subst hnone
          have hzero : List.replicate padding a = [] := by
            have := congrArg List.length hflatten
            rw [hnil] at this
            simp [groups] at this
            simp [← this]
          have hpos := List.length_pos_iff.mpr hne
          refine ⟨width - text.length, by omega, ?_⟩
          rw [hnil, hzero, List.take_of_length_le (by omega), List.rightpad]
          simp

/-- Groups that reach to the end of a text are all of it. -/
theorem flatten_groups {width count : Nat} {text : List α} (hlength : text.length ≤ width * count) :
    (groups width count text).flatten = text := by
  induction count generalizing text with
  | zero => simpa [groups] using hlength
  | succ count ih =>
      rw [groups, List.flatten_cons, ih (by rw [List.length_drop, Nat.mul_succ] at *; omega),
        List.take_append_drop]

theorem flatten_allGroups {width : Nat} (hwidth : 0 < width) (text : List α) :
    (allGroups width text).flatten = text := by
  apply flatten_groups
  have hdivision := Nat.div_add_mod (text.length + (width - 1)) width
  have hremainder := Nat.mod_lt (text.length + (width - 1)) hwidth
  omega

end Groups

end Foundation.Regrouping
