import IsmsPortal.Foundation.Numerals
import IsmsPortal.Foundation.Text
import Mathlib.Data.List.DropRight
import Mathlib.Tactic.Linarith

/-! # Decimal texts of finite numbers

A non-zero finite number is determined by its sign and its shortest decimal:
digits without leading or trailing zero, and the position of the decimal
point. ECMAScript prints them in positional notation for small exponents and
in scientific notation otherwise. The printed text is read back here, so the
text determines the number.
-/

namespace Foundation

/-- Shortest decimal of a non-zero finite number: the digits of `significand`,
with the decimal point after `point` of them. -/
structure Decimal where
  negative : Bool
  significand : Nat
  point : Int
  trimmed : significand % 10 ≠ 0
deriving DecidableEq

namespace Decimal

/-- Digits and point in the notation of `Number::toString`. -/
def unsignedText (digits : List Char) (point : Int) : List Char :=
  if digits.length ≤ point ∧ point ≤ 21 then
    digits ++ List.replicate (point - digits.length).toNat '0'
  else if 0 < point ∧ point ≤ 21 then
    digits.take point.toNat ++ '.' :: digits.drop point.toNat
  else if -6 < point ∧ point ≤ 0 then
    '0' :: '.' :: (List.replicate (-point).toNat '0' ++ digits)
  else
    let exponent := (if point - 1 < 0 then '-' else '+') ::
      Nat.toDigits 10 (point - 1).natAbs
    digits.take 1 ++ (if digits.length = 1 then [] else '.' :: digits.drop 1) ++
      'e' :: exponent

/-- Value of a signed exponent. -/
def readExponent : List Char → Int
  | '-' :: digits => -(Nat.ofDigitChars 10 digits 0 : Int)
  | '+' :: digits => Nat.ofDigitChars 10 digits 0
  | _ => 0

/-- Recover digits and point from any of the notations. -/
def readUnsigned (text : List Char) : List Char × Int :=
  let mantissa := text.takeWhile (· ≠ 'e')
  let exponent := text.dropWhile (· ≠ 'e')
  let whole := mantissa.takeWhile (· ≠ '.')
  let fraction := mantissa.dropWhile (· ≠ '.')
  if exponent ≠ [] then (whole ++ fraction.tail, readExponent exponent.tail + 1)
  else if fraction = [] then (whole.rdropWhile (· = '0'), whole.length)
  else if whole = ['0'] then
    (fraction.tail.dropWhile (· = '0'), -((fraction.tail.takeWhile (· = '0')).length : Int))
  else (whole ++ fraction.tail, whole.length)

theorem split_at {stop : Char} {front : List Char} (hfront : stop ∉ front) (back : List Char) :
    (front ++ stop :: back).takeWhile (· ≠ stop) = front ∧
      (front ++ stop :: back).dropWhile (· ≠ stop) = stop :: back := by
  have hall : ∀ c ∈ front, decide (c ≠ stop) = true := by
    intro c hc
    exact decide_eq_true fun heq => hfront (heq ▸ hc)
  rw [List.takeWhile_append_of_pos hall, List.dropWhile_append_of_pos hall]
  simp

theorem no_split {stop : Char} {text : List Char} (htext : stop ∉ text) :
    text.takeWhile (· ≠ stop) = text ∧ text.dropWhile (· ≠ stop) = [] := by
  have hall : ∀ c ∈ text, decide (c ≠ stop) = true := by
    intro c hc
    exact decide_eq_true fun heq => htext (heq ▸ hc)
  exact ⟨List.takeWhile_eq_self_iff.mpr hall, List.dropWhile_eq_nil_iff.mpr hall⟩

/-- A digit string without leading or trailing zero. -/
structure Trimmed (digits : List Char) : Prop where
  digit : ∀ c ∈ digits, c.isDigit = true
  nonempty : digits ≠ []
  leading : digits.head? ≠ some '0'
  trailing : digits.getLast? ≠ some '0'

namespace Trimmed

variable {digits : List Char} (htrimmed : Trimmed digits)

include htrimmed

theorem notMem {c : Char} (hc : c.isDigit = false) : c ∉ digits := by
  intro hmem
  rw [htrimmed.digit c hmem] at hc
  cases hc

theorem dropWhile_zeros (count : Nat) :
    (List.replicate count '0' ++ digits).dropWhile (· = '0') = digits ∧
      (List.replicate count '0' ++ digits).takeWhile (· = '0') = List.replicate count '0' := by
  have hzeros : ∀ c ∈ List.replicate count '0', decide (c = '0') = true := by
    intro c hc
    exact decide_eq_true (List.eq_of_mem_replicate hc)
  rw [List.dropWhile_append_of_pos hzeros, List.takeWhile_append_of_pos hzeros]
  cases digits with
  | nil => exact absurd rfl htrimmed.nonempty
  | cons c digits =>
      have hc : c ≠ '0' := fun heq => htrimmed.leading (by rw [heq, List.head?_cons])
      simp [hc]

theorem rdropWhile_zeros (count : Nat) :
    (digits ++ List.replicate count '0').rdropWhile (· = '0') = digits := by
  have hzeros : ∀ c ∈ List.replicate count '0', decide (c = '0') = true := by
    intro c hc
    exact decide_eq_true (List.eq_of_mem_replicate hc)
  rw [List.rdropWhile, List.reverse_append, List.reverse_replicate,
    List.dropWhile_append_of_pos hzeros, List.dropWhile_eq_self_iff.mpr, List.reverse_reverse]
  intro hlength
  have hlast := htrimmed.trailing
  rw [← List.head?_reverse, List.head?_eq_getElem?, List.getElem?_eq_getElem hlength] at hlast
  simpa using hlast

/-- The printed notation determines digits and point. -/
theorem readUnsigned_unsignedText (point : Int) :
    readUnsigned (unsignedText digits point) = (digits, point) := by
  have hexp : 'e' ∉ digits := htrimmed.notMem rfl
  have hdot : '.' ∉ digits := htrimmed.notMem rfl
  have hpositive : 0 < digits.length := List.length_pos_of_ne_nil htrimmed.nonempty
  unfold unsignedText
  split
  next hwhole =>
    have hexp' : 'e' ∉ digits ++ List.replicate (point - digits.length).toNat '0' := by
      simp [hexp, List.mem_replicate]
    have hdot' : '.' ∉ digits ++ List.replicate (point - digits.length).toNat '0' := by
      simp [hdot, List.mem_replicate]
    simp only [readUnsigned, (no_split hexp').1, (no_split hexp').2, (no_split hdot').1,
      (no_split hdot').2, ne_eq, not_true_eq_false, if_false, if_true,
      htrimmed.rdropWhile_zeros, List.length_append, List.length_replicate, Prod.mk.injEq,
      true_and]
    omega
  next hwhole =>
  split
  next hinside =>
    have hexp' : 'e' ∉ digits.take point.toNat ++ '.' :: digits.drop point.toNat := by
      simp only [List.mem_append, List.mem_cons, not_or]
      exact ⟨fun h => hexp (List.mem_of_mem_take h), by decide,
        fun h => hexp (List.mem_of_mem_drop h)⟩
    have hdot' : '.' ∉ digits.take point.toNat := fun h => hdot (List.mem_of_mem_take h)
    have hzero : digits.take point.toNat ≠ ['0'] := by
      intro heq
      apply htrimmed.leading
      rw [← List.take_append_drop point.toNat digits, heq]
      rfl
    simp only [readUnsigned, (no_split hexp').1, (no_split hexp').2, (split_at hdot' _).1,
      (split_at hdot' _).2, ne_eq, not_true_eq_false, if_false, reduceCtorEq, hzero,
      List.tail_cons, List.take_append_drop, List.length_take, Prod.mk.injEq, true_and]
    omega
  next hinside =>
  split
  next hsmall =>
    have hexp' : 'e' ∉ '0' :: '.' :: (List.replicate (-point).toNat '0' ++ digits) := by
      simp [hexp, List.mem_replicate]
    have hdot' : '.' ∉ ['0'] := by decide
    have hsplit := split_at hdot' (List.replicate (-point).toNat '0' ++ digits)
    simp only [List.singleton_append] at hsplit
    simp only [readUnsigned, (no_split hexp').1, (no_split hexp').2, hsplit.1, hsplit.2, ne_eq,
      not_true_eq_false, if_false, reduceCtorEq, if_true, List.tail_cons,
      (htrimmed.dropWhile_zeros _).1, (htrimmed.dropWhile_zeros _).2, List.length_replicate,
      Prod.mk.injEq, true_and]
    omega
  next hsmall =>
    set exponent := (if point - 1 < 0 then '-' else '+') :: Nat.toDigits 10 (point - 1).natAbs
      with hexponent
    have hread : readExponent exponent + 1 = point := by
      rw [hexponent]
      split
      · simp only [readExponent, Nat.ofDigitChars_ten_toDigits]
        omega
      · simp only [readExponent, Nat.ofDigitChars_ten_toDigits]
        omega
    by_cases hone : digits.length = 1
    · have htake : digits.take 1 = digits := List.take_of_length_le (by omega)
      simp only [hone, if_true, List.append_nil, htake, readUnsigned, (split_at hexp _).1,
        (split_at hexp _).2, (no_split hdot).1, (no_split hdot).2, ne_eq, reduceCtorEq,
        not_false_eq_true, List.tail_cons, List.tail_nil, hread]
    · have hdot' : '.' ∉ digits.take 1 := fun h => hdot (List.mem_of_mem_take h)
      have hexp' : 'e' ∉ digits.take 1 ++ '.' :: digits.drop 1 := by
        simp only [List.mem_append, List.mem_cons, not_or]
        exact ⟨fun h => hexp (List.mem_of_mem_take h), by decide,
          fun h => hexp (List.mem_of_mem_drop h)⟩
      simp only [hone, if_false, readUnsigned, (split_at hexp' _).1, (split_at hexp' _).2,
        (split_at hdot' _).1, (split_at hdot' _).2, ne_eq, reduceCtorEq, not_false_eq_true,
        if_true, List.tail_cons, List.take_append_drop, hread]

end Trimmed

theorem trimmed_toDigits {n : Nat} (hn : n % 10 ≠ 0) : Trimmed (Nat.toDigits 10 n) where
  digit _ hc := Nat.isDigit_of_mem_toDigits (by decide) (by decide) hc
  nonempty := Nat.toDigits_ne_nil
  leading := Numerals.head_toDigits (by omega)
  trailing := by
    have hlast : (Nat.toDigits 10 n).getLast? = some (n % 10).digitChar := by
      rw [Nat.toDigits_eq_if (by decide)]
      split
      next hlt => rw [Nat.mod_eq_of_lt hlt, List.getLast?_singleton]
      next => rw [List.getLast?_concat]
    have hdigit : ∀ m < 10, m ≠ 0 → m.digitChar ≠ '0' := by decide
    rw [hlast, ne_eq, Option.some.injEq]
    exact hdigit _ (Nat.mod_lt _ (by decide)) hn

/-- The printed number. -/
def text (decimal : Decimal) : List Char :=
  (if decimal.negative then ['-'] else []) ++
    unsignedText (Nat.toDigits 10 decimal.significand) decimal.point

/-- The characters of printed numbers. -/
def numberChar (c : Char) : Bool := c.isDigit || c ∈ ['-', '+', '.', 'e']

theorem unsignedText_class {digits : List Char} (hdigits : ∀ c ∈ digits, c.isDigit = true)
    (point : Int) : ∀ c ∈ unsignedText digits point, numberChar c = true := by
  have hdigit : ∀ c ∈ digits, numberChar c = true := fun c hc => by
    simp [numberChar, hdigits c hc]
  have hzeros : ∀ count, ∀ c ∈ List.replicate count '0', numberChar c = true := by
    intro count c hc
    rw [List.eq_of_mem_replicate hc]
    rfl
  have hexponent : ∀ c ∈ Nat.toDigits 10 (point - 1).natAbs, numberChar c = true := by
    intro c hc
    simp [numberChar, Nat.isDigit_of_mem_toDigits (by decide) (by decide) hc]
  intro c hc
  unfold unsignedText at hc
  split at hc
  · rcases List.mem_append.mp hc with hc | hc
    · exact hdigit c hc
    · exact hzeros _ c hc
  split at hc
  · rcases List.mem_append.mp hc with hc | hc
    · exact hdigit c (List.mem_of_mem_take hc)
    · rcases List.mem_cons.mp hc with rfl | hc
      · rfl
      · exact hdigit c (List.mem_of_mem_drop hc)
  split at hc
  · simp only [List.mem_cons, List.mem_append] at hc
    rcases hc with rfl | rfl | hc | hc
    · rfl
    · rfl
    · exact hzeros _ c hc
    · exact hdigit c hc
  · simp only [List.mem_cons, List.mem_append] at hc
    rcases hc with (hc | hc) | rfl | hc | hc
    · exact hdigit c (List.mem_of_mem_take hc)
    · split at hc
      · exact absurd hc List.not_mem_nil
      · rcases List.mem_cons.mp hc with rfl | hc
        · rfl
        · exact hdigit c (List.mem_of_mem_drop hc)
    · rfl
    · subst hc
      split <;> rfl
    · exact hexponent c hc

/-- Unsigned numbers start with a digit. -/
theorem head_unsignedText {digits : List Char} (htrimmed : Trimmed digits) (point : Int) :
    ∃ c rest, unsignedText digits point = c :: rest ∧ c.isDigit = true := by
  have hcons : ∃ c rest, digits = c :: rest ∧ c.isDigit = true := by
    match digits, htrimmed with
    | [], htrimmed => exact absurd rfl htrimmed.nonempty
    | c :: rest, htrimmed => exact ⟨c, rest, rfl, htrimmed.digit c List.mem_cons_self⟩
  obtain ⟨c, rest, rfl, hc⟩ := hcons
  unfold unsignedText
  split
  · exact ⟨c, _, rfl, hc⟩
  split
  next hinside =>
    obtain ⟨count, hcount⟩ : ∃ count, point.toNat = count + 1 :=
      ⟨point.toNat - 1, by omega⟩
    rw [hcount]
    exact ⟨c, _, rfl, hc⟩
  split
  · exact ⟨'0', _, rfl, rfl⟩
  · exact ⟨c, _, rfl, hc⟩

/-- Equal printed numbers are equal. -/
theorem text_injective : Function.Injective text := by
  intro left right heq
  have hleft := trimmed_toDigits left.trimmed
  have hright := trimmed_toDigits right.trimmed
  obtain ⟨c, rest, hcons, hc⟩ := head_unsignedText hleft left.point
  obtain ⟨c', rest', hcons', hc'⟩ := head_unsignedText hright right.point
  have hminus : ∀ d : Char, d.isDigit = true → d ≠ '-' := by
    rintro d hd rfl
    cases hd
  have hsplit : left.negative = right.negative ∧
      unsignedText (Nat.toDigits 10 left.significand) left.point =
        unsignedText (Nat.toDigits 10 right.significand) right.point := by
    unfold text at heq
    cases hnegative : left.negative <;> cases hnegative' : right.negative <;>
      simp only [hnegative, hnegative', if_true, Bool.false_eq_true, if_false, List.nil_append,
        List.singleton_append, List.cons.injEq, true_and] at heq
    · exact ⟨rfl, heq⟩
    · rw [hcons, List.cons.injEq] at heq
      exact absurd heq.1 (hminus c hc)
    · rw [hcons', List.cons.injEq] at heq
      exact absurd heq.1.symm (hminus c' hc')
    · exact ⟨rfl, heq⟩
  have hread := congrArg readUnsigned hsplit.2
  rw [hleft.readUnsigned_unsignedText, hright.readUnsigned_unsignedText, Prod.mk.injEq] at hread
  have hsignificand := congrArg (Nat.ofDigitChars 10 · 0) hread.1
  simp only [Nat.ofDigitChars_ten_toDigits] at hsignificand
  rcases left with ⟨negative, significand, point, trimmed⟩
  rcases right with ⟨negative', significand', point', trimmed'⟩
  simp only at hsplit hread hsignificand
  obtain ⟨rfl, _⟩ := hsplit
  obtain ⟨_, rfl⟩ := hread
  subst hsignificand
  rfl

end Decimal

/-- A finite number. Both zeros print as `0`, and a stored number has one zero. -/
inductive JsonNumber where
  | zero
  | nonzero (decimal : Decimal)
deriving DecidableEq

namespace JsonNumber

/-- The text of a number, as `JSON.stringify` writes it. -/
def text : JsonNumber → List Char
  | zero => ['0']
  | nonzero decimal => decimal.text

theorem text_class (number : JsonNumber) : ∀ c ∈ number.text, Decimal.numberChar c = true := by
  cases number with
  | zero => exact List.all_eq_true.mp (by decide)
  | nonzero decimal =>
      intro c hc
      rcases List.mem_append.mp hc with hsign | hunsigned
      · split at hsign
        · rw [List.mem_singleton.mp hsign]
          rfl
        · exact absurd hsign List.not_mem_nil
      · exact Decimal.unsignedText_class
          (Decimal.trimmed_toDigits decimal.trimmed).digit decimal.point c hunsigned

/-- A printed number starts with a digit or a minus sign. -/
theorem text_head (number : JsonNumber) :
    ∃ c rest, number.text = c :: rest ∧ (c.isDigit = true ∨ c = '-') := by
  cases number with
  | zero => exact ⟨'0', [], rfl, .inl rfl⟩
  | nonzero decimal =>
      obtain ⟨c, rest, hcons, hc⟩ := Decimal.head_unsignedText
        (Decimal.trimmed_toDigits decimal.trimmed) decimal.point
      simp only [text, Decimal.text, hcons]
      split
      · exact ⟨'-', _, rfl, .inr rfl⟩
      · exact ⟨c, rest, rfl, .inl hc⟩

theorem text_injective : Function.Injective text := by
  have hzero : ∀ decimal : Decimal, decimal.text ≠ ['0'] := by
    intro decimal heq
    have htrimmed := Decimal.trimmed_toDigits decimal.trimmed
    obtain ⟨c, rest, hcons, hc⟩ := Decimal.head_unsignedText htrimmed decimal.point
    have hread := htrimmed.readUnsigned_unsignedText decimal.point
    unfold Decimal.text at heq
    split at heq
    · cases heq
    · rw [List.nil_append] at heq
      rw [heq] at hread
      exact htrimmed.nonempty (congrArg Prod.fst hread).symm
  intro left right heq
  cases left with
  | zero =>
      cases right with
      | zero => rfl
      | nonzero decimal => exact absurd heq.symm (hzero decimal)
  | nonzero decimal =>
      cases right with
      | zero => exact absurd heq (hzero decimal)
      | nonzero decimal' => exact congrArg nonzero (Decimal.text_injective heq)

end JsonNumber

end Foundation
