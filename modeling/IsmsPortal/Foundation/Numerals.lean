import Mathlib.Algebra.Ring.Nat
import Mathlib.Data.List.Basic
import Mathlib.Data.List.Induction

/-! # Numerals

The decimal digits of natural numbers. A text of digits that does not start with a zero is the
numeral of the number that it is read as.
-/

namespace Foundation.Numerals

/-- A text of digits is read in base ten. -/
abbrev value (digits : List Char) : Nat := Nat.ofDigitChars 10 digits 0

/-- The digit of a character in the bases up to sixteen. -/
def digitValue (c : Char) : Option Nat :=
  if c.isDigit then some (c.toNat - 48)
  else if 97 ≤ c.toNat ∧ c.toNat ≤ 102 then some (c.toNat - 87)
  else if 65 ≤ c.toNat ∧ c.toNat ≤ 70 then some (c.toNat - 55)
  else none

/-- Digits, the first of which is not zero. -/
structure IsNumeral (digits : List Char) : Prop where
  digit : ∀ c ∈ digits, c.isDigit = true
  nonempty : digits ≠ []
  leading : digits.head? ≠ some '0'

theorem head_toDigits {n : Nat} (hn : 0 < n) : (Nat.toDigits 10 n).head? ≠ some '0' := by
  induction n using Nat.strongRecOn with
  | ind n ih =>
    rw [Nat.toDigits_eq_if (by decide)]
    split
    next hlt =>
      have hdigit : ∀ m < 10, 0 < m → m.digitChar ≠ '0' := by decide
      simpa using hdigit n hlt hn
    next hle =>
      rw [List.head?_append_of_ne_nil _ Nat.toDigits_ne_nil]
      exact ih (n / 10) (by omega) (by omega)

theorem isNumeral_toDigits {n : Nat} (hn : 0 < n) : IsNumeral (Nat.toDigits 10 n) where
  digit _ hc := Nat.isDigit_of_mem_toDigits (by decide) (by decide) hc
  nonempty := Nat.toDigits_ne_nil
  leading := head_toDigits hn

/-- A digit is the one of its number. -/
theorem exists_digitChar {c : Char} (hc : c.isDigit = true) :
    ∃ d < 10, c = d.digitChar ∧ c.toNat - '0'.toNat = d := by
  have hrange : '0'.val ≤ c.val ∧ c.val ≤ '9'.val := by
    simpa [Char.isDigit] using hc
  have hall : ∀ n < 58, 48 ≤ n → Char.ofNat n = (n - 48).digitChar := by decide
  have hlow : 48 ≤ c.toNat := hrange.1
  have hhigh : c.toNat < 58 := Nat.lt_succ_of_le hrange.2
  refine ⟨c.toNat - 48, by omega, ?_, rfl⟩
  rw [← hall c.toNat hhigh hlow, Char.ofNat_toNat]

theorem value_concat (front : List Char) (c : Char) :
    value (front ++ [c]) = 10 * value front + (c.toNat - '0'.toNat) := by
  rw [value, Nat.ofDigitChars_append, Nat.ofDigitChars_cons, Nat.ofDigitChars_nil]

/-- A numeral is that of its positive number. -/
theorem IsNumeral.toDigits_value {digits : List Char} (hdigits : IsNumeral digits) :
    0 < value digits ∧ Nat.toDigits 10 (value digits) = digits := by
  -- Induction from the end: the last digit is the remainder.
  induction digits using List.reverseRecOn with
  | nil => exact absurd rfl hdigits.nonempty
  | append_singleton front c ih =>
      obtain ⟨d, hd, hc, hvalue⟩ := exists_digitChar (hdigits.digit c (by simp))
      rw [value_concat, hvalue]
      cases hfront : front with
      | nil =>
          have hzero : d ≠ 0 := by
            rintro rfl
            exact hdigits.leading (by rw [hfront, hc]; rfl)
          rw [value, Nat.ofDigitChars_nil, Nat.mul_zero, Nat.zero_add,
            Nat.toDigits_of_lt_base hd, hc]
          exact ⟨Nat.pos_of_ne_zero hzero, rfl⟩
      | cons first rest =>
          have hnumeral : IsNumeral front := by
            refine ⟨fun e he => hdigits.digit e (List.mem_append_left _ he), ?_, ?_⟩
            · rw [hfront]
              exact List.cons_ne_nil _ _
            · have hleading := hdigits.leading
              rw [hfront] at hleading ⊢
              exact hleading
          obtain ⟨hpos, hread⟩ := ih hnumeral
          rw [← hfront]
          refine ⟨by omega, ?_⟩
          rw [Nat.toDigits_of_base_le (by decide) (by omega), Nat.mul_add_div (by decide),
            Nat.div_eq_of_lt hd, Nat.add_zero, hread, Nat.mul_add_mod, Nat.mod_eq_of_lt hd, hc]

end Foundation.Numerals
