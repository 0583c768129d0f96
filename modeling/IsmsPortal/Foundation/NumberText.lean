import IsmsPortal.Foundation.Double
import IsmsPortal.Foundation.JsString
import IsmsPortal.Foundation.Numerals

/-! # Texts as numbers

`Number` of a text takes more than digits: white space around it, nothing at all, signs, fractions,
exponents, other bases and the word for the infinite. Other texts are not a number. Digits alone are
read in base ten.
-/

namespace Foundation.Double

open Numerals

/-- Digits of a base, at least one. -/
def readBase (base : Nat) (digits : List Char) : Option Nat :=
  if digits = [] then none
  else digits.foldl (fun number c => do
    let number ← number
    let digit ← digitValue c
    if digit < base then some (number * base + digit) else none) (some 0)

/-- An optional sign. -/
def readSign : List Char → Int × List Char
  | '-' :: rest => (-1, rest)
  | '+' :: rest => (1, rest)
  | text => (1, text)

/-- What may follow the digits: nothing, or an exponent. -/
def readPower : List Char → Option Int
  | [] => some 0
  | c :: rest =>
      let (sign, digits) := readSign rest
      if (c = 'e' ∨ c = 'E') ∧ digits ≠ [] ∧ digits.all Char.isDigit = true then
        some (sign * value digits)
      else none

/-- A decimal without a sign. -/
def readDecimal (text : List Char) : Option ℚ :=
  let whole := text.takeWhile Char.isDigit
  let rest := text.dropWhile Char.isDigit
  let fraction := if rest.head? = some '.' then rest.tail.takeWhile Char.isDigit else []
  let last := if rest.head? = some '.' then rest.tail.dropWhile Char.isDigit else rest
  if whole = [] ∧ fraction = [] then none
  else (readPower last).map fun power =>
    (value (whole ++ fraction) : ℚ) * 10 ^ (power - (fraction.length : Int))

def infinityText : List Char := ['I', 'n', 'f', 'i', 'n', 'i', 't', 'y']

/-- A prefix of a base, and the digits after it. -/
def readPrefix : List Char → Option (Nat × List Char)
  | '0' :: c :: digits =>
      if c = 'x' ∨ c = 'X' then some (16, digits)
      else if c = 'o' ∨ c = 'O' then some (8, digits)
      else if c = 'b' ∨ c = 'B' then some (2, digits)
      else none
  | _ => none

/-- A text without white space around it. -/
def readNumber (text : List Char) : Double :=
  if text = [] then .finite 0
  else match readPrefix text with
    | some (base, digits) =>
        match readBase base digits with
        | none => .nan
        | some n => ofRat (n : ℚ)
    | none =>
        let (sign, unsigned) := readSign text
        if unsigned = infinityText then .infinity (sign < 0)
        else match readDecimal unsigned with
          | none => .nan
          | some q => ofRat (sign * q)

/-- `Number(text)`. -/
def number (text : List Char) : Double :=
  readNumber ((text.dropWhile JsString.isWhiteSpace).rdropWhile JsString.isWhiteSpace)

/-! ## Digits -/

theorem isWhiteSpace_of_isDigit {c : Char} (hc : c.isDigit = true) :
    JsString.isWhiteSpace c = false := by
  obtain ⟨d, hd, rfl, -⟩ := exists_digitChar hc
  have hall : ∀ d < 10, JsString.isWhiteSpace d.digitChar = false := by decide
  exact hall d hd

theorem trim_digits {digits : List Char} (hdigits : ∀ c ∈ digits, c.isDigit = true) :
    (digits.dropWhile JsString.isWhiteSpace).rdropWhile JsString.isWhiteSpace = digits := by
  have hfront : digits.dropWhile JsString.isWhiteSpace = digits := by
    cases digits with
    | nil => rfl
    | cons c digits =>
        rw [List.dropWhile_cons_of_neg]
        rw [isWhiteSpace_of_isDigit (hdigits c List.mem_cons_self)]
        exact Bool.false_ne_true
  rw [hfront, List.rdropWhile_eq_self_iff]
  intro hne
  rw [isWhiteSpace_of_isDigit (hdigits _ (List.getLast_mem hne))]
  exact Bool.false_ne_true

theorem readDecimal_digits {digits : List Char} (hne : digits ≠ [])
    (hdigits : ∀ c ∈ digits, c.isDigit = true) : readDecimal digits = some (value digits : ℚ) := by
  have hwhole : digits.takeWhile Char.isDigit = digits := List.takeWhile_eq_self_iff.mpr hdigits
  have hrest : digits.dropWhile Char.isDigit = [] := List.dropWhile_eq_nil_iff.mpr hdigits
  simp [readDecimal, hwhole, hrest, hne, readPower]

theorem readPrefix_digits {digits : List Char} (hdigits : ∀ c ∈ digits, c.isDigit = true) :
    readPrefix digits = none := by
  unfold readPrefix
  split
  next c rest =>
    have hc := hdigits c (by simp)
    have hletters : ∀ letter ∈ ['x', 'X', 'o', 'O', 'b', 'B'], c ≠ letter := by
      rintro letter hletter rfl
      revert hc
      simp only [List.mem_cons, List.not_mem_nil, or_false] at hletter
      rcases hletter with rfl | rfl | rfl | rfl | rfl | rfl <;> decide
    simp only [List.forall_mem_cons] at hletters
    obtain ⟨hx, hX, ho, hO, hb, hB, -⟩ := hletters
    rw [if_neg (by tauto), if_neg (by tauto), if_neg (by tauto)]
  next => rfl

theorem readSign_digits {digits : List Char} (hdigits : ∀ c ∈ digits, c.isDigit = true) :
    readSign digits = (1, digits) := by
  unfold readSign
  split
  next => exact absurd (hdigits '-' List.mem_cons_self) (by decide)
  next => exact absurd (hdigits '+' List.mem_cons_self) (by decide)
  next => rfl

/-- Digits are read in base ten. -/
theorem number_digits {digits : List Char} (hne : digits ≠ [])
    (hdigits : ∀ c ∈ digits, c.isDigit = true) :
    number digits = ofRat (value digits : ℚ) := by
  have hfinite : digits ≠ infinityText := by
    rintro rfl
    exact absurd (hdigits 'I' List.mem_cons_self) (by decide)
  rw [number, trim_digits hdigits, readNumber, if_neg hne, readPrefix_digits hdigits]
  simp only [readSign_digits hdigits, readDecimal_digits hne hdigits, if_neg hfinite, Int.cast_one,
    one_mul]

end Foundation.Double
