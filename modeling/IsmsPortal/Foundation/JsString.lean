import Mathlib.Algebra.Ring.Nat
import Mathlib.Data.List.DropRight

/-! # Strings of the runtime

The string operations of the runtime that are not Lean's own: lengths count
UTF-16 units, and trimming removes every white space and line terminator of the
language.
-/

namespace Foundation.JsString

/-- White space and line terminators. -/
def isWhiteSpace (c : Char) : Bool :=
  let code := c.toNat
  (9 ≤ code ∧ code ≤ 13) ∨ code = 0x20 ∨ code = 0xA0 ∨ code = 0x1680 ∨
    (0x2000 ≤ code ∧ code ≤ 0x200A) ∨
    code ∈ [0x2028, 0x2029, 0x202F, 0x205F, 0x3000, 0xFEFF]

/-- `text.trim()`. -/
def trim (text : String) : String :=
  String.ofList (((text.toList.dropWhile isWhiteSpace).reverse.dropWhile isWhiteSpace).reverse)

theorem toList_trim (text : String) :
    (trim text).toList = (text.toList.dropWhile isWhiteSpace).rdropWhile isWhiteSpace := by
  unfold trim
  rw [String.toList_ofList]
  rfl

/-- A trimmed text has no white space to remove. -/
theorem trim_trim (text : String) : trim (trim text) = trim text := by
  apply String.toList_injective
  rw [toList_trim (trim text), toList_trim text]
  have hstart : ((text.toList.dropWhile isWhiteSpace).rdropWhile isWhiteSpace).dropWhile
      isWhiteSpace = (text.toList.dropWhile isWhiteSpace).rdropWhile isWhiteSpace := by
    rw [List.dropWhile_eq_self_iff]
    intro hlength
    have hkept := List.rdropWhile_prefix isWhiteSpace (text.toList.dropWhile isWhiteSpace)
    rw [hkept.getElem hlength]
    exact List.dropWhile_get_zero_not isWhiteSpace text.toList _
  rw [hstart, List.rdropWhile_idempotent]

/-- `toLowerCase` of the runtime, whose tables follow Unicode: lower case stays as it is, and
no white space comes to the ends of a text. -/
structure Casing where
  toLowerCase : String → String
  lower_lower : ∀ text, toLowerCase (toLowerCase text) = toLowerCase text
  trim_lower : ∀ text, trim text = text → trim (toLowerCase text) = toLowerCase text

namespace Casing

variable (casing : Casing)

/-- `text.trim().toLowerCase()`. -/
def normalize (text : String) : String := casing.toLowerCase (trim text)

@[simp]
theorem normalize_trim (text : String) : casing.normalize (trim text) = casing.normalize text := by
  rw [normalize, normalize, trim_trim]

@[simp]
theorem normalize_normalize (text : String) :
    casing.normalize (casing.normalize text) = casing.normalize text := by
  unfold normalize
  rw [casing.trim_lower _ (trim_trim text), casing.lower_lower]

end Casing

/-- The numbers of the letters and digits of ASCII. -/
theorem isAlphanum_iff {c : Char} : c.isAlphanum = true ↔ 48 ≤ c.toNat ∧ c.toNat ≤ 57 ∨
    65 ≤ c.toNat ∧ c.toNat ≤ 90 ∨ 97 ≤ c.toNat ∧ c.toNat ≤ 122 := by
  have hclasses : c.isAlphanum = (decide (c.val ≥ 65 ∧ c.val ≤ 90) ||
      (c.val ≥ 97 && c.val ≤ 122) || (c.val ≥ 48 && c.val ≤ 57)) := rfl
  have hval : c.val.toNat = c.toNat := rfl
  simp only [hclasses, Bool.or_eq_true, Bool.and_eq_true, decide_eq_true_eq, ge_iff_le,
    UInt32.le_iff_toNat_le, hval, UInt32.reduceToNat]
  tauto

theorem toNat_lt_of_isAlphanum {c : Char} (hc : c.isAlphanum = true) : c.toNat < 128 := by
  rw [isAlphanum_iff] at hc
  omega

/-- The lower case of a character in ASCII. -/
def lowerAscii (c : Char) : Char :=
  if 65 ≤ c.toNat ∧ c.toNat ≤ 90 then Char.ofNat (c.toNat + 32) else c

theorem toNat_lowerAscii {c : Char} (hupper : 65 ≤ c.toNat ∧ c.toNat ≤ 90) :
    (lowerAscii c).toNat = c.toNat + 32 := by
  have hvalid : (c.toNat + 32).isValidChar := .inl (by omega)
  rw [lowerAscii, if_pos hupper, Char.ofNat, dif_pos hvalid]
  rfl

theorem lowerAscii_lowerAscii (c : Char) : lowerAscii (lowerAscii c) = lowerAscii c := by
  by_cases hupper : 65 ≤ c.toNat ∧ c.toNat ≤ 90
  · have hcode := toNat_lowerAscii hupper
    conv_lhs => rw [lowerAscii]
    rw [if_neg (by omega)]
  · rw [lowerAscii, lowerAscii, if_neg hupper, if_neg hupper]

theorem isWhiteSpace_lowerAscii (c : Char) : isWhiteSpace (lowerAscii c) = isWhiteSpace c := by
  by_cases hupper : 65 ≤ c.toNat ∧ c.toNat ≤ 90
  · simp only [isWhiteSpace, toNat_lowerAscii hupper, List.mem_cons, List.not_mem_nil, or_false,
      decide_eq_decide]
    omega
  · rw [lowerAscii, if_neg hupper]

theorem dropWhile_map_lowerAscii (chars : List Char) :
    (chars.map lowerAscii).dropWhile isWhiteSpace =
      (chars.dropWhile isWhiteSpace).map lowerAscii := by
  rw [List.dropWhile_map]
  congr 2
  funext c
  exact isWhiteSpace_lowerAscii c

/-- The casing of texts in ASCII. -/
def asciiCasing : Casing where
  toLowerCase text := String.ofList (text.toList.map lowerAscii)
  lower_lower := by
    intro text
    rw [String.toList_ofList, List.map_map]
    congr 2
    funext c
    exact lowerAscii_lowerAscii c
  trim_lower := by
    intro text htrim
    rw [trim, String.toList_ofList, dropWhile_map_lowerAscii, ← List.map_reverse,
      dropWhile_map_lowerAscii, ← List.map_reverse]
    conv_rhs => rw [← htrim]
    rw [trim, String.toList_ofList]

/-- UTF-16 units of a character. -/
def units (c : Char) : Nat := if c.toNat < 0x10000 then 1 else 2

/-- `text.length`. -/
def length (text : String) : Nat := (text.toList.map units).sum

/-- A text has at least one unit for each character. -/
theorem length_toList_le (text : String) : text.toList.length ≤ length text := by
  rw [length]
  induction text.toList with
  | nil => exact Nat.le_refl 0
  | cons c rest ih =>
      have hone : 1 ≤ units c := by
        rw [units]
        split <;> omega
      rw [List.map_cons, List.sum_cons, List.length_cons]
      omega

/-- The characters within the first units; a pair that the cut divides is left out. -/
def firstUnits : Nat → List Char → List Char
  | _, [] => []
  | limit, c :: rest => if units c ≤ limit then c :: firstUnits (limit - units c) rest else []

/-- `text.slice(0, limit)`. -/
def slice (limit : Nat) (text : String) : String := String.ofList (firstUnits limit text.toList)

end Foundation.JsString
