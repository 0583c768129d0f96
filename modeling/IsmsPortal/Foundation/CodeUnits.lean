import IsmsPortal.Foundation.Canonical
import IsmsPortal.Foundation.Json

/-! # Strings and numbers of the runtime

A string is a list of 16-bit units, which may have surrogates without a partner, and there are
two zeros. `JSON.stringify` writes a lone surrogate as an escape and both zeros alike. Strings
are compared by their units.
-/

namespace Foundation

/-! ## Strings -/

abbrev CodeUnit := Fin 65536

/-- What a string has at a place: a character, or the surrogate `0xD800 + offset` alone. -/
inductive CodePoint where
  | scalar (value : Char)
  | lone (offset : Fin 2048)
deriving DecidableEq

theorem toNat_ofNat_of_valid {n : Nat} (hvalid : n.isValidChar) : (Char.ofNat n).toNat = n := by
  rw [Char.ofNat, dif_pos hvalid]
  rfl

namespace CodePoint

/-- A unit that is not in a pair. -/
def ofUnit (unit : CodeUnit) : CodePoint :=
  if h : 0xD800 ≤ unit.val ∧ unit.val < 0xE000 then .lone ⟨unit.val - 0xD800, by omega⟩
  else .scalar (Char.ofNat unit.val)

/-- The character of a pair. -/
def ofPair (high low : CodeUnit) : CodePoint :=
  .scalar (Char.ofNat (0x10000 + (high.val - 0xD800) * 0x400 + (low.val - 0xDC00)))

/-- A high surrogate and a low one after it. -/
def IsPair (high low : CodeUnit) : Prop :=
  (0xD800 ≤ high.val ∧ high.val < 0xDC00) ∧ 0xDC00 ≤ low.val ∧ low.val < 0xE000

instance (high low : CodeUnit) : Decidable (IsPair high low) :=
  inferInstanceAs (Decidable (_ ∧ _))

/-- The values of the units. -/
def units : CodePoint → List Nat
  | .scalar value =>
      if value.toNat < 0x10000 then [value.toNat]
      else [0xD800 + (value.toNat - 0x10000) / 0x400, 0xDC00 + (value.toNat - 0x10000) % 0x400]
  | .lone offset => [0xD800 + offset.val]

theorem units_ofUnit (unit : CodeUnit) : (ofUnit unit).units = [unit.val] := by
  unfold ofUnit
  split
  next hsurrogate =>
    simp only [units, List.cons.injEq, and_true]
    omega
  next hplain =>
    have hvalid : unit.val.isValidChar := by
      unfold Nat.isValidChar
      omega
    rw [units, toNat_ofNat_of_valid hvalid, if_pos unit.isLt]

theorem units_ofPair {high low : CodeUnit} (hpair : IsPair high low) :
    (ofPair high low).units = [high.val, low.val] := by
  unfold IsPair at hpair
  have hvalid : (0x10000 + (high.val - 0xD800) * 0x400 + (low.val - 0xDC00)).isValidChar := by
    unfold Nat.isValidChar
    omega
  rw [ofPair, units, toNat_ofNat_of_valid hvalid, if_neg (by omega)]
  simp only [List.cons.injEq, and_true]
  omega

/-- The characters `JSON.stringify` writes. -/
def escape : CodePoint → List Char
  | .scalar value => Json.escape value
  | .lone offset =>
      ['\\', 'u', 'd', (8 + offset.val / 256).digitChar, (offset.val / 16 % 16).digitChar,
        (offset.val % 16).digitChar]

/-- Read one possibly escaped code point. -/
def read : List Char → Option (CodePoint × List Char)
  | '\\' :: 'u' :: 'd' :: first :: second :: third :: rest =>
      some (.lone (Fin.ofNat 2048 (256 * (Json.hexValue first - 8) + 16 * Json.hexValue second +
        Json.hexValue third)), rest)
  | text => (Json.unescape text).map fun read => (.scalar read.1, read.2)

theorem hexValue_digitChar : ∀ n < 16, Json.hexValue n.digitChar = n := by
  decide

/-- The escape of a character does not start like that of a surrogate. -/
theorem scalar_ne_lone (value : Char) (rest : List Char) {tail : List Char} :
    escape (.scalar value) ++ rest ≠ '\\' :: 'u' :: 'd' :: tail := by
  simp only [escape, Json.escape]
  split_ifs with _ hslash <;> simp
  exact fun heq => absurd heq hslash

theorem read_escape (point : CodePoint) (rest : List Char) :
    read (point.escape ++ rest) = some (point, rest) := by
  cases point with
  | lone offset =>
      have hfirst := hexValue_digitChar (8 + offset.val / 256) (by omega)
      have hsecond := hexValue_digitChar (offset.val / 16 % 16) (by omega)
      have hthird := hexValue_digitChar (offset.val % 16) (by omega)
      have hvalue : 256 * (8 + offset.val / 256 - 8) + 16 * (offset.val / 16 % 16) +
          offset.val % 16 = offset.val := by omega
      simp only [escape, List.cons_append, List.nil_append, read, hfirst, hsecond, hthird, hvalue,
        Fin.ofNat_val_eq_self]
  | scalar value =>
      unfold read
      split
      next heq => exact absurd heq (scalar_ne_lone value rest)
      next => rw [escape, Json.unescape_escape, Option.map_some]

end CodePoint

/-- The code points of a string. A high surrogate and the low one after it are one character. -/
def codePoints : List CodeUnit → List CodePoint
  | [] => []
  | [unit] => [.ofUnit unit]
  | high :: low :: rest =>
      if CodePoint.IsPair high low then .ofPair high low :: codePoints rest
      else .ofUnit high :: codePoints (low :: rest)

/-- The code points have the units of the string. -/
theorem units_codePoints (text : List CodeUnit) :
    (codePoints text).flatMap CodePoint.units = text.map Fin.val := by
  induction text using codePoints.induct with
  | case1 => rfl
  | case2 unit => simp [codePoints, CodePoint.units_ofUnit]
  | case3 high low rest hpair ih =>
      rw [codePoints, if_pos hpair, List.flatMap_cons, ih, CodePoint.units_ofPair hpair]
      rfl
  | case4 high low rest hpair ih =>
      rw [codePoints, if_neg hpair, List.flatMap_cons, ih, CodePoint.units_ofUnit]
      rfl

/-- `JSON.stringify` of a string. -/
def stringifyUnits (text : List CodeUnit) : List Char :=
  '"' :: (codePoints text).flatMap CodePoint.escape ++ ['"']

theorem stringifyUnits_split {text text' : List CodeUnit} {rest rest' : List Char}
    (heq : stringifyUnits text ++ rest = stringifyUnits text' ++ rest') :
    text = text' ∧ rest = rest' := by
  simp only [stringifyUnits, List.cons_append, List.append_assoc, List.cons.injEq, true_and,
    List.nil_append] at heq
  obtain ⟨hpoints, hrest⟩ := Text.flatMap_split CodePoint.read_escape rfl rfl heq
  have hunits := congrArg (List.flatMap CodePoint.units) hpoints
  rw [units_codePoints, units_codePoints] at hunits
  exact ⟨List.map_injective_iff.mpr Fin.val_injective hunits, (List.cons.inj hrest).2⟩

/-! ## Strings without lone surrogates -/

/-- The units of characters. -/
def unitsOfChars (chars : List Char) : List CodeUnit :=
  (chars.flatMap fun c => (CodePoint.scalar c).units).map (Fin.ofNat 65536)

theorem scalar_units_lt (c : Char) : ∀ unit ∈ (CodePoint.scalar c).units, unit < 65536 := by
  have hvalid : c.toNat < 0xD800 ∨ 0xDFFF < c.toNat ∧ c.toNat < 0x110000 := c.valid
  unfold CodePoint.units
  intro unit hunit
  dsimp only at hunit
  split at hunit <;> simp only [List.mem_cons, List.not_mem_nil, or_false] at hunit <;> omega

theorem val_unitsOfChars (chars : List Char) :
    (unitsOfChars chars).map Fin.val = chars.flatMap fun c => (CodePoint.scalar c).units := by
  rw [unitsOfChars, List.map_map]
  conv_rhs => rw [← List.map_id (chars.flatMap fun c => (CodePoint.scalar c).units)]
  refine List.map_congr_left fun unit hunit => ?_
  obtain ⟨c, -, hc⟩ := List.mem_flatMap.mp hunit
  exact Nat.mod_eq_of_lt (scalar_units_lt c unit hc)

/-- A unit that starts no pair. -/
theorem codePoints_cons {unit : CodeUnit} (hunit : ¬(0xD800 ≤ unit.val ∧ unit.val < 0xDC00))
    (rest : List CodeUnit) : codePoints (unit :: rest) = .ofUnit unit :: codePoints rest := by
  cases rest with
  | nil => rfl
  | cons low rest => rw [codePoints, if_neg fun hpair => hunit hpair.1]

/-- Characters are read back from their units. -/
theorem codePoints_unitsOfChars (chars : List Char) :
    codePoints (unitsOfChars chars) = chars.map CodePoint.scalar := by
  induction chars with
  | nil => rfl
  | cons c chars ih =>
      have hvalid : c.toNat < 0xD800 ∨ 0xDFFF < c.toNat ∧ c.toNat < 0x110000 := c.valid
      have hsplit : unitsOfChars (c :: chars) =
          (CodePoint.scalar c).units.map (Fin.ofNat 65536) ++ unitsOfChars chars := by
        rw [unitsOfChars, List.flatMap_cons, List.map_append]
        rfl
      rw [hsplit, List.map_cons, ← ih, CodePoint.units]
      split
      next hbasic =>
        have hval : (Fin.ofNat 65536 c.toNat).val = c.toNat := Nat.mod_eq_of_lt hbasic
        rw [List.map_singleton, List.singleton_append, codePoints_cons (by omega),
          CodePoint.ofUnit, dif_neg (by omega), hval, Char.ofNat_toNat]
      next hwide =>
        have hhigh : (Fin.ofNat 65536 (0xD800 + (c.toNat - 0x10000) / 0x400)).val =
            0xD800 + (c.toNat - 0x10000) / 0x400 := Nat.mod_eq_of_lt (by omega)
        have hlow : (Fin.ofNat 65536 (0xDC00 + (c.toNat - 0x10000) % 0x400)).val =
            0xDC00 + (c.toNat - 0x10000) % 0x400 := Nat.mod_eq_of_lt (by omega)
        have hpair : CodePoint.IsPair (Fin.ofNat 65536 (0xD800 + (c.toNat - 0x10000) / 0x400))
            (Fin.ofNat 65536 (0xDC00 + (c.toNat - 0x10000) % 0x400)) := by
          unfold CodePoint.IsPair
          omega
        have hvalue : 0x10000 + (0xD800 + (c.toNat - 0x10000) / 0x400 - 0xD800) * 0x400 +
            (0xDC00 + (c.toNat - 0x10000) % 0x400 - 0xDC00) = c.toNat := by omega
        rw [List.map_cons, List.map_singleton, List.cons_append, List.singleton_append, codePoints,
          if_pos hpair, CodePoint.ofPair, hhigh, hlow, hvalue, Char.ofNat_toNat]

/-- Both ways to write a string of characters agree. -/
theorem stringifyUnits_unitsOfChars (text : String) :
    stringifyUnits (unitsOfChars text.toList) = Json.quote text := by
  rw [stringifyUnits, codePoints_unitsOfChars, List.flatMap_map]
  rfl

theorem unitsOfChars_injective : Function.Injective unitsOfChars := by
  intro left right heq
  have hpoints := congrArg codePoints heq
  rw [codePoints_unitsOfChars, codePoints_unitsOfChars] at hpoints
  exact List.map_injective_iff.mpr (fun _ _ => CodePoint.scalar.inj) hpoints

/-! ## Numbers -/

/-- A finite number of the runtime. -/
inductive FiniteNumber where
  | zero (negative : Bool)
  | nonzero (decimal : Decimal)
deriving DecidableEq

namespace FiniteNumber

/-- The number without the sign of zero. -/
def unsignedZero : FiniteNumber → JsonNumber
  | .zero _ => .zero
  | .nonzero decimal => .nonzero decimal

/-- `JSON.stringify` of a number. -/
def text (number : FiniteNumber) : List Char := number.unsignedZero.text

/-- Equality of numbers, of which the sign of zero is no part. -/
def Same : FiniteNumber → FiniteNumber → Prop
  | .zero _, .zero _ => True
  | .nonzero left, .nonzero right => left = right
  | _, _ => False

theorem text_eq_iff {left right : FiniteNumber} : left.text = right.text ↔ left.Same right := by
  rw [text, text, JsonNumber.text_injective.eq_iff]
  cases left <;> cases right <;> simp [unsignedZero, Same]

end FiniteNumber

/-- The texts of strings and numbers. -/
def runtimeScalars : Canonical.Scalars (List CodeUnit) FiniteNumber (List Nat) where
  key := List.map Fin.val
  key_injective := List.map_injective_iff.mpr Fin.val_injective
  quote := stringifyUnits
  quote_head _ := ⟨_, rfl⟩
  quote_split := stringifyUnits_split
  number := FiniteNumber.text
  number_head number := number.unsignedZero.text_head
  number_separable left right := Json.number_separable left.unsignedZero right.unsignedZero
  same := FiniteNumber.Same
  number_eq_iff := FiniteNumber.text_eq_iff

end Foundation
