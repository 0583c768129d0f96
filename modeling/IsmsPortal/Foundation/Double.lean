import Mathlib.Data.Int.Log
import Mathlib.Data.Rat.Floor
import Mathlib.Tactic.FieldSimp

/-! # Numbers of the runtime

A number is not a number, infinite, or the double that is nearest to a rational number. Natural
numbers below two to the power of fifty-three are doubles, and larger ones stay larger than these.
-/

namespace Foundation

/-- A number, without the sign of zero. -/
inductive Double
  | nan
  | infinity (negative : Bool)
  | finite (value : ℚ)
deriving DecidableEq

namespace Double

/-- The nearest integer; of two, the even one. -/
def roundHalfEven (q : ℚ) : ℤ :=
  if q - ⌊q⌋ < 1 / 2 then ⌊q⌋
  else if 1 / 2 < q - ⌊q⌋ then ⌊q⌋ + 1
  else ⌊q⌋ + ⌊q⌋ % 2

/-- The exponent of the last bit. -/
def lastBit (q : ℚ) : ℤ := max (Int.log 2 |q|) (-1022) - 52

/-- The nearest multiple of the last bit. -/
def rounded (q : ℚ) : ℚ := roundHalfEven (q / 2 ^ lastBit q) * 2 ^ lastBit q

def ofRat (q : ℚ) : Double :=
  if |rounded q| < 2 ^ 1024 then .finite (rounded q) else .infinity (q < 0)

/-- `left < right`. -/
def lt : Double → Double → Bool
  | .nan, _ => false
  | _, .nan => false
  | .finite left, .finite right => left < right
  | .finite _, .infinity negative => !negative
  | .infinity negative, .finite _ => negative
  | .infinity negative, .infinity other => negative && !other

/-- `left === right`. -/
def equals (left right : Double) : Bool := left ≠ .nan && left = right

/-- `left >= right`. -/
def ge (left right : Double) : Bool := lt right left || equals left right

/-- `Number.isFinite(number)`. -/
def isFinite : Double → Bool
  | .finite _ => true
  | _ => false

/-- `left + right`. -/
def add : Double → Double → Double
  | .nan, _ => .nan
  | _, .nan => .nan
  | .finite left, .finite right => ofRat (left + right)
  | .infinity left, .infinity right => if left = right then .infinity left else .nan
  | .infinity negative, .finite _ => .infinity negative
  | .finite _, .infinity negative => .infinity negative

/-- `-number`. -/
def neg : Double → Double
  | .nan => .nan
  | .infinity negative => .infinity (!negative)
  | .finite value => .finite (-value)

/-- `left - right`. -/
def sub (left right : Double) : Double := add left right.neg

/-- `left * right`. -/
def mul : Double → Double → Double
  | .nan, _ => .nan
  | _, .nan => .nan
  | .finite left, .finite right => ofRat (left * right)
  | .infinity left, .infinity right => .infinity (left != right)
  | .infinity negative, .finite value =>
      if value = 0 then .nan else .infinity (negative != decide (value < 0))
  | .finite value, .infinity negative =>
      if value = 0 then .nan else .infinity (negative != decide (value < 0))

/-- `left / right`, where a zero on the right has no sign. -/
def div : Double → Double → Double
  | .nan, _ => .nan
  | _, .nan => .nan
  | .finite left, .finite right =>
      if right ≠ 0 then ofRat (left / right)
      else if left = 0 then .nan
      else .infinity (left < 0)
  | .infinity _, .infinity _ => .nan
  | .infinity negative, .finite value => .infinity (negative != decide (value < 0))
  | .finite _, .infinity _ => .finite 0

/-- `Math.max(left, right)`. -/
def mathMax (left right : Double) : Double :=
  if left = .nan ∨ right = .nan then .nan else if lt left right then right else left

/-- `Math.min(left, right)`. -/
def mathMin (left right : Double) : Double :=
  if left = .nan ∨ right = .nan then .nan else if lt right left then right else left

/-- The integer that bitwise operators start from: no fraction, and zero for what is not finite. -/
def truncated : Double → ℤ
  | .finite value => if value < 0 then ⌈value⌉ else ⌊value⌋
  | _ => 0

/-- An integer within 32 bits and a sign. -/
def int32 (n : ℤ) : ℤ := (n + 2 ^ 31) % 2 ^ 32 - 2 ^ 31

/-- `value >> places`. -/
def shiftRight (value : ℤ) (places : ℕ) : ℤ := int32 value / 2 ^ places

/-- `value & (2 ** places - 1)`. -/
def lowBits (value : ℤ) (places : ℕ) : ℕ := (int32 value % 2 ^ places).toNat

/-- The byte that a number is stored as. -/
def toUint8 (number : Double) : UInt8 := UInt8.ofNat (number.truncated % 256).toNat

theorem int32_bounds (n : ℤ) : -2 ^ 31 ≤ int32 n ∧ int32 n < 2 ^ 31 := by
  unfold int32
  omega

theorem int32_of_lt {n : ℤ} (hlow : 0 ≤ n) (hhigh : n < 2 ^ 31) : int32 n = n := by
  unfold int32
  omega

theorem int32_le {n : ℤ} (hn : 0 ≤ n) : int32 n ≤ n := by
  unfold int32
  omega

/-! ## Natural numbers -/

theorem roundHalfEven_intCast (n : ℤ) : roundHalfEven n = n := by
  rw [roundHalfEven, Int.floor_intCast, sub_self, if_pos (by norm_num)]

theorem floor_le_roundHalfEven (q : ℚ) : ⌊q⌋ ≤ roundHalfEven q := by
  unfold roundHalfEven
  split_ifs <;> omega

theorem lastBit_natCast (n : ℕ) : lastBit n = Nat.log 2 n - 52 := by
  have hpos : (-1022 : ℤ) ≤ Nat.log 2 n := by omega
  rw [lastBit, Nat.abs_cast, Int.log_natCast, max_eq_left hpos]

theorem rounded_natCast {n : ℕ} (hn : n < 2 ^ 53) : rounded n = n := by
  have hlog : Nat.log 2 n ≤ 52 := by
    rcases Nat.eq_zero_or_pos n with rfl | hpos
    · simp
    · exact Nat.lt_succ_iff.mp (Nat.log_lt_of_lt_pow (by omega) hn)
  have hunit : (2 : ℚ) ^ lastBit n = ((2 ^ (52 - Nat.log 2 n) : ℕ) : ℚ)⁻¹ := by
    have hexponent : (Nat.log 2 n : ℤ) - 52 = -((52 - Nat.log 2 n : ℕ) : ℤ) := by omega
    rw [lastBit_natCast, hexponent, zpow_neg, zpow_natCast]
    norm_cast
  have hmultiple : (n : ℚ) / 2 ^ lastBit n = ((n * 2 ^ (52 - Nat.log 2 n) : ℕ) : ℤ) := by
    rw [hunit, div_inv_eq_mul]
    push_cast
    rfl
  rw [rounded, hmultiple, roundHalfEven_intCast, hunit]
  push_cast
  field_simp

/-- Natural numbers of fifty-three bits are doubles. -/
theorem ofRat_natCast {n : ℕ} (hn : n < 2 ^ 53) : ofRat n = .finite n := by
  have hbound : |(n : ℚ)| < 2 ^ 1024 := by
    rw [Nat.abs_cast]
    have hexponent : (53 : ℕ) ≤ 1024 := by decide
    calc (n : ℚ) < 2 ^ 53 := by exact_mod_cast hn
      _ ≤ 2 ^ 1024 := pow_le_pow_right₀ (by norm_num) hexponent
  rw [ofRat, rounded_natCast hn, if_pos hbound]

/-- Larger natural numbers are rounded to larger doubles. -/
theorem lt_ofRat_natCast {m n : ℕ} (hm : m < 2 ^ 53) (hn : 2 ^ 53 ≤ n) :
    lt (.finite m) (ofRat n) = true := by
  have hlog : 53 ≤ Nat.log 2 n := Nat.le_log_of_pow_le (by omega) hn
  have hunit : (2 : ℚ) ^ lastBit n = ((2 ^ (Nat.log 2 n - 52) : ℕ) : ℚ) := by
    have hexponent : (Nat.log 2 n : ℤ) - 52 = ((Nat.log 2 n - 52 : ℕ) : ℤ) := by omega
    rw [lastBit_natCast, hexponent, zpow_natCast]
    norm_cast
  have hpower : 2 ^ 52 * 2 ^ (Nat.log 2 n - 52) ≤ n := by
    rw [← Nat.pow_add, Nat.add_sub_cancel' (by omega)]
    exact Nat.pow_log_le_self 2 (by omega)
  have hlarge : (2 ^ 53 : ℚ) ≤ rounded n := by
    have hfloor : (2 ^ 52 : ℤ) ≤ ⌊(n : ℚ) / 2 ^ lastBit n⌋ := by
      rw [Int.le_floor, hunit, le_div_iff₀ (by positivity)]
      exact_mod_cast hpower
    have hsteps := hfloor.trans (floor_le_roundHalfEven _)
    have hunits : (2 : ℚ) ≤ 2 ^ lastBit n := by
      rw [hunit]
      have htwo : 2 ^ 1 ≤ 2 ^ (Nat.log 2 n - 52) := Nat.pow_le_pow_right (by omega) (by omega)
      exact_mod_cast htwo
    calc (2 ^ 53 : ℚ) = (2 ^ 52 : ℤ) * 2 := by norm_num
      _ ≤ rounded n := mul_le_mul (by exact_mod_cast hsteps) hunits (by norm_num)
          (by exact_mod_cast (by norm_num : (0 : ℤ) ≤ 2 ^ 52).trans hsteps)
  have hsmall : (m : ℚ) < rounded n := lt_of_lt_of_le (by exact_mod_cast hm) hlarge
  have hsign : ¬ (n : ℚ) < 0 := not_lt.mpr (Nat.cast_nonneg n)
  rw [ofRat]
  split
  next => simpa [lt] using hsmall
  next => simp [lt, hsign]

theorem truncated_natCast (n : ℕ) : (Double.finite n).truncated = n := by
  have hsign : ¬ (n : ℚ) < 0 := not_lt.mpr (Nat.cast_nonneg n)
  rw [truncated, if_neg hsign, Int.floor_natCast]

theorem sub_natCast {m n : ℕ} (hle : n ≤ m) (hm : m < 2 ^ 53) :
    sub (.finite m) (.finite n) = .finite ((m - n : ℕ) : ℚ) := by
  have hdifference : (m : ℚ) + -(n : ℚ) = ((m - n : ℕ) : ℚ) := by
    rw [Nat.cast_sub hle, sub_eq_add_neg]
  rw [sub, neg, add, hdifference, ofRat_natCast (by omega)]

theorem lt_natCast_iff {m n : ℕ} : lt (.finite m) (.finite n) = true ↔ m < n := by
  rw [lt, decide_eq_true_iff, Nat.cast_lt]

/-! ## The integers around a number -/

theorem roundHalfEven_le {q : ℚ} {n : ℤ} (h : q ≤ n) : roundHalfEven q ≤ n := by
  obtain heq | hlt := h.eq_or_lt
  · rw [heq, roundHalfEven_intCast]
  · have hfloor : ⌊q⌋ < n := Int.floor_lt.mpr hlt
    unfold roundHalfEven
    split_ifs <;> omega

theorem le_roundHalfEven {q : ℚ} {n : ℤ} (h : (n : ℚ) ≤ q) : n ≤ roundHalfEven q :=
  (Int.le_floor.mpr h).trans (floor_le_roundHalfEven q)

/-- Numbers of fifty-three bits are rounded to a fraction of one. -/
theorem exists_lastBit {q : ℚ} (hq : |q| < 2 ^ 53) : ∃ k : ℕ, lastBit q = -(k : ℤ) := by
  have hlog : Int.log 2 |q| ≤ 52 := by
    obtain hzero | hpos := (abs_nonneg q).eq_or_lt
    · rw [← hzero, Int.log_of_right_le_zero 2 (le_refl (0 : ℚ))]
      decide
    · have hlt : |q| < ((2 : ℕ) : ℚ) ^ (53 : ℤ) := by exact_mod_cast hq
      have hbound := (Int.lt_zpow_iff_log_lt (by decide) hpos).mp hlt
      omega
  refine ⟨(-lastBit q).toNat, ?_⟩
  unfold lastBit
  omega

theorem rounded_bounds {q : ℚ} (hq : |q| < 2 ^ 53) :
    (⌊q⌋ : ℚ) ≤ rounded q ∧ rounded q ≤ (⌈q⌉ : ℚ) := by
  obtain ⟨k, hk⟩ := exists_lastBit hq
  have hunit : (0 : ℚ) < 2 ^ k := by positivity
  have hscaled : rounded q = roundHalfEven (q * 2 ^ k) / 2 ^ k := by
    rw [rounded, hk, zpow_neg, zpow_natCast, div_inv_eq_mul, div_eq_mul_inv]
  rw [hscaled, le_div_iff₀ hunit, div_le_iff₀ hunit]
  constructor
  · have hfloor : ((⌊q⌋ * 2 ^ k : ℤ) : ℚ) ≤ q * 2 ^ k := by
      push_cast
      exact mul_le_mul_of_nonneg_right (Int.floor_le q) hunit.le
    exact_mod_cast le_roundHalfEven hfloor
  · have hceil : q * 2 ^ k ≤ ((⌈q⌉ * 2 ^ k : ℤ) : ℚ) := by
      push_cast
      exact mul_le_mul_of_nonneg_right (Int.le_ceil q) hunit.le
    exact_mod_cast roundHalfEven_le hceil

/-- A number of fifty-three bits is rounded to one between the same integers. -/
theorem exists_ofRat {q : ℚ} (hq : |q| < 2 ^ 53) :
    ∃ value : ℚ, ofRat q = .finite value ∧ (⌊q⌋ : ℚ) ≤ value ∧ value ≤ (⌈q⌉ : ℚ) := by
  obtain ⟨hfloor, hceil⟩ := rounded_bounds hq
  refine ⟨rounded q, ?_, hfloor, hceil⟩
  have hlow := Int.lt_floor_add_one q
  have hhigh := Int.ceil_lt_add_one q
  have habs : |rounded q| < 2 ^ 54 := by
    rw [abs_lt] at hq ⊢
    constructor <;> linarith
  rw [ofRat, if_pos (habs.trans (pow_lt_pow_right₀ (by norm_num) (by decide)))]

end Double

end Foundation
