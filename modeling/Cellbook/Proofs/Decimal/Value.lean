import Mathlib.Algebra.Order.Field.Power
import Mathlib.Data.Rat.Floor
import Mathlib.Tactic.Linarith
import Mathlib.Tactic.NormNum
import Mathlib.Tactic.Ring
import Cellbook.Decimal.Arithmetic

/-!
# The number that a decimal denotes

A decimal denotes a rational number, `Decimal.toRat`, and what is said of arithmetic is said of that number.
Normal form changes nothing (`toRat_ofParts`) and is the only one (`beq_iff_toRat_eq`), and whole numbers below and
above are exact (`toRat_floor`, `toRat_ceil`). The digits of a significand are counted by the powers of ten that it
reaches (`digitCount_le_iff`).
-/

namespace Cellbook

/-! ## Counting digits -/

theorem ten_pow_le_of_log2 {n : Nat} (h : n ≠ 0) : 10 ^ (n.log2 * 3 / 10) ≤ n := by
  have hthousand : (10 ^ (n.log2 * 3 / 10)) ^ 10 ≤ (2 ^ n.log2) ^ 10 :=
    calc (10 ^ (n.log2 * 3 / 10)) ^ 10
        = 10 ^ (n.log2 * 3 / 10 * 10) := (Nat.pow_mul ..).symm
      _ ≤ 10 ^ (3 * n.log2) := Nat.pow_le_pow_right (by decide) (by omega)
      _ = (10 ^ 3) ^ n.log2 := Nat.pow_mul ..
      _ ≤ (2 ^ 10) ^ n.log2 := Nat.pow_le_pow_left (by decide) _
      _ = (2 ^ n.log2) ^ 10 := by rw [← Nat.pow_mul, ← Nat.pow_mul, Nat.mul_comm]
  exact ((Nat.pow_le_pow_iff_left (by decide)).mp hthousand).trans (Nat.log2_self_le h)

/-- The climb ends at the first power of ten above the number. -/
theorem digitCountFrom_le_iff {n k : Nat} : {steps i : Nat} → (∀ j < i, 10 ^ j ≤ n) → n < 10 ^ (i + steps) →
    (digitCountFrom n steps (10 ^ i) i ≤ k ↔ n < 10 ^ k)
  | 0, i, hbelow, habove => by
    rw [digitCountFrom]
    constructor
    · exact fun h => Nat.lt_of_lt_of_le habove (Nat.pow_le_pow_right (by decide) h)
    · exact fun h => Nat.le_of_not_lt fun hk => absurd (hbelow k hk) (Nat.not_le_of_lt h)
  | steps + 1, i, hbelow, habove => by
    rw [digitCountFrom]
    split
    next hlt =>
      constructor
      · exact fun h => Nat.lt_of_lt_of_le hlt (Nat.pow_le_pow_right (by decide) h)
      · exact fun h => Nat.le_of_not_lt fun hk => absurd (hbelow k hk) (Nat.not_le_of_lt h)
    next hle =>
      rw [← Nat.pow_succ]
      refine digitCountFrom_le_iff (fun j hj => ?_) (by rwa [Nat.succ_add_eq_add_succ])
      rcases Nat.lt_succ_iff_lt_or_eq.mp hj with hj | rfl
      · exact hbelow j hj
      · exact Nat.le_of_not_lt hle

/-- **The digits of a natural number** are at most `k` if it is below `10 ^ k`. -/
theorem digitCount_le_iff {n k : Nat} : digitCount n ≤ k ↔ n < 10 ^ k := by
  unfold digitCount
  split
  next h => simp [h]
  next h =>
    have hstart := ten_pow_le_of_log2 h
    refine digitCountFrom_le_iff (fun j hj => ?_) ?_
    · exact (Nat.pow_le_pow_right (by decide) (Nat.le_of_lt hj)).trans hstart
    · calc n < 2 ^ (n.log2 + 1) := Nat.lt_log2_self
        _ ≤ 10 ^ (n.log2 + 1) := Nat.pow_le_pow_left (by decide) _
        _ ≤ 10 ^ (n.log2 * 3 / 10 + (n.log2 + 2)) := Nat.pow_le_pow_right (by decide) (by omega)

theorem digitCount_pos {n : Nat} (h : n ≠ 0) : 0 < digitCount n := by
  refine Nat.pos_of_ne_zero fun hzero => ?_
  have hlt : n < 10 ^ 0 := digitCount_le_iff.mp hzero.le
  omega

/-- A number reaches the power of ten that has as many digits. -/
theorem ten_pow_le_of_ne_zero {n : Nat} (h : n ≠ 0) : 10 ^ (digitCount n - 1) ≤ n := by
  refine Nat.le_of_not_lt fun hlt => ?_
  have hle := digitCount_le_iff.mpr hlt
  have hpos := digitCount_pos h
  omega

namespace Decimal

/-! ## The number -/

/-- **The number that a decimal denotes.** -/
def toRat (x : Decimal) : ℚ := x.significand * 10 ^ x.exponent

theorem stripZeros_value (s e : Int) : ((stripZeros s e).1 * 10 ^ (stripZeros s e).2 : ℚ) = s * 10 ^ e := by
  fun_induction stripZeros s e with
  | case1 s e hs ih =>
    have htens : (s : ℚ) = (s / 10 : Int) * 10 := by
      rw [← Int.cast_ofNat (R := ℚ) 10, ← Int.cast_mul, Int.ediv_mul_cancel (Int.dvd_of_emod_eq_zero hs.1)]
    rw [ih, zpow_add_one₀ (by norm_num), htens]
    ring
  | case2 s e hs => rfl

/-- Normal form denotes what its parts do. -/
@[simp] theorem toRat_ofParts (s e : Int) (precision : Nat) : (ofParts s e precision).toRat = s * 10 ^ e := by
  unfold ofParts toRat
  split
  next h => simp [h]
  next => exact stripZeros_value s e

@[simp] theorem toRat_ofInt (n : Int) : (ofInt n).toRat = n := by
  rw [ofInt, toRat_ofParts, zpow_zero, mul_one]

@[simp] theorem precision_ofParts (s e : Int) (precision : Nat) : (ofParts s e precision).precision = precision := by
  unfold ofParts
  split <;> rfl

@[simp] theorem toRat_withPrecision (x : Decimal) (precision : Nat) : (x.withPrecision precision).toRat = x.toRat := rfl

@[simp] theorem toRat_neg (x : Decimal) : x.neg.toRat = -x.toRat := by
  simp [toRat, neg]

theorem ten_zpow_pos (e : Int) : (0 : ℚ) < 10 ^ e := zpow_pos (by norm_num) e

theorem toRat_eq_zero_iff {x : Decimal} : x.toRat = 0 ↔ x.isZero = true := by
  simp [toRat, isZero, (ten_zpow_pos x.exponent).ne']

theorem isNegative_iff {x : Decimal} : x.isNegative = true ↔ x.toRat < 0 := by
  have hneg : (x.significand : ℚ) * 10 ^ x.exponent < 0 ↔ (x.significand : ℚ) < 0 :=
    ⟨fun h => by_contra fun hs => absurd h (not_lt.mpr (mul_nonneg (not_lt.mp hs) (ten_zpow_pos _).le)),
      fun h => mul_neg_of_neg_of_pos h (ten_zpow_pos _)⟩
  rw [toRat, hneg, Int.cast_lt_zero, isNegative, decide_eq_true_eq]

theorem beq_iff {x y : Decimal} : (x == y) = true ↔ x.significand = y.significand ∧ x.exponent = y.exponent := by
  show (x.significand == y.significand && x.exponent == y.exponent) = true ↔ _
  rw [Bool.and_eq_true, beq_iff_eq, beq_iff_eq]

/-- **Normal form is unique**: numbers are equal if they denote the same. -/
theorem beq_iff_toRat_eq {x y : Decimal} : (x == y) = true ↔ x.toRat = y.toRat := by
  have hle {x y : Decimal} (hle : x.exponent ≤ y.exponent) (h : x.toRat = y.toRat) : (x == y) = true := by
    obtain ⟨k, hk⟩ := Int.eq_ofNat_of_zero_le (Int.sub_nonneg.mpr hle)
    have hs : x.significand = y.significand * 10 ^ k := by
      rw [toRat, toRat, show y.exponent = k + x.exponent by omega, zpow_add₀ (by norm_num), ← mul_assoc] at h
      exact_mod_cast mul_right_cancel₀ (ten_zpow_pos _).ne' h
    rw [beq_iff]
    cases k with
    | zero => exact ⟨by simpa using hs, by omega⟩
    | succ k =>
      -- a significand that ends in a zero is zero, and so is the other one
      have hten : x.significand % 10 = 0 := by
        rw [hs, pow_succ, ← mul_assoc]
        exact Int.mul_emod_left ..
      obtain ⟨hx, hex⟩ := x.normal.resolve_left (by simp [hten])
      have hy : y.significand = 0 := by simpa [hx] using hs
      obtain ⟨-, hey⟩ := y.normal.resolve_left (by simp [hy])
      exact ⟨by rw [hx, hy], by rw [hex, hey]⟩
  constructor
  · intro h
    obtain ⟨hs, he⟩ := beq_iff.mp h
    rw [toRat, hs, he, toRat]
  · intro h
    rcases le_total x.exponent y.exponent with hxy | hyx
    · exact hle hxy h
    · obtain ⟨hs, he⟩ := beq_iff.mp (hle hyx h.symm)
      exact beq_iff.mpr ⟨hs.symm, he.symm⟩

theorem abs_toRat (x : Decimal) : |x.toRat| = x.significand.natAbs * 10 ^ x.exponent := by
  rw [toRat, abs_mul, abs_of_pos (ten_zpow_pos _), Nat.cast_natAbs, Int.cast_abs]

/-- The size of a number in units of a place at or behind its last one. -/
theorem abs_toRat_eq_units {x : Decimal} {e : Int} (he : e ≤ x.exponent) :
    |x.toRat| = (x.significand.natAbs * 10 ^ (x.exponent - e).toNat : Nat) * 10 ^ e := by
  have hcast : ((x.exponent - e).toNat : Int) = x.exponent - e := by omega
  rw [abs_toRat, Nat.cast_mul, Nat.cast_pow, Nat.cast_ofNat, ← zpow_natCast, hcast, mul_assoc,
    ← zpow_add₀ (by norm_num), sub_add_cancel]

/-- The last place of a number in normal form is no further behind than that of its parts. -/
theorem le_exponent_ofParts {s : Int} (hs : s ≠ 0) (e : Int) (precision : Nat) :
    e ≤ (ofParts s e precision).exponent := by
  have hstrip : ∀ s e : Int, e ≤ (stripZeros s e).2 := by
    intro s e
    fun_induction stripZeros s e with
    | case1 s e hs ih => omega
    | case2 s e hs => exact Int.le_refl e
  rw [ofParts, dif_neg hs]
  exact hstrip s e

/-! ## Whole numbers -/

/-- A number without a place behind the point is the integer that it is written as. -/
theorem toRat_of_exponent_nonneg {x : Decimal} (h : 0 ≤ x.exponent) :
    x.toRat = (x.significand * 10 ^ x.exponent.toNat : Int) := by
  rw [toRat, Int.cast_mul, Int.cast_pow, Int.cast_ofNat, ← zpow_natCast, Int.toNat_of_nonneg h]

/-- A tiny number lies between minus one and one. -/
theorem abs_toRat_lt_one_of_isTiny {x : Decimal} (h : x.isTiny = true) : |x.toRat| < 1 := by
  have htiny : (x.digits : Int) + x.exponent < -1 := of_decide_eq_true h
  have hdigits : x.significand.natAbs < 10 ^ x.digits := digitCount_le_iff.mp le_rfl
  calc |x.toRat| = x.significand.natAbs * 10 ^ x.exponent := abs_toRat x
    _ < 10 ^ x.digits * 10 ^ x.exponent := by
      refine mul_lt_mul_of_pos_right ?_ (ten_zpow_pos _)
      exact_mod_cast hdigits
    _ = 10 ^ ((x.digits : Int) + x.exponent) := by rw [zpow_add₀ (by norm_num), zpow_natCast]
    _ ≤ 10 ^ (0 : Int) := zpow_le_zpow_right₀ (by norm_num) (by omega)
    _ = 1 := zpow_zero 10

/-- What `toWhole` finds is a whole number if it is for integers, for tiny numbers and for other fractions. -/
theorem toRat_toWhole {x : Decimal} {tiny n : Int} {whole : Int → Int → Int}
    (hinteger : ∀ k : Int, x.toRat = k → k = n) (htiny : x.toRat ≠ 0 → |x.toRat| < 1 → tiny = n)
    (hwhole : ∀ d : Nat, x.toRat = x.significand / d → whole x.significand d = n) :
    (x.toWhole tiny whole).toRat = n := by
  unfold toWhole
  split
  next h =>
    have hvalue := toRat_of_exponent_nonneg (of_decide_eq_true h)
    rw [hvalue, hinteger _ hvalue]
  next h =>
    have hneg : ¬ 0 ≤ x.exponent := fun hx => h (decide_eq_true hx)
    split
    next hsmall =>
      have hne : x.toRat ≠ 0 := by
        rw [Ne, toRat_eq_zero_iff, isZero, beq_iff_eq]
        exact fun hs => hneg (x.normal.resolve_left (by simp [hs])).2.ge
      rw [toRat_ofParts, zpow_zero, mul_one, htiny hne (abs_toRat_lt_one_of_isTiny hsmall)]
    next =>
      have hcast : ((-x.exponent).toNat : Int) = -x.exponent := by omega
      have hvalue : x.toRat = x.significand / (10 ^ (-x.exponent).toNat : Nat) := by
        rw [toRat, Nat.cast_pow, Nat.cast_ofNat, ← zpow_natCast, hcast, zpow_neg, div_inv_eq_mul]
      have hpow : Int.pow 10 (-x.exponent).toNat = (10 ^ (-x.exponent).toNat : Nat) := (Int.natCast_pow 10 _).symm
      simp only [toRat_ofParts, zpow_zero, mul_one, hpow, hwhole _ hvalue]

/-- **The largest integer that is no larger** is exact. -/
theorem toRat_floor (x : Decimal) : x.floor.toRat = (⌊x.toRat⌋ : ℚ) := by
  refine toRat_toWhole (fun k hk => ?_) (fun _ hsmall => ?_) fun d hd => ?_
  · rw [hk, Int.floor_intCast]
  · obtain ⟨hlow, hhigh⟩ := abs_lt.mp hsmall
    symm
    rw [Int.floor_eq_iff]
    split
    next hneg => exact ⟨by push_cast; linarith, by push_cast; linarith [isNegative_iff.mp hneg]⟩
    next hneg =>
      have hnonneg : 0 ≤ x.toRat := not_lt.mp fun h => hneg (isNegative_iff.mpr h)
      exact ⟨by push_cast; linarith, by push_cast; linarith⟩
  · rw [hd, Rat.floor_intCast_div_natCast]

/-- **The smallest integer that is no smaller** is exact. -/
theorem toRat_ceil (x : Decimal) : x.ceil.toRat = (⌈x.toRat⌉ : ℚ) := by
  refine toRat_toWhole (fun k hk => ?_) (fun hne hsmall => ?_) fun d hd => ?_
  · rw [hk, Int.ceil_intCast]
  · obtain ⟨hlow, hhigh⟩ := abs_lt.mp hsmall
    symm
    rw [Int.ceil_eq_iff]
    split
    next hneg => exact ⟨by push_cast; linarith, by push_cast; linarith [isNegative_iff.mp hneg]⟩
    next hneg =>
      have hpos : 0 < x.toRat := lt_of_le_of_ne (not_lt.mp fun h => hneg (isNegative_iff.mpr h)) hne.symm
      exact ⟨by push_cast; linarith, by push_cast; linarith⟩
  · rw [hd, Rat.ceil_intCast_div_natCast]

/-- The integer part of a number, as an integer. -/
def truncated (q : ℚ) : Int := if q < 0 then ⌈q⌉ else ⌊q⌋

theorem toRat_trunc (x : Decimal) : x.trunc.toRat = (truncated x.toRat : ℚ) := by
  unfold trunc truncated
  split
  next h => rw [if_pos (isNegative_iff.mp h), toRat_ceil]
  next h => rw [if_neg fun hneg => h (isNegative_iff.mpr hneg), toRat_floor]

end Decimal

end Cellbook
