import Mathlib.Order.Compare
import Cellbook.Proofs.Decimal.Value

/-!
# The order of decimals

Numbers are compared by the signs of their significands, then by where their leading digits stand, and last digit
for digit. That is the order of the numbers that they denote (`compare_eq_compare_toRat`).
-/

namespace Cellbook.Decimal

/-! ## Magnitudes -/

theorem abs_toRat_lt_magnitude (x : Decimal) : |x.toRat| < 10 ^ x.magnitude := by
  have hdigits : (x.significand.natAbs : ℚ) < 10 ^ x.digits := by
    exact_mod_cast (digitCount_le_iff.mp le_rfl : x.significand.natAbs < 10 ^ x.digits)
  rw [abs_toRat, magnitude, zpow_add₀ (by norm_num), zpow_natCast]
  exact mul_lt_mul_of_pos_right hdigits (ten_zpow_pos _)

theorem magnitude_le_abs_toRat {x : Decimal} (hx : x.significand ≠ 0) : 10 ^ (x.magnitude - 1) ≤ |x.toRat| := by
  have hne : x.significand.natAbs ≠ 0 := Int.natAbs_ne_zero.mpr hx
  have hpos : 0 < x.digits := digitCount_pos hne
  have hdigits : (10 : ℚ) ^ (x.digits - 1) ≤ x.significand.natAbs := by
    exact_mod_cast (ten_pow_le_of_ne_zero hne : 10 ^ (x.digits - 1) ≤ x.significand.natAbs)
  have hplaces : x.magnitude - 1 = (x.digits - 1 : Nat) + x.exponent := by
    rw [magnitude]
    omega
  rw [abs_toRat, hplaces, zpow_add₀ (by norm_num), zpow_natCast]
  exact mul_le_mul_of_nonneg_right hdigits (ten_zpow_pos _).le

theorem abs_toRat_lt_of_magnitude_lt {x y : Decimal} (hy : y.significand ≠ 0) (h : x.magnitude < y.magnitude) :
    |x.toRat| < |y.toRat| :=
  calc |x.toRat| < 10 ^ x.magnitude := abs_toRat_lt_magnitude x
    _ ≤ 10 ^ (y.magnitude - 1) := zpow_le_zpow_right₀ (by norm_num) (by omega)
    _ ≤ |y.toRat| := magnitude_le_abs_toRat hy

/-! ## Comparison -/

theorem compare_natCast_mul (m n : Nat) {q : ℚ} (hq : 0 < q) : compare (m * q) (n * q) = compare m n := by
  have hmono : StrictMono fun n : Nat => (n * q : ℚ) := fun _ _ h =>
    mul_lt_mul_of_pos_right (by exact_mod_cast h) hq
  rw [← cmp_eq_compare, ← cmp_eq_compare, hmono.cmp_map_eq]

theorem compareAbs_eq {x y : Decimal} (hx : x.significand ≠ 0) (hy : y.significand ≠ 0) :
    compareAbs x y = compare |x.toRat| |y.toRat| := by
  unfold compareAbs
  rcases lt_trichotomy x.magnitude y.magnitude with h | h | h
  · rw [compare_lt_iff_lt.mpr h, compare_lt_iff_lt.mpr (abs_toRat_lt_of_magnitude_lt hy h)]
    rfl
  · rw [compare_eq_iff_eq.mpr h, abs_toRat_eq_units (min_le_left x.exponent y.exponent),
      abs_toRat_eq_units (min_le_right x.exponent y.exponent), compare_natCast_mul _ _ (ten_zpow_pos _)]
    rfl
  · rw [compare_gt_iff_gt.mpr h, compare_gt_iff_gt.mpr (abs_toRat_lt_of_magnitude_lt hx h)]
    rfl

theorem significand_neg_iff {x : Decimal} : x.significand < 0 ↔ x.toRat < 0 := by
  rw [← isNegative_iff, isNegative, decide_eq_true_eq]

theorem significand_pos_iff {x : Decimal} : 0 < x.significand ↔ 0 < x.toRat := by
  have hneg : x.neg.significand < 0 ↔ x.neg.toRat < 0 := significand_neg_iff
  rwa [toRat_neg, neg_lt_zero, neg, neg_lt_zero] at hneg

theorem significand_eq_zero_iff {x : Decimal} : x.significand = 0 ↔ x.toRat = 0 := by
  rw [toRat_eq_zero_iff, isZero, beq_iff_eq]

theorem compare_def (x y : Decimal) :
    compare x y = (compare x.significand.sign y.significand.sign).then
      (if x.significand < 0 then compareAbs y x else if x.significand = 0 then .eq else compareAbs x y) := rfl

theorem toRat_lt_of_sign_lt {x y : Decimal} (h : x.significand.sign < y.significand.sign) : x.toRat < y.toRat := by
  rcases lt_trichotomy x.significand 0 with hx | hx | hx
  · have hy : ¬ y.significand < 0 := fun hy => by
      simp [Int.sign_eq_neg_one_of_neg hx, Int.sign_eq_neg_one_of_neg hy] at h
    exact (significand_neg_iff.mp hx).trans_le (not_lt.mp (mt significand_neg_iff.mpr hy))
  · have hy : 0 < y.significand := Int.sign_pos_iff.mp (by simpa [hx] using h)
    exact (significand_eq_zero_iff.mp hx).trans_lt (significand_pos_iff.mp hy)
  · have hle : y.significand.sign ≤ 1 := by
      rcases Int.sign_trichotomy y.significand with hs | hs | hs <;> simp [hs]
    exact absurd hle (not_le.mpr (by rwa [Int.sign_eq_one_of_pos hx] at h))

/-- **Numbers are compared as what they denote.** -/
theorem compare_eq_compare_toRat (x y : Decimal) : compare x y = compare x.toRat y.toRat := by
  rw [compare_def]
  rcases lt_trichotomy x.significand.sign y.significand.sign with h | h | h
  · rw [compare_lt_iff_lt.mpr h, compare_lt_iff_lt.mpr (toRat_lt_of_sign_lt h)]
    rfl
  · rw [compare_eq_iff_eq.mpr h, Ordering.then]
    rcases lt_trichotomy x.significand 0 with hx | hx | hx
    · have hy : y.significand < 0 := Int.sign_eq_neg_one_iff_neg.mp (by rw [← h, Int.sign_eq_neg_one_of_neg hx])
      rw [if_pos hx, compareAbs_eq hy.ne hx.ne, abs_of_neg (significand_neg_iff.mp hx),
        abs_of_neg (significand_neg_iff.mp hy), ← cmp_eq_compare, ← cmp_eq_compare]
      exact StrictAnti.cmp_map_eq (f := fun q : ℚ => -q) (fun _ _ h => neg_lt_neg h) _ _
    · have hy : y.significand = 0 := Int.sign_eq_zero_iff_zero.mp (by rw [← h, hx, Int.sign_zero])
      rw [if_neg hx.not_lt, if_pos hx, significand_eq_zero_iff.mp hx, significand_eq_zero_iff.mp hy,
        compare_eq_iff_eq.mpr rfl]
    · have hy : 0 < y.significand := Int.sign_pos_iff.mp (by rwa [← h, Int.sign_pos_iff])
      rw [if_neg hx.not_gt, if_neg hx.ne', compareAbs_eq hx.ne' hy.ne', abs_of_pos (significand_pos_iff.mp hx),
        abs_of_pos (significand_pos_iff.mp hy)]
  · rw [compare_gt_iff_gt.mpr h, compare_gt_iff_gt.mpr (toRat_lt_of_sign_lt h)]
    rfl

instance : Std.OrientedOrd Decimal where
  eq_swap {x y} := by
    rw [compare_eq_compare_toRat, compare_eq_compare_toRat, Std.OrientedOrd.eq_swap]

end Cellbook.Decimal
