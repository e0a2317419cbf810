import Cellbook.Proofs.Decimal.Value

/-!
# Results that fit are exact

A sum or a product is rounded to the precision, and so is the exact one if its digits fit. Whether they do can
be told from the result and its last place: `|s · 10 ^ e| < 10 ^ (e + precision)`.
-/

namespace Cellbook.Decimal

/-! ## Rounding -/

theorem roundAway_zero (s : Int) : roundAway s 0 = s := by
  have hunits : roundUnits s.natAbs 0 = s.natAbs := by
    show (s.natAbs + 1 / 2) / 1 = s.natAbs
    omega
  rw [roundAway, hunits, Int.sign_mul_natAbs]

/-- The digits of a number that is below `10 ^ k` in units of its last place. -/
theorem digitCount_le_of_abs_lt {s e : Int} {k : Nat} (h : |(s * 10 ^ e : ℚ)| < 10 ^ (e + k)) :
    digitCount s.natAbs ≤ k := by
  rw [digitCount_le_iff]
  rw [abs_mul, abs_of_pos (ten_zpow_pos e), zpow_add₀ (by norm_num), mul_comm (10 ^ e : ℚ),
    mul_lt_mul_iff_of_pos_right (ten_zpow_pos e), zpow_natCast, ← Int.cast_abs, Int.abs_eq_natAbs] at h
  exact_mod_cast h

/-- **A number whose digits fit** is not rounded. -/
theorem roundedTo_of_digitCount_le {s : Int} {limit : Nat} (h : digitCount s.natAbs ≤ limit) (e : Int)
    (precision : Nat) : roundedTo limit s e precision = ofParts s e precision := by
  unfold roundedTo
  split
  · rfl
  · rw [Nat.sub_eq_zero_of_le h, roundedBy, roundAway_zero]
    congr 1
    exact Int.add_zero e

theorem roundedTo_of_abs_lt {s e : Int} {limit : Nat} (precision : Nat) (h : |(s * 10 ^ e : ℚ)| < 10 ^ (e + limit)) :
    roundedTo limit s e precision = ofParts s e precision :=
  roundedTo_of_digitCount_le (digitCount_le_of_abs_lt h) e precision

/-! ## Products -/

theorem mul_eq_ofParts {x y : Decimal}
    (h : |x.toRat * y.toRat| < 10 ^ (x.exponent + y.exponent + max x.precision y.precision)) :
    x.mul y = ofParts (x.significand * y.significand) (x.exponent + y.exponent) (max x.precision y.precision) := by
  refine roundedTo_of_abs_lt _ ?_
  rw [Int.cast_mul, zpow_add₀ (by norm_num), mul_mul_mul_comm]
  exact_mod_cast h

/-- **A product whose digits fit** is exact. -/
theorem toRat_mul {x y : Decimal}
    (h : |x.toRat * y.toRat| < 10 ^ (x.exponent + y.exponent + max x.precision y.precision)) :
    (x.mul y).toRat = x.toRat * y.toRat := by
  rw [mul_eq_ofParts h, toRat_ofParts, Int.cast_mul, zpow_add₀ (by norm_num), mul_mul_mul_comm, toRat, toRat]

/-- A multiple is exact if its digits fit down to the last place of the number, and it has no place behind that. -/
theorem toRat_mul_whole {n y : Decimal} (hn : 0 ≤ n.exponent)
    (h : |n.toRat * y.toRat| < 10 ^ (y.exponent + y.precision)) :
    (n.mul y).toRat = n.toRat * y.toRat ∧ y.precision ≤ (n.mul y).precision ∧
      ((n.mul y).isZero = false → y.exponent ≤ (n.mul y).exponent) := by
  have hfits : |n.toRat * y.toRat| < 10 ^ (n.exponent + y.exponent + max n.precision y.precision) :=
    h.trans_le (zpow_le_zpow_right₀ (by norm_num) (by omega))
  refine ⟨toRat_mul hfits, ?_, fun hne => ?_⟩
  · rw [mul_eq_ofParts hfits, precision_ofParts]
    exact le_max_right _ _
  · rw [mul_eq_ofParts hfits] at hne ⊢
    have hs : n.significand * y.significand ≠ 0 := fun hs => by simp [ofParts, isZero, hs] at hne
    have := le_exponent_ofParts hs (n.exponent + y.exponent) (max n.precision y.precision)
    omega

/-! ## Sums -/

/-- The exact sum in units of the lower last place. -/
theorem aligned_value {high low : Decimal} (h : low.exponent ≤ high.exponent) :
    ((high.significand * Int.pow 10 (high.exponent - low.exponent).toNat + low.significand : Int) *
      10 ^ low.exponent : ℚ) = high.toRat + low.toRat := by
  have hgap : ((high.exponent - low.exponent).toNat : Int) = high.exponent - low.exponent := by omega
  have hpow : (Int.pow 10 (high.exponent - low.exponent).toNat : ℚ) * 10 ^ low.exponent = 10 ^ high.exponent := by
    show (((10 : Int) ^ (high.exponent - low.exponent).toNat : Int) : ℚ) * 10 ^ low.exponent = _
    rw [Int.cast_pow, Int.cast_ofNat, ← zpow_natCast, hgap, ← zpow_add₀ (by norm_num), sub_add_cancel]
  rw [Int.cast_add, Int.cast_mul, add_mul, mul_assoc, hpow, toRat, toRat]

/-- A number has no more digits down to a lower place than there are places. -/
theorem digits_add_gap_le {x : Decimal} (hx : x.isZero = false) {e : Int} (he : e ≤ x.exponent) {k : Nat}
    (h : |x.toRat| < 10 ^ (e + k)) : x.digits + (x.exponent - e).toNat ≤ k := by
  have hne : x.significand.natAbs ≠ 0 := by simpa [isZero] using hx
  have hlow : (10 ^ (x.digits - 1) : ℚ) ≤ x.significand.natAbs := by
    exact_mod_cast ten_pow_le_of_ne_zero hne
  have hdigits : 0 < x.digits := digitCount_pos hne
  have hpow : (10 : ℚ) ^ ((x.digits - 1 : Nat) + x.exponent) < 10 ^ (e + k) :=
    calc (10 : ℚ) ^ ((x.digits - 1 : Nat) + x.exponent)
        = 10 ^ (x.digits - 1) * 10 ^ x.exponent := by rw [zpow_add₀ (by norm_num), zpow_natCast]
      _ ≤ x.significand.natAbs * 10 ^ x.exponent := mul_le_mul_of_nonneg_right hlow (ten_zpow_pos _).le
      _ = |x.toRat| := (abs_toRat x).symm
      _ < 10 ^ (e + k) := h
  have hexponent := (zpow_lt_zpow_iff_right₀ (by norm_num)).mp hpow
  omega

/-- A sum whose digits fit, and those of the operand with the larger exponent, is exact. -/
theorem toRat_addOrdered {high low : Decimal} (hzero : high.isZero = false) (hle : low.exponent ≤ high.exponent)
    {precision : Nat} (hhigh : |high.toRat| < 10 ^ (low.exponent + precision))
    (hsum : |high.toRat + low.toRat| < 10 ^ (low.exponent + precision)) :
    (addOrdered high low precision).toRat = high.toRat + low.toRat := by
  have hdigits := digits_add_gap_le hzero hle hhigh
  have hparts : sumParts precision high low =
      (high.significand * Int.pow 10 (high.exponent - low.exponent).toNat + low.significand, low.exponent) :=
    if_pos (.inr (by omega))
  have hvalue := aligned_value hle
  rw [← hvalue] at hsum
  unfold addOrdered
  simp only [hparts]
  split
  · rw [roundedTo_of_abs_lt _ hsum, toRat_ofParts, hvalue]
  · rw [if_neg (by omega), roundedTo_of_abs_lt, toRat_ofParts, hvalue]
    refine hsum.trans_le (zpow_le_zpow_right₀ (by norm_num) ?_)
    omega

/-- **A sum whose digits fit**, and those of its operands, is exact; `e` is a place at or behind the last ones. -/
theorem toRat_add {x y : Decimal} {e : Int} (hx : x.isZero = false → e ≤ x.exponent)
    (hy : y.isZero = false → e ≤ y.exponent) (hxlt : |x.toRat| < 10 ^ (e + max x.precision y.precision))
    (hylt : |y.toRat| < 10 ^ (e + max x.precision y.precision))
    (hsum : |x.toRat + y.toRat| < 10 ^ (e + max x.precision y.precision)) : (x.add y).toRat = x.toRat + y.toRat := by
  have hmono {e' : Int} (h : e ≤ e') {q : ℚ} (hq : |q| < 10 ^ (e + max x.precision y.precision)) :
      |q| < 10 ^ (e' + (max x.precision y.precision : Nat)) := by
    refine hq.trans_le (zpow_le_zpow_right₀ (by norm_num) ?_)
    push_cast
    omega
  unfold add
  dsimp only
  split
  next hzero => rw [toRat_withPrecision, toRat_eq_zero_iff.mpr hzero, zero_add]
  next hx0 =>
  split
  next hzero => rw [toRat_withPrecision, toRat_eq_zero_iff.mpr hzero, add_zero]
  next hy0 =>
  have hex := hx (Bool.eq_false_iff.mpr hx0)
  have hey := hy (Bool.eq_false_iff.mpr hy0)
  split
  next hle => exact toRat_addOrdered (Bool.eq_false_iff.mpr hx0) hle (hmono hey hxlt) (hmono hey hsum)
  next hlt =>
    rw [add_comm] at hsum
    rw [add_comm x.toRat]
    exact toRat_addOrdered (Bool.eq_false_iff.mpr hy0) (by omega) (hmono hex hylt) (hmono hex hsum)

/-- A difference is exact if the first number has a digit to spare and the second is no larger. -/
theorem toRat_sub {x y : Decimal} {e : Int} (hx : x.isZero = false → e ≤ x.exponent)
    (hy : y.isZero = false → e ≤ y.exponent) (h : |x.toRat| < 10 ^ (e + y.precision - 1))
    (hle : |y.toRat| ≤ |x.toRat|) : (x.sub y).toRat = x.toRat - y.toRat := by
  have hroom : 10 * (10 : ℚ) ^ (e + y.precision - 1) ≤ 10 ^ (e + (max x.precision y.neg.precision : Nat)) := by
    rw [← zpow_one_add₀ (by norm_num), add_sub_cancel]
    have : y.precision ≤ max x.precision y.neg.precision := le_max_right x.precision y.precision
    exact zpow_le_zpow_right₀ (by norm_num) (by omega)
  have hpos := ten_zpow_pos (e + y.precision - 1)
  have hneg : |y.neg.toRat| = |y.toRat| := by rw [toRat_neg, abs_neg]
  rw [sub, sub_eq_add_neg, ← toRat_neg]
  refine toRat_add hx (fun hne => hy (by simpa [isZero, neg] using hne)) ?_ ?_ ?_
  · linarith
  · linarith
  · linarith [abs_add_le x.toRat y.neg.toRat]

/-! ## Multiples of one unit -/

theorem precision_roundedTo (limit : Nat) (s e : Int) (precision : Nat) :
    (roundedTo limit s e precision).precision = precision := by
  unfold roundedTo roundedBy
  split <;> exact precision_ofParts ..

theorem precision_add (x y : Decimal) : (x.add y).precision = max x.precision y.precision := by
  have hordered (high low : Decimal) (precision : Nat) : (addOrdered high low precision).precision = precision := by
    unfold addOrdered
    dsimp only
    split
    · exact precision_roundedTo ..
    · split
      · exact precision_ofParts ..
      · exact precision_roundedTo ..
  unfold add
  dsimp only
  split
  · rfl
  · split
    · rfl
    · split <;> exact hordered ..

/-- A number at working precision that is a whole number of units of `10 ^ -j`. -/
structure IsMultiple (j : Nat) (c : Int) (x : Decimal) : Prop where
  toRat_eq : x.toRat = c * 10 ^ (-j : Int)
  precision_le : workingPrecision ≤ x.precision

/-- No place of a multiple lies behind the unit. -/
theorem IsMultiple.le_exponent {j : Nat} {c : Int} {x : Decimal} (h : IsMultiple j c x) (hx : x.isZero = false) :
    -j ≤ x.exponent := by
  have hc : c ≠ 0 := by
    rintro rfl
    have hzero : x.toRat = 0 := by rw [h.toRat_eq, Int.cast_zero, zero_mul]
    simp [toRat_eq_zero_iff.mp hzero] at hx
  have hparts : (x == ofParts c (-j) x.precision) = true := by rw [beq_iff_toRat_eq, toRat_ofParts, h.toRat_eq]
  rw [(beq_iff.mp hparts).2]
  exact le_exponent_ofParts hc ..

theorem IsMultiple.neg {j : Nat} {c : Int} {x : Decimal} (h : IsMultiple j c x) : IsMultiple j (-c) x.neg where
  toRat_eq := by rw [toRat_neg, h.toRat_eq, Int.cast_neg, neg_mul]
  precision_le := h.precision_le

/-- A multiple with at most fifty digits is small enough for a sum at working precision. -/
theorem abs_units_lt {j : Nat} {c : Int} (hc : |c| < 10 ^ 50) {precision : Nat} (hp : workingPrecision ≤ precision) :
    |(c * 10 ^ (-j : Int) : ℚ)| < 10 ^ (-j + precision : Int) := by
  have hunit := ten_zpow_pos (-j)
  have hp : 50 ≤ precision := hp
  calc |(c * 10 ^ (-j : Int) : ℚ)| = (|c| : Int) * 10 ^ (-j : Int) := by
        rw [abs_mul, abs_of_pos hunit, Int.cast_abs]
    _ < (10 ^ 50 : Int) * 10 ^ (-j : Int) := mul_lt_mul_of_pos_right (by exact_mod_cast hc) hunit
    _ = 10 ^ (-j + 50 : Int) := by
        rw [zpow_add₀ (by norm_num), mul_comm]
        norm_num
    _ ≤ 10 ^ (-j + precision : Int) := zpow_le_zpow_right₀ (by norm_num) (by omega)

/-- **Multiples add exactly** as long as there are no more than fifty digits. -/
theorem IsMultiple.add {j : Nat} {c d : Int} {x y : Decimal} (hx : IsMultiple j c x) (hy : IsMultiple j d y)
    (hc : |c| < 10 ^ 50) (hd : |d| < 10 ^ 50) (hsum : |c + d| < 10 ^ 50) : IsMultiple j (c + d) (x.add y) := by
  have hprecision : workingPrecision ≤ max x.precision y.precision := hx.precision_le.trans (le_max_left _ _)
  have hvalue : x.toRat + y.toRat = (c + d : Int) * 10 ^ (-j : Int) := by
    rw [hx.toRat_eq, hy.toRat_eq, Int.cast_add, add_mul]
  refine ⟨?_, by rwa [precision_add]⟩
  rw [toRat_add (e := -j) hx.le_exponent hy.le_exponent, hvalue]
  · rw [hx.toRat_eq]
    exact abs_units_lt hc hprecision
  · rw [hy.toRat_eq]
    exact abs_units_lt hd hprecision
  · rw [hvalue]
    exact abs_units_lt hsum hprecision

theorem isMultiple_ofInt (j : Nat) (n : Int) : IsMultiple j (n * 10 ^ j) (ofInt n) where
  toRat_eq := by
    rw [toRat_ofInt, Int.cast_mul, Int.cast_pow, Int.cast_ofNat, mul_assoc, ← zpow_natCast,
      ← zpow_add₀ (by norm_num), add_neg_cancel, zpow_zero, mul_one]
  precision_le := by rw [ofInt, precision_ofParts]

end Cellbook.Decimal
