import Mathlib.Data.Nat.Cast.Order.Field
import Mathlib.Data.Sign.Basic
import Cellbook.Proofs.Decimal.Exact

/-!
# Remainders

A remainder takes the integer part of a quotient that is rounded. If the dividend, counted in units of the last
place of both operands, has fewer digits than the precision, the quotient stands too far from the next integer
for rounding to reach it (`truncated_quotient`). Then the product with the divisor and the difference fit, and
the remainder is what it should be (`rem_isRemainder`). A dividend with as many digits as the precision may be
carried across an integer, and what is left has the wrong sign (`rem_of_nines`).
-/

namespace Cellbook.Decimal

/-! ## Integer parts -/

theorem truncated_neg (q : ℚ) : truncated (-q) = -truncated q := by
  unfold truncated
  rcases lt_trichotomy q 0 with hq | rfl | hq
  · rw [if_neg (by linarith), if_pos hq, Int.floor_neg]
  · simp
  · rw [if_pos (by linarith), if_neg (by linarith), Int.ceil_neg]

theorem truncated_of_nonneg {q : ℚ} (hq : 0 ≤ q) : truncated q = ⌊q⌋ := if_neg (not_lt.mpr hq)

/-- What is left beside the integer part is less than one and has the sign of the number. -/
theorem sub_truncated (q : ℚ) :
    |q - truncated q| < 1 ∧ (q - truncated q = 0 ∨ SignType.sign (q - truncated q) = SignType.sign q) := by
  have hnonneg {q : ℚ} (hq : 0 ≤ q) :
      |q - truncated q| < 1 ∧ (q - truncated q = 0 ∨ SignType.sign (q - truncated q) = SignType.sign q) := by
    rw [truncated_of_nonneg hq, Int.self_sub_floor, abs_of_nonneg (Int.fract_nonneg q)]
    refine ⟨Int.fract_lt_one q, ?_⟩
    rcases (Int.fract_nonneg q).eq_or_lt with hzero | hpos
    · exact .inl hzero.symm
    · have hq : 0 < q := hq.lt_of_ne' fun hzero => by simp [hzero] at hpos
      exact .inr (by rw [sign_pos hpos, sign_pos hq])
  rcases le_total 0 q with hq | hq
  · exact hnonneg hq
  · have hneg := hnonneg (neg_nonneg.mpr hq)
    have hflip : -q - truncated (-q) = -(q - truncated q) := by
      rw [truncated_neg]
      push_cast
      ring
    rw [hflip, abs_neg, neg_eq_zero, Left.sign_neg, Left.sign_neg, neg_inj] at hneg
    exact hneg

theorem abs_truncated_le (q : ℚ) : |(truncated q : ℚ)| ≤ |q| := by
  have hnonneg {q : ℚ} (hq : 0 ≤ q) : |(truncated q : ℚ)| ≤ |q| := by
    have hfloor : (0 : ℚ) ≤ ⌊q⌋ := by exact_mod_cast Int.floor_nonneg.mpr hq
    rw [truncated_of_nonneg hq, abs_of_nonneg hfloor, abs_of_nonneg hq]
    exact Int.floor_le q
  rcases le_total 0 q with hq | hq
  · exact hnonneg hq
  · have := hnonneg (neg_nonneg.mpr hq)
    rwa [truncated_neg, Int.cast_neg, abs_neg, abs_neg] at this

/-! ## Quotients -/

/-- The nearest integer to `a · 10 ^ s / b`, as it is computed. -/
theorem nearest_bounds {a b : Nat} (hb : 0 < b) (s : Nat) :
    let rest := a % b * Nat.pow 10 s
    let whole := a / b * Nat.pow 10 s + rest / b
    let nearest := if b ≤ 2 * (rest % b) then whole + 1 else whole
    2 * (nearest * b) ≤ 2 * (a * 10 ^ s) + b ∧ 2 * (a * 10 ^ s) < 2 * (nearest * b) + b := by
  intro rest whole nearest
  have hrest : rest / b * b + rest % b = rest := by rw [Nat.mul_comm, Nat.div_add_mod]
  have hsplit : a * 10 ^ s = whole * b + rest % b :=
    calc a * 10 ^ s = (a / b * b + a % b) * 10 ^ s := by rw [Nat.mul_comm _ b, Nat.div_add_mod]
      _ = a / b * 10 ^ s * b + rest := by
        show _ = a / b * 10 ^ s * b + a % b * 10 ^ s
        ring
      _ = whole * b + rest % b := by
        show _ = (a / b * 10 ^ s + rest / b) * b + rest % b
        rw [Nat.add_mul, Nat.add_assoc, hrest]
  have hlt : rest % b < b := Nat.mod_lt _ hb
  have hnearest : nearest * b = if b ≤ 2 * (rest % b) then whole * b + b else whole * b := by
    show (if _ then whole + 1 else whole) * b = _
    rw [ite_mul, Nat.add_mul, Nat.one_mul]
  rw [hnearest, hsplit]
  split <;> omega

/-- A quotient with a remainder is computed to at least `precision` digits. -/
theorem ten_pow_mul_le_shifted {a b : Nat} (hb : 0 < b) (h : a % b ≠ 0) {precision : Nat} (hp : 0 < precision) :
    10 ^ (precision - 1) * b ≤ a * 10 ^ quotientShift precision (digitCount b) (a / b) (a % b) := by
  unfold quotientShift
  rw [if_neg h]
  split
  next hq =>
    have hlt : a < b := (Nat.div_eq_zero_iff_lt hb).mp hq
    have hmod : a % b = a := Nat.mod_eq_of_lt hlt
    have hab : digitCount a ≤ digitCount b := digitCount_le_iff.mpr (hlt.trans (digitCount_le_iff.mp le_rfl))
    rw [hmod] at h ⊢
    have hpos := digitCount_pos h
    calc 10 ^ (precision - 1) * b
        ≤ 10 ^ (precision - 1) * 10 ^ digitCount b :=
          Nat.mul_le_mul_left _ (digitCount_le_iff.mp le_rfl).le
      _ = 10 ^ (precision - 1 + digitCount b) := (Nat.pow_add ..).symm
      _ ≤ 10 ^ (digitCount a - 1 + (digitCount b + precision - digitCount a)) :=
          Nat.pow_le_pow_right (by decide) (by omega)
      _ = 10 ^ (digitCount a - 1) * 10 ^ (digitCount b + precision - digitCount a) := Nat.pow_add ..
      _ ≤ a * 10 ^ (digitCount b + precision - digitCount a) := Nat.mul_le_mul_right _ (ten_pow_le_of_ne_zero h)
  next hq =>
    calc 10 ^ (precision - 1) * b
        ≤ 10 ^ (digitCount (a / b) - 1 + (precision - digitCount (a / b))) * b :=
          Nat.mul_le_mul_right _ (Nat.pow_le_pow_right (by decide) (by omega))
      _ = 10 ^ (digitCount (a / b) - 1) * b * 10 ^ (precision - digitCount (a / b)) := by rw [Nat.pow_add]; ring
      _ ≤ a / b * b * 10 ^ (precision - digitCount (a / b)) :=
          Nat.mul_le_mul_right _ (Nat.mul_le_mul_right _ (ten_pow_le_of_ne_zero hq))
      _ ≤ a * 10 ^ (precision - digitCount (a / b)) := Nat.mul_le_mul_right _ (Nat.div_mul_le_self a b)

/-- **Rounding does not reach the next integer** from `A / B` if it rounds to units of less than `1 / B`. -/
theorem floor_eq_of_near {A B N : Nat} {t : Int} (hB : 0 < B) (ht : (10 : ℚ) ^ t * B < 1)
    (hlow : (A / B : ℚ) < N * 10 ^ t + 10 ^ t / 2) (hhigh : (N * 10 ^ t : ℚ) ≤ A / B + 10 ^ t / 2) :
    ⌊(N * 10 ^ t : ℚ)⌋ = ⌊(A / B : ℚ)⌋ := by
  have hBpos : (0 : ℚ) < B := by exact_mod_cast hB
  have hBone : (1 : ℚ) ≤ B := by exact_mod_cast hB
  have hneg : t < 0 := by
    refine lt_of_not_ge fun hge => absurd ht (not_lt.mpr ?_)
    exact one_le_mul_of_one_le_of_one_le (one_le_zpow₀ (by norm_num) hge) hBone
  have hfloor : ⌊(A / B : ℚ)⌋ = ((A / B : Nat) : Int) :=
    (Rat.floor_natCast_div_natCast A B).trans (Int.natCast_ediv A B).symm
  rw [hfloor, Int.floor_eq_iff, Int.cast_natCast]
  constructor
  · -- the integer below is a number of units, and no number of units between it and `A / B` is nearer
    have hunits : ((A / B * 10 ^ (-t).toNat : Nat) : ℚ) * 10 ^ t = (A / B : Nat) := by
      have hcast : ((-t).toNat : Int) = -t := by omega
      rw [Nat.cast_mul, Nat.cast_pow, Nat.cast_ofNat, ← zpow_natCast, hcast, mul_assoc, ← zpow_add₀ (by norm_num),
        neg_add_cancel, zpow_zero, mul_one]
    have hfloor : ((A / B : Nat) : ℚ) ≤ A / B := Nat.cast_div_le
    have hlt : ((A / B * 10 ^ (-t).toNat : Nat) : ℚ) < N + 1 := by
      have : ((A / B * 10 ^ (-t).toNat : Nat) : ℚ) * 10 ^ t < (N + 1 / 2) * 10 ^ t := by
        rw [hunits]
        linarith
      linarith [lt_of_mul_lt_mul_right this (ten_zpow_pos t).le]
    have hle : A / B * 10 ^ (-t).toNat ≤ N := Nat.lt_succ_iff.mp (by exact_mod_cast hlt)
    have hleq : ((A / B * 10 ^ (-t).toNat : Nat) : ℚ) ≤ N := by exact_mod_cast hle
    have := mul_le_mul_of_nonneg_right hleq (ten_zpow_pos t).le
    rw [hunits] at this
    exact_mod_cast this
  · -- `A / B` is at least `1 / B` below the next integer
    have hgap : (A : ℚ) + 1 ≤ ((A / B : Nat) + 1) * B := by
      have hlt : A + 1 ≤ (A / B + 1) * B := Nat.lt_mul_of_div_lt (Nat.lt_succ_self _) hB
      exact_mod_cast hlt
    have hhalf : (10 : ℚ) ^ t / 2 * B < 1 := by linarith
    have hmul : (N * 10 ^ t : ℚ) * B < ((A / B : Nat) + 1) * B :=
      calc (N * 10 ^ t : ℚ) * B ≤ (A / B + 10 ^ t / 2) * B := mul_le_mul_of_nonneg_right hhigh hBpos.le
        _ = A + 10 ^ t / 2 * B := by rw [add_mul, div_mul_cancel₀ _ hBpos.ne']
        _ < A + 1 := by linarith
        _ ≤ ((A / B : Nat) + 1) * B := hgap
    exact_mod_cast lt_of_mul_lt_mul_right hmul hBpos.le

/-- What a quotient denotes: a sign and the nearest number of units to the quotient of the significands, in places
shifted so far that there are at least as many units as the precision has digits, or none are left over. -/
theorem quotient_units {x y : Decimal} (hy : y.isZero = false) (hp : 0 < max x.precision y.precision) :
    let a := x.significand.natAbs
    let b := y.significand.natAbs
    ∃ nearest shift : Nat,
      (x.quotient y).toRat =
        (x.significand.sign * y.significand.sign : Int) * (nearest * 10 ^ (x.exponent - y.exponent - shift)) ∧
      2 * (nearest * b) ≤ 2 * (a * 10 ^ shift) + b ∧ 2 * (a * 10 ^ shift) < 2 * (nearest * b) + b ∧
      (nearest * b = a * 10 ^ shift ∨ 10 ^ (max x.precision y.precision - 1) * b ≤ a * 10 ^ shift) := by
  intro a b
  have hb : 0 < b := by simpa [b, isZero, Nat.pos_iff_ne_zero] using hy
  obtain ⟨hlow, hhigh⟩ := nearest_bounds (a := a) hb (quotientShift (max x.precision y.precision) (digitCount b)
    (a / b) (a % b))
  refine ⟨_, _, ?_, hlow, hhigh, ?_⟩
  · rw [quotient, toRat_ofParts, Int.cast_mul, Int.cast_natCast, mul_assoc]
  · by_cases hdvd : a % b = 0
    · left
      simp [quotientShift, hdvd, hb.not_ge, Nat.div_mul_cancel (Nat.dvd_of_mod_eq_zero hdvd)]
    · exact .inr (ten_pow_mul_le_shifted hb hdvd hp)

/-- The quotient of two numbers as a sign and a natural ratio. -/
theorem toRat_div_eq (x y : Decimal) :
    x.toRat / y.toRat = (x.significand.sign * y.significand.sign : Int) * (|x.toRat| / |y.toRat|) := by
  have hsign (z : Decimal) : z.toRat = z.significand.sign * |z.toRat| := by
    rw [abs_toRat, ← mul_assoc, toRat]
    congr 1
    rw [← Int.cast_natCast, ← Int.cast_mul, Int.sign_mul_natAbs]
  have hinv : (y.significand.sign : ℚ)⁻¹ = y.significand.sign := by
    rcases Int.sign_trichotomy y.significand with hs | hs | hs <;> simp [hs]
  conv_lhs => rw [hsign x, hsign y, mul_div_mul_comm, div_eq_mul_inv (x.significand.sign : ℚ), hinv, ← Int.cast_mul]

/-- The integer part does not depend on the sign. -/
theorem truncated_sign_mul {s : Int} {p q : ℚ} (hs : s = -1 ∨ s = 0 ∨ s = 1) (hp : 0 ≤ p) (hq : 0 ≤ q)
    (h : ⌊p⌋ = ⌊q⌋) : truncated (s * p) = truncated (s * q) := by
  have hpos : truncated p = truncated q := by rw [truncated_of_nonneg hp, truncated_of_nonneg hq, h]
  rcases hs with rfl | rfl | rfl
  · rw [Int.cast_neg, Int.cast_one, neg_one_mul, neg_one_mul, truncated_neg, truncated_neg, hpos]
  · rw [Int.cast_zero, zero_mul, zero_mul]
  · rw [Int.cast_one, one_mul, one_mul, hpos]

/-- A number other than zero reaches its last place. -/
theorem ten_zpow_le_abs_toRat {x : Decimal} (hx : x.isZero = false) : 10 ^ x.exponent ≤ |x.toRat| := by
  have hone : (1 : ℚ) ≤ x.significand.natAbs := by
    have : x.significand.natAbs ≠ 0 := by simpa [isZero] using hx
    exact_mod_cast Nat.one_le_iff_ne_zero.mpr this
  rw [abs_toRat]
  exact le_mul_of_one_le_left (ten_zpow_pos _).le hone

/-- If the dividend has fewer digits than the quotient, a unit of the quotient is small beside the divisor. -/
theorem ten_zpow_mul_units_lt_one {x y : Decimal} {m : Int} (hmx : m ≤ x.exponent) (hmy : m ≤ y.exponent)
    {precision shift : Nat} (hp : 0 < precision) (h : |x.toRat| < 10 ^ (m + precision - 1))
    (hdigits : 10 ^ (precision - 1) * y.significand.natAbs ≤ x.significand.natAbs * 10 ^ shift) :
    (10 : ℚ) ^ (x.exponent - y.exponent - shift) * (y.significand.natAbs * 10 ^ (y.exponent - m).toNat : Nat) < 1 := by
  have hfew : ((x.significand.natAbs * 10 ^ (x.exponent - m).toNat : Nat) : ℚ) < 10 ^ (precision - 1) := by
    have hplaces : m + precision - 1 = (precision - 1 : Nat) + m := by omega
    rw [abs_toRat_eq_units hmx, hplaces, zpow_add₀ (by norm_num), zpow_natCast] at h
    exact lt_of_mul_lt_mul_right h (ten_zpow_pos m).le
  have hdigits : (10 ^ (precision - 1) * y.significand.natAbs : ℚ) ≤ x.significand.natAbs * 10 ^ shift := by
    exact_mod_cast hdigits
  have hgap {e : Int} (he : m ≤ e) : ((e - m).toNat : Int) = e - m := by omega
  refine lt_of_mul_lt_mul_left ?_ (show (0 : ℚ) ≤ 10 ^ (precision - 1) by positivity)
  calc (10 : ℚ) ^ (precision - 1) * (10 ^ (x.exponent - y.exponent - shift) *
          (y.significand.natAbs * 10 ^ (y.exponent - m).toNat : Nat))
      = 10 ^ (precision - 1) * y.significand.natAbs * 10 ^ (x.exponent - m - shift) := by
        rw [Nat.cast_mul, Nat.cast_pow, Nat.cast_ofNat, ← zpow_natCast 10 (y.exponent - m).toNat, hgap hmy,
          mul_left_comm (_ ^ _ : ℚ) (y.significand.natAbs : ℚ), ← zpow_add₀ (by norm_num), ← mul_assoc]
        congr 2
        ring
    _ ≤ x.significand.natAbs * 10 ^ shift * 10 ^ (x.exponent - m - shift) :=
        mul_le_mul_of_nonneg_right hdigits (ten_zpow_pos _).le
    _ = (x.significand.natAbs * 10 ^ (x.exponent - m).toNat : Nat) := by
        rw [Nat.cast_mul, Nat.cast_pow, Nat.cast_ofNat, ← zpow_natCast 10 (x.exponent - m).toNat, hgap hmx,
          mul_assoc, ← zpow_natCast 10 shift, ← zpow_add₀ (by norm_num), add_sub_cancel]
    _ < 10 ^ (precision - 1) * 1 := by rwa [mul_one]

/-- The nearest number of units is at most half a unit off. -/
theorem units_near {a b N s : Nat} (hb : 0 < b) (hlow : 2 * (N * b) ≤ 2 * (a * 10 ^ s) + b)
    (hhigh : 2 * (a * 10 ^ s) < 2 * (N * b) + b) {u : ℚ} (hu : 0 < u) :
    (a * 10 ^ s / b * u : ℚ) < N * u + u / 2 ∧ N * u ≤ a * 10 ^ s / b * u + u / 2 := by
  have hb : (0 : ℚ) < b := by exact_mod_cast hb
  have hlow : (2 * (N * b) : ℚ) ≤ 2 * (a * 10 ^ s) + b := by exact_mod_cast hlow
  have hhigh : (2 * (a * 10 ^ s) : ℚ) < 2 * (N * b) + b := by exact_mod_cast hhigh
  have hlt : (a * 10 ^ s / b : ℚ) < N + 1 / 2 := by
    rw [div_lt_iff₀ hb]
    linarith
  have hle : (N - 1 / 2 : ℚ) ≤ a * 10 ^ s / b := by
    rw [le_div_iff₀ hb]
    linarith
  constructor
  · linarith [mul_lt_mul_of_pos_right hlt hu]
  · linarith [mul_le_mul_of_nonneg_right hle hu.le]

/-- **The integer part of a quotient** survives its rounding, if the dividend has fewer digits than the precision
down to the last place of both numbers. -/
theorem truncated_quotient {x y : Decimal} (hy : y.isZero = false)
    (h : |x.toRat| < 10 ^ (min x.exponent y.exponent + max x.precision y.precision - 1)) :
    truncated (x.quotient y).toRat = truncated (x.toRat / y.toRat) := by
  by_cases hx : x.isZero = true
  · have hs : x.significand = 0 := by simpa [isZero] using hx
    rw [toRat_eq_zero_iff.mpr hx, zero_div, quotient, toRat_ofParts, hs]
    simp
  have hb : 0 < y.significand.natAbs := by simpa [isZero, Nat.pos_iff_ne_zero] using hy
  have hmx := min_le_left x.exponent y.exponent
  have hmy := min_le_right x.exponent y.exponent
  have hp : 0 < max x.precision y.precision := by
    have hlt := (ten_zpow_le_abs_toRat (Bool.eq_false_iff.mpr hx)).trans_lt h
    have := (zpow_lt_zpow_iff_right₀ (by norm_num)).mp hlt
    omega
  obtain ⟨nearest, shift, hvalue, hlow, hhigh, hdigits⟩ := quotient_units hy hp
  obtain ⟨hlow, hhigh⟩ := units_near hb hlow hhigh (ten_zpow_pos (x.exponent - y.exponent - shift))
  have hunits : |x.toRat| / |y.toRat| =
      x.significand.natAbs * 10 ^ shift / y.significand.natAbs * 10 ^ (x.exponent - y.exponent - shift) := by
    rw [abs_toRat, abs_toRat, zpow_sub₀ (by norm_num), zpow_sub₀ (by norm_num), zpow_natCast]
    field_simp
  rw [toRat_div_eq, hvalue]
  refine truncated_sign_mul ?_ (mul_nonneg (Nat.cast_nonneg _) (ten_zpow_pos _).le) (by positivity) ?_
  · rw [← Int.sign_mul]
    have := Int.sign_trichotomy (x.significand * y.significand)
    omega
  rcases hdigits with hexact | hdigits
  · have hb : (y.significand.natAbs : ℚ) ≠ 0 := by exact_mod_cast hb.ne'
    have hexact : (nearest * y.significand.natAbs : ℚ) = x.significand.natAbs * 10 ^ shift := by exact_mod_cast hexact
    rw [hunits, ← hexact, mul_div_cancel_right₀ _ hb]
  · have hratio : |x.toRat| / |y.toRat| =
        (x.significand.natAbs * 10 ^ (x.exponent - min x.exponent y.exponent).toNat : Nat) /
          (y.significand.natAbs * 10 ^ (y.exponent - min x.exponent y.exponent).toNat : Nat) := by
      rw [abs_toRat_eq_units hmx, abs_toRat_eq_units hmy, mul_div_mul_right _ _ (ten_zpow_pos _).ne']
    rw [hratio]
    refine floor_eq_of_near (Nat.mul_pos hb (Nat.pow_pos (by decide)))
      (ten_zpow_mul_units_lt_one hmx hmy hp h hdigits) ?_ ?_
    · rwa [← hratio, hunits]
    · rwa [← hratio, hunits]

/-! ## Remainders -/

/-- **What a remainder should be**: what is left of `a` beside a multiple of `b` that comes as near as one can from
the side of zero. -/
structure IsRemainder (a b r : ℚ) : Prop where
  /-- The remainder is zero or has the sign of the dividend. -/
  sign_eq : r = 0 ∨ SignType.sign r = SignType.sign a
  /-- It is smaller than the divisor. -/
  abs_lt : |r| < |b|
  /-- What it leaves of the dividend is a multiple of the divisor. -/
  exists_multiple : ∃ n : Int, a - r = n * b

theorem isRemainder_truncated (a : ℚ) {b : ℚ} (hb : b ≠ 0) : IsRemainder a b (a - truncated (a / b) * b) := by
  have hr : a - truncated (a / b) * b = (a / b - truncated (a / b)) * b := by rw [sub_mul, div_mul_cancel₀ _ hb]
  obtain ⟨hlt, hsign⟩ := sub_truncated (a / b)
  refine ⟨?_, ?_, truncated (a / b), sub_sub_cancel _ _⟩
  · rw [hr]
    refine hsign.imp (fun hzero => by rw [hzero, zero_mul]) fun hsign => ?_
    rw [sign_mul, hsign, ← sign_mul, div_mul_cancel₀ _ hb]
  · rw [hr, abs_mul]
    exact mul_lt_of_lt_one_left (abs_pos.mpr hb) hlt

/-- A whole number has no places behind the units. -/
theorem exponent_trunc_nonneg (x : Decimal) : 0 ≤ x.trunc.exponent := by
  have hparts (s : Int) (precision : Nat) : 0 ≤ (ofParts s 0 precision).exponent := by
    by_cases hs : s = 0
    · simp [ofParts, hs]
    · exact le_exponent_ofParts hs 0 precision
  have hwhole (tiny : Int) (whole : Int → Int → Int) : 0 ≤ (x.toWhole tiny whole).exponent := by
    unfold toWhole
    split
    next h => exact of_decide_eq_true h
    next => split <;> exact hparts ..
  unfold trunc ceil floor
  split <;> exact hwhole ..

/-- **Remainders**: if the dividend has fewer digits than the divisor's precision down to the last place of both
numbers, the remainder is what it should be. -/
theorem rem_isRemainder {x y : Decimal} (hy : y.isZero = false)
    (h : |x.toRat| < 10 ^ (min x.exponent y.exponent + y.precision - 1)) :
    ∃ r, x.rem y = .ok r ∧ IsRemainder x.toRat y.toRat r.toRat := by
  have hy0 : y.toRat ≠ 0 := fun h => by simp [toRat_eq_zero_iff.mp h] at hy
  have hmono {e : Int} (he : min x.exponent y.exponent + y.precision - 1 ≤ e) : |x.toRat| < 10 ^ e :=
    h.trans_le (zpow_le_zpow_right₀ (by norm_num) he)
  have htrunc : (x.quotient y).trunc.toRat = truncated (x.toRat / y.toRat) := by
    rw [toRat_trunc, truncated_quotient hy (hmono (by omega))]
  have hle : |(truncated (x.toRat / y.toRat) : ℚ) * y.toRat| ≤ |x.toRat| :=
    calc |(truncated (x.toRat / y.toRat) : ℚ) * y.toRat|
        ≤ |x.toRat / y.toRat| * |y.toRat| := by
          rw [abs_mul]
          exact mul_le_mul_of_nonneg_right (abs_truncated_le _) (abs_nonneg _)
      _ = |x.toRat| := by rw [← abs_mul, div_mul_cancel₀ _ hy0]
  obtain ⟨hproduct, hprecision, hlast⟩ := toRat_mul_whole (y := y) (exponent_trunc_nonneg (x.quotient y)) (by
    rw [htrunc]
    exact hle.trans_lt (hmono (by omega)))
  rw [htrunc] at hproduct
  have hsub : (x.sub ((x.quotient y).trunc.mul y)).toRat = x.toRat - truncated (x.toRat / y.toRat) * y.toRat := by
    rw [← hproduct] at hle ⊢
    exact toRat_sub (fun _ => min_le_left ..) (fun hne => (min_le_right ..).trans (hlast hne)) (hmono (by omega)) hle
  refine ⟨x.sub ((x.quotient y).trunc.mul y), by rw [rem, div, hy]; rfl, ?_⟩
  rw [hsub]
  exact isRemainder_truncated _ hy0

theorem rem_isRemainder_negative :
    (⟨-3, 0, 50, by decide⟩ : Decimal).isZero = false ∧
    ∃ r, (⟨175, -1, 50, by decide⟩ : Decimal).rem ⟨-3, 0, 50, by decide⟩ = .ok r ∧
      IsRemainder (toRat ⟨175, -1, 50, by decide⟩) (toRat ⟨-3, 0, 50, by decide⟩) r.toRat :=
  ⟨by decide, rem_isRemainder (by decide) (by norm_num [toRat])⟩

/-- **A quotient may be carried across an integer**: the half of fifty nines is rounded up, and what is left beside
twice that is minus one. -/
theorem rem_of_nines :
    (⟨10 ^ 50 - 1, 0, 50, by decide⟩ : Decimal).rem ⟨2, 0, 50, by decide⟩ = .ok ⟨-1, 0, 50, by decide⟩ ∧
      ¬ IsRemainder (toRat ⟨10 ^ 50 - 1, 0, 50, by decide⟩) (toRat ⟨2, 0, 50, by decide⟩)
        (toRat ⟨-1, 0, 50, by decide⟩) := by
  refine ⟨by decide +kernel, fun h => ?_⟩
  have hneg : toRat ⟨-1, 0, 50, by decide⟩ < 0 := by norm_num [toRat]
  have hpos : 0 < toRat ⟨10 ^ 50 - 1, 0, 50, by decide⟩ := by norm_num [toRat]
  rcases h.sign_eq with hzero | hsign
  · exact hneg.ne hzero
  · rw [sign_neg hneg, sign_pos hpos] at hsign
    exact absurd hsign (by decide)

end Cellbook.Decimal
