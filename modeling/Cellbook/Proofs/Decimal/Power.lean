import Mathlib.RingTheory.Int.Basic
import Cellbook.Decimal.Power
import Cellbook.Proofs.Decimal.Exact

/-!
# Whole powers that fit are exact

The loop of repeated squaring takes products of powers of its base, and none of them is a higher power than the
one that is asked for. So if the digits of that power fit into the precision, so do those of every product, and no
product is rounded (`powInt_exact`). That no product is rounded is said by running the loop with a multiplication
that refuses to round, `mulExact`.
-/

namespace Cellbook.Decimal

/-! ## Powers in normal form -/

/-- A power ends in a zero only if its base does: ten is a product of different primes. -/
theorem normal_pow {s e : Int} (h : Normal s e) (n : Nat) : Normal (s ^ n) (n * e) := by
  rcases h with hs | ⟨rfl, rfl⟩
  · refine .inl fun hpow => hs ?_
    have hten : (10 : Int) ∣ s ^ n := Int.dvd_of_emod_eq_zero hpow
    have htwo : (2 : Int) ∣ s := Int.Prime.dvd_pow' Nat.prime_two ((by decide : (2 : Int) ∣ 10).trans hten)
    have hfive : (5 : Int) ∣ s := Int.Prime.dvd_pow' Nat.prime_five ((by decide : (5 : Int) ∣ 10).trans hten)
    omega
  · cases n with
    | zero => exact .inl (by decide)
    | succ n => exact .inr ⟨zero_pow n.succ_ne_zero, mul_zero _⟩

/-- The power of a number as it is, whatever digits that takes. -/
def exactPower (x : Decimal) (n precision : Nat) : Decimal :=
  ⟨x.significand ^ n, n * x.exponent, precision, normal_pow x.normal n⟩

theorem toRat_exactPower (x : Decimal) (n precision : Nat) : (x.exactPower n precision).toRat = x.toRat ^ n :=
  calc (x.exactPower n precision).toRat = (x.significand ^ n : Int) * 10 ^ (n * x.exponent) := rfl
    _ = x.significand ^ n * (10 ^ x.exponent) ^ n := by
      rw [Int.cast_pow, mul_comm (n : Int), zpow_mul, zpow_natCast]
    _ = x.toRat ^ n := (mul_pow ..).symm

theorem exactPower_one (x : Decimal) : x.exactPower 1 x.precision = x := by
  simp [exactPower]

theorem exactPower_zero (x : Decimal) : x.exactPower 0 workingPrecision = ofInt 1 := by
  simp [exactPower, ofInt, ofParts, stripZeros]

/-! ## Products that are not rounded -/

/-- The product of two numbers, or nothing where it would have to be rounded. -/
def mulExact (x y : Decimal) : Option Decimal :=
  if (x.mul y).toRat = x.toRat * y.toRat then some (x.mul y) else none

/-- A product of powers is a power, if the digits of that power fit. -/
theorem mul_exactPower {x : Decimal} {i j p q : Nat} (h : (x.significand ^ (i + j)).natAbs < 10 ^ max p q) :
    (x.exactPower i p).mul (x.exactPower j q) = x.exactPower (i + j) (max p q) := by
  let power := x.exactPower (i + j) (max p q)
  have hdigits : digitCount power.significand.natAbs ≤ max p q := digitCount_le_iff.mpr h
  have hs : x.significand ^ i * x.significand ^ j = power.significand := (pow_add ..).symm
  have he : i * x.exponent + j * x.exponent = power.exponent :=
    calc i * x.exponent + j * x.exponent = (i + j : Nat) * x.exponent := by rw [Nat.cast_add, add_mul]
      _ = power.exponent := rfl
  calc (x.exactPower i p).mul (x.exactPower j q)
      = roundedTo (max p q) (x.significand ^ i * x.significand ^ j) (i * x.exponent + j * x.exponent) (max p q) := rfl
    _ = ofParts power.significand power.exponent (max p q) := by
      rw [hs, he, roundedTo_of_digitCount_le hdigits]
    _ = power := ofParts_self power (max p q)

theorem mulExact_exactPower {x : Decimal} {i j p q : Nat} (h : (x.significand ^ (i + j)).natAbs < 10 ^ max p q) :
    mulExact (x.exactPower i p) (x.exactPower j q) = some (x.exactPower (i + j) (max p q)) := by
  rw [mulExact, mul_exactPower h, if_pos]
  rw [toRat_exactPower, toRat_exactPower, toRat_exactPower, pow_add]

theorem mulExact_eq_some {x y z : Decimal} (h : mulExact x y = some z) : x.mul y = z := by
  unfold mulExact at h
  split at h
  · exact Option.some.inj h
  · cases h

/-! ## The loop -/

theorem powFrom_zero (result base : Decimal) : powFrom result base 0 = result := by
  rw [powFrom, powBy, if_pos rfl, Id.run_pure]

theorem powFrom_of_ne_zero (result base : Decimal) {n : Nat} (hn : n ≠ 0) :
    powFrom result base n =
      if n / 2 = 0 then (if n % 2 = 1 then result.mul base else result)
      else powFrom (if n % 2 = 1 then result.mul base else result) (base.mul base) (n / 2) := by
  rw [powFrom, powBy, if_neg hn]
  split <;> split <;> rfl

/-- If no product is rounded, the loop with rounded products does the same. -/
theorem powFrom_eq_of_powBy_mulExact {result base power : Decimal} {n : Nat}
    (h : powBy mulExact result base n = some power) : powFrom result base n = power := by
  induction n using Nat.strong_induction_on generalizing result base with
  | _ n ih =>
    rw [powBy] at h
    by_cases hn : n = 0
    · rw [if_pos hn] at h
      rw [hn, powFrom_zero]
      exact Option.some.inj h
    rw [if_neg hn] at h
    obtain ⟨product, hproduct, h⟩ := Option.bind_eq_some_iff.mp h
    have hnext : (if n % 2 = 1 then result.mul base else result) = product := by
      by_cases hodd : n % 2 = 1
      · rw [if_pos hodd] at hproduct ⊢
        exact mulExact_eq_some hproduct
      · rw [if_neg hodd] at hproduct ⊢
        exact Option.some.inj hproduct
    rw [powFrom_of_ne_zero _ _ hn, hnext]
    by_cases hlast : n / 2 = 0
    · rw [if_pos hlast] at h ⊢
      exact Option.some.inj h
    · rw [if_neg hlast] at h ⊢
      obtain ⟨square, hsquare, h⟩ := Option.bind_eq_some_iff.mp h
      rw [mulExact_eq_some hsquare]
      exact ih (n / 2) (by omega) h

/-- **The products of repeated squaring** are powers of the base up to the one that is asked for. -/
theorem powBy_mulExact {x : Decimal} {i j p n : Nat} (hp : p ≤ x.precision)
    (hfits : ∀ k ≤ i + j * n, (x.significand ^ k).natAbs < 10 ^ x.precision) :
    ∃ q, powBy mulExact (x.exactPower i p) (x.exactPower j x.precision) n = some (x.exactPower (i + j * n) q) := by
  induction n using Nat.strong_induction_on generalizing i j p with
  | _ n ih =>
    rw [powBy]
    by_cases hn : n = 0
    · exact ⟨p, by rw [if_pos hn, hn, mul_zero, add_zero]; rfl⟩
    rw [if_neg hn]
    have hsplit : i + j * n = (i + j * (n % 2)) + (j + j) * (n / 2) := by
      conv_lhs => rw [← Nat.mod_add_div n 2]
      ring
    obtain ⟨q, hq, hresult⟩ : ∃ q ≤ x.precision,
        (if n % 2 = 1 then mulExact (x.exactPower i p) (x.exactPower j x.precision) else pure (x.exactPower i p)) =
          some (x.exactPower (i + j * (n % 2)) q) := by
      split
      next hodd =>
        have hmax : max p x.precision = x.precision := max_eq_right hp
        refine ⟨x.precision, le_rfl, ?_⟩
        rw [mulExact_exactPower (by rw [hmax]; exact hfits _ (by rw [hsplit, hodd]; omega)), hmax, hodd, mul_one]
      next heven => exact ⟨p, hp, by rw [Nat.mod_two_ne_one.mp heven, mul_zero, add_zero]; rfl⟩
    rw [hresult, Option.bind_eq_bind, Option.bind_some]
    split
    next hlast => exact ⟨q, by rw [hsplit, hlast, mul_zero, add_zero]; rfl⟩
    next hmore =>
      -- the square is needed for a digit that is left, so it is no higher than the power
      have hsquare : mulExact (x.exactPower j x.precision) (x.exactPower j x.precision) =
          some (x.exactPower (j + j) x.precision) := by
        have hle : j + j ≤ (j + j) * (n / 2) := Nat.le_mul_of_pos_right _ (Nat.pos_of_ne_zero hmore)
        rw [mulExact_exactPower (by rw [max_self]; exact hfits _ (by omega)), max_self]
      rw [hsquare, Option.bind_some, hsplit]
      exact ih (n / 2) (by omega) hq fun k hk => hfits k (by rwa [hsplit])

/-! ## Exponents -/

theorem toInt_intCast {n : Int} (hlow : -2 ^ 63 ≤ n) (hhigh : n < 2 ^ 63) : (n : Int64).toInt = n :=
  Int64.toInt_ofInt_of_le hlow hhigh

/-- The absolute value of an integer of 64 bits, which the least one keeps as it is. -/
theorem toInt_abs (n : Int64) : n.abs.toInt = if n.toInt = -2 ^ 63 then -2 ^ 63 else |n.toInt| := by
  have hleast : BitVec.toInt (BitVec.intMin 64) = -2 ^ 63 := rfl
  rw [← Int64.toInt_toBitVec, Int64.toBitVec_abs, BitVec.toInt_abs_eq_ite, ← Int64.toInt_toBitVec, hleast]
  refine if_congr (by rw [← hleast, BitVec.toInt_inj]) rfl ?_
  split
  next hneg => exact (abs_of_neg (by rwa [BitVec.msb_eq_toInt, decide_eq_true_iff] at hneg)).symm
  next hneg => exact (abs_of_nonneg (by rwa [BitVec.msb_eq_toInt, decide_eq_true_iff, not_lt] at hneg)).symm

/-- **The exponents that are refused**: those beyond a million either way, but for the least one. -/
theorem maxExponent_lt_abs_iff {n : Int64} :
    maxExponent < n.abs ↔ n.toInt ≠ -2 ^ 63 ∧ 1000000 < |n.toInt| := by
  have hmax : maxExponent.toInt = 1000000 := rfl
  rw [Int64.lt_iff_toInt_lt, hmax, toInt_abs]
  split
  next h => simp [h]
  next h => rw [and_iff_right h]

/-! ## Powers -/

/-- A lower power has no more digits. -/
theorem natAbs_pow_lt {s : Int} {k n p : Nat} (hp : 0 < p) (hk : k ≤ n) (h : digitCount (s.natAbs ^ n) ≤ p) :
    (s ^ k).natAbs < 10 ^ p := by
  rw [Int.natAbs_pow]
  rcases Nat.eq_zero_or_pos s.natAbs with hs | hs
  · calc s.natAbs ^ k ≤ 1 := pow_le_one₀ (Nat.zero_le _) (by omega)
      _ < 10 ^ p := Nat.one_lt_pow hp.ne' (by decide)
  · exact (Nat.pow_le_pow_right hs hk).trans_lt (digitCount_le_iff.mp h)

/-- **Whole powers that fit are exact**: if the digits of a power fit into the precision, it is what comes out, and
no product on the way is rounded. -/
theorem powInt_exact {x : Decimal} {n : Nat} (hp : 50 ≤ x.precision) (hn : n ≤ 1000000)
    (hdigits : digitCount (x.significand.natAbs ^ n) ≤ x.precision) :
    ∃ power, x.powInt (n : Int) = .ok power ∧ power.toRat = x.toRat ^ n ∧
      powBy mulExact (ofInt 1) x n = some power := by
  obtain ⟨q, hpower⟩ := powBy_mulExact (x := x) (i := 0) (j := 1) (p := workingPrecision) hp
    fun k hk => natAbs_pow_lt (by omega) (by rwa [zero_add, one_mul] at hk) hdigits
  rw [exactPower_zero, exactPower_one, zero_add, one_mul] at hpower
  refine ⟨x.exactPower n q, ?_, toRat_exactPower x n q, hpower⟩
  have hcast : ((n : Int) : Int64).toInt = n := toInt_intCast (by omega) (by omega)
  have hsmall : ¬maxExponent < ((n : Int) : Int64).abs := by
    rw [maxExponent_lt_abs_iff, hcast, Nat.abs_cast]
    omega
  have hnonneg : ¬((n : Int) : Int64) < 0 := by
    rw [Int64.lt_iff_toInt_lt, hcast, Int64.toInt_zero]
    omega
  rw [powInt, if_neg hsmall, if_neg hnonneg, hcast, Int.natAbs_natCast, powFrom_eq_of_powBy_mulExact hpower]

/-- The power of all the digits that there are: `12 ^ 46` has fifty. -/
theorem powInt_exact_of_fifty_digits :
    50 ≤ (⟨-12, -1, 50, by decide⟩ : Decimal).precision ∧ 46 ≤ 1000000 ∧
    digitCount ((-12 : Int).natAbs ^ 46) ≤ 50 ∧
    ∃ power, (⟨-12, -1, 50, by decide⟩ : Decimal).powInt ((46 : Nat) : Int) = .ok power ∧
      power.toRat = toRat ⟨-12, -1, 50, by decide⟩ ^ 46 ∧
      powBy mulExact (ofInt 1) ⟨-12, -1, 50, by decide⟩ 46 = some power :=
  ⟨by decide, by decide, by decide +kernel, powInt_exact (by decide) (by decide) (by decide +kernel)⟩

end Cellbook.Decimal
