import Cellbook.Proofs.Decimal.Integer
import Cellbook.Proofs.Decimal.Order
import Cellbook.Proofs.Decimal.Power

/-!
# When a power has a result

Whether a power has a result is told by the numbers that its base and its exponent denote (`pow_outcome`). Rounding
does not come into it: no product is rounded to zero unless one of its factors is zero (`toRat_mul_eq_zero_iff`), so
that the power by which a negative exponent divides is zero for the base zero only. The tests that `pow` makes one
after the other are said once, as the ways in which it ends (`PowEnds`).

**The exception** is the least exponent of 64 bits. It is beyond a million, but so that the test for that does
not see it, and the power is taken (`pow_least`). It is the only exponent for which what comes of a power is
not what its base and its exponent tell (`pow_outcome_iff`).
-/

namespace Cellbook.Decimal

/-! ## Products that are zero -/

theorem roundUnits_pos {n k : Nat} (h : 10 ^ k ≤ n) : 0 < roundUnits n k := by
  have hpow : Nat.pow 10 k = 10 ^ k := rfl
  rw [roundUnits, hpow]
  exact Nat.div_pos (by omega) (Nat.pow_pos (by decide))

theorem toRat_ofParts_eq_zero_iff {s e : Int} {precision : Nat} : (ofParts s e precision).toRat = 0 ↔ s = 0 := by
  rw [toRat_ofParts, mul_eq_zero_iff_right (ten_zpow_pos e).ne', Int.cast_eq_zero]

/-- At least one digit is kept of a number, and its leading digit is not zero. -/
theorem toRat_roundedTo_eq_zero_iff {limit precision : Nat} {s e : Int} :
    (roundedTo limit s e precision).toRat = 0 ↔ s = 0 := by
  unfold roundedTo
  split
  next => exact toRat_ofParts_eq_zero_iff
  next hlimit =>
    rw [roundedBy, toRat_ofParts_eq_zero_iff, roundAway]
    constructor
    · intro h
      by_contra hs
      have hne : s.natAbs ≠ 0 := Int.natAbs_ne_zero.mpr hs
      have hkept : 10 ^ (digitCount s.natAbs - limit) ≤ s.natAbs :=
        (Nat.pow_le_pow_right (by decide) (by omega)).trans (ten_pow_le_of_ne_zero hne)
      rcases mul_eq_zero.mp h with hsign | hunits
      · exact hs (Int.sign_eq_zero_iff_zero.mp hsign)
      · exact (roundUnits_pos hkept).ne' (Int.natCast_eq_zero.mp hunits)
    · rintro rfl
      rw [Int.sign_zero, zero_mul]

/-- **A product is zero** only if a factor is, whatever is rounded away. -/
theorem toRat_mul_eq_zero_iff {x y : Decimal} : (x.mul y).toRat = 0 ↔ x.toRat = 0 ∨ y.toRat = 0 := by
  rw [mul, toRat_roundedTo_eq_zero_iff, mul_eq_zero, significand_eq_zero_iff, significand_eq_zero_iff]

/-- The result of repeated squaring is zero only if it was zero from the start or the base is. -/
theorem toRat_powFrom_eq_zero_iff {result base : Decimal} {n : Nat} :
    (powFrom result base n).toRat = 0 ↔ result.toRat = 0 ∨ (n ≠ 0 ∧ base.toRat = 0) := by
  induction n using Nat.strong_induction_on generalizing result base with
  | _ n ih =>
    by_cases hn : n = 0
    · simp [hn, powFrom_zero]
    have hresult : (if n % 2 = 1 then result.mul base else result).toRat = 0 ↔
        result.toRat = 0 ∨ (n % 2 = 1 ∧ base.toRat = 0) := by
      split
      next hodd => rw [toRat_mul_eq_zero_iff, and_iff_right hodd]
      next heven => rw [eq_false heven, false_and, or_false]
    rw [powFrom_of_ne_zero _ _ hn]
    split
    next hlast => rw [hresult, show n = 1 by omega, and_iff_right (by decide), and_iff_right (by decide)]
    next hmore =>
      rw [ih (n / 2) (by omega), hresult, toRat_mul_eq_zero_iff, or_self]
      tauto

/-! ## Faults of powers -/

/-- An exponent that is refused for its size: an integer beyond a million, either way. -/
def TooLarge (y : Decimal) : Prop := ∃ n : Int, y.toRat = n ∧ 1000000 < |n|

/-- **What a fault of a power says** of the base, the exponent and the number of digits. -/
def PowFails (x y : Decimal) (precision : Nat) : Fault → Prop
  | .overflow => TooLarge y
  | .divisionByZero => x.toRat = 0 ∧ y.toRat < 0 ∧ ¬TooLarge y
  | .negativeBase => (¬∃ n : Int, y.toRat = n) ∧ x.toRat < 0
  | .noDigits => (¬∃ n : Int, y.toRat = n) ∧ 0 < x.toRat ∧ precision = 0
  | .notANumber _ => False

/-- No two faults have a reason at once. -/
theorem PowFails.unique {x y : Decimal} {precision : Nat} {fault fault' : Fault}
    (h : PowFails x y precision fault) (h' : PowFails x y precision fault') : fault = fault' := by
  have hinteger (h : TooLarge y) : ∃ n : Int, y.toRat = n := h.imp fun _ hn => hn.1
  cases fault <;> cases fault' <;> grind [PowFails]

theorem not_tooLarge_of_abs_le {y : Decimal} {n : Int} (hy : y.toRat = n) (hn : |n| ≤ 1000000) : ¬TooLarge y := by
  rintro ⟨m, hm, hlarge⟩
  obtain rfl : n = m := by exact_mod_cast hy.symm.trans hm
  omega

/-- An integer of no more than a million, either way, fails as an exponent only if it is negative and the base zero. -/
theorem not_powFails_of_integer {x y : Decimal} {n : Int} (hy : y.toRat = n) (hn : |n| ≤ 1000000)
    (hzero : x.toRat = 0 → 0 ≤ y.toRat) (precision : Nat) (fault : Fault) : ¬PowFails x y precision fault := by
  intro h
  cases fault with
  | overflow => exact not_tooLarge_of_abs_le hy hn h
  | divisionByZero => exact absurd h.2.1 (not_lt.mpr (hzero h.1))
  | negativeBase => exact h.1 ⟨n, hy⟩
  | noDigits => exact h.1 ⟨n, hy⟩
  | notANumber text => exact h

/-- A fraction fails as an exponent of a negative number, or of zero if it is negative, or without digits. -/
theorem not_powFails_of_fraction {x y : Decimal} {precision : Nat} (hy : ¬∃ n : Int, y.toRat = n)
    (hx : 0 ≤ x.toRat) (hzero : x.toRat = 0 → 0 ≤ y.toRat) (hdigits : 0 < x.toRat → precision ≠ 0)
    (fault : Fault) : ¬PowFails x y precision fault := by
  intro h
  cases fault with
  | overflow => exact hy (h.imp fun _ hn => hn.1)
  | divisionByZero => exact absurd h.2.1 (not_lt.mpr (hzero h.1))
  | negativeBase => exact absurd h.2 (not_lt.mpr hx)
  | noDigits => exact hdigits h.2.1 h.2.2
  | notANumber text => exact h

/-! ## The ways in which a power ends -/

/-- What the result of a power is where its exponent or its base is zero. -/
structure IsPowerAtZero (x y z : Decimal) : Prop where
  exponent : y.toRat = 0 → z.toRat = 1
  base : x.toRat = 0 → 0 < y.toRat → z.toRat = 0

/-- **The ways in which a power ends**: with a fault that has its reason, or with a value where none has one. -/
inductive PowEnds (x y : Decimal) (precision : Nat) : Except Fault Decimal → Prop
  | fault (fault : Fault) : PowFails x y precision fault → PowEnds x y precision (.error fault)
  | value {z : Decimal} : (∀ fault, ¬PowFails x y precision fault) → IsPowerAtZero x y z →
    PowEnds x y precision (.ok z)

theorem powInt_ends {x y : Decimal} {n : Int64} (hy : y.toRat = n.toInt) (hleast : n.toInt ≠ -2 ^ 63)
    (precision : Nat) : PowEnds x y precision (x.powInt n) := by
  have hzero : (powFrom (ofInt 1) x n.toInt.natAbs).toRat = 0 ↔ n.toInt ≠ 0 ∧ x.toRat = 0 := by
    simp [toRat_powFrom_eq_zero_iff, toRat_ofInt]
  have hneg : n < 0 ↔ y.toRat < 0 := by rw [Int64.lt_iff_toInt_lt, Int64.toInt_zero, hy, Int.cast_lt_zero]
  have hne : n.toInt = 0 ↔ y.toRat = 0 := by rw [hy, Int.cast_eq_zero]
  unfold powInt
  split
  next hlarge => exact .fault .overflow ⟨n.toInt, hy, (maxExponent_lt_abs_iff.mp hlarge).2⟩
  next hsmall =>
    have hle : |n.toInt| ≤ 1000000 := not_lt.mp fun h => hsmall (maxExponent_lt_abs_iff.mpr ⟨hleast, h⟩)
    split
    next hn =>
      have hn := hneg.mp hn
      simp only [div]
      split
      next hdivisor =>
        have hbase : x.toRat = 0 := (hzero.mp (toRat_eq_zero_iff.mpr hdivisor)).2
        exact .fault .divisionByZero ⟨hbase, hn, not_tooLarge_of_abs_le hy hle⟩
      next hdivisor =>
        have hbase : x.toRat ≠ 0 := fun h =>
          hdivisor (toRat_eq_zero_iff.mp (hzero.mpr ⟨mt hne.mp hn.ne, h⟩))
        exact .value (not_powFails_of_integer hy hle (fun h => absurd h hbase) precision)
          ⟨fun h => absurd h hn.ne, fun h => absurd h hbase⟩
    next hn =>
      have hnonneg : 0 ≤ y.toRat := not_lt.mp (mt hneg.mpr hn)
      refine .value (not_powFails_of_integer hy hle (fun _ => hnonneg) precision) ⟨fun h => ?_, fun h hpos => ?_⟩
      · rw [hne.mpr h, Int.natAbs_zero, powFrom_zero, toRat_ofInt, Int.cast_one]
      · exact hzero.mpr ⟨mt hne.mp hpos.ne', h⟩

theorem pow_ends (x : Decimal) {y : Decimal} (hleast : y.toRat ≠ -2 ^ 63) (precision : Nat) :
    PowEnds x y precision (x.pow y precision) := by
  unfold pow
  split
  next hinteger =>
    obtain ⟨n, hn⟩ := isInteger_iff.mp hinteger
    split
    next m hm =>
      obtain ⟨hy, hlow, hhigh⟩ := toInt64?_eq_some_iff.mp hm
      have hcast : (m : Int64).toInt = m := toInt_intCast hlow hhigh
      refine powInt_ends (by rw [hcast, hy]) (fun h => hleast ?_) precision
      rw [hy, ← hcast, h]
      norm_num
    next hnone =>
      have hrange := toInt64?_eq_none_iff.mp hnone n hn
      refine .fault .overflow ⟨n, hn, ?_⟩
      by_contra hsmall
      have := abs_le.mp (not_lt.mp hsmall)
      omega
  next hinteger =>
    have hfraction : ¬∃ n : Int, y.toRat = n := fun h => hinteger (isInteger_iff.mpr h)
    have hsmall : ¬TooLarge y := fun h => hfraction (h.imp fun _ hn => hn.1)
    have hne : y.toRat ≠ 0 := fun h => hfraction ⟨0, by rw [h, Int.cast_zero]⟩
    split
    next hzero =>
      have hx : x.toRat = 0 := toRat_eq_zero_iff.mpr hzero
      split
      next hneg => exact .fault .divisionByZero ⟨hx, isNegative_iff.mp hneg, hsmall⟩
      next hpos =>
        have hnonneg : 0 ≤ y.toRat := not_lt.mp fun h => hpos (isNegative_iff.mpr h)
        exact .value (not_powFails_of_fraction hfraction hx.ge (fun _ => hnonneg) fun h => absurd hx h.ne')
          ⟨fun h => absurd h hne, fun _ _ => by rw [toRat_ofInt, Int.cast_zero]⟩
    next hzero =>
      have hx : x.toRat ≠ 0 := fun h => hzero (toRat_eq_zero_iff.mp h)
      split
      next hneg => exact .fault .negativeBase ⟨hfraction, isNegative_iff.mp hneg⟩
      next hpos =>
        have hnonneg : 0 ≤ x.toRat := not_lt.mp fun h => hpos (isNegative_iff.mpr h)
        split
        next hdigits => exact .fault .noDigits ⟨hfraction, lt_of_le_of_ne hnonneg hx.symm, hdigits⟩
        next hdigits =>
          exact .value (not_powFails_of_fraction hfraction hnonneg (fun h => absurd h hx) fun _ => hdigits)
            ⟨fun h => absurd h hne, fun h => absurd h hx⟩

/-! ## The outcome -/

/-- **What comes of a power**: each fault exactly if it has its reason, and a value otherwise. -/
structure PowOutcome (x y : Decimal) (precision : Nat) (result : Except Fault Decimal) : Prop where
  fails : ∀ fault, result = .error fault ↔ PowFails x y precision fault
  succeeds : (∃ z, result = .ok z) ↔ ∀ fault, ¬PowFails x y precision fault
  exponentZero : y.toRat = 0 → ∃ z, result = .ok z ∧ z.toRat = 1
  baseZero : x.toRat = 0 → 0 < y.toRat → ¬TooLarge y → ∃ z, result = .ok z ∧ z.toRat = 0

theorem not_powFails_of_base_zero {x y : Decimal} (hx : x.toRat = 0) (hy : 0 < y.toRat) (hsmall : ¬TooLarge y)
    (precision : Nat) (fault : Fault) : ¬PowFails x y precision fault := by
  by_cases hinteger : ∃ n : Int, y.toRat = n
  · obtain ⟨n, hn⟩ := hinteger
    have hle : |n| ≤ 1000000 := not_lt.mp fun hlarge => hsmall ⟨n, hn, hlarge⟩
    exact not_powFails_of_integer hn hle (fun _ => hy.le) precision fault
  · exact not_powFails_of_fraction hinteger hx.ge (fun _ => hy.le) (fun h => absurd hx h.ne') fault

theorem PowEnds.outcome {x y : Decimal} {precision : Nat} {result : Except Fault Decimal}
    (h : PowEnds x y precision result) : PowOutcome x y precision result := by
  cases h with
  | fault fault hfault =>
    refine ⟨fun other => ⟨fun h => ?_, fun h => ?_⟩, iff_of_false ?_ fun hnone => hnone fault hfault,
      fun hy => ?_, fun hx hy hsmall => ?_⟩
    · cases h
      exact hfault
    · rw [hfault.unique h]
    · rintro ⟨z, hz⟩
      cases hz
    · have hzero : y.toRat = (0 : Int) := by rw [hy, Int.cast_zero]
      exact absurd hfault (not_powFails_of_integer hzero (by decide) (fun _ => hy.ge) precision fault)
    · exact absurd hfault (not_powFails_of_base_zero hx hy hsmall precision fault)
  | @value z hnone hz =>
    refine ⟨fun fault => iff_of_false ?_ (hnone fault), iff_of_true ⟨z, rfl⟩ hnone, fun hy => ?_, fun hx hy _ => ?_⟩
    · exact fun h => nomatch h
    · exact ⟨z, rfl, hz.exponent hy⟩
    · exact ⟨z, rfl, hz.base hx hy⟩

/-! ## The least exponent -/

/-- **The least exponent is taken**: its power is a quotient like those of other negative exponents. -/
theorem pow_least (x : Decimal) {y : Decimal} (hy : y.toRat = -2 ^ 63) (precision : Nat) :
    x.pow y precision = (ofInt 1).div (powFrom (ofInt 1) x (2 ^ 63)) := by
  have hy : y.toRat = (-2 ^ 63 : Int) := by rw [hy]; norm_num
  have hleast : ((-2 ^ 63 : Int) : Int64).toInt = -2 ^ 63 := toInt_intCast (by decide) (by decide)
  have hsmall : ¬maxExponent < ((-2 ^ 63 : Int) : Int64).abs := fun h => (maxExponent_lt_abs_iff.mp h).1 hleast
  have hnegative : ((-2 ^ 63 : Int) : Int64) < 0 := by
    rw [Int64.lt_iff_toInt_lt, hleast, Int64.toInt_zero]
    decide
  rw [pow, if_pos (isInteger_iff.mpr ⟨_, hy⟩), toInt64?_eq_some_iff.mpr ⟨hy, le_rfl, by decide⟩]
  simp only
  rw [powInt, if_neg hsmall, if_pos hnegative, hleast]
  rfl

/-- The least exponent is beyond a million. -/
theorem tooLarge_least {y : Decimal} (hy : y.toRat = -2 ^ 63) : TooLarge y :=
  ⟨-2 ^ 63, by rw [hy]; norm_num, by decide⟩

/-- **When a power fails.** A power has a result unless one of its faults has a reason, and then it is that fault,
for all exponents but the least one of 64 bits. -/
theorem pow_outcome_iff (x y : Decimal) (precision : Nat) :
    PowOutcome x y precision (x.pow y precision) ↔ y.toRat ≠ -2 ^ 63 := by
  refine ⟨fun h hy => ?_, fun hy => (pow_ends x hy precision).outcome⟩
  -- no quotient overflows
  have hfault := (h.fails .overflow).mpr (tooLarge_least hy)
  rw [pow_least x hy, div] at hfault
  split at hfault <;> cases hfault

theorem powFrom_ofInt_one (n : Nat) : powFrom (ofInt 1) (ofInt 1) n = ofInt 1 := by
  have hmul : (ofInt 1).mul (ofInt 1) = ofInt 1 := by decide +kernel
  induction n using Nat.strong_induction_on with
  | _ n ih =>
    by_cases hn : n = 0
    · rw [hn, powFrom_zero]
    rw [powFrom_of_ne_zero _ _ hn, hmul, ite_self]
    split
    · rfl
    · exact ih (n / 2) (by omega)

/-- One to the least exponent is one, though the exponent is beyond a million. -/
theorem pow_one_least :
    TooLarge (ofInt (-2 ^ 63)) ∧ (ofInt 1).pow (ofInt (-2 ^ 63)) 50 = .ok (ofInt 1) ∧
      ¬PowOutcome (ofInt 1) (ofInt (-2 ^ 63)) 50 ((ofInt 1).pow (ofInt (-2 ^ 63)) 50) := by
  have hy : (ofInt (-2 ^ 63)).toRat = -2 ^ 63 := by rw [toRat_ofInt]; norm_num
  have hpow : (ofInt 1).pow (ofInt (-2 ^ 63)) 50 = .ok (ofInt 1) := by
    rw [pow_least _ hy, powFrom_ofInt_one]
    decide +kernel
  refine ⟨tooLarge_least hy, hpow, fun h => ?_⟩
  have hfault := (h.fails .overflow).mpr (tooLarge_least hy)
  rw [hpow] at hfault
  cases hfault

end Cellbook.Decimal
