import Cellbook.Proofs.Decimal.Value

/-!
# Decimals that are integers

A decimal denotes an integer just if it has no place behind the point (`isInteger_iff`). As a position or as an
exponent it is taken for an integer of 64 bits, and `toInt64?_eq_some_iff` says that none of these is missed: a number
that is refused for its exponent is too large whatever its digits are.
-/

namespace Cellbook.Decimal

/-- **A number is an integer** just if its last place is no fraction. -/
theorem isInteger_iff {x : Decimal} : x.isInteger = true ↔ ∃ n : Int, x.toRat = n := by
  rw [isInteger, decide_eq_true_eq]
  constructor
  · intro h
    exact ⟨_, toRat_of_exponent_nonneg h⟩
  · rintro ⟨n, hn⟩
    have hsame : (x == ofParts n 0 0) = true := by
      rw [beq_iff_toRat_eq, hn, toRat_ofParts, zpow_zero, mul_one]
    obtain ⟨-, hexponent⟩ := beq_iff.mp hsame
    rw [hexponent]
    by_cases hzero : n = 0
    · simp [ofParts, hzero]
    · exact le_exponent_ofParts hzero 0 0

/-- A number with a place above the eighteenth has more than 64 bits. -/
theorem exponent_le_of_int64 {x : Decimal} {n : Int} (hn : x.toRat = n) (hlow : -2 ^ 63 ≤ n) (hhigh : n < 2 ^ 63) :
    x.exponent ≤ 18 := by
  by_contra hlarge
  have hne : x.significand ≠ 0 := fun hs => by
    have := (x.normal.resolve_left (by simp [hs])).2
    omega
  have hdigit : (1 : ℚ) ≤ x.significand.natAbs := by exact_mod_cast Int.natAbs_pos.mpr hne
  have hsize : (10 : ℚ) ^ (19 : Int) ≤ |(n : ℚ)| :=
    calc (10 : ℚ) ^ (19 : Int) ≤ 10 ^ x.exponent := zpow_le_zpow_right₀ (by norm_num) (by omega)
      _ ≤ x.significand.natAbs * 10 ^ x.exponent := le_mul_of_one_le_left (ten_zpow_pos _).le hdigit
      _ = |(n : ℚ)| := by rw [← abs_toRat, hn]
  have hint : (10 : Int) ^ 19 ≤ |n| := by exact_mod_cast hsize
  have : (2 : Int) ^ 63 < 10 ^ 19 := by norm_num
  have hbound : |n| ≤ 2 ^ 63 := abs_le.mpr ⟨hlow, hhigh.le⟩
  omega

/-- **The integers that are read from numbers** are those of 64 bits. -/
theorem toInt64?_eq_some_iff {x : Decimal} {n : Int} :
    x.toInt64? = some n ↔ x.toRat = n ∧ -2 ^ 63 ≤ n ∧ n < 2 ^ 63 := by
  have hpow : Int.pow 10 x.exponent.toNat = 10 ^ x.exponent.toNat := rfl
  have hbits : Int.pow 2 63 = 2 ^ 63 := rfl
  unfold toInt64?
  simp only [hpow, hbits]
  constructor
  · intro h
    split at h
    next hexponent =>
      split at h
      next hrange =>
        obtain rfl := Option.some.inj h
        exact ⟨toRat_of_exponent_nonneg hexponent.1, hrange⟩
      next => cases h
    next => cases h
  · rintro ⟨hn, hrange⟩
    have hnonneg : 0 ≤ x.exponent := of_decide_eq_true (isInteger_iff.mpr ⟨n, hn⟩)
    have hvalue : x.significand * 10 ^ x.exponent.toNat = n := by
      exact_mod_cast (toRat_of_exponent_nonneg hnonneg).symm.trans hn
    rw [if_pos ⟨hnonneg, exponent_le_of_int64 hn hrange.1 hrange.2⟩, hvalue, if_pos hrange]

/-- A number that is not read as an integer is none, or one of more than 64 bits. -/
theorem toInt64?_eq_none_iff {x : Decimal} :
    x.toInt64? = none ↔ ∀ n : Int, x.toRat = n → ¬(-2 ^ 63 ≤ n ∧ n < 2 ^ 63) := by
  rw [Option.eq_none_iff_forall_ne_some]
  exact forall_congr' fun n => by rw [Ne, toInt64?_eq_some_iff, not_and]

end Cellbook.Decimal
