/-!
# Decimals

A decimal is a significand times a power of ten, together with a precision in digits. It is kept in
one normal form: the significand has no trailing zero, and zero is `0 · 10 ^ 0`. So two decimals
denote the same number exactly when significand and exponent agree, and the precision, which only
says how many digits later operations keep, takes no part in equality or order.

**Rounding.** `Decimal.roundedTo` is the only place where digits are lost: it keeps a number of
digits, and a half goes away from zero.
-/

namespace Cellbook

/-! ## Digits of a natural number -/

/-- Climbs from `power = 10 ^ k` to the first power of ten above `n`, and gives its exponent. -/
def digitCountFrom (n : Nat) : (steps power k : Nat) → Nat
  | 0, _, k => k
  | steps + 1, power, k =>
    if n < power then k else digitCountFrom n steps (power * 10) (k + 1)

/-- **The number of decimal digits** of `n`; zero has none. The climb starts at `10 ^ k` with
`k = 3 / 10 · log₂ n`, which is no more than `n` since `10 ^ 3 ≤ 2 ^ 10`. -/
def digitCount (n : Nat) : Nat :=
  if n = 0 then 0
  else
    let k := n.log2 * 3 / 10
    digitCountFrom n (n.log2 + 2) (Nat.pow 10 k) k

/-- The nearest multiple of `10 ^ k`, in units of `10 ^ k`; a half goes up. -/
def roundUnits (n k : Nat) : Nat :=
  (n + Nat.pow 10 k / 2) / Nat.pow 10 k

/-! ## The type -/

namespace Decimal

/-- A significand and an exponent in normal form. -/
def Normal (significand exponent : Int) : Prop :=
  significand % 10 ≠ 0 ∨ (significand = 0 ∧ exponent = 0)

instance (s e : Int) : Decidable (Normal s e) :=
  inferInstanceAs (Decidable (_ ∨ _))

end Decimal

/-- **A decimal**: `significand · 10 ^ exponent`, with the precision that operations on it keep. -/
structure Decimal where
  significand : Int
  exponent : Int
  precision : Nat
  normal : Decimal.Normal significand exponent
deriving DecidableEq

namespace Decimal

/-- The digits that a number works with when it was written with fewer. -/
def workingPrecision : Nat := 50

/-- Moves the trailing zeros of a significand into the exponent. -/
def stripZeros (s e : Int) : Int × Int :=
  if s % 10 = 0 ∧ s ≠ 0 then stripZeros (s / 10) (e + 1) else (s, e)
termination_by s.natAbs
decreasing_by omega

theorem stripZeros_normal {s : Int} (e : Int) (h : s ≠ 0) : (stripZeros s e).1 % 10 ≠ 0 := by
  fun_induction stripZeros s e with
  | case1 s e hs ih => exact ih (by omega)
  | case2 s e hs => simpa [h] using hs

/-- The decimal `s · 10 ^ e`, whatever zeros `s` ends in. -/
def ofParts (s e : Int) (precision : Nat) : Decimal :=
  if h : s = 0 then ⟨0, 0, precision, .inr ⟨rfl, rfl⟩⟩
  else ⟨(stripZeros s e).1, (stripZeros s e).2, precision, .inl (stripZeros_normal e h)⟩

/-- An integer at working precision. -/
def ofInt (n : Int) : Decimal := ofParts n 0 workingPrecision

instance : Inhabited Decimal := ⟨ofInt 0⟩

/-- The same number with another precision. -/
def withPrecision (x : Decimal) (precision : Nat) : Decimal := { x with precision }

/-- A decimal is made of its significand and exponent. -/
theorem ofParts_self (x : Decimal) (precision : Nat) :
    ofParts x.significand x.exponent precision = x.withPrecision precision := by
  obtain ⟨s, e, p, hnormal⟩ := x
  unfold ofParts withPrecision
  by_cases hs : s = 0
  · obtain rfl : e = 0 := (hnormal.resolve_left (by simp [hs])).2
    simp [hs]
  · have hstrip : stripZeros s e = (s, e) := by
      rw [stripZeros, if_neg fun h => (hnormal.resolve_right fun h' => hs h'.1) h.1]
    simp only [dif_neg hs, hstrip]

/-- The number of significant digits. -/
def digits (x : Decimal) : Nat := digitCount x.significand.natAbs

/-- One more than the exponent of the leading digit: `10 ^ (magnitude - 1) ≤ |x| < 10 ^ magnitude`. -/
def magnitude (x : Decimal) : Int := x.digits + x.exponent

/-! ## Predicates and order -/

def isZero (x : Decimal) : Bool := x.significand == 0

def isNegative (x : Decimal) : Bool := x.significand < 0

/-- In normal form an integer is a number with no negative exponent. -/
def isInteger (x : Decimal) : Bool := 0 ≤ x.exponent

/-- Numbers are equal whatever their precision. -/
instance : BEq Decimal :=
  ⟨fun x y => x.significand == y.significand && x.exponent == y.exponent⟩

/-- Compares `|x|` and `|y|`, by magnitude and then digit for digit at the smaller exponent. Neither
is zero. -/
def compareAbs (x y : Decimal) : Ordering :=
  (compare x.magnitude y.magnitude).then <|
    let e := min x.exponent y.exponent
    compare (x.significand.natAbs * Nat.pow 10 (x.exponent - e).toNat)
      (y.significand.natAbs * Nat.pow 10 (y.exponent - e).toNat)

instance : Ord Decimal where
  compare x y :=
    (compare x.significand.sign y.significand.sign).then <|
      if x.significand < 0 then compareAbs y x
      else if x.significand = 0 then .eq
      else compareAbs x y

/-- The integer that a number is, if it is one of at most 64 bits. -/
def toInt64? (x : Decimal) : Option Int :=
  if 0 ≤ x.exponent ∧ x.exponent ≤ 18 then
    let n := x.significand * Int.pow 10 x.exponent.toNat
    if -Int.pow 2 63 ≤ n ∧ n < Int.pow 2 63 then some n else none
  else none

/-! ## Rounding -/

/-- The nearest multiple of `10 ^ k` to `s`, in units of `10 ^ k`; a half goes away from zero. -/
def roundAway (s : Int) (k : Nat) : Int := s.sign * roundUnits s.natAbs k

/-- `s · 10 ^ e` rounded to a multiple of `10 ^ (e + k)`. -/
def roundedBy (k : Nat) (s e : Int) (precision : Nat) : Decimal :=
  ofParts (roundAway s k) (e + k) precision

/-- **`s · 10 ^ e` rounded to a number of digits.** A shorter number is left alone, and so is every
number when the limit is zero, which stands for no limit. -/
def roundedTo (limit : Nat) (s e : Int) (precision : Nat) : Decimal :=
  if limit = 0 then ofParts s e precision
  else roundedBy (digitCount s.natAbs - limit) s e precision

end Decimal

end Cellbook
