import Cellbook.Decimal.Basic

/-!
# Decimal arithmetic

Every binary operation works at the larger precision of its operands, and so does its result.

- A **product** is the exact product, rounded.
- A **sum** with zero is the other operand as it is. Otherwise it is the exact sum, rounded; where
  the operands have opposite signs one more digit is kept, since the leading digit may cancel. If
  the smaller operand lies below every digit that is kept, the sum is rounded at the place where the
  larger operand's precision ends.
- A **quotient** is computed to at least the precision in digits and rounded by its remainder, so it
  may have one digit more.
- A **remainder** takes the truncated, rounded quotient: `a - trunc (a / b) · b`.
-/

namespace Cellbook.Decimal

/-- The causes for which an operation on numbers, or the reading of one, has no result. -/
inductive Fault where
  /-- The text is no number. -/
  | notANumber (text : String)
  | divisionByZero
  /-- A fractional power of a negative number. -/
  | negativeBase
  /-- A fractional power to no digits at all. -/
  | noDigits
  | overflow
deriving DecidableEq, Repr

def Fault.message : Fault → String
  | .notANumber text => "Invalid number format: " ++ text
  | .divisionByZero => "Division by zero"
  | .negativeBase => "Domain error: fractional power of negative number"
  | .noDigits => "Domain error: fractional power needs a precision of at least one digit"
  | .overflow => "Overflow: result too large"

/-! ## Signs and whole numbers -/

def neg (x : Decimal) : Decimal :=
  ⟨-x.significand, x.exponent, x.precision, by
    have := x.normal
    unfold Normal at this ⊢
    omega⟩

def abs (x : Decimal) : Decimal := if x.isNegative then x.neg else x

/-- Whether a number is so small that no digit of it comes near the units: `|x| < 1 / 100`. -/
def isTiny (x : Decimal) : Bool := x.magnitude < -1

/-- The whole number that `whole` finds below or above a number with a fraction, given the
significand and the power of ten that divides it. The digits of the fraction are taken off the
precision; a tiny number, whose whole number is `tiny`, has no digits left. -/
def toWhole (x : Decimal) (tiny : Int) (whole : Int → Int → Int) : Decimal :=
  if x.isInteger then x
  else if x.isTiny then ofParts tiny 0 0
  else
    let k := (-x.exponent).toNat
    ofParts (whole x.significand (Int.pow 10 k)) 0 (x.precision - k)

/-- The largest integer that is no larger. -/
def floor (x : Decimal) : Decimal :=
  x.toWhole (if x.isNegative then -1 else 0) (fun s d => s / d)

/-- The smallest integer that is no smaller. -/
def ceil (x : Decimal) : Decimal :=
  x.toWhole (if x.isNegative then 0 else 1) (fun s d => -(-s / d))

/-- The integer part, toward zero. -/
def trunc (x : Decimal) : Decimal := if x.isNegative then x.ceil else x.floor

/-! ## Sums -/

/-- The exact sum of two numbers as significand and exponent. If `low` lies so far below `high` that
a sum of `precision` digits cannot tell it from any other small number of its sign, one unit in such
a place stands for it, so that only a few digits beyond the precision are ever written. -/
def sumParts (precision : Nat) (high low : Decimal) : Int × Int :=
  let gap := (high.exponent - low.exponent).toNat
  let room := precision + 4
  if precision = 0 ∨ gap ≤ room + low.digits then
    (high.significand * Int.pow 10 gap + low.significand, low.exponent)
  else (high.significand * Int.pow 10 room + low.significand.sign, high.exponent - room)

/-- The sum of two numbers other than zero, `high` having the larger exponent. -/
def addOrdered (high low : Decimal) (precision : Nat) : Decimal :=
  let gap := (high.exponent - low.exponent).toNat
  let (s, e) := sumParts precision high low
  if gap = 0 ∨ high.significand.sign = low.significand.sign ∨ precision = 0 then
    roundedTo precision s e precision
  else if low.digits + precision < high.digits + gap then
    roundedBy (high.magnitude - 1 - precision - e).toNat s e precision
  else roundedTo (precision + 1) s e precision

/-- The sum at the larger precision. -/
def add (x y : Decimal) : Decimal :=
  let precision := max x.precision y.precision
  if x.isZero then y.withPrecision precision
  else if y.isZero then x.withPrecision precision
  else if y.exponent ≤ x.exponent then addOrdered x y precision
  else addOrdered y x precision

def sub (x y : Decimal) : Decimal := x.add y.neg

/-! ## Products, quotients, remainders -/

/-- The product at the larger precision. -/
def mul (x y : Decimal) : Decimal :=
  let precision := max x.precision y.precision
  roundedTo precision (x.significand * y.significand) (x.exponent + y.exponent) precision

/-- The places by which a remainder is shifted before it is divided once more: enough for
`precision` digits of quotient, given the digits that the first quotient has. -/
def quotientShift (precision divisorDigits : Nat) (quotient remainder : Nat) : Nat :=
  if remainder = 0 then 0
  else if quotient = 0 then divisorDigits + precision - digitCount remainder
  else precision - digitCount quotient

/-- The quotient of two numbers, the second not zero. -/
def quotient (x y : Decimal) : Decimal :=
  let precision := max x.precision y.precision
  let a := x.significand.natAbs
  let b := y.significand.natAbs
  let shift := quotientShift precision (digitCount b) (a / b) (a % b)
  let rest := a % b * Nat.pow 10 shift
  let whole := a / b * Nat.pow 10 shift + rest / b
  let nearest := if b ≤ 2 * (rest % b) then whole + 1 else whole
  ofParts (x.significand.sign * y.significand.sign * nearest)
    (x.exponent - y.exponent - shift) precision

/-- The quotient at the larger precision; none by zero. -/
def div (x y : Decimal) : Except Fault Decimal :=
  if y.isZero then .error .divisionByZero else .ok (x.quotient y)

/-- The remainder that the truncated quotient leaves. -/
def rem (x y : Decimal) : Except Fault Decimal := do
  let q ← x.div y
  return x.sub (q.trunc.mul y)

end Cellbook.Decimal
