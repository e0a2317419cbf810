import Cellbook.Decimal.Exponential

/-!
# Powers

An integer power is taken by repeated squaring, each product rounded, for exponents up to a million
either way. A fractional one goes through the logarithm and the exponential, which need a positive
base and at least one digit of precision.

An integer exponent has 64 bits, and so has its absolute value. The least of these integers has none: its
absolute value comes round to itself, as arithmetic does that is not checked for overflow.
-/

namespace Cellbook.Decimal

/-- An integer as one of 64 bits; what they cannot hold comes round. -/
instance : IntCast Int64 where
  intCast := Int64.ofInt

/-- The largest exponent of an integer power. -/
def maxExponent : Int64 := 1000000

/-- `result · base ^ n`: the base is multiplied in for each binary digit of `n` that is one, and squared
as long as there are digits left. What comes of a product is left to `mul`. -/
def powBy {m : Type → Type} [Monad m] (mul : Decimal → Decimal → m Decimal)
    (result base : Decimal) (n : Nat) : m Decimal :=
  if n = 0 then pure result
  else
    (if n % 2 = 1 then mul result base else pure result) >>= fun result =>
      if n / 2 = 0 then pure result
      else mul base base >>= fun square => powBy mul result square (n / 2)
termination_by n
decreasing_by omega

/-- `result · base ^ n` by rounded products. -/
def powFrom (result base : Decimal) (n : Nat) : Decimal :=
  Id.run (powBy (fun x y => pure (x.mul y)) result base n)

/-- The integer power; a negative one is the quotient of one by the positive one. -/
def powInt (x : Decimal) (n : Int64) : Except Fault Decimal :=
  if maxExponent < n.abs then .error .overflow
  else
    let power := powFrom (ofInt 1) x n.toInt.natAbs
    if n < 0 then (ofInt 1).div power else .ok power

/-- **The power of a number.** `precision` is the number of digits of the logarithm that a fractional
exponent needs. -/
def pow (x y : Decimal) (precision : Nat) : Except Fault Decimal :=
  if y.isInteger then
    match y.toInt64? with
    | some n => x.powInt n
    | none => .error .overflow
  else if x.isZero then
    if y.isNegative then .error .divisionByZero else .ok (ofInt 0)
  else if x.isNegative then .error .negativeBase
  else if precision = 0 then .error .noDigits
  else
    let base := roundedTo precision x.significand x.exponent precision
    .ok ((base.ln precision).mul y).exp

end Cellbook.Decimal
