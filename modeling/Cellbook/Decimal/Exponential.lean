import Cellbook.Decimal.Arithmetic

/-!
# Logarithm and exponential

Both are computed on integers that count units of `10 ^ -places`, with some places more than the
digits that are asked for, and rounded once at the end.

- `ln (m · 10 ^ k) = 2 · artanh ((m - 1) / (m + 1)) + k · ln 10`, with `m` near one.
- `exp y = 10 ^ k · exp r`, where `k` is the whole part of `y / ln 10` and `0 ≤ r < ln 10`.
-/

namespace Cellbook.Decimal

/-- The sum of `z ^ i / i` over odd `i` from `i` on, in units of `1 / one`, where `power` is the first
power of `z`. It ends where a power has become nothing. -/
def artanhFrom (one square : Int) : (steps : Nat) → (power i sum : Int) → Int
  | 0, _, _, sum => sum
  | steps + 1, power, i, sum =>
    if power = 0 then sum
    else artanhFrom one square steps (Int.tdiv (power * square) one) (i + 2) (sum + Int.tdiv power i)

/-- The inverse hyperbolic tangent, for an argument whose square is at most about a third. -/
def artanhFixed (places : Nat) (z : Int) : Int :=
  let one := Int.pow 10 places
  artanhFrom one (z * z / one) (2 * places + 50) z 1 0

/-- The logarithm of ten: `6 · artanh (1 / 3) + 2 · artanh (1 / 9)`. -/
def lnTenFixed (places : Nat) : Int :=
  let one := Int.pow 10 places
  6 * artanhFixed places (one / 3) + 2 * artanhFixed places (one / 9)

/-- The natural logarithm of a positive number to `precision` digits. -/
def ln (x : Decimal) (precision : Nat) : Decimal :=
  let places := 2 * precision + digitCount x.magnitude.natAbs + 20
  let one := Int.pow 10 places
  -- the number is m · 10 ^ k, with m between one and ten, and then nearer to one
  let m := x.significand * one / Int.pow 10 (x.digits - 1)
  let k := x.magnitude - 1
  let (m, k) := if 3 * one < m then (m / 10, k + 1) else (m, k)
  let z := (m - one) * one / (m + one)
  roundedTo precision (2 * artanhFixed places z + k * lnTenFixed places) (-places) precision

/-- The sum of `r ^ i / i !` from `i` on, in units of `1 / one`, where `term` is the first of them. -/
def expFrom (one r : Int) : (steps : Nat) → (term i sum : Int) → Int
  | 0, _, _, sum => sum
  | steps + 1, term, i, sum =>
    if term = 0 then sum else expFrom one r steps (term * r / (one * i)) (i + 1) (sum + term)

/-- A number in units of `10 ^ -places`. -/
def toFixed (x : Decimal) (places : Nat) : Int :=
  let e := x.exponent + places
  if 0 ≤ e then x.significand * Int.pow 10 e.toNat
  else if x.magnitude + places < 0 then 0
  else x.significand / Int.pow 10 (-e).toNat

/-- The exponential of a number, at its precision. -/
def exp (x : Decimal) : Decimal :=
  let places := x.precision + x.magnitude.toNat + 20
  let lnTen := lnTenFixed places
  let y := x.toFixed places
  let k := y / lnTen
  let one := Int.pow 10 places
  roundedTo x.precision (expFrom one (y - k * lnTen) (2 * places + 50) one 1 0) (k - places)
    x.precision

end Cellbook.Decimal
