import Cellbook.Decimal.Arithmetic
import Cellbook.Text.Blank
import Cellbook.Text.Digit

/-!
# The text of a decimal

A number is written in full, `-12.5`, unless that takes more than 64 zeros of padding; then it is
its significand and exponent, `123e102`. Reading accepts more: blanks around the number, a plus
sign, zeros anywhere, a dot with digits on one side only, and an exponent with any of them. It keeps
every written digit.
-/

namespace Cellbook.Decimal

open Text (isDigit digitsValue)

/-! ## Writing -/

/-- The zeros of padding that a number written in full may have. -/
def maxPadding : Nat := 64

/-- The digits of a significand with the dot or the exponent that places them. -/
def placeDigits (ds : List Char) (e : Int) : List Char :=
  let padding := if 0 ≤ e then e.toNat else (-e).toNat - ds.length
  if maxPadding < padding then ds ++ 'e' :: (toString e).toList
  else if 0 ≤ e then ds ++ List.replicate e.toNat '0'
  else
    let places := (-e).toNat
    if places < ds.length then
      ds.take (ds.length - places) ++ '.' :: ds.drop (ds.length - places)
    else '0' :: '.' :: List.replicate (places - ds.length) '0' ++ ds

/-- The characters of a number. -/
def toChars (x : Decimal) : List Char :=
  let body := placeDigits (Nat.toDigits 10 x.significand.natAbs) x.exponent
  if x.isNegative then '-' :: body else body

/-- The text of a number. -/
def toText (x : Decimal) : String := String.ofList x.toChars

instance : ToString Decimal := ⟨toText⟩

/-! ## Reading -/

/-- A sign and what follows it. -/
def splitSign : List Char → Bool × List Char
  | '-' :: rest => (true, rest)
  | '+' :: rest => (false, rest)
  | cs => (false, cs)

/-- An integer of 64 bits: a sign or none, and at least one digit. -/
def readInt64? (cs : List Char) : Option Int :=
  let (negative, ds) := splitSign cs
  if ds.isEmpty || !ds.all isDigit then none
  else
    let n : Int := if negative then -digitsValue ds else digitsValue ds
    if -Int.pow 2 63 ≤ n ∧ n < Int.pow 2 63 then some n else none

/-- The characters before and after the first one that `p` accepts, or no second part. -/
def splitAt? (p : Char → Bool) (cs : List Char) : List Char × Option (List Char) :=
  match cs.dropWhile (!p ·) with
  | [] => (cs, none)
  | _ :: rest => (cs.takeWhile (!p ·), some rest)

/-- The whole digits, the digits of the fraction and the exponent of an unsigned number. -/
def readParts? (cs : List Char) : Option (List Char × List Char × Int) := do
  let (mantissa, exponent) := splitAt? (fun c => c == 'e' || c == 'E') cs
  let e ← match exponent with
    | some ds => readInt64? ds
    | none => some 0
  let (whole, fraction) := splitAt? (· == '.') mantissa
  let fraction := fraction.getD []
  if whole.isEmpty && fraction.isEmpty then none
  else if (whole ++ fraction).all isDigit then some (whole, fraction, e)
  else none

/-- Reads a number, blanks around it left out. The precision is the working one, or the number of
digits from the first one that is not zero, if that is more. -/
def ofText (text : String) : Except Fault Decimal :=
  let cs := Text.trim text.toList
  let (negative, unsigned) := splitSign cs
  match readParts? unsigned with
  | none => .error (.notANumber (String.ofList cs))
  | some (whole, fraction, e) =>
    let ds := whole ++ fraction
    let scale := e - fraction.length
    if scale < -Int.pow 2 63 then .error .overflow
    else
      let n : Int := digitsValue ds
      .ok (ofParts (if negative then -n else n) scale
        (max workingPrecision (ds.dropWhile (· == '0')).length))

end Cellbook.Decimal
