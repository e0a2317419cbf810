/-!
# Decimal digits

The ten ASCII digits and the number that a list of them writes.
-/

namespace Cellbook.Text

/-- A digit from `0` to `9`; the digits of other scripts are none. -/
def isDigit (c : Char) : Bool := '0' ≤ c && c ≤ '9'

/-- The number that a list of digits writes. -/
def digitsValue (ds : List Char) : Nat := ds.foldl (fun n c => 10 * n + (c.toNat - 48)) 0

@[simp] theorem digitsValue_nil : digitsValue [] = 0 := rfl

/-- A further digit counts units, and the digits before it tens. -/
theorem digitsValue_append (ds : List Char) (c : Char) :
    digitsValue (ds ++ [c]) = 10 * digitsValue ds + (c.toNat - 48) := by
  simp [digitsValue]

end Cellbook.Text
