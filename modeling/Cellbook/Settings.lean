/-!
# Settings

What can be set for an evaluation.
-/

namespace Cellbook

/-- The settings of an evaluation: the digits with which fractional powers are computed, and the
length that a range may have. -/
structure Settings where
  precision : Nat := 50
  maxStreamLength : Nat := 100000
deriving DecidableEq, Repr

end Cellbook
