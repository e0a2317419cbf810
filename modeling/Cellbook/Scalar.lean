import Cellbook.Decimal.Text
import Cellbook.Text.Quoted

/-!
# Scalars

The values that a single word of source text can write: none, a truth value, a number or a text.
-/

namespace Cellbook

/-- A value without parts. -/
inductive Scalar where
  | protected none
  | boolean (b : Bool)
  | number (x : Decimal)
  | text (s : String)
deriving DecidableEq

namespace Scalar

/-- The text of a scalar as a user reads it. -/
def toText : Scalar → String
  | .none => "none"
  | .boolean b => if b then "true" else "false"
  | .number x => x.toText
  | .text s => s

/-- The text of a scalar where a text must not be taken for anything else. -/
def toQuotedText : Scalar → String
  | .text s => Text.quoted s
  | v => v.toText

end Scalar

end Cellbook
