/-!
# Operators

The operators of formulas, with the spelling in source text and the name of the function that stands
for each in compiled code.
-/

namespace Cellbook

/-- An operator on two operands. -/
inductive BinaryOp where
  | add | sub | mul | div | rem | pow
  | and | or
  | eq | ne | lt | le | gt | ge
  | isIn | notIn | is
deriving DecidableEq, Repr

/-- An operator on one operand. -/
inductive UnaryOp where
  | neg | not
deriving DecidableEq, Repr

namespace BinaryOp

def all : List BinaryOp :=
  [.add, .sub, .mul, .div, .rem, .pow, .and, .or, .eq, .ne, .lt, .le, .gt, .ge, .isIn, .notIn, .is]

theorem mem_all (op : BinaryOp) : op ∈ all := by cases op <;> decide

/-- The spelling in source text. -/
def symbol : BinaryOp → String
  | .add => "+" | .sub => "-" | .mul => "*" | .div => "/" | .rem => "%" | .pow => "**"
  | .and => "and" | .or => "or"
  | .eq => "==" | .ne => "!=" | .lt => "<" | .le => "<=" | .gt => ">" | .ge => ">="
  | .isIn => "in" | .notIn => "not in" | .is => "is"

/-- The name of the function in compiled code. -/
def functionName : BinaryOp → String
  | .add => "__add__" | .sub => "__sub__" | .mul => "__mul__" | .div => "__div__"
  | .rem => "__mod__" | .pow => "__pow__"
  | .and => "__and__" | .or => "__or__"
  | .eq => "__eq__" | .ne => "__ne__" | .lt => "__lt__" | .le => "__le__" | .gt => "__gt__"
  | .ge => "__ge__"
  | .isIn => "__in__" | .notIn => "__not_in__" | .is => "__is__"

/-- The operator with a spelling. -/
def ofSymbol? (symbol : String) : Option BinaryOp := all.find? (·.symbol == symbol)

theorem ofSymbol?_symbol (op : BinaryOp) : ofSymbol? op.symbol = some op := by
  cases op <;> decide

end BinaryOp

namespace UnaryOp

def all : List UnaryOp := [.neg, .not]

theorem mem_all (op : UnaryOp) : op ∈ all := by cases op <;> decide

/-- The spelling in source text. -/
def symbol : UnaryOp → String
  | .neg => "-"
  | .not => "not"

/-- The name of the function in compiled code. -/
def functionName : UnaryOp → String
  | .neg => "__neg__"
  | .not => "__not__"

/-- The operator with a spelling. -/
def ofSymbol? (symbol : String) : Option UnaryOp := all.find? (·.symbol == symbol)

theorem ofSymbol?_symbol (op : UnaryOp) : ofSymbol? op.symbol = some op := by
  cases op <;> decide

end UnaryOp

end Cellbook
