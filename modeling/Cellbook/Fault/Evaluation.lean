import Cellbook.Operator
import Cellbook.Value.Basic
import Cellbook.Decimal.Arithmetic

/-!
# Faults of evaluation

Why a cell has no value. A fault stops the cell in which it arises and no other one; a cell that
reads the failed one fails by itself, with a note that says so.
-/

namespace Cellbook

/-- The causes for which a cell has no value. -/
inductive EvalCause where
  /-- An operator, or indexing, on kinds of values that it does not take. -/
  | unsupported (operator : String) (left right : Kind)
  | unsupportedUnary (operator : UnaryOp) (operand : Kind)
  | unresolved (name : String)
  | cyclic (labels : List String)
  | arithmetic (fault : Decimal.Fault)
  /-- A range whose first two elements are the same. -/
  | zeroStep
  | notCallable (kind : Kind)
  | noMatchingSignature (count : Nat)
  | indexOutOfRange (index : Int) (length : Nat)
  | undefinedField (name : String)
  | unboundedRange
  | lengthMismatch (left right : Nat)
  | argumentCount (function : String) (expected got : Nat)
  | argumentKind (function expected : String) (got : Kind)
  | streamTooLong (limit : Nat)
  /-- Code that reads a variable before it is set; compiled formulas never do. -/
  | unboundVariable (var : Nat)
deriving DecidableEq

namespace EvalCause

def code : EvalCause → String
  | .unsupported _ _ _ | .unsupportedUnary _ _ => "UNSUPPORTED_OPERATION"
  | .unresolved _ => "UNRESOLVED_REFERENCE"
  | .cyclic _ => "CYCLIC_DEPENDENCY"
  | .arithmetic .divisionByZero => "DIV_ZERO"
  | .arithmetic .overflow => "OVERFLOW"
  | .arithmetic _ | .zeroStep => "DOMAIN_ERROR"
  | .notCallable _ => "NOT_CALLABLE"
  | .noMatchingSignature _ => "NO_MATCHING_SIGNATURE"
  | .indexOutOfRange _ _ => "INDEX_OUT_OF_RANGE"
  | .undefinedField _ => "UNDEFINED_FIELD"
  | .unboundedRange => "UNBOUNDED_RANGE"
  | .lengthMismatch _ _ => "LENGTH_MISMATCH"
  | .argumentCount _ _ _ => "ARG_COUNT"
  | .argumentKind _ _ _ => "ARG_TYPE"
  | .streamTooLong _ => "STREAM_TOO_LONG"
  | .unboundVariable _ => "INTERNAL"

def message : EvalCause → String
  | .unsupported op left right => s!"Unsupported operation: {left.name} {op} {right.name}"
  | .unsupportedUnary op operand => s!"Unsupported operation: {op.symbol} {operand.name}"
  | .unresolved name => s!"Unresolved reference: {name}"
  | .cyclic labels => "Cyclic dependency: " ++ String.intercalate " → " labels
  | .arithmetic .overflow => "Numeric overflow"
  | .arithmetic (.notANumber text) => s!"Domain error: invalid number {text}"
  | .arithmetic fault => fault.message
  | .zeroStep => "Domain error: range step is zero"
  | .notCallable kind => s!"Value of type {kind.name} is not callable"
  | .noMatchingSignature count => s!"No signature accepts {count} argument(s)"
  | .indexOutOfRange index length => s!"Index {index} out of range for length {length}"
  | .undefinedField name => s!"Undefined field: {name}"
  | .unboundedRange => "Range has no end bound"
  | .lengthMismatch left right => s!"Stream length mismatch: {left} vs {right}"
  | .argumentCount function expected got =>
    s!"{function} expects {expected} argument(s), got {got}"
  | .argumentKind function expected got => s!"{function}: expected {expected}, got {got.name}"
  | .streamTooLong limit => s!"Generated stream exceeds {limit} elements"
  | .unboundVariable var => s!"Internal error: unbound variable v{var}"

end EvalCause

/-- What a fault of evaluation has to add to its cause. -/
inductive EvalNote where
  /-- The cell that was read failed, with the report that follows. -/
  | cellFailed (label report : String)
  /-- The cell waits for a cell on a cycle. -/
  | behindCycle (label : String)
  | noFields (kind : Kind)
deriving DecidableEq

def EvalNote.message : EvalNote → String
  | .cellFailed label report => s!"{label} failed: {report}"
  | .behindCycle label => s!"{label} depends on a cyclic cell"
  | .noFields kind => s!"value of type {kind.name} has no fields"

/-- **A fault of evaluation**: its cause and notes. -/
structure EvalFault where
  cause : EvalCause
  notes : List EvalNote := []
deriving DecidableEq

namespace EvalFault

def code (f : EvalFault) : String := f.cause.code

def message (f : EvalFault) : String := f.cause.message

end EvalFault

end Cellbook
