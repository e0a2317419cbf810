import Cellbook.Fault.Source
import Cellbook.Fault.Evaluation

/-!
# Diagnostics

What is reported of a fault: its code and message, and the index in the source text or the notes.
A cell that cannot be run carries its diagnostic through compilation, so a diagnostic need not come
from a fault found here.
-/

namespace Cellbook

/-- The report of a fault. -/
inductive Diagnostic where
  | source (code message : String) (index : Nat)
  | evaluation (code message : String) (notes : List String)
deriving DecidableEq, Repr

/-- The report of a fault in source text. -/
def SourceFault.report (f : SourceFault) : Diagnostic := .source f.code f.message f.index

/-- The report of a fault of evaluation. -/
def EvalFault.report (f : EvalFault) : Diagnostic :=
  .evaluation f.code f.message (f.notes.map (·.message))

namespace Diagnostic

def code : Diagnostic → String
  | .source code _ _ | .evaluation code _ _ => code

def message : Diagnostic → String
  | .source _ message _ | .evaluation _ message _ => message

/-- The report in one line; notes are left out. -/
def toText : Diagnostic → String
  | .source code message index => s!"[{code}] {message} (at index {index})"
  | .evaluation code message _ => s!"[{code}] {message}"

end Diagnostic

end Cellbook
