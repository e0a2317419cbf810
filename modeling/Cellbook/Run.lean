import Cellbook.Fault.Evaluation

/-!
# Runs

A run is the evaluation of some code. It ends with a result or a fault, or it stops without either
because function calls are nested deeper than it was allowed; nothing is known then about what the
code would do. A run also hands out identities: every function that it makes is a new one, different
from all others even if it does the same.
-/

namespace Cellbook

/-- The identity of a function: the cell in whose run it was made, and a count within that cell. -/
structure Identity where
  cell : Nat
  serial : Nat
deriving DecidableEq, Repr

def Identity.next (i : Identity) : Identity := { i with serial := i.serial + 1 }

/-- The ways in which a run ends without a result. -/
inductive Halt where
  | fault (f : EvalFault)
  /-- The calls were nested deeper than allowed. -/
  | tooDeep
deriving DecidableEq

/-- **A run**: it takes the next identity to hand out and returns the one after the last. -/
abbrev Run (α : Type) : Type := StateT Identity (Except Halt) α

namespace Run

variable {α : Type}

def fail (cause : EvalCause) (notes : List EvalNote := []) : Run α :=
  throw (.fault ⟨cause, notes⟩)

/-- A run that takes no identity. -/
def ofExcept : Except EvalFault α → Run α
  | .ok a => pure a
  | .error f => throw (.fault f)

instance : MonadLift (Except EvalFault) Run := ⟨ofExcept⟩

/-- The identity of a new function. -/
def newIdentity : Run Identity := modifyGet fun i => (i, i.next)

end Run

end Cellbook
