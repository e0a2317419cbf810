import Cellbook.Code.Basic

/-!
# How deep functions are nested

Code writes functions inside functions. A function is made when the code around it runs, so of functions that
are nested deep in the code of a cell there is one for each level at most among those that a call can lead to
(`Code.nesting`). Of a program the nestings of all cells count, since a cell can call the functions that those
before it have made (`Program.nesting`).
-/

namespace Cellbook

variable {φ : Type}

namespace Code

mutual

/-- **How deep the functions that code makes are nested.** -/
def nesting : Code φ → Nat
  | .var _ | .param _ | .cell _ | .literal _ => 0
  | .array items => nestingAll items
  | .call _ args => nestingAll args
  | .member object _ => nesting object
  | .lambda _ body result _ => max (nestingBody body) (nesting result) + 1

def nestingAll : List (Code φ) → Nat
  | [] => 0
  | c :: cs => max (nesting c) (nestingAll cs)

def nestingBody : Statements φ → Nat
  | [] => 0
  | (_, c) :: rest => max (nesting c) (nestingBody rest)

end

end Code

/-- How deep the functions of a cell are nested. -/
def CellTask.nesting : CellTask φ → Nat
  | .report _ | .skip => 0
  | .run body result _ => max (Code.nestingBody body) result.nesting

/-- **How deep the functions of a program are nested**, all cells together. -/
def Program.nesting : Program φ → Nat
  | [] => 0
  | c :: cs => c.task.nesting + nesting cs

end Cellbook
