import Cellbook.Code.Basic
import Cellbook.Emission.OfNotebook

/-!
# The program of a notebook

Code as the target that the machine runs. The captures of a function and the reads of a cell are
found in the code itself.
-/

namespace Cellbook

variable {φ : Type}

/-- The target whose code is `Code`. -/
def Target.tree : Target (Code φ) where
  var := .var
  param := .param
  cell := .cell
  literal v := .literal v.toValue
  array := .array
  call := .call
  member := .member
  lambda params body result := .lambda params body result (Code.capturesOf body result)

/-- The cells that statements and a result read. -/
def Code.readsOf (body : Statements φ) (result : Code φ) : List Nat :=
  ascending (Code.cellsBody body ++ result.cells)

/-- The cell of a program that an emitted cell makes. -/
def EmittedCell.toCode (c : EmittedCell (Code φ)) : CellCode φ :=
  ⟨c.id, c.name,
    match c.task with
    | .report d => .report d
    | .run body result => .run body result (Code.readsOf body result)⟩

/-- **The program of a notebook.** -/
def Notebook.program (nb : Notebook) : Program φ := (nb.emit .tree).map (·.toCode)

end Cellbook
