import Cellbook.Emission.OfFormula
import Cellbook.Fault.Diagnostic
import Cellbook.Notebook.Basic

/-!
# The code of a notebook

Every cell with a value is emitted in the order of evaluation, and behind them stand the cells that
have no place in that order, each with the fault that says why. A formula in a cell with parameters
becomes a function of them, and a container becomes an object of the named cells in it.
-/

namespace Cellbook

/-- What is emitted for a cell. -/
inductive EmittedTask (κ : Type) where
  /-- The cell cannot run. -/
  | report (diagnostic : Diagnostic)
  /-- Statements and a result. -/
  | run (statements : List (Nat × κ)) (result : κ)

/-- An emitted cell. -/
structure EmittedCell (κ : Type) where
  id : Nat
  name : Option String
  task : EmittedTask κ

def EmittedCell.label {κ : Type} (c : EmittedCell κ) : String := cellLabel c.name c.id

section

variable {κ : Type}

/-- Emits an object of cells, beginning with `object`. -/
def emitFields (t : Target κ) (object : κ) : List (String × Nat) → Emit κ κ
  | [] => return object
  | (name, id) :: fields => do
    let object ← Emit.call t .insert [object, t.literal (.text name), t.cell id]
    emitFields t object fields

/-- Emits the value of a cell: its fields if it is a container, else its formula. -/
def Cell.emitValue (t : Target κ) (fields : List (String × Nat)) (c : Cell) : Emit κ κ :=
  let scope : Scope := ⟨c.params, c.references⟩
  if c.isContainer then do emitFields t (← Emit.call t .map []) fields
  else
    match c.formula? with
    | none => return t.literal .none
    | some f => if c.params.isEmpty then f.emit t scope else Emit.lambda t c.params (f.emit t scope)

namespace Notebook

/-- The named cells in a cell. -/
def fields (nb : Notebook) (c : Cell) : List (String × Nat) :=
  (c.body.filterMap nb.cell?).filterMap fun child => child.name.map (·, child.id)

/-- Emits a cell. -/
def emitCell (t : Target κ) (nb : Notebook) (c : Cell) : Emit κ (EmittedCell κ) :=
  match c.content with
  | .faulty fault => return ⟨c.id, c.name, .report fault.report⟩
  | _ => do
    let (statements, result) ← Emit.enclosed (c.emitValue t (nb.fields c))
    return ⟨c.id, c.name, .run statements result⟩

/-- Emits cells one after the other. -/
def emitCells (t : Target κ) (nb : Notebook) : List Cell → Emit κ (List (EmittedCell κ))
  | [] => return []
  | c :: cs => do
    let cell ← nb.emitCell t c
    return cell :: (← emitCells t nb cs)

/-- The cells that cannot be evaluated, with their faults. -/
def cyclicReports (nb : Notebook) : List (EmittedCell κ) :=
  nb.cyclicCells.filterMap fun id => do
    let c ← nb.cell? id
    let fault ← nb.cycleFault? id
    return ⟨c.id, c.name, .report fault.report⟩

/-- **Emits a notebook**: its cells in order. -/
def emit (t : Target κ) (nb : Notebook) : List (EmittedCell κ) :=
  (nb.emitCells t (nb.evalOrder.filterMap nb.cell?) 0).1 ++ nb.cyclicReports

end Notebook

end

end Cellbook
