import Cellbook.Ascending
import Cellbook.Code.Builtin
import Cellbook.Fault.Diagnostic
import Cellbook.Label

/-!
# Compiled code

Code is a tree of calls to built-in functions. The steps of a cell, or of a function, are statements
that set numbered variables one after the other, and a result. A function names its parameters and
lists the variables from around it that it reads, its captures.
-/

namespace Cellbook

/-- **Code** over function bodies `φ`, which only values written into the code bring with them. -/
inductive Code (φ : Type) where
  | var (n : Nat)
  | param (name : String)
  | cell (id : Nat)
  | literal (v : Value φ)
  | array (items : List (Code φ))
  | call (builtin : Builtin) (args : List (Code φ))
  | member (object : Code φ) (attr : String)
  | lambda (params : List String) (body : List (Nat × Code φ)) (result : Code φ)
      (captures : List Nat)

/-- Variables and what they are set to, in order. -/
abbrev Statements (φ : Type) := List (Nat × Code φ)

/-- What there is to do for a cell. -/
inductive CellTask (φ : Type) where
  /-- Nothing, since the cell cannot run. -/
  | report (diagnostic : Diagnostic)
  /-- Statements and a result, which may read only the cells listed. -/
  | run (body : Statements φ) (result : Code φ) (reads : List Nat)
  /-- Nothing; the cell is none. -/
  | skip

/-- A cell of a program. -/
structure CellCode (φ : Type) where
  id : Nat
  name : Option String
  task : CellTask φ

def CellCode.label {φ : Type} (c : CellCode φ) : String := cellLabel c.name c.id

/-- **A program**: cells in the order in which they run. -/
abbrev Program (φ : Type) := List (CellCode φ)

/-! ## What code reads -/

namespace Code

variable {φ : Type}

mutual

/-- The variables that code reads; of a function, its captures. -/
def vars : Code φ → List Nat
  | .var n => [n]
  | .param _ | .cell _ | .literal _ => []
  | .array items => varsAll items
  | .call _ args => varsAll args
  | .member object _ => vars object
  | .lambda _ _ _ captures => captures

def varsAll : List (Code φ) → List Nat
  | [] => []
  | c :: cs => vars c ++ varsAll cs

end

mutual

/-- The cells that code reads, inside its functions too. -/
def cells : Code φ → List Nat
  | .var _ | .param _ | .literal _ => []
  | .cell id => [id]
  | .array items => cellsAll items
  | .call _ args => cellsAll args
  | .member object _ => cells object
  | .lambda _ body result _ => cellsBody body ++ cells result

def cellsAll : List (Code φ) → List Nat
  | [] => []
  | c :: cs => cells c ++ cellsAll cs

def cellsBody : Statements φ → List Nat
  | [] => []
  | (_, c) :: rest => cells c ++ cellsBody rest

end

/-- **The captures of a function**: the variables that its statements and result read and that none
of its statements sets. -/
def capturesOf (body : Statements φ) (result : Code φ) : List Nat :=
  let read := body.flatMap (fun (_, c) => c.vars) ++ result.vars
  ascending (read.filter fun n => !(body.map (·.1)).contains n)

mutual

/-- The captures of the functions in code, outer ones first. -/
def captureLists : Code φ → List (List Nat)
  | .var _ | .param _ | .cell _ | .literal _ => []
  | .array items => captureListsAll items
  | .call _ args => captureListsAll args
  | .member object _ => captureLists object
  | .lambda _ body result captures =>
    captures :: (captureListsBody body ++ captureLists result)

def captureListsAll : List (Code φ) → List (List Nat)
  | [] => []
  | c :: cs => captureLists c ++ captureListsAll cs

def captureListsBody : Statements φ → List (List Nat)
  | [] => []
  | (_, c) :: rest => captureLists c ++ captureListsBody rest

end

end Code

end Cellbook
