import Cellbook.Formula.OfNode
import Cellbook.Label
import Cellbook.Source.Node.Parse
import Cellbook.Source.Token.Scan

/-!
# Cells

The cells of a notebook as they are written, one inside the other, and as they are declared, one
after the other with what each says. A cell with cells inside is a container and says nothing of its
own. Of cells with the same number the first one counts, and the others are left out with all that
is in them.
-/

namespace Cellbook

/-- **A cell as it is written.** -/
structure CellSource where
  id : Nat
  name : Option String := none
  input : String := ""
  body : List CellSource := []
  params : List String := []

/-- What a cell says. -/
inductive CellContent where
  /-- Nothing: the cell is a container or blank. -/
  | blank
  | formula (tree : Node) (f : Formula)
  | faulty (fault : SourceFault)

/-- The formula that a text writes in a cell, with its tree. -/
def Formula.read (g : Grammar) (cell : Nat) (text : String) :
    Except SourceFault (Node × Formula) := do
  let tree ← Node.parse g (← Token.scan g text)
  return (tree, ← Formula.ofNode cell tree)

/-- **A declared cell.** `scopes` are the lists of cells among which a name is looked up, from the
inside out: the cell and those beside it, its container and those beside that, and so on. -/
structure Declaration where
  id : Nat
  name : Option String
  params : List String
  body : List Nat
  parent : Option Nat
  scopes : List (List Nat)
  content : CellContent

namespace Declaration

def isContainer (d : Declaration) : Bool := !d.body.isEmpty

/-- Whether a cell does nothing but hold other cells, so that it has no value. -/
def isScopeOnly (d : Declaration) : Bool := d.isContainer && d.name.isNone

def label (d : Declaration) : String := cellLabel d.name d.id

/-- The formula of a cell, if it has one. -/
def formula? (d : Declaration) : Option Formula :=
  match d.content with
  | .formula _ f => some f
  | _ => none

end Declaration

namespace CellSource

/-- What a cell says under a grammar. -/
def content (g : Grammar) (c : CellSource) : CellContent :=
  if !c.body.isEmpty || c.input.toList.all Text.isBlank then .blank
  else
    match Formula.read g c.id c.input with
    | .ok (tree, f) => .formula tree f
    | .error fault => .faulty fault

/-- The declaration of a cell; an empty name is none. -/
def declaration (g : Grammar) (parent : Option Nat) (scopes : List (List Nat)) (c : CellSource) :
    Declaration :=
  { id := c.id
    name := c.name.filter (!·.isEmpty)
    params := c.params
    body := c.body.map (·.id)
    parent
    scopes
    content := c.content g }

mutual

/-- Declares a cell and the cells in it behind those that are declared. -/
def declare (g : Grammar) (parent : Option Nat) (scopes : List (List Nat))
    (declared : List Declaration) : CellSource → List Declaration
  | ⟨id, name, input, body, params⟩ =>
    if declared.any (·.id == id) then declared
    else
      let c : CellSource := ⟨id, name, input, body, params⟩
      declareAll g (some id) (body.map (·.id) :: scopes)
        (declared ++ [c.declaration g parent scopes]) body

/-- Declares cells in order. -/
def declareAll (g : Grammar) (parent : Option Nat) (scopes : List (List Nat))
    (declared : List Declaration) : List CellSource → List Declaration
  | [] => declared
  | c :: cs => declareAll g parent scopes (declare g parent scopes declared c) cs

end

/-- The declarations of the cells of a notebook. -/
def declarations (g : Grammar) (cells : List CellSource) : List Declaration :=
  declareAll g none [cells.map (·.id)] [] cells

end CellSource

end Cellbook
