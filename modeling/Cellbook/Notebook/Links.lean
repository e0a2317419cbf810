import Cellbook.Formula.Names
import Cellbook.Graph.Basic
import Cellbook.Notebook.Cell

/-!
# Links between cells

Which cells a cell reads. The free names of its formula are looked up among the cells beside it, then
among those beside its container, and so outward; the first cell of that name in the innermost such
list is meant. A named container reads the named cells in it.
-/

namespace Cellbook

/-- The declared cell of that number. -/
def findCell? (cells : List Declaration) (id : Nat) : Option Declaration := cells.find? (·.id == id)

/-- The first cell of a list that has that name. -/
def findNamed? (cells : List Declaration) (name : String) (ids : List Nat) : Option Nat :=
  ids.find? fun id => (findCell? cells id).any (·.name == some name)

/-- **The cell that a name means**, looked up in lists of cells from the inside out. -/
def resolve? (cells : List Declaration) (scopes : List (List Nat)) (name : String) : Option Nat :=
  scopes.findSome? (findNamed? cells name)

/-- The elements of a list in the order in which they first come. -/
def distinct {α : Type} [BEq α] : List α → List α
  | [] => []
  | a :: as => a :: (distinct as).filter (!· == a)

namespace Declaration

/-- The names in a cell that mean something outside of it, each once. -/
def names (d : Declaration) : List String :=
  match d.formula? with
  | some f => distinct ((f.freeNames d.params).map (·.1))
  | none => []

/-- The names in a cell that mean other cells, with those cells. -/
def references (cells : List Declaration) (d : Declaration) : List (String × Nat) :=
  if d.isScopeOnly then []
  else d.names.filterMap fun name => (resolve? cells d.scopes name).map (name, ·)

/-- The named cells in a container. -/
def namedChildren (cells : List Declaration) (d : Declaration) : List Declaration :=
  (d.body.filterMap (findCell? cells)).filter (·.name.isSome)

/-- **The cells that a cell reads**, each once, in the order in which they first come. -/
def dependsOn (cells : List Declaration) (d : Declaration) : List Nat :=
  if d.isScopeOnly then []
  else distinct ((d.references cells).map (·.2) ++ (d.namedChildren cells).map (·.id))

end Declaration

/-- The graph of the cells that have a value, an edge for each cell that one reads. -/
def linkGraph (cells : List Declaration) : Graph :=
  let valued := cells.filter (!·.isScopeOnly)
  let nodes := valued.foldl (fun g d => g.addNode d.id) Graph.empty
  valued.foldl (fun g d => (d.dependsOn cells).foldl (fun g id => g.addEdge id d.id) g) nodes

end Cellbook
