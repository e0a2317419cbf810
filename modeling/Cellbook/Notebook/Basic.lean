import Cellbook.Fault.Evaluation
import Cellbook.Graph.Cycles
import Cellbook.Graph.Order
import Cellbook.Notebook.Links

/-!
# Notebooks

A notebook is its cells with the links between them, an order in which each cell stands behind those
that it reads, and a fault for every cell that has no place in such an order: it lies on a cycle, or
it waits for a cell that does.
-/

namespace Cellbook

/-- A cell with its links. -/
structure Cell extends Declaration where
  references : List (String × Nat)
  dependsOn : List Nat

/-- **A notebook.** -/
structure Notebook where
  cells : List Cell
  graph : Graph
  evalOrder : List Nat
  cyclicCells : List Nat
  /-- Why each of the cyclic cells cannot be evaluated. -/
  cycleFaults : List (Nat × EvalFault)

/-- A cell with its links, among all cells. -/
def Declaration.link (cells : List Declaration) (d : Declaration) : Cell :=
  { d with references := d.references cells, dependsOn := d.dependsOn cells }

/-- The name by which messages speak of the cell with that number. -/
def labelOf (cells : List Declaration) (id : Nat) : String :=
  match findCell? cells id with
  | some d => d.label
  | none => cellLabel none id

/-- The fault of a cell that has no place in the order, given the cycles and the labels of the cells
on each. -/
def cycleFault (cells : List Declaration) (g : Graph) (cyclic : List Nat)
    (cycles : List (List Nat × List String)) (id : Nat) : EvalFault :=
  match cycles.find? (·.1.contains id) with
  | some (_, labels) => ⟨.cyclic labels, []⟩
  | none =>
    let blocker := ((g.dependencies id).find? cyclic.contains).getD id
    ⟨.unresolved (labelOf cells blocker), [.behindCycle (labelOf cells id)]⟩

namespace Notebook

/-- **The notebook that cells make** under a grammar. -/
def build (g : Grammar) (sources : List CellSource) : Notebook :=
  let declared := CellSource.declarations g sources
  let graph := linkGraph declared
  let ordered := graph.ordered
  let cycles := (graph.cycles ordered.cyclic).map fun ids => (ids, ids.map (labelOf declared))
  { cells := declared.map (·.link declared)
    graph
    evalOrder := ordered.order
    cyclicCells := ordered.cyclic
    cycleFaults :=
      ordered.cyclic.map fun id => (id, cycleFault declared graph ordered.cyclic cycles id) }

def cell? (n : Notebook) (id : Nat) : Option Cell := n.cells.find? (·.id == id)

def cycleFault? (n : Notebook) (id : Nat) : Option EvalFault := n.cycleFaults.lookup id

/-- The cell that a name means as seen from a cell. -/
def resolve? (n : Notebook) (id : Nat) (name : String) : Option Nat :=
  (n.cell? id).bind fun c => Cellbook.resolve? (n.cells.map (·.toDeclaration)) c.scopes name

end Notebook

end Cellbook
