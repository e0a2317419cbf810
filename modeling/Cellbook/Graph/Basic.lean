import Cellbook.Ascending

/-!
# Dependency graphs

Who depends on whom. A vertex keeps its dependencies in the order in which they were first added, and
the vertices that use it in ascending order. Adding an edge adds its ends first, so every name that
an edge mentions is a vertex, and the two lists of a vertex are the two directions of one relation.
-/

namespace Cellbook

/-- A vertex with the vertices that it depends on and those that depend on it. -/
structure Vertex where
  id : Nat
  dependencies : List Nat
  usedBy : List Nat
deriving DecidableEq, Repr

/-- **A dependency graph**: its vertices in the order in which they were first mentioned. -/
structure Graph where
  vertices : List Vertex
deriving DecidableEq, Repr

namespace Graph

def empty : Graph := ⟨[]⟩

/-- The names of the vertices. -/
def nodes (g : Graph) : List Nat := g.vertices.map (·.id)

def vertex? (g : Graph) (id : Nat) : Option Vertex := g.vertices.find? (·.id == id)

/-- What a vertex depends on. -/
def dependencies (g : Graph) (id : Nat) : List Nat :=
  ((g.vertex? id).map (·.dependencies)).getD []

/-- What depends on a vertex. -/
def usedBy (g : Graph) (id : Nat) : List Nat := ((g.vertex? id).map (·.usedBy)).getD []

/-- Adds a vertex behind the others, unless it is there. -/
def addNode (g : Graph) (id : Nat) : Graph :=
  if g.nodes.contains id then g else ⟨g.vertices ++ [⟨id, [], []⟩]⟩

/-- Adds an element behind the others, unless it is there. -/
def addLast (n : Nat) (ns : List Nat) : List Nat := if ns.contains n then ns else ns ++ [n]

/-- Records an edge at its ends. -/
def Vertex.addEdge (dependency dependent : Nat) (v : Vertex) : Vertex :=
  ⟨v.id,
    if v.id = dependent then addLast dependency v.dependencies else v.dependencies,
    if v.id = dependency then insertAscending dependent v.usedBy else v.usedBy⟩

/-- Records that `dependent` depends on `dependency`. -/
def addEdge (g : Graph) (dependency dependent : Nat) : Graph :=
  ⟨((g.addNode dependency).addNode dependent).vertices.map (Vertex.addEdge dependency dependent)⟩

end Graph

end Cellbook
