import Cellbook.Graph.Basic

/-!
# The order of a graph

An order in which every vertex stands behind its dependencies. It is found by going through the
vertices again and again in the order of the graph, each time taking those whose dependencies have
all been taken, in the same round or before. What no round takes lies on a cycle or behind one.
-/

namespace Cellbook

/-- Vertices in an order that respects the dependencies, and those that have none. -/
structure Ordered where
  order : List Nat
  cyclic : List Nat
deriving DecidableEq, Repr

namespace Graph

/-- Whether all dependencies of a vertex have been taken. -/
def isReady (g : Graph) (taken : List Nat) (id : Nat) : Bool :=
  (g.dependencies id).all taken.contains

/-- One round: goes through the vertices in `left`, taking the ones that are ready. -/
def round (g : Graph) : (left taken : List Nat) → Ordered
  | [], taken => ⟨taken, []⟩
  | id :: left, taken =>
    if g.isReady taken id then round g left (taken ++ [id])
    else
      let rest := round g left taken
      { rest with cyclic := id :: rest.cyclic }

/-- Rounds until one takes nothing or nothing is left, but at most `rounds` of them. -/
def rounds (g : Graph) : (rounds : Nat) → Ordered → Ordered
  | 0, o => o
  | n + 1, o =>
    let next := g.round o.cyclic o.order
    if next.cyclic.length = o.cyclic.length then next else rounds g n next

/-- **The order of a graph.** Every round but the last takes a vertex, so there are no more of them
than vertices and one. -/
def ordered (g : Graph) : Ordered := g.rounds (g.nodes.length + 1) ⟨[], g.nodes⟩

end Graph

end Cellbook
