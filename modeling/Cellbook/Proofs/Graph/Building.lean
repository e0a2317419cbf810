import Mathlib.Data.List.Nodup
import Mathlib.Logic.Relation
import Cellbook.Graph.Basic

/-!
# Graphs that are built step by step

A graph comes about by adding vertices and edges in any order and with any repetitions. What each of
the two does is said once, in terms of what can be read off a graph: its vertices, what a vertex
depends on, and what uses it. From this follows the invariant of every graph that is built (`Graph.Sound`): no vertex
is listed twice, and whatever a vertex depends on is a vertex.

The relation of dependency is stated here too, with the two notions that orders and cycles are about:
to lie on a cycle, and to reach one.
-/

namespace Cellbook

open Relation

namespace Graph

theorem mem_addLast {a n : Nat} {ns : List Nat} : a ∈ addLast n ns ↔ a = n ∨ a ∈ ns := by
  unfold addLast
  split
  next h =>
    have hn : n ∈ ns := by simpa only [List.contains_iff_mem] using h
    exact ⟨.inr, fun h => h.elim (fun e => e ▸ hn) id⟩
  next => rw [List.mem_append, List.mem_singleton, or_comm]

theorem addLast_of_mem {n : Nat} {ns : List Nat} (h : n ∈ ns) : addLast n ns = ns :=
  if_pos (by simpa only [List.contains_iff_mem] using h)

theorem addLast_of_not_mem {n : Nat} {ns : List Nat} (h : n ∉ ns) : addLast n ns = ns ++ [n] :=
  if_neg (by simpa only [List.contains_iff_mem] using h)

theorem addLast_nodup {n : Nat} {ns : List Nat} (h : ns.Nodup) : (addLast n ns).Nodup := by
  by_cases hn : n ∈ ns
  · rwa [addLast_of_mem hn]
  · rw [addLast_of_not_mem hn]
    exact List.nodup_append.mpr ⟨h, List.nodup_singleton n, fun a ha b hb => by
      rw [List.mem_singleton.mp hb]; exact fun e => hn (e ▸ ha)⟩

/-! ## What the two steps do -/

theorem vertex?_eq_none {g : Graph} {id : Nat} : g.vertex? id = none ↔ id ∉ g.nodes := by
  simp [vertex?, nodes]

theorem nodes_addNode (g : Graph) (id : Nat) : (g.addNode id).nodes = addLast id g.nodes := by
  unfold addNode addLast
  split
  · rfl
  · simp [nodes]

/-- One of the lists of a vertex. -/
def listAt (g : Graph) (list : Vertex → List Nat) (id : Nat) : List Nat := ((g.vertex? id).map list).getD []

/-- The lists of a new vertex are empty, and those of the others stay. -/
theorem listAt_addNode (g : Graph) (id x : Nat) {list : Vertex → List Nat} (hnew : list ⟨id, [], []⟩ = []) :
    (g.addNode id).listAt list x = g.listAt list x := by
  unfold addNode
  split
  · rfl
  next h =>
    have hid : id ∉ g.nodes := by simpa only [List.contains_iff_mem] using h
    by_cases hx : x = id
    · subst hx
      have hnone := vertex?_eq_none.mpr hid
      simp only [vertex?] at hnone
      simp [listAt, vertex?, List.find?_append, hnone, hnew]
    · simp [listAt, vertex?, List.find?_append, beq_false_of_ne (Ne.symm hx)]

/-- A new vertex depends on nothing, and the others on what they did. -/
theorem dependencies_addNode (g : Graph) (id x : Nat) :
    (g.addNode id).dependencies x = g.dependencies x := g.listAt_addNode id x rfl

/-- A new vertex is used by nothing, and the others by what they were. -/
theorem usedBy_addNode (g : Graph) (id x : Nat) : (g.addNode id).usedBy x = g.usedBy x := g.listAt_addNode id x rfl

theorem nodes_addEdge (g : Graph) (a b : Nat) :
    (g.addEdge a b).nodes = addLast b (addLast a g.nodes) := by
  rw [← nodes_addNode, ← nodes_addNode]
  simp [nodes, addEdge, Vertex.addEdge]

/-- An edge changes a list at one of its ends only, which is a vertex by then. -/
theorem listAt_addEdge (g : Graph) (a b x : Nat) {list : Vertex → List Nat} {add : List Nat → List Nat} {c : Nat}
    (hnew : ∀ id, list ⟨id, [], []⟩ = []) (hc : c = b ∨ c = a)
    (hlist : ∀ v, list (Vertex.addEdge a b v) = if v.id = c then add (list v) else list v) :
    (g.addEdge a b).listAt list x = if x = c then add (g.listAt list x) else g.listAt list x := by
  set g' := (g.addNode a).addNode b with hg'
  have hsame : g'.listAt list x = g.listAt list x := by
    rw [hg', listAt_addNode _ _ _ (hnew b), listAt_addNode _ _ _ (hnew a)]
  have hfind : (g.addEdge a b).vertex? x = (g'.vertex? x).map (Vertex.addEdge a b) := by
    show List.find? _ (List.map _ _) = _
    rw [List.find?_map]
    rfl
  rw [← hsame, listAt, hfind, listAt]
  cases hv : g'.vertex? x with
  | none =>
    have hx : x ≠ c := by
      rintro rfl
      refine vertex?_eq_none.mp hv ?_
      rw [hg', nodes_addNode, nodes_addNode, mem_addLast, mem_addLast]
      exact hc.imp_right .inl
    rw [if_neg hx]
    rfl
  | some v =>
    have hid : v.id = x := by simpa using List.find?_some hv
    simp only [Option.map_some, Option.getD_some, hlist, hid]

/-- An edge adds its dependency to the dependent, behind what that depended on before. -/
theorem dependencies_addEdge (g : Graph) (a b x : Nat) :
    (g.addEdge a b).dependencies x =
      if x = b then addLast a (g.dependencies x) else g.dependencies x :=
  g.listAt_addEdge a b x (fun _ => rfl) (.inl rfl) fun _ => rfl

/-- An edge adds its dependent to what uses the dependency. -/
theorem usedBy_addEdge (g : Graph) (a b x : Nat) :
    (g.addEdge a b).usedBy x = if x = a then insertAscending b (g.usedBy x) else g.usedBy x :=
  g.listAt_addEdge a b x (fun _ => rfl) (.inr rfl) fun _ => rfl

end Graph

/-! ## Building -/

/-- A step in which a graph is built. -/
inductive GraphStep where
  | node (id : Nat)
  | edge (dependency dependent : Nat)
deriving DecidableEq, Repr

/-- The vertices that a step mentions. -/
def GraphStep.mentions : GraphStep → List Nat
  | .node id => [id]
  | .edge dependency dependent => [dependency, dependent]

/-- What a step makes a vertex depend on. -/
def GraphStep.into? (id : Nat) : GraphStep → Option Nat
  | .node _ => none
  | .edge dependency dependent => if dependent = id then some dependency else none

namespace Graph

def step (g : Graph) : GraphStep → Graph
  | .node id => g.addNode id
  | .edge dependency dependent => g.addEdge dependency dependent

/-- The graph that steps build. -/
def build (steps : List GraphStep) : Graph := steps.foldl step empty

/-- **What holds of a graph however it was built.** -/
structure Sound (g : Graph) : Prop where
  nodup : g.nodes.Nodup
  closed : ∀ id, ∀ d ∈ g.dependencies id, d ∈ g.nodes

theorem Sound.empty : Sound empty := ⟨List.nodup_nil, fun _ _ h => absurd h List.not_mem_nil⟩

theorem Sound.addNode {g : Graph} (h : g.Sound) (id : Nat) : (g.addNode id).Sound where
  nodup := by
    rw [nodes_addNode]
    exact addLast_nodup h.nodup
  closed x d hd := by
    rw [dependencies_addNode] at hd
    rw [nodes_addNode]
    exact mem_addLast.mpr (.inr (h.closed x d hd))

theorem Sound.addEdge {g : Graph} (h : g.Sound) (a b : Nat) : (g.addEdge a b).Sound where
  nodup := by
    rw [nodes_addEdge]
    exact addLast_nodup (addLast_nodup h.nodup)
  closed x d hd := by
    rw [dependencies_addEdge] at hd
    rw [nodes_addEdge, mem_addLast, mem_addLast]
    split at hd
    · rcases mem_addLast.mp hd with rfl | hd
      · exact .inr (.inl rfl)
      · exact .inr (.inr (h.closed x d hd))
    · exact .inr (.inr (h.closed x d hd))

theorem Sound.step {g : Graph} (h : g.Sound) (s : GraphStep) : (g.step s).Sound := by
  cases s with
  | node id => exact h.addNode id
  | edge a b => exact h.addEdge a b

theorem build_sound (steps : List GraphStep) : (build steps).Sound := by
  suffices ∀ g : Graph, g.Sound → (steps.foldl Graph.step g).Sound from this _ Sound.empty
  induction steps with
  | nil => exact fun g h => h
  | cons s steps ih => exact fun g h => ih _ (h.step s)

/-! ## What was built -/

/-- Adds elements one after the other, each unless it is there. -/
def addAllLast (ns new : List Nat) : List Nat := new.foldl (fun ns n => addLast n ns) ns

theorem mem_addAllLast {a : Nat} {ns new : List Nat} : a ∈ addAllLast ns new ↔ a ∈ ns ∨ a ∈ new := by
  unfold addAllLast
  induction new generalizing ns with
  | nil => simp
  | cons n new ih => rw [List.foldl_cons, ih, mem_addLast, List.mem_cons, or_assoc, or_left_comm]

theorem addAllLast_of_subset {ns new : List Nat} (h : new ⊆ ns) : addAllLast ns new = ns := by
  unfold addAllLast
  induction new with
  | nil => rfl
  | cons n new ih =>
    obtain ⟨hn, hnew⟩ := List.cons_subset.mp h
    rw [List.foldl_cons, addLast_of_mem hn, ih hnew]

/-- **The vertices of a graph** are those that its steps mention, in the order in which they first do. -/
theorem nodes_build (steps : List GraphStep) :
    (build steps).nodes = addAllLast [] (steps.flatMap (·.mentions)) := by
  suffices ∀ g : Graph, (steps.foldl Graph.step g).nodes =
      addAllLast g.nodes (steps.flatMap (·.mentions)) from this _
  induction steps with
  | nil => exact fun _ => rfl
  | cons s steps ih =>
    intro g
    rw [List.foldl_cons, ih, List.flatMap_cons]
    cases s with
    | node id => rw [Graph.step, nodes_addNode]; rfl
    | edge a b => rw [Graph.step, nodes_addEdge]; rfl

/-- **The dependencies of a vertex** are those that its steps give it, in the order in which they first
do. -/
theorem dependencies_build (steps : List GraphStep) (id : Nat) :
    (build steps).dependencies id = addAllLast [] (steps.filterMap (·.into? id)) := by
  suffices ∀ g : Graph, (steps.foldl Graph.step g).dependencies id =
      addAllLast (g.dependencies id) (steps.filterMap (·.into? id)) from this _
  induction steps with
  | nil => exact fun _ => rfl
  | cons s steps ih =>
    intro g
    rw [List.foldl_cons, ih]
    cases s with
    | node n => rw [Graph.step, dependencies_addNode]; rfl
    | edge a b =>
      rw [Graph.step, dependencies_addEdge]
      by_cases hid : id = b
      · rw [if_pos hid, List.filterMap_cons, GraphStep.into?, if_pos hid.symm]
        rfl
      · rw [if_neg hid, List.filterMap_cons, GraphStep.into?, if_neg (Ne.symm hid)]

/-! ## Dependency -/

/-- One vertex depends on another, directly. -/
def DependsOn (g : Graph) (a b : Nat) : Prop := b ∈ g.dependencies a

/-- A vertex lies on a cycle: a chain of one or more dependencies leads from it back to it. -/
def OnCycle (g : Graph) (a : Nat) : Prop := TransGen g.DependsOn a a

/-- A chain of dependencies, perhaps an empty one, leads to a vertex on a cycle. -/
def ReachesCycle (g : Graph) (a : Nat) : Prop := ∃ c, ReflTransGen g.DependsOn a c ∧ g.OnCycle c

theorem mem_nodes_of_dependsOn {g : Graph} {a b : Nat} (h : g.DependsOn a b) : a ∈ g.nodes := by
  by_contra ha
  rw [DependsOn, dependencies, vertex?_eq_none.mpr ha] at h
  exact List.not_mem_nil h

theorem mem_nodes_of_onCycle {g : Graph} {a : Nat} (h : g.OnCycle a) : a ∈ g.nodes := by
  obtain ⟨b, hab, -⟩ := TransGen.head'_iff.mp h
  exact mem_nodes_of_dependsOn hab

end Graph

end Cellbook
