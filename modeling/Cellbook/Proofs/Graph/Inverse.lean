import Mathlib.Data.List.Basic
import Mathlib.Data.List.Induction
import Cellbook.Proofs.Graph.Building

/-!
# The two directions of a graph

A graph keeps an edge at both of its ends: the dependent lists its dependency, and the dependency its dependent.
Vertices come with the edges that mention them, and each list leaves out on its own what it has already. However the
graph was built, the lists agree (`Graph.build_inverse`): what a vertex depends on and what uses a vertex are the two
directions of one relation, and that holds exactly of the edges that were added.

**Order** is told apart from the lists that keep it: by the places at which names are mentioned first
(`FirstMentions`). The vertices are in the order of mention by the steps, and dependencies in that of their edges.
-/

namespace Cellbook

/-! ## Order of mention -/

/-- **What is mentioned, in the order of its first mention**, each name once. -/
structure FirstMentions (mentioned ns : List Nat) : Prop where
  nodup : ns.Nodup
  mem_iff : ∀ n, n ∈ ns ↔ n ∈ mentioned
  pairwise : ns.Pairwise fun a b => mentioned.idxOf a < mentioned.idxOf b

namespace FirstMentions

theorem nil : FirstMentions [] [] := ⟨List.nodup_nil, fun _ => Iff.rfl, .nil⟩

/-- One more mention. -/
theorem addLast {mentioned ns : List Nat} (h : FirstMentions mentioned ns) (n : Nat) :
    FirstMentions (mentioned ++ [n]) (Graph.addLast n ns) where
  nodup := Graph.addLast_nodup h.nodup
  mem_iff a := by
    rw [Graph.mem_addLast, h.mem_iff, List.mem_append, List.mem_singleton, or_comm]
  pairwise := by
    have hbefore : ns.Pairwise fun a b => (mentioned ++ [n]).idxOf a < (mentioned ++ [n]).idxOf b := by
      refine h.pairwise.imp_of_mem fun {a b} ha hb hlt => ?_
      rwa [List.idxOf_append_of_mem ((h.mem_iff a).mp ha), List.idxOf_append_of_mem ((h.mem_iff b).mp hb)]
    by_cases hn : n ∈ ns
    · rwa [Graph.addLast_of_mem hn]
    · rw [Graph.addLast_of_not_mem hn]
      refine List.pairwise_append.mpr ⟨hbefore, List.pairwise_singleton _ _, fun a ha b hb => ?_⟩
      obtain rfl := List.mem_singleton.mp hb
      -- the new name has its first mention behind all of the others
      have ha := (h.mem_iff a).mp ha
      rw [List.idxOf_append_of_mem ha, List.idxOf_append_of_notMem fun hb => hn ((h.mem_iff _).mpr hb)]
      exact Nat.lt_add_right _ (List.idxOf_lt_length_of_mem ha)

/-- Adding names one after the other keeps them in the order in which they are first mentioned. -/
theorem addAllLast (mentioned : List Nat) : FirstMentions mentioned (Graph.addAllLast [] mentioned) := by
  induction mentioned using List.reverseRecOn with
  | nil => exact nil
  | append_singleton mentioned n ih =>
    have hlast : Graph.addAllLast [] (mentioned ++ [n]) = Graph.addLast n (Graph.addAllLast [] mentioned) :=
      List.foldl_append ..
    exact hlast ▸ ih.addLast n

end FirstMentions

theorem GraphStep.into?_eq_some {s : GraphStep} {x d : Nat} : s.into? x = some d ↔ s = .edge d x := by
  cases s with
  | node id => simp [into?]
  | edge a b =>
    simp only [into?, Option.ite_none_right_eq_some, Option.some.injEq, edge.injEq]
    exact And.comm

namespace Graph

/-! ## What uses a vertex -/

theorem mem_usedBy_step {g : Graph} {s : GraphStep} {d x : Nat} :
    x ∈ (g.step s).usedBy d ↔ .edge d x = s ∨ x ∈ g.usedBy d := by
  cases s with
  | node id => simp [step, usedBy_addNode]
  | edge a b =>
    rw [step, usedBy_addEdge]
    by_cases hd : d = a
    · subst hd
      simp [mem_insertAscending]
    · simp [hd]

theorem usedBy_step_pairwise {g : Graph} (s : GraphStep) {d : Nat} (h : (g.usedBy d).Pairwise (· < ·)) :
    ((g.step s).usedBy d).Pairwise (· < ·) := by
  cases s with
  | node id => rwa [step, usedBy_addNode]
  | edge a b =>
    rw [step, usedBy_addEdge]
    split
    · exact insertAscending_pairwise h
    · exact h

/-- **What uses a vertex** are the dependents of its edges. -/
theorem mem_usedBy_build {steps : List GraphStep} {d x : Nat} :
    x ∈ (build steps).usedBy d ↔ .edge d x ∈ steps := by
  suffices ∀ g : Graph, x ∈ (steps.foldl step g).usedBy d ↔ .edge d x ∈ steps ∨ x ∈ g.usedBy d by
    simpa [build, usedBy, vertex?, empty] using this empty
  induction steps with
  | nil => simp
  | cons s steps ih =>
    intro g
    rw [List.foldl_cons, ih, mem_usedBy_step, List.mem_cons, or_left_comm, or_assoc]

theorem usedBy_build_pairwise (steps : List GraphStep) (d : Nat) : ((build steps).usedBy d).Pairwise (· < ·) := by
  suffices ∀ g : Graph, (g.usedBy d).Pairwise (· < ·) → ((steps.foldl step g).usedBy d).Pairwise (· < ·) from
    this empty .nil
  induction steps with
  | nil => exact fun _ h => h
  | cons s steps ih => exact fun g h => ih _ (usedBy_step_pairwise s h)

/-! ## What a vertex depends on -/

theorem mem_dependencies_build {steps : List GraphStep} {x d : Nat} :
    d ∈ (build steps).dependencies x ↔ .edge d x ∈ steps := by
  rw [dependencies_build, mem_addAllLast, List.mem_filterMap]
  simp [GraphStep.into?_eq_some]

theorem mem_nodes_of_edge {steps : List GraphStep} {d x : Nat} (h : .edge d x ∈ steps) :
    d ∈ (build steps).nodes ∧ x ∈ (build steps).nodes := by
  have hmentions : ∀ n ∈ GraphStep.mentions (.edge d x), n ∈ (build steps).nodes := fun n hn => by
    rw [nodes_build, mem_addAllLast]
    exact .inr (List.mem_flatMap.mpr ⟨_, h, hn⟩)
  exact ⟨hmentions d (by simp [GraphStep.mentions]), hmentions x (by simp [GraphStep.mentions])⟩

/-- **Dependency and use are inverse to each other**, in a graph that was built in any way. The vertices are what the
steps mention, in the order of first mention, and the dependencies of a vertex those of its edges, in the order in
which they are first added; what uses a vertex is listed in ascending order; all of these are vertices; and each of
the two lists holds exactly what an edge was added for. -/
theorem build_inverse (steps : List GraphStep) :
    let g := build steps
    FirstMentions (steps.flatMap (·.mentions)) g.nodes ∧
      (∀ x, FirstMentions (steps.filterMap (·.into? x)) (g.dependencies x)) ∧
      (∀ d, (g.usedBy d).Pairwise (· < ·)) ∧
      (∀ x d, d ∈ g.dependencies x ∨ x ∈ g.usedBy d → d ∈ g.nodes ∧ x ∈ g.nodes) ∧
      ∀ x d, (d ∈ g.dependencies x ↔ x ∈ g.usedBy d) ∧ (x ∈ g.usedBy d ↔ .edge d x ∈ steps) := by
  intro g
  refine ⟨nodes_build steps ▸ .addAllLast _, fun x => dependencies_build steps x ▸ .addAllLast _,
    usedBy_build_pairwise steps, fun x d h => ?_, fun x d => ?_⟩
  · exact mem_nodes_of_edge (h.elim mem_dependencies_build.mp mem_usedBy_build.mp)
  · exact ⟨mem_dependencies_build.trans mem_usedBy_build.symm, mem_usedBy_build⟩

/-- An edge that is added twice is listed once, at its first place. -/
example : (build [.node 5, .edge 3 2, .edge 1 2, .edge 3 2]).nodes = [5, 3, 2, 1] ∧
    (build [.node 5, .edge 3 2, .edge 1 2, .edge 3 2]).dependencies 2 = [3, 1] := by decide

end Graph

end Cellbook
