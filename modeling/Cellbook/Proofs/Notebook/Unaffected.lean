import Mathlib.Data.List.Find
import Cellbook.Proofs.Graph.Local
import Cellbook.Proofs.Notebook.Edit

/-!
# What an edit leaves alone

A cell is unaffected by an edit of another one if no chain of reads leads from it there. On such cells the
graph before the edit and the graph after it agree (`graph_agreeOn`), though the edit may open or close
cycles among the others. So the edit moves none of them on or off a cycle (`mem_cyclicCells_iff`), and a
fault that a cycle gives one of them stays as it is (`cycleFault?_eq`).
-/

namespace Cellbook

open Relation

/-- **No chain of reads leads from a cell to an edited one.** -/
def Notebook.Unaffected (nb : Notebook) (edited id : Nat) : Prop :=
  id ≠ edited ∧ ¬ TransGen nb.DependsOn id edited

theorem Notebook.Unaffected.step {nb : Notebook} {edited a b : Nat} (h : nb.Unaffected edited a)
    (hab : nb.DependsOn a b) : nb.Unaffected edited b := by
  refine ⟨?_, fun hb => h.2 (.head hab hb)⟩
  rintro rfl
  exact h.2 (.single hab)

/-! ## The graph -/

section Links

variable {id : Nat} {as bs : List Declaration} (h : List.Forall₂ (Declaration.SameBut id) as bs)

include h

theorem valued_sameBut : List.Forall₂ (Declaration.SameBut id) (valued as) (valued bs) := by
  refine List.rel_filter (fun a b hab => ?_) h
  show (!a.isScopeOnly) = true ↔ (!b.isScopeOnly) = true
  rw [hab.isScopeOnly_eq]

theorem nodes_linkGraph_eq : (linkGraph bs).nodes = (linkGraph as).nodes := by
  rw [nodes_linkGraph, nodes_linkGraph, sameBut_ids (valued_sameBut h)]

/-- Every other cell reads what it read. -/
theorem readsOf_eq {n : Nat} (hn : n ≠ id) : readsOf bs n = readsOf as n := by
  have hvalued := valued_sameBut h
  unfold readsOf
  rw [funext (dependsOn_eq h)]
  generalize valued as = ds at hvalued
  generalize valued bs = es at hvalued
  induction hvalued with
  | nil => rfl
  | @cons a b _ _ hab _ ih =>
    rw [List.flatMap_cons, List.flatMap_cons, ih]
    congr 1
    by_cases hid : a.id = n
    · rw [hab.same (hid ▸ hn)]
    · rw [if_neg hid, if_neg (hab.id_eq ▸ hid)]

end Links

/-- Where the cycles are those of a graph, a fault that they give tells the labels of the cycle, or else the
label of the first vertex without a place. -/
theorem cycleFault_cycles (cells : List Declaration) (g : Graph) (cyclic : List Nat) (id : Nat) :
    cycleFault cells g cyclic
        ((g.cycles cyclic).map fun ids => (ids, ids.map (labelOf cells))) id =
      match (g.cycles cyclic).find? (·.contains id) with
      | some ids => ⟨.cyclic (ids.map (labelOf cells)), []⟩
      | none => ⟨.unresolved (labelOf cells (((g.dependencies id).find? cyclic.contains).getD id)),
          [.behindCycle (labelOf cells id)]⟩ := by
  unfold cycleFault
  rw [List.find?_map]
  simp only [Function.comp_def]
  cases (g.cycles cyclic).find? (·.contains id) with
  | none => rfl
  | some ids => rfl

namespace Notebook

variable (g : Grammar) (sources : List CellSource) (edited : Nat) (text : String)

/-- **The graphs before and after an edit agree** on the cells that are unaffected by it. -/
theorem graph_agreeOn : Graph.AgreeOn ((build g sources).Unaffected edited) (build g sources).graph
    (build g (CellSource.withInputAll edited text sources)).graph := by
  have h := CellSource.declarations_sameBut g edited text sources
  refine ⟨nodes_linkGraph_eq h, fun a ha b hab => ?_, fun a ha => ?_⟩
  · exact ha.step (dependsOn_graph_iff.mp hab)
  · show (linkGraph _).dependencies a = (linkGraph _).dependencies a
    rw [dependencies_linkGraph, dependencies_linkGraph, readsOf_eq h ha.1]

theorem cycleFault?_build (id : Nat) : (build g sources).cycleFault? id =
    let cells := CellSource.declarations g sources
    let graph := (build g sources).graph
    if id ∈ graph.ordered.cyclic then
      some (match (graph.cycles graph.ordered.cyclic).find? (·.contains id) with
        | some ids => ⟨.cyclic (ids.map (labelOf cells)), []⟩
        | none =>
          let blocker := ((graph.dependencies id).find? graph.ordered.cyclic.contains).getD id
          ⟨.unresolved (labelOf cells blocker), [.behindCycle (labelOf cells id)]⟩)
    else none := by
  dsimp only
  rw [← cycleFault_cycles]
  exact lookup_map_self _ _ _

variable {g sources edited} {id : Nat} (hid : (build g sources).Unaffected edited id)

include hid

/-- **No unaffected cell becomes cyclic or ceases to be.** -/
theorem mem_cyclicCells_iff :
    id ∈ (build g (CellSource.withInputAll edited text sources)).cyclicCells ↔
      id ∈ (build g sources).cyclicCells :=
  (graph_agreeOn g sources edited text).mem_cyclic_iff graph_sound graph_sound hid

theorem mem_evalOrder_iff :
    id ∈ (build g (CellSource.withInputAll edited text sources)).evalOrder ↔
      id ∈ (build g sources).evalOrder := by
  have hagree := graph_agreeOn g sources edited text
  rw [mem_evalOrder, mem_evalOrder, mem_cyclicCells_iff text hid, hagree.nodes]

/-- **An unaffected cell on a cycle, or behind one**, has the fault that it had. -/
theorem cycleFault?_eq :
    (build g (CellSource.withInputAll edited text sources)).cycleFault? id =
      (build g sources).cycleFault? id := by
  have h := CellSource.declarations_sameBut g edited text sources
  have hagree := graph_agreeOn g sources edited text
  have hcyclic (b : Nat) (hb : (build g sources).Unaffected edited b) :=
    hagree.mem_cyclic_iff graph_sound graph_sound hb
  rw [cycleFault?_build, cycleFault?_build]
  dsimp only
  rw [labelOf_eq h, hagree.find?_cycles_eq graph_sound graph_sound hid, hagree.dependencies id hid]
  have hblocker : ((build g sources).graph.dependencies id).find?
        (build g (CellSource.withInputAll edited text sources)).graph.ordered.cyclic.contains =
      ((build g sources).graph.dependencies id).find?
        (build g sources).graph.ordered.cyclic.contains := by
    refine List.find?_congr fun b hb => ?_
    rw [Bool.eq_iff_iff, List.contains_iff_mem, List.contains_iff_mem]
    exact hcyclic b (hagree.closed id hid b hb)
  rw [hblocker]
  simp only [hcyclic id hid]

end Notebook

end Cellbook
