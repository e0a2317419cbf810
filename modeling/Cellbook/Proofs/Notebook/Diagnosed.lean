import Cellbook.Proofs.Graph.Blocked
import Cellbook.Proofs.Notebook.References
import Cellbook.Proofs.Notebook.Unaffected

/-!
# What the faults of cyclic cells say

A cell without a place in the order of evaluation lies on a cycle or waits for one. Which of the two it is, and
which cells its fault names, is said here by the links between cells alone (`cycleFaults_exact`): of a cell on
a cycle the fault lists the cells that are entangled with it, and of a cell that waits it names the first cyclic
cell that it reads.

**From vertices to cells.** The graph lists what a cell reads in the order in which the cell does
(`dependencies_graph`), and its vertices in the order of the cells. So a cycle of vertices is a list of cells
in their order (`cellsAt`), and its labels are theirs.
-/

namespace Cellbook

open Relation

namespace Graph

theorem addAllLast_append_of_nodup (ns : List Nat) {new : List Nat} (h : (ns ++ new).Nodup) :
    addAllLast ns new = ns ++ new := by
  unfold addAllLast
  induction new generalizing ns with
  | nil => exact (List.append_nil ns).symm
  | cons n new ih =>
    have hnot : n ∉ ns := fun hn => (List.nodup_append.mp h).2.2 n hn n List.mem_cons_self rfl
    have h' : (ns ++ [n] ++ new).Nodup := by rwa [List.append_assoc, List.singleton_append]
    rw [List.foldl_cons, addLast_of_not_mem hnot, ih _ h', List.append_assoc, List.singleton_append]

/-- Elements that come once each are added as they stand. -/
theorem addAllLast_nil_of_nodup {new : List Nat} (h : new.Nodup) : addAllLast [] new = new :=
  addAllLast_append_of_nodup [] h

end Graph

theorem Declaration.dependsOn_nodup (cells : List Declaration) (d : Declaration) : (d.dependsOn cells).Nodup := by
  unfold Declaration.dependsOn
  split
  · exact List.nodup_nil
  · exact distinct_nodup _

namespace Notebook

/-- A cell lies on a cycle: a chain of one reading or more leads from it back to it. -/
def OnCycle (nb : Notebook) (id : Nat) : Prop := TransGen nb.DependsOn id id

/-- Each of two cells reads the other through a chain, or they are the same. -/
def Entangled (nb : Notebook) (a b : Nat) : Prop := ReflTransGen nb.DependsOn a b ∧ ReflTransGen nb.DependsOn b a

variable {g : Grammar} {sources : List CellSource}

theorem dependsOn_graph_eq : (build g sources).graph.DependsOn = (build g sources).DependsOn := by
  funext a b
  exact propext dependsOn_graph_iff

theorem onCycle_iff {id : Nat} : (build g sources).graph.OnCycle id ↔ (build g sources).OnCycle id := by
  rw [Graph.OnCycle, dependsOn_graph_eq, OnCycle]

theorem entangled_iff {a b : Nat} :
    (build g sources).graph.Entangled a b ↔ (build g sources).Entangled a b := by
  rw [Graph.Entangled, dependsOn_graph_eq, Entangled]

/-! ## Cells and vertices -/

theorem cells_ids : (build g sources).cells.map (·.id) = (CellSource.declarations g sources).map (·.id) := by
  show ((CellSource.declarations g sources).map _).map _ = _
  rw [List.map_map]
  rfl

/-- No two cells of a notebook have the same number. -/
theorem cells_nodup : ((build g sources).cells.map (·.id)).Nodup :=
  cells_ids ▸ CellSource.declarations_nodup g sources

/-- **A vertex depends on what its cell reads**, in the order in which the cell does. -/
theorem dependencies_graph {id : Nat} {c : Cell} (hc : (build g sources).cell? id = some c) :
    (build g sources).graph.dependencies id = c.dependsOn := by
  rw [cell?_build] at hc
  obtain ⟨d, hd, rfl⟩ := Option.map_eq_some_iff.mp hc
  show (linkGraph (CellSource.declarations g sources)).dependencies id = _
  rw [dependencies_linkGraph, readsOf_eq_find (CellSource.declarations_nodup g sources), hd, Option.map_some,
    Option.getD_some]
  exact Graph.addAllLast_nil_of_nodup (d.dependsOn_nodup _)

/-- **The vertices stand in the order of the cells.** -/
theorem nodes_sublist : (build g sources).graph.nodes.Sublist ((build g sources).cells.map (·.id)) := by
  have hsub : ((valued (CellSource.declarations g sources)).map (·.id)).Sublist
      ((CellSource.declarations g sources).map (·.id)) := List.filter_sublist.map _
  have hnodes : (build g sources).graph.nodes = (valued (CellSource.declarations g sources)).map (·.id) :=
    (nodes_linkGraph _).trans
      (Graph.addAllLast_nil_of_nodup (hsub.nodup (CellSource.declarations_nodup g sources)))
  rw [hnodes, cells_ids]
  exact hsub

/-- Messages speak of a cell by its label. -/
theorem labelOf_eq_label {c : Cell} (hc : c ∈ (build g sources).cells) :
    labelOf (CellSource.declarations g sources) c.id = c.label := by
  obtain ⟨d, hd, rfl⟩ := mem_cells.mp hc
  have hfind : findCell? (CellSource.declarations g sources) d.id = some d :=
    findCell?_of_mem (CellSource.declarations_nodup g sources) hd
  show labelOf (CellSource.declarations g sources) d.id = d.label
  rw [labelOf, hfind]

/-- The cells with some numbers, in the order of the notebook. -/
def cellsAt (nb : Notebook) (ids : List Nat) : List Cell := nb.cells.filter fun c => ids.contains c.id

theorem mem_cellsAt {nb : Notebook} {ids : List Nat} {c : Cell} :
    c ∈ nb.cellsAt ids ↔ c ∈ nb.cells ∧ c.id ∈ ids := by
  rw [cellsAt, List.mem_filter, List.contains_iff_mem]

/-- Numbers in the order of the cells are the numbers of cells, and their labels those of the cells. -/
theorem labels_cellsAt {ids : List Nat} (h : ids.Sublist (build g sources).graph.nodes) :
    ids.map (labelOf (CellSource.declarations g sources)) = ((build g sources).cellsAt ids).map (·.label) := by
  have hids : ids = ((build g sources).cellsAt ids).map (·.id) := by
    refine Graph.sublist_unique cells_nodup (h.trans nodes_sublist) (List.filter_sublist.map _) fun id => ?_
    rw [List.mem_map]
    constructor
    · intro hid
      obtain ⟨c, hc, rfl⟩ := List.mem_map.mp ((h.trans nodes_sublist).subset hid)
      exact ⟨c, mem_cellsAt.mpr ⟨hc, hid⟩, rfl⟩
    · rintro ⟨c, hc, rfl⟩
      exact (mem_cellsAt.mp hc).2
  conv_lhs => rw [hids]
  rw [List.map_map]
  exact List.map_congr_left fun c hc => labelOf_eq_label (mem_cellsAt.mp hc).1

/-! ## Faults -/

/-- The fault of a cell on a cycle: it lists the cells that are entangled with the cell, each once and in their
order. -/
def TellsCycle (nb : Notebook) (id : Nat) (fault : EvalFault) : Prop :=
  ∃ members : List Cell, members.Sublist nb.cells ∧ (∀ c ∈ nb.cells, c ∈ members ↔ nb.Entangled id c.id) ∧
    fault = ⟨.cyclic (members.map (·.label)), []⟩

/-- The fault of a cell that waits for a cycle: it names the first cyclic cell that the cell reads, and in a note
the cell itself. -/
def TellsBlocker (nb : Notebook) (id : Nat) (fault : EvalFault) : Prop :=
  ∃ c blocker : Cell, ∃ front back : List Nat, nb.cell? id = some c ∧
    c.dependsOn = front ++ blocker.id :: back ∧ (∀ n ∈ front, n ∉ nb.cyclicCells) ∧
    blocker ∈ nb.cells ∧ blocker.id ∈ nb.cyclicCells ∧
    fault = ⟨.unresolved blocker.label, [.behindCycle c.label]⟩

theorem tellsCycle_of_onCycle {id : Nat} (h : (build g sources).OnCycle id) :
    ∃ fault, (build g sources).cycleFault? id = some fault ∧ (build g sources).TellsCycle id fault := by
  have hsound : (build g sources).graph.Sound := graph_sound
  have hcycle := onCycle_iff.mpr h
  obtain ⟨members, hfind, hsub, hmem⟩ := hsound.find?_cycles_of_onCycle hcycle
  refine ⟨⟨.cyclic (((build g sources).cellsAt members).map (·.label)), []⟩, ?_,
    (build g sources).cellsAt members, List.filter_sublist, fun c hc => ?_, rfl⟩
  · rw [cycleFault?_build]
    dsimp only
    rw [if_pos (hsound.mem_cyclic_of_onCycle hcycle), hfind]
    dsimp only
    rw [labels_cellsAt hsub]
  · rw [mem_cellsAt, hmem, entangled_iff]
    exact and_iff_right hc

theorem tellsBlocker_of_not_onCycle {id : Nat} (hid : id ∈ (build g sources).cyclicCells)
    (h : ¬ (build g sources).OnCycle id) :
    ∃ fault, (build g sources).cycleFault? id = some fault ∧ (build g sources).TellsBlocker id fault := by
  have hsound : (build g sources).graph.Sound := graph_sound
  obtain ⟨c, hc, -⟩ := exists_cell?_of_mem_nodes (mem_nodes_of_mem_cyclicCells hid)
  obtain ⟨front, b, back, hdeps, hfront, hb, hfind⟩ := hsound.exists_blocker hid
  obtain ⟨blocker, hblocker, -⟩ := exists_cell?_of_mem_nodes (mem_nodes_of_mem_cyclicCells hb)
  have hcid : c.id = id := cell?_id hc
  obtain rfl : blocker.id = b := cell?_id hblocker
  rw [dependencies_graph hc] at hdeps
  refine ⟨⟨.unresolved blocker.label, [.behindCycle c.label]⟩, ?_, c, blocker, front, back, hc, hdeps, hfront,
    mem_cells_of_cell? hblocker, hb, rfl⟩
  rw [cycleFault?_build]
  dsimp only
  have hleft : id ∈ (build g sources).graph.ordered.cyclic := hid
  rw [if_pos hleft, hsound.find?_cycles_eq_none (mt onCycle_iff.mp h), hfind]
  dsimp only [Option.getD_some]
  rw [labelOf_eq_label (mem_cells_of_cell? hblocker), ← hcid, labelOf_eq_label (mem_cells_of_cell? hc)]

/-- What a fault lists is settled by the cells that it lists. -/
theorem TellsCycle.unique {a b : Nat} {fault fault' : EvalFault} (hab : (build g sources).Entangled a b)
    (h : (build g sources).TellsCycle a fault) (h' : (build g sources).TellsCycle b fault') : fault = fault' := by
  obtain ⟨members, hsub, hmem, rfl⟩ := h
  obtain ⟨members', hsub', hmem', rfl⟩ := h'
  have hsame : ∀ c ∈ (build g sources).cells, c ∈ members ↔ c ∈ members' := fun c hc => by
    rw [hmem c hc, hmem' c hc]
    exact ⟨fun hac => ⟨hab.2.trans hac.1, hac.2.trans hab.1⟩, fun hbc => ⟨hab.1.trans hbc.1, hbc.2.trans hab.2⟩⟩
  have hids : members.map (·.id) = members'.map (·.id) := by
    refine Graph.sublist_unique cells_nodup (hsub.map _) (hsub'.map _) fun id => ?_
    simp only [List.mem_map]
    constructor
    · rintro ⟨c, hc, rfl⟩
      exact ⟨c, (hsame c (hsub.subset hc)).mp hc, rfl⟩
    · rintro ⟨c, hc, rfl⟩
      exact ⟨c, (hsame c (hsub'.subset hc)).mpr hc, rfl⟩
  have hlabels {cs : List Cell} (hcs : cs.Sublist (build g sources).cells) :
      cs.map (·.label) = (cs.map (·.id)).map (labelOf (CellSource.declarations g sources)) := by
    rw [List.map_map]
    exact List.map_congr_left fun c hc => (labelOf_eq_label (hcs.subset hc)).symm
  rw [hlabels hsub, hlabels hsub', hids]

/-- **The faults of cyclic cells.** The cells with such a fault are the cyclic ones. On a cycle it is the code for
a cyclic dependency with the labels of all cells of that cycle, and each of them has the same fault; behind a
cycle it is the code for an unresolved reference with the label of the first cyclic cell that the cell reads. -/
theorem cycleFaults_exact (g : Grammar) (sources : List CellSource) :
    let nb := build g sources
    (nb.cells.map (·.id)).Nodup ∧
      (∀ id, (nb.cycleFault? id).isSome ↔ id ∈ nb.cyclicCells) ∧
      (∀ id, nb.OnCycle id → id ∈ nb.cyclicCells ∧
        ∃ fault, nb.cycleFault? id = some fault ∧ fault.code = "CYCLIC_DEPENDENCY" ∧ nb.TellsCycle id fault) ∧
      (∀ a b, nb.OnCycle a → nb.Entangled a b → nb.cycleFault? b = nb.cycleFault? a) ∧
      ∀ id ∈ nb.cyclicCells, ¬ nb.OnCycle id →
        ∃ fault, nb.cycleFault? id = some fault ∧ fault.code = "UNRESOLVED_REFERENCE" ∧
          nb.TellsBlocker id fault := by
  intro nb
  have hsound : nb.graph.Sound := graph_sound
  refine ⟨cells_nodup, fun id => ⟨fun h => ?_, fun h => ?_⟩, fun id h => ⟨?_, ?_⟩, fun a b ha hab => ?_,
    fun id hid h => ?_⟩
  · obtain ⟨fault, hfault⟩ := Option.isSome_iff_exists.mp h
    exact mem_cyclicCells_of_cycleFault? hfault
  · obtain ⟨fault, hfault⟩ := exists_cycleFault? h
    exact Option.isSome_iff_exists.mpr ⟨fault, hfault⟩
  · exact hsound.mem_cyclic_of_onCycle (onCycle_iff.mpr h)
  · obtain ⟨fault, hfault, htells⟩ := tellsCycle_of_onCycle h
    refine ⟨fault, hfault, ?_, htells⟩
    obtain ⟨members, -, -, rfl⟩ := htells
    rfl
  · have hb : nb.OnCycle b :=
      onCycle_iff.mp ((onCycle_iff.mpr ha).of_entangled (entangled_iff.mpr hab))
    obtain ⟨fault, hfault, htells⟩ := tellsCycle_of_onCycle ha
    obtain ⟨fault', hfault', htells'⟩ := tellsCycle_of_onCycle hb
    rw [hfault, hfault', htells.unique hab htells']
  · obtain ⟨fault, hfault, htells⟩ := tellsBlocker_of_not_onCycle hid h
    refine ⟨fault, hfault, ?_, htells⟩
    obtain ⟨c, blocker, front, back, -, -, -, -, -, rfl⟩ := htells
    rfl

/-- Two cells on one cycle, one on another that waits for the first, and a cell that waits for both. -/
example :
    let nb := build .standard
      [{ id := 1, name := some "a", input := "b" }, { id := 2, name := some "late", input := "1 + own + a" },
        { id := 3, name := some "b", input := "a" }, { id := 4, name := some "own", input := "own + b" }]
    nb.cyclicCells.map (fun id => (nb.cycleFault? id).map (·.message)) =
      [some "Cyclic dependency: a → b", some "Unresolved reference: own", some "Cyclic dependency: a → b",
        some "Cyclic dependency: own"] := by
  decide +kernel

end Notebook

end Cellbook
