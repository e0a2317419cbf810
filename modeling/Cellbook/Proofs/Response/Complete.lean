import Cellbook.Proofs.Notebook.Program
import Cellbook.Proofs.Notebook.References
import Cellbook.Proofs.Notebook.Unaffected
import Cellbook.Response

/-!
# A response is complete

A response answers for every cell of its request that has a value, and for no other one
(`evaluate_complete`). The cells of a request are those that are kept, and a kept cell has a value unless
it only groups the cells in it.

Between the cells of a request and the outcomes of its response there are the declarations, the vertices of
the graph, the order with the cyclic cells, the cells of the program and its run. Each step keeps the numbers
of the one before it, up to their order; what is shown here is that they are the right ones at the beginning.
-/

namespace Cellbook

open CellSource

/-- **The cells that are answered for**: those that are kept and do not only group others. -/
def CellSource.answered (top : List CellSource) : List Site :=
  (keptAll [] [] top).filter (!·.source.groups)

/-- **A response that is complete** for a request. -/
structure Response.CompleteFor (r : Request) (a : Response) : Prop where
  /-- There is one result for each cell, and no other one. -/
  once : (a.results.map (·.id)).Nodup
  all : (a.results.map (·.id)).Perm (idsOf (answered r.body))
  order : a.results.map (·.id) = a.evalOrder ++ a.cyclicCells
  /-- Of the output and the error of a result one is there and the other is null. -/
  output_or_error : ∀ o ∈ a.results, ∃ output error,
    o.toJson = .object [("id", .integer o.id), ("output", output), ("error", error)] ∧
      (error = .null ↔ output ≠ .null)
  cyclic : ∀ id ∈ a.cyclicCells, ∃ o ∈ a.results, o.id = id ∧
    ∃ d, o.result = .error d ∧ (d.code = "CYCLIC_DEPENDENCY" ∨ d.code = "UNRESOLVED_REFERENCE")
  /-- A cell whose text is no formula is evaluated, to the fault in that text. -/
  faulty : ∀ s ∈ keptAll [] [] r.body, ∀ fault, s.source.content .standard = .faulty fault →
    s.source.id ∈ a.evalOrder ∧
      ∃ o ∈ a.results, o.id = s.source.id ∧ o.result = .error fault.report

/-! ## Outcomes in JSON -/

theorem Value.toJson_ne_null {φ : Type} (v : Value φ) : v.toJson ≠ .null := by
  intro h
  cases v <;> cases h

theorem Diagnostic.toJson_ne_null (d : Diagnostic) : d.toJson ≠ .null := by
  intro h
  cases d <;> cases h

theorem Outcome.toJson_output_or_error (o : Outcome) : ∃ output error,
    o.toJson = .object [("id", .integer o.id), ("output", output), ("error", error)] ∧
      (error = .null ↔ output ≠ .null) := by
  unfold toJson
  cases o.result with
  | ok v => exact ⟨_, _, rfl, fun _ => v.toJson_ne_null, fun _ => rfl⟩
  | error d =>
    exact ⟨_, _, rfl, fun h => absurd h d.toJson_ne_null, fun h => absurd rfl h⟩

/-! ## Kept cells -/

namespace Notebook

variable {g : Grammar} {sources : List CellSource}

theorem mem_declarations_of_kept (g : Grammar) {s : Site} (hs : s ∈ keptAll [] [] sources) :
    s.declaration g sources ∈ declarations g sources := by
  rw [declarations_eq_kept]
  exact List.mem_map_of_mem hs

theorem answered_nodup (sources : List CellSource) : (idsOf (answered sources)).Nodup := by
  have hkept : (idsOf (keptAll [] [] sources)).Nodup := by
    rw [← map_declaration_id .standard sources, ← declarations_eq_kept]
    exact declarations_nodup .standard sources
  exact (List.filter_sublist.map _).nodup hkept

/-- **The vertices of the graph** are the kept cells that do not only group others. -/
theorem mem_nodes_iff {id : Nat} : id ∈ (build g sources).graph.nodes ↔
    ∃ s ∈ keptAll [] [] sources, s.source.id = id ∧ s.source.groups = false := by
  have hnodes : id ∈ (build g sources).graph.nodes ↔
      ∃ d ∈ declarations g sources, d.id = id ∧ d.isScopeOnly = false := mem_nodes_linkGraph
  rw [hnodes, declarations_eq_kept]
  constructor
  · rintro ⟨d, hd, rfl, hvalued⟩
    obtain ⟨s, hs, rfl⟩ := List.mem_map.mp hd
    exact ⟨s, hs, rfl, (s.declaration_isScopeOnly g sources).symm.trans hvalued⟩
  · rintro ⟨s, hs, rfl, hgroups⟩
    exact ⟨_, List.mem_map_of_mem hs, rfl, (s.declaration_isScopeOnly g sources).trans hgroups⟩

/-- **The cells in the order and the cyclic ones** are together those that are answered for. -/
theorem ordered_perm (g : Grammar) (sources : List CellSource) :
    ((build g sources).evalOrder ++ (build g sources).cyclicCells).Perm
      (idsOf (answered sources)) := by
  refine (Graph.ordered_progress (build g sources).graph).perm.trans ?_
  refine (List.perm_ext_iff_of_nodup graph_sound.nodup (answered_nodup sources)).mpr fun id => ?_
  rw [mem_nodes_iff, idsOf, List.mem_map]
  simp only [answered, List.mem_filter, Bool.not_eq_true', and_assoc, and_comm]

/-! ## Cells that fail before they run -/

section Faulty

variable {s : Site} (hs : s ∈ keptAll [] [] sources) {fault : SourceFault}
  (h : s.source.content g = .faulty fault)

include hs h

/-- A faulty cell reads nothing, so it has a place in the order. -/
theorem mem_evalOrder_of_faulty : s.source.id ∈ (build g sources).evalOrder := by
  have hbody : s.source.body = [] := body_eq_nil_of_content h nofun
  have hgroups : s.source.groups = false := by rw [groups, hbody]; rfl
  refine mem_evalOrder.mpr ⟨mem_nodes_iff.mpr ⟨s, hs, rfl, hgroups⟩, fun hcyclic => ?_⟩
  obtain ⟨b, -, hb⟩ := graph_sound.exists_dependsOn_of_mem_cyclic hcyclic
  obtain ⟨d, hd, hid, hb⟩ := dependsOn_linkGraph_iff.mp hb
  obtain rfl : d = s.declaration g sources :=
    List.inj_on_of_nodup_map (declarations_nodup g sources) hd (mem_declarations_of_kept g hs) hid
  have hnone : (s.declaration g sources).dependsOn (declarations g sources) = [] := by
    refine Declaration.dependsOn_eq_nil _ (fun tree f hcontent => ?_) ?_
    · cases h.symm.trans hcontent
    · show s.source.body.map (·.id) = []
      rw [hbody, List.map_nil]
  rw [hnone] at hb
  exact List.not_mem_nil hb

/-- A faulty cell ends with the report of its fault. -/
theorem outcome_of_faulty {depth : Nat} {settings : Settings} {outcomes : List Outcome}
    (hrun : (build g sources).program.run depth settings = some outcomes) :
    ∃ o ∈ outcomes, o.id = s.source.id ∧ o.result = .error fault.report := by
  obtain ⟨c, n, o, hc, -, ho, -, hends⟩ := ends_of_mem_evalOrder hrun (mem_evalOrder_of_faulty hs h)
  have hkept := cell?_of_mem (mem_cells.mpr ⟨_, mem_declarations_of_kept g hs, rfl⟩)
  obtain rfl := Option.some.inj (hkept.symm.trans hc)
  have hcontent : ((s.declaration g sources).link (declarations g sources)).content = .faulty fault := h
  refine ⟨o, List.mem_of_find?_eq_some ho, outcome?_id ho, ?_⟩
  rw [emitCell_of_faulty _ hcontent] at hends
  exact hends

end Faulty

/-- The fault of a cyclic cell names its cycle or the cell that it waits for. -/
theorem code_of_cycleFault? {id : Nat} {fault : EvalFault}
    (h : (build g sources).cycleFault? id = some fault) :
    fault.report.code = "CYCLIC_DEPENDENCY" ∨ fault.report.code = "UNRESOLVED_REFERENCE" := by
  rw [cycleFault?_build] at h
  dsimp only at h
  split at h
  · obtain rfl := Option.some.inj h
    split
    · exact .inl rfl
    · exact .inr rfl
  · cases h

end Notebook

/-! ## Responses -/

namespace Request

/-- **Every response is complete.** -/
theorem evaluate_complete (r : Request) {depth : Nat} {settings : Settings} {a : Response}
    (h : r.evaluate depth settings = some a) : a.CompleteFor r := by
  obtain ⟨outcomes, hrun, rfl⟩ := Option.map_eq_some_iff.mp h
  have hids : outcomes.map (·.id) = r.notebook.evalOrder ++ r.notebook.cyclicCells :=
    (Program.run_ids hrun).trans Notebook.program_ids
  have hperm := Notebook.ordered_perm .standard r.body
  refine
    { once := ?_
      all := ?_
      order := hids
      output_or_error := fun o _ => o.toJson_output_or_error
      cyclic := fun id hid => ?_
      faulty := fun s hs fault hfault =>
        ⟨Notebook.mem_evalOrder_of_faulty hs hfault, Notebook.outcome_of_faulty hs hfault hrun⟩ }
  · rw [hids]
    exact hperm.nodup_iff.mpr (Notebook.answered_nodup r.body)
  · rw [hids]
    exact hperm
  · obtain ⟨c, fault, -, hfault, ho⟩ := Notebook.outcome_of_mem_cyclicCells hrun hid
    exact ⟨_, List.mem_of_find?_eq_some ho, rfl, _, rfl, Notebook.code_of_cycleFault? hfault⟩

/-- Cells that are written twice, that only group others, that are no formula, and that are cyclic. -/
def mixed : Request :=
  ⟨[{ id := 1, name := some "a", input := "b" },
    { id := 2, name := some "b", input := "a" },
    { id := 3, body := [{ id := 4, name := some "c", input := "1 +" }, { id := 1, input := "7" }] },
    { id := 4, input := "2", body := [{ id := 5, input := "3" }] },
    { id := 6, name := some "d", input := "a" },
    { id := 7, input := "4" }]⟩

/-- The response to the mixed request is complete. -/
theorem evaluate_complete_of_mixed : ∃ a, mixed.evaluate 1 {} = some a ∧ a.CompleteFor mixed := by
  have hanswer : (mixed.evaluate 1 {}).isSome := by decide +kernel
  obtain ⟨a, ha⟩ := Option.isSome_iff_exists.mp hanswer
  exact ⟨a, ha, evaluate_complete mixed ha⟩

example : (mixed.evaluate 1 {}).map (fun a => (idsOf (answered mixed.body), a.evalOrder, a.cyclicCells)) =
    some ([1, 2, 4, 6, 7], [4, 7], [1, 2, 6]) := by decide +kernel

end Request

end Cellbook
