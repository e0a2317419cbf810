import Cellbook.Proofs.Machine.Aligned
import Cellbook.Proofs.Machine.Outcomes
import Cellbook.Proofs.Notebook.Links

/-!
# What stands in the program of a notebook

The program of a notebook has one cell for each vertex of its graph: those with a place in the order, in
that order, and behind them those without, as reports (`program_ids`). The code of a cell reads nothing
but what the cell depends on, and these stand before it (`emitCell_dependsOn`). Of the number at which its variables
begin, and of the other cells, the code depends on nothing else: any two notebooks give code to a cell that
is aligned (`emitCell_aligned`).
-/

namespace Cellbook

/-! ## Tasks -/

/-- Tasks that report the same, or run aligned code that reads only cells with a property. -/
inductive CellTask.Aligned (cells : Nat → Prop) : CellTask Closure → CellTask Closure → Prop
  | report (d : Diagnostic) : Aligned cells (.report d) (.report d)
  | run {env : Pairs} {body body' : Statements Closure} {result result' : Code Closure}
      {reads : List Nat} : Code.AlignedBody cells [] body body' env →
    Code.Aligned cells env result result' → (∀ id ∈ reads, cells id) →
    Aligned cells (.run body result reads) (.run body' result' reads)

theorem CellTask.Aligned.of_mem_reads {cells : Nat → Prop} {task task' : CellTask Closure}
    (h : Aligned cells task task') {id : Nat} (hid : id ∈ task.reads) : cells id := by
  cases h with
  | report d => exact (List.not_mem_nil hid).elim
  | run _ _ hreads => exact hreads id hid

/-- Aligned code is run with the same reads, and these have the property. -/
theorem CellTask.aligned_run {cells : Nat → Prop} {env : Pairs} {body body' : Statements Closure}
    {result result' : Code Closure} (hbody : BodyRelated (Code.Aligned cells) [] body body' env)
    (hresult : Code.Aligned cells env result result') :
    Aligned cells (.run body result (Code.readsOf body result))
      (.run body' result' (Code.readsOf body' result')) := by
  have hbody := Code.alignedBody_of_related hbody
  have hreads : Code.readsOf body' result' = Code.readsOf body result := by
    rw [Code.readsOf, Code.readsOf, hbody.cellsBody_eq, hresult.cells_eq]
  rw [hreads]
  refine .run hbody hresult fun id hid => ?_
  rcases List.mem_append.mp (mem_ascending.mp hid) with hid | hid
  · exact hbody.cells_of_mem hid
  · exact hresult.cells_of_mem hid

/-! ## Emitted cells -/

namespace Notebook

section Target

variable {κ : Type} {t : Target κ} (nb : Notebook)

theorem emitCell_id (c : Cell) (n : Nat) : (nb.emitCell t c n).1.id = c.id := by
  unfold emitCell
  cases c.content <;> rfl

theorem emitCell_name (c : Cell) (n : Nat) : (nb.emitCell t c n).1.name = c.name := by
  unfold emitCell
  cases c.content <;> rfl

theorem emitCells_ids (cs : List Cell) (n : Nat) :
    (nb.emitCells t cs n).1.map (·.id) = cs.map (·.id) := by
  induction cs generalizing n with
  | nil => rfl
  | cons c cs ih =>
    unfold emitCells
    rw [Emit.bind_apply, Emit.bind_apply, Emit.pure_apply, List.map_cons, List.map_cons, ih,
      emitCell_id]

/-- Each cell is emitted at some number, behind those before it. -/
theorem emitCells_split (front : List Cell) (c : Cell) (back : List Cell) (n : Nat) :
    ∃ before m after, (nb.emitCells t (front ++ c :: back) n).1 =
        before ++ (nb.emitCell t c m).1 :: after ∧
      before.map (·.id) = front.map (·.id) := by
  induction front generalizing n with
  | nil => exact ⟨[], n, _, rfl, rfl⟩
  | cons d front ih =>
    obtain ⟨before, m, after, hcells, hids⟩ := ih ((nb.emitCell t d n).2.2)
    refine ⟨(nb.emitCell t d n).1 :: before, m, after, ?_, ?_⟩
    · rw [List.cons_append, emitCells, Emit.bind_apply, Emit.bind_apply, Emit.pure_apply, hcells]
      rfl
    · rw [List.map_cons, List.map_cons, hids, emitCell_id]

end Target

/-- The code of a faulty cell is the report of its fault. -/
theorem emitCell_of_faulty (nb : Notebook) {c : Cell} {fault : SourceFault}
    (h : c.content = .faulty fault) (n : Nat) :
    (nb.emitCell (.tree (φ := Closure)) c n).1.toCode.task = .report fault.report := by
  unfold emitCell
  rw [h]
  rfl

/-- The code of any other cell is that of its value. -/
theorem emitCell_of_value (nb : Notebook) {c : Cell} (h : ∀ fault, c.content ≠ .faulty fault)
    (n : Nat) :
    let value := c.emitValue (.tree (φ := Closure)) (nb.fields c) n
    (nb.emitCell .tree c n).1.toCode.task = .run value.2.1 value.1 (Code.readsOf value.2.1 value.1) := by
  unfold emitCell
  cases hcontent : c.content with
  | faulty fault => exact absurd hcontent (h fault)
  | blank => rfl
  | formula tree f => rfl

/-- **Two notebooks give aligned tasks to a cell**, if it has the same fields in both. -/
theorem emitCell_aligned {cells : Nat → Prop} {nb nb' : Notebook} {c : Cell}
    (hreferences : ∀ p ∈ c.references, cells p.2) (hfields : ∀ p ∈ nb.fields c, cells p.2)
    (hsame : nb'.fields c = nb.fields c) (n n' : Nat) :
    CellTask.Aligned cells (nb.emitCell .tree c n).1.toCode.task
      (nb'.emitCell .tree c n').1.toCode.task := by
  have htree : Target.Related cells (Code.Aligned (φ := Closure) cells) .tree .tree := Code.tree_related
  have hnone : Pairs.Below [] n n' := fun _ hp => (List.not_mem_nil hp).elim
  obtain ⟨env, h⟩ := Cell.emitValue_related htree hreferences (fun _ => hfields)
    (List.nil_subset []) hnone
  have hrun := CellTask.aligned_run h.body h.given
  unfold emitCell
  rw [hsame]
  cases c.content with
  | faulty fault => exact .report _
  | blank => exact hrun
  | formula tree f => exact hrun

/-! ## The program -/

/-- What is found under numbers has these numbers. -/
theorem filterMap_ids {α : Type} {find : Nat → Option α} {key : α → Nat} {ids : List Nat}
    (h : ∀ id ∈ ids, ∃ a, find id = some a ∧ key a = id) : (ids.filterMap find).map key = ids := by
  induction ids with
  | nil => rfl
  | cons id ids ih =>
    obtain ⟨⟨a, ha, hkey⟩, hids⟩ := List.forall_mem_cons.mp h
    rw [List.filterMap_cons_some ha, List.map_cons, hkey, ih hids]

section Build

variable {g : Grammar} {sources : List CellSource}

theorem cell?_ids {ids : List Nat} (h : ∀ id ∈ ids, id ∈ (build g sources).graph.nodes) :
    (ids.filterMap (build g sources).cell?).map (·.id) = ids := by
  refine filterMap_ids fun id hid => ?_
  obtain ⟨c, hc, -⟩ := exists_cell?_of_mem_nodes (h id hid)
  exact ⟨c, hc, cell?_id hc⟩

/-- The report of a cyclic cell. -/
theorem cyclicReports_of_mem {id : Nat} {c : Cell} {fault : EvalFault}
    (hid : id ∈ (build g sources).cyclicCells) (hc : (build g sources).cell? id = some c)
    (hfault : (build g sources).cycleFault? id = some fault) :
    (⟨c.id, c.name, .report fault.report⟩ : EmittedCell (Code Closure)) ∈
      (build g sources).cyclicReports := by
  refine List.mem_filterMap.mpr ⟨id, hid, ?_⟩
  rw [hc, hfault]
  rfl

theorem cyclicReports_ids :
    ((build g sources).cyclicReports (κ := Code Closure)).map (·.id) = (build g sources).cyclicCells := by
  refine filterMap_ids fun id hid => ?_
  obtain ⟨c, hc, -⟩ := exists_cell?_of_mem_nodes (mem_nodes_of_mem_cyclicCells hid)
  obtain ⟨fault, hfault⟩ := exists_cycleFault? hid
  refine ⟨⟨c.id, c.name, .report fault.report⟩, ?_, cell?_id hc⟩
  rw [hc, hfault]
  rfl

/-- **The cells of the program** are those of the order and, behind them, the cyclic ones. -/
theorem program_ids : ((build g sources).program (φ := Closure)).map (·.id) =
    (build g sources).evalOrder ++ (build g sources).cyclicCells := by
  have hids (es : List (EmittedCell (Code Closure))) :
      (es.map (·.toCode)).map (·.id) = es.map (·.id) := by
    rw [List.map_map]
    rfl
  unfold program emit
  rw [hids, List.map_append, emitCells_ids, cyclicReports_ids,
    cell?_ids fun id hid => (mem_evalOrder.mp hid).1]

theorem program_nodup : (((build g sources).program (φ := Closure)).map (·.id)).Nodup := by
  rw [program_ids]
  exact Graph.Sound.ordered_nodup graph_sound

/-- A cell with a place in the order is emitted behind those before it. -/
theorem program_split {front back : List Nat} {id : Nat} {c : Cell}
    (horder : (build g sources).evalOrder = front ++ id :: back)
    (hc : (build g sources).cell? id = some c) :
    ∃ (before : Program Closure) (n : Nat) (after : Program Closure), (build g sources).program =
        before ++ ((build g sources).emitCell .tree c n).1.toCode :: after ∧
      before.map (·.id) = front := by
  obtain ⟨before, n, after, hcells, hids⟩ := emitCells_split (t := .tree (φ := Closure))
    (build g sources) (front.filterMap (build g sources).cell?) c
    (back.filterMap (build g sources).cell?) 0
  refine ⟨before.map (·.toCode), n, (after ++ (build g sources).cyclicReports).map EmittedCell.toCode, ?_, ?_⟩
  · unfold program emit
    rw [horder, List.filterMap_append, List.filterMap_cons_some hc, hcells]
    simp
  · have hfront : ∀ id ∈ front, id ∈ (build g sources).graph.nodes := fun n hn =>
      (mem_evalOrder.mp (horder ▸ List.mem_append_left _ hn)).1
    rw [List.map_map, ← cell?_ids hfront, ← hids]
    rfl

/-- A cyclic cell stands in the program as a report of its fault. -/
theorem report_mem_program {id : Nat} (hid : id ∈ (build g sources).cyclicCells) :
    ∃ c fault, (build g sources).cell? id = some c ∧ (build g sources).cycleFault? id = some fault ∧
      (⟨id, c.name, .report fault.report⟩ : CellCode Closure) ∈ (build g sources).program := by
  obtain ⟨c, hc, -⟩ := exists_cell?_of_mem_nodes (mem_nodes_of_mem_cyclicCells hid)
  obtain ⟨fault, hfault⟩ := exists_cycleFault? hid
  obtain rfl : c.id = id := cell?_id hc
  exact ⟨c, fault, hc, hfault,
    List.mem_map.mpr ⟨_, List.mem_append_right _ (cyclicReports_of_mem hid hc hfault), rfl⟩⟩

/-- **What stands in the program**: the reports of cyclic cells, and the code of cells behind all that they
depend on. -/
theorem program_cell {front back : Program Closure} {p : CellCode Closure}
    (h : (build g sources).program = front ++ p :: back) :
    (∃ fault, (build g sources).cycleFault? p.id = some fault ∧ p.task = .report fault.report) ∨
      ∃ c n, (build g sources).cell? p.id = some c ∧ c.isScopeOnly = false ∧
        p = ((build g sources).emitCell .tree c n).1.toCode ∧
        ∀ id ∈ c.dependsOn, id ∈ front.map (·.id) := by
  have hnodup : (((build g sources).program (φ := Closure)).map (·.id)).Nodup := program_nodup
  -- no other cell of the program has the number of this one
  have honly : ∀ q ∈ (build g sources).program (φ := Closure), q.id = p.id → q = p := fun q hq hid =>
    List.inj_on_of_nodup_map hnodup hq (by simp [h]) hid
  have hid : p.id ∈ (build g sources).evalOrder ++ (build g sources).cyclicCells := by
    rw [← program_ids, h]
    simp
  rcases List.mem_append.mp hid with hid | hid
  · right
    obtain ⟨c, hc, hvalued⟩ := exists_cell?_of_mem_nodes (mem_evalOrder.mp hid).1
    obtain ⟨earlier, later, horder⟩ := List.append_of_mem hid
    obtain ⟨before, n, after, hprogram, hbefore⟩ := program_split horder hc
    have hp := honly _ (hprogram ▸ List.mem_append_right before List.mem_cons_self)
      ((emitCell_id _ c n).trans (cell?_id hc))
    refine ⟨c, n, hc, hvalued, hp.symm, fun r hr => ?_⟩
    have hfront : before = front := by
      rw [hprogram] at hnodup
      have hnot := (List.nodup_cons.mp (List.nodup_middle.mp hnodup.of_map)).1
      rw [List.mem_append, not_or] at hnot
      rw [hp] at hprogram hnot
      exact ((List.append_cons_inj_of_notMem hnot.1 hnot.2).mp (hprogram.symm.trans h)).1
    rw [← hfront, hbefore]
    exact (Graph.ordered_progress _).respects earlier p.id later horder r
      (dependsOn_graph_iff.mpr ⟨c, mem_cells_of_cell? hc, cell?_id hc, hr⟩)
  · left
    obtain ⟨c, fault, -, hfault, hmem⟩ := report_mem_program hid
    refine ⟨fault, hfault, ?_⟩
    rw [← honly _ hmem rfl]

/-- **A cell reads nothing but what it depends on**, and its code is aligned with that in any notebook in
which it has the same fields. -/
theorem emitCell_dependsOn {id : Nat} {c : Cell} (hc : (build g sources).cell? id = some c)
    (hvalued : c.isScopeOnly = false) {nb : Notebook}
    (hsame : nb.fields c = (build g sources).fields c) (n n' : Nat) :
    CellTask.Aligned (· ∈ c.dependsOn) ((build g sources).emitCell .tree c n).1.toCode.task
      (nb.emitCell .tree c n').1.toCode.task := by
  have hmem := mem_cells_of_cell? hc
  refine emitCell_aligned (fun p hp => ?_) (fun p hp => ?_) hsame n n'
  · exact mem_dependsOn_of_reference hmem hp
  · exact mem_dependsOn_of_field hmem hvalued hp

/-! ## Runs of the program -/

variable {depth : Nat} {settings : Settings} {outcomes : List Outcome}
  (hrun : (build g sources).program.run depth settings = some outcomes)

include hrun

/-- **A cell with a place in the order** ends as its code does on the outcomes of all cells. -/
theorem ends_of_mem_evalOrder {id : Nat} (hid : id ∈ (build g sources).evalOrder) :
    ∃ c n o, (build g sources).cell? id = some c ∧ c.isScopeOnly = false ∧
      outcome? outcomes id = some o ∧ o.name = c.name ∧
      ((build g sources).emitCell .tree c n).1.toCode.task.Ends depth settings id outcomes o.result := by
  obtain ⟨c, hc, hvalued⟩ := exists_cell?_of_mem_nodes (mem_evalOrder.mp hid).1
  obtain ⟨front, back, horder⟩ := List.append_of_mem hid
  obtain ⟨before, n, after, hprogram, hbefore⟩ := program_split horder hc
  have hcid : ((build g sources).emitCell (.tree (φ := Closure)) c n).1.toCode.id = id :=
    (emitCell_id _ c n).trans (cell?_id hc)
  obtain ⟨o, ho, hname, hends⟩ := Program.run_ends program_nodup hrun hprogram fun r hr _ => by
    rw [hbefore]
    refine (Graph.ordered_progress _).respects front id back horder r ?_
    exact dependsOn_graph_iff.mpr
      ⟨c, mem_cells_of_cell? hc, cell?_id hc,
        (emitCell_dependsOn hc hvalued rfl n n).of_mem_reads hr⟩
  rw [hcid] at ho hends
  exact ⟨c, n, o, hc, hvalued, ho, hname.trans (emitCell_name _ c n), hends⟩

/-- A cell that has neither a place in the order nor a fault is none of the program. -/
theorem outcome?_eq_none {id : Nat} (horder : id ∉ (build g sources).evalOrder)
    (hcyclic : id ∉ (build g sources).cyclicCells) : outcome? outcomes id = none := by
  rw [outcome?_eq_none_iff, Program.run_ids hrun, program_ids, List.mem_append]
  exact fun hmem => hmem.elim horder hcyclic

/-- **A cyclic cell** fails with its fault. -/
theorem outcome_of_mem_cyclicCells {id : Nat} (hid : id ∈ (build g sources).cyclicCells) :
    ∃ c fault, (build g sources).cell? id = some c ∧ (build g sources).cycleFault? id = some fault ∧
      outcome? outcomes id = some ⟨id, c.name, .error fault.report⟩ := by
  obtain ⟨c, fault, hc, hfault, hmem⟩ := report_mem_program hid
  refine ⟨c, fault, hc, hfault, ?_⟩
  obtain ⟨front, back, hprogram⟩ := List.append_of_mem hmem
  obtain ⟨o, ho, hname, hends⟩ := Program.run_ends program_nodup hrun hprogram
    fun r hr _ => (List.not_mem_nil hr).elim
  have hoid := outcome?_id ho
  obtain ⟨oid, oname, result⟩ := o
  rw [ho]
  simp only at hoid hname
  rw [hoid, hname, show result = .error fault.report from hends]

end Build

end Notebook

end Cellbook
