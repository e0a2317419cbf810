import Cellbook.Proofs.Emission.Leaves
import Cellbook.Proofs.Notebook.Program
import Cellbook.Proofs.Notebook.References

/-!
# The code of a notebook is exact

The code of a cell has one leaf for each name and each constant of its formula, and no other one
(`Notebook.code_exact`). The cells among the leaves are what the cell reads when it runs, and these are the cells
that it depends on: the names of a formula are looked up once for its links and once more for its code, and
each time the same cells are found. In the program they stand before it.
-/

namespace Cellbook

open CellSource

/-- The leaves of what a task runs. -/
def CellTask.leaves {φ : Type} : CellTask φ → Multiset (Code φ)
  | .report _ | .skip => 0
  | .run body result _ => Code.leavesBody body + result.leaves

/-- The code of a cell, with variables from a number on. -/
abbrev Notebook.cellCode (nb : Notebook) (c : Cell) (n : Nat) : CellCode Closure :=
  (nb.emitCell .tree c n).1.toCode

/-- **A notebook whose code is exact.** -/
structure Notebook.CodeExact (nb : Notebook) : Prop where
  /-- The code of a cell with a formula has the leaves of the formula, whatever the number at which its
  variables begin. -/
  leaves : ∀ c ∈ nb.cells, ∀ tree f, c.content = .formula tree f → ∀ n,
    (nb.cellCode c n).task.leaves = f.leaves ⟨c.params, c.references⟩
  /-- It stands in the program, unless the cell is cyclic. -/
  emitted : ∀ c ∈ nb.cells, ∀ tree f, c.content = .formula tree f → c.id ∉ nb.cyclicCells →
    ∃ n, nb.cellCode c n ∈ nb.program
  /-- What stands in the program is a report, or the code of a cell that reads just the cells that it depends
  on, and only earlier ones. -/
  reads : ∀ (front : Program Closure) p back, nb.program = front ++ p :: back →
    (∃ d, p.task = .report d) ∨ ∃ c ∈ nb.cells, ∃ n, p = nb.cellCode c n ∧
      (∀ id, id ∈ p.task.reads ↔ id ∈ c.dependsOn) ∧ ∀ id ∈ p.task.reads, id ∈ front.map (·.id)

/-! ## What a cell reads -/

theorem lookup_eq_some_iff_mem {α β : Type} [BEq α] [LawfulBEq α] {ps : List (α × β)}
    (hnodup : (ps.map (·.1)).Nodup) {a : α} {b : β} : ps.lookup a = some b ↔ (a, b) ∈ ps := by
  induction ps with
  | nil => simp
  | cons p ps ih =>
    obtain ⟨a', b'⟩ := p
    obtain ⟨hnew, hnodup⟩ := List.nodup_cons.mp hnodup
    rw [List.lookup_cons, List.mem_cons]
    by_cases ha : a = a'
    · subst ha
      have hnot : (a, b) ∉ ps := fun h => hnew (List.mem_map_of_mem (f := (·.1)) h)
      simp [hnot, eq_comm]
    · simp [beq_false_of_ne ha, ha, ih hnodup]

/-- The cells among the leaves of a formula are those that its free names mean. -/
theorem Formula.cell_mem_leaves {f : Formula} {s : Scope} {id : Nat} :
    Code.cell (φ := Closure) id ∈ f.leaves s ↔
      ∃ o ∈ f.occurrences, o.isFree s.bound ∧ s.cells.lookup o.name = some id := by
  have hleaf (o : Occurrence) : o.leaf (φ := Closure) s = .cell id ↔
      o.isFree s.bound ∧ s.cells.lookup o.name = some id := by
    unfold Occurrence.leaf
    cases o.isFree s.bound <;> cases s.cells.lookup o.name <;> simp
  simp only [leaves, leavesOf, Multiset.mem_coe, List.mem_append, List.mem_map, hleaf]
  simp

theorem cell_mem_fieldLeaves {fields : List (String × Nat)} {id : Nat} :
    Code.cell (φ := Closure) id ∈ fieldLeaves fields ↔ ∃ name, (name, id) ∈ fields := by
  simp only [fieldLeaves, Multiset.mem_coe, List.mem_append, List.mem_map]
  simp

namespace Notebook

section Emitted

variable (nb : Notebook) {c : Cell} (hc : ∀ fault, c.content ≠ .faulty fault)
  {leaves : Multiset (Code Closure)} (h : (c.emitValue .tree (nb.fields c)).Carries leaves) (n : Nat)

include hc h

theorem cellCode_leaves : (nb.cellCode c n).task.leaves = leaves := by
  have hvalue : Code.leavesBody (c.emitValue .tree (nb.fields c) n).2.1 +
      (c.emitValue .tree (nb.fields c) n).1.leaves = leaves := (add_comm _ _).trans (h n)
  rw [cellCode, emitCell_of_value nb hc]
  exact hvalue

/-- A cell reads the cells among its leaves. -/
theorem mem_reads_cellCode {id : Nat} :
    id ∈ (nb.cellCode c n).task.reads ↔ .cell id ∈ leaves := by
  have hreads {body : Statements Closure} {result : Code Closure} : id ∈ Code.readsOf body result ↔
      .cell id ∈ Code.leavesBody body + result.leaves := by
    rw [Code.readsOf, mem_ascending, List.mem_append, Code.mem_cellsBody_iff, Code.mem_cells_iff,
      Multiset.mem_add]
  rw [← nb.cellCode_leaves hc h n]
  rw [cellCode, emitCell_of_value nb hc]
  exact hreads

end Emitted

section Build

variable {g : Grammar} {sources : List CellSource}

/-- The formula that a cell says is read from its input, in three stages. -/
theorem read_of_content {c : CellSource} {tree : Node} {f : Formula}
    (h : c.content g = .formula tree f) : ∃ ts, Token.scan g c.input = .ok ts ∧
      Node.parse g ts = .ok tree ∧ Formula.ofNode c.id tree = .ok f := by
  unfold CellSource.content at h
  split at h
  · cases h
  · cases hread : Formula.read g c.id c.input with
    | error fault => rw [hread] at h; cases h
    | ok said =>
      rw [hread] at h
      cases h
      unfold Formula.read at hread
      obtain ⟨ts, hts, hread⟩ := Formula.bind_eq_ok hread
      obtain ⟨tree', htree, hread⟩ := Formula.bind_eq_ok hread
      obtain ⟨f', hf, hread⟩ := Formula.bind_eq_ok hread
      cases hread
      exact ⟨ts, hts, htree, hf⟩

/-- The formula that a cell says is well-formed. -/
theorem wellFormed_of_content {c : CellSource} {tree : Node} {f : Formula}
    (h : c.content g = .formula tree f) : f.WellFormed c.id := by
  obtain ⟨-, -, -, hf⟩ := read_of_content h
  exact Formula.ofNode_wellFormed tree hf

theorem exists_site {c : Cell} (hc : c ∈ (build g sources).cells) :
    ∃ s ∈ keptAll [] [] sources, c = (s.declaration g sources).link (declarations g sources) := by
  obtain ⟨d, hd, rfl⟩ := mem_cells.mp hc
  rw [declarations_eq_kept] at hd
  obtain ⟨s, hs, rfl⟩ := List.mem_map.mp hd
  exact ⟨s, hs, rfl⟩

section Formula

variable {c : Cell} (hc : c ∈ (build g sources).cells) {tree : Node} {f : Formula}
  (h : c.content = .formula tree f)

include hc h

theorem isContainer_of_formula : c.isContainer = false := by
  obtain ⟨s, -, rfl⟩ := exists_site hc
  have hsaid : CellContent.formula tree f ≠ .blank := nofun
  have hbody : s.source.body = [] := body_eq_nil_of_content h hsaid
  show (!(s.source.body.map (·.id)).isEmpty) = false
  rw [hbody]
  rfl

/-- The code of a cell with a formula has the leaves of the formula. -/
theorem emitValue_of_formula (fields : List (String × Nat)) :
    (c.emitValue .tree fields).Carries (f.leaves (φ := Closure) ⟨c.params, c.references⟩) := by
  have hcontainer := isContainer_of_formula hc h
  obtain ⟨s, -, rfl⟩ := exists_site hc
  exact Cell.emitValue_formula fields hcontainer (by rw [Declaration.formula?, h]) (wellFormed_of_content (c := s.source) h)

/-- A cell with a formula depends on the cells that the free names of the formula mean. -/
theorem mem_dependsOn_of_formula {id : Nat} : id ∈ c.dependsOn ↔
    ∃ o ∈ f.occurrences, o.isFree c.params ∧ c.references.lookup o.name = some id := by
  obtain ⟨s, -, rfl⟩ := exists_site hc
  have hsaid : CellContent.formula tree f ≠ .blank := nofun
  have hbody : s.source.body = [] := body_eq_nil_of_content h hsaid
  have hvalued := valued_of_content (s := s) h
  have hnames := Declaration.names_of_formula (d := s.declaration g sources) h
  have hnodup := Declaration.references_names_nodup (d := s.declaration g sources) (declarations g sources)
  show id ∈ (s.declaration g sources).dependsOn (declarations g sources) ↔ ∃ o ∈ f.occurrences, _ ∧
    ((s.declaration g sources).references (declarations g sources)).lookup o.name = some id
  simp only [lookup_eq_some_iff_mem hnodup]
  rw [Declaration.mem_dependsOn hvalued]
  constructor
  · rintro (⟨name, hname⟩ | ⟨child, hchild, -⟩)
    · have hmem := hname
      rw [Declaration.references_of_valued _ hvalued, hnames] at hmem
      obtain ⟨name', hname', hpair⟩ := List.mem_filterMap.mp hmem
      obtain ⟨_, -, hpair⟩ := Option.map_eq_some_iff.mp hpair
      obtain ⟨o, ho, rfl⟩ := List.mem_map.mp (mem_distinct.mp hname')
      obtain ⟨ho, hfree⟩ := List.mem_filter.mp ho
      exact ⟨o, ho, hfree, by rwa [← (Prod.mk.inj hpair).1] at hname⟩
    · obtain ⟨⟨n, hn, -⟩, -⟩ := Declaration.mem_namedChildren.mp hchild
      have hn : n ∈ s.source.body.map (·.id) := hn
      rw [hbody] at hn
      exact (List.not_mem_nil hn).elim
  · rintro ⟨o, -, -, hmem⟩
    exact .inl ⟨o.name, hmem⟩

end Formula

section NoFormula

variable {c : Cell} (hc : c ∈ (build g sources).cells) (h : c.formula? = none)

include hc h

/-- A container with a value depends on its fields. -/
theorem mem_dependsOn_of_container (hvalued : c.isScopeOnly = false) {id : Nat} :
    id ∈ c.dependsOn ↔ ∃ name, (name, id) ∈ (build g sources).fields c := by
  refine ⟨fun hid => ?_, fun ⟨name, hname⟩ => mem_dependsOn_of_field hc hvalued hname⟩
  obtain ⟨d, -, rfl⟩ := mem_cells.mp hc
  have hvalued : d.isScopeOnly = false := hvalued
  have hnames : d.names = [] := by rw [Declaration.names, show d.formula? = none from h]
  rcases (Declaration.mem_dependsOn hvalued).mp hid with ⟨name, hname⟩ | ⟨child, hchild, rfl⟩
  · rw [Declaration.references_of_valued _ hvalued, hnames] at hname
    exact (List.not_mem_nil hname).elim
  · obtain ⟨⟨n, hn, hfound⟩, hname⟩ := Declaration.mem_namedChildren.mp hchild
    obtain ⟨name, hname⟩ := Option.isSome_iff_exists.mp hname
    have hcell : (build g sources).cell? n = some (child.link (declarations g sources)) := by
      rw [cell?_build, hfound]
      rfl
    refine ⟨name, List.mem_filterMap.mpr ⟨_, List.mem_filterMap.mpr ⟨n, hn, hcell⟩, ?_⟩⟩
    exact Option.map_eq_some_iff.mpr ⟨name, hname, rfl⟩

theorem dependsOn_of_blank (hcontainer : c.isContainer = false) : c.dependsOn = [] := by
  obtain ⟨d, -, rfl⟩ := mem_cells.mp hc
  refine Declaration.dependsOn_eq_nil _ (fun tree f hcontent => ?_) ?_
  · have hformula : d.formula? = some f := by rw [Declaration.formula?, hcontent]
    cases h.symm.trans hformula
  · have hbody : d.isContainer = false := hcontainer
    simpa [Declaration.isContainer] using hbody

end NoFormula

/-- **A cell that can run reads what it depends on.** -/
theorem mem_reads_iff {c : Cell} (hc : c ∈ (build g sources).cells) (hvalued : c.isScopeOnly = false)
    (hfault : ∀ fault, c.content ≠ .faulty fault) (n : Nat) {id : Nat} :
    id ∈ ((build g sources).cellCode c n).task.reads ↔ id ∈ c.dependsOn := by
  have hreads {leaves : Multiset (Code Closure)}
      (h : (c.emitValue .tree ((build g sources).fields c)).Carries leaves) :
      id ∈ ((build g sources).cellCode c n).task.reads ↔ .cell id ∈ leaves :=
    mem_reads_cellCode _ hfault h n
  cases hformula : c.formula? with
  | some f =>
    obtain ⟨tree, hcontent⟩ : ∃ tree, c.content = .formula tree f := by
      unfold Declaration.formula? at hformula
      split at hformula
      next tree f' hcontent => exact ⟨tree, Option.some.inj hformula ▸ hcontent⟩
      next => cases hformula
    rw [hreads (emitValue_of_formula hc hcontent _), Formula.cell_mem_leaves,
      mem_dependsOn_of_formula hc hcontent]
  | none =>
    cases hcontainer : c.isContainer with
    | true =>
      rw [hreads (Cell.emitValue_container _ hcontainer), cell_mem_fieldLeaves,
        mem_dependsOn_of_container hc hformula hvalued]
    | false =>
      rw [hreads (Cell.emitValue_blank _ hcontainer hformula), dependsOn_of_blank hc hformula hcontainer]
      simp

/-- **The code of every notebook is exact.** -/
theorem code_exact (g : Grammar) (sources : List CellSource) : (build g sources).CodeExact := by
  refine
    { leaves := fun c hc tree f h n => ?_
      emitted := fun c hc tree f h hcyclic => ?_
      reads := fun front p back hp => ?_ }
  · exact cellCode_leaves _ (fun fault hfault => nomatch h.symm.trans hfault)
      (emitValue_of_formula hc h _) n
  · have hvalued : c.isScopeOnly = false := by
      rw [Declaration.isScopeOnly, isContainer_of_formula hc h, Bool.false_and]
    have hnode : c.id ∈ (build g sources).graph.nodes := by
      obtain ⟨d, hd, rfl⟩ := mem_cells.mp hc
      exact mem_nodes_linkGraph.mpr ⟨d, hd, rfl, hvalued⟩
    obtain ⟨front, back, horder⟩ := List.append_of_mem (mem_evalOrder.mpr ⟨hnode, hcyclic⟩)
    obtain ⟨before, n, after, hprogram, -⟩ := program_split horder (cell?_of_mem hc)
    exact ⟨n, hprogram ▸ List.mem_append_right before List.mem_cons_self⟩
  · rcases program_cell hp with ⟨fault, -, hreport⟩ | ⟨c, n, hc, hvalued, rfl, hplaced⟩
    · exact .inl ⟨_, hreport⟩
    by_cases hfault : ∃ fault, c.content = .faulty fault
    · obtain ⟨fault, hfault⟩ := hfault
      exact .inl ⟨fault.report, emitCell_of_faulty _ hfault n⟩
    · have hmem := mem_cells_of_cell? hc
      have hreads (id : Nat) : id ∈ ((build g sources).cellCode c n).task.reads ↔ id ∈ c.dependsOn :=
        mem_reads_iff hmem hvalued (not_exists.mp hfault) n
      exact .inr ⟨c, hmem, n, rfl, hreads, fun id hid => hplaced id ((hreads id).mp hid)⟩

end Build

end Notebook

end Cellbook
