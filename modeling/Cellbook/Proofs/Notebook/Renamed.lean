import Cellbook.Proofs.Notebook.Diagnosed
import Cellbook.Proofs.Notebook.Exact

/-!
# Cells under another name

A cell whose name no formula says can be given another such name, and the notebook stays as it is but for
that name (`Notebook.build_renamed`). Names are looked up among the names that formulas say, so each means what it
meant; the links between cells are numbers, and so are the graph and its order.

The name itself is still told in two places: as the key of a field in a container that lists the cell, and
in the faults of cells on a cycle or behind one. Where no container lists the cell nothing reads it, since
a formula could read it by its name only. Then it is the key of no field and lies on no cycle, and no cell
waits for it, so that every fault is reported in the same text; only the notes, which that text leaves out,
may name the cell.
-/

namespace Cellbook

open CellSource Relation

/-- **A declaration under another name**: it is the same, or it is that of the cell of a number and has one
hidden name in the place of another. -/
inductive Declaration.Renamed (hidden : String → Prop) (id : Nat) (a : Declaration) : Declaration → Prop
  | same : Renamed hidden id a a
  | renamed {name name' : String} : a.id = id → hidden name → hidden name' → a.name = some name →
    Renamed hidden id a { a with name := some name' }

/-- A cell under another name. -/
inductive Cell.Renamed (hidden : String → Prop) (id : Nat) (a : Cell) : Cell → Prop
  | same : Renamed hidden id a a
  | renamed {name name' : String} : a.id = id → hidden name → hidden name' → a.name = some name →
    Renamed hidden id a { a with name := some name' }

variable {hidden : String → Prop} {id : Nat}

namespace Declaration.Renamed

variable {a b : Declaration} (h : a.Renamed hidden id b)

include h

theorem shape : b = { a with name := b.name } := by
  cases h <;> rfl

theorem id_eq : b.id = a.id := by rw [h.shape]

theorem body_eq : b.body = a.body := by rw [h.shape]

theorem scopes_eq : b.scopes = a.scopes := by rw [h.shape]

theorem names_eq : b.names = a.names := by
  rw [h.shape]
  rfl

theorem isSome_name_eq : b.name.isSome = a.name.isSome := by
  cases h with
  | same => rfl
  | renamed _ _ _ hname => rw [hname]; rfl

theorem isScopeOnly_eq : b.isScopeOnly = a.isScopeOnly := by
  have hbody := h.body_eq
  have hname := h.isSome_name_eq
  rw [isScopeOnly, isScopeOnly, isContainer, isContainer, hbody, ← Option.not_isSome, ← Option.not_isSome,
    hname]

/-- A name that is not hidden is the name of one if it is the name of the other. -/
theorem name_beq_eq {name : String} (hname : ¬ hidden name) : (b.name == some name) = (a.name == some name) := by
  cases h with
  | same => rfl
  | @renamed old new _ hold hnew heq =>
    have hold' : old ≠ name := fun heq => hname (heq ▸ hold)
    have hnew' : new ≠ name := fun heq => hname (heq ▸ hnew)
    simp [heq, hold', hnew']

end Declaration.Renamed

/-! ## Declarations -/

namespace CellSource

/-- The cell under another name. -/
def withName (c : CellSource) (name : String) : CellSource := { c with name := some name }

theorem any_id_renamed {as bs : List Declaration} (h : List.Forall₂ (Declaration.Renamed hidden id) as bs)
    (n : Nat) : bs.any (·.id == n) = as.any (·.id == n) := by
  induction h with
  | nil => rfl
  | cons hab _ ih => rw [List.any_cons, List.any_cons, ih, hab.id_eq]

mutual

/-- What is declared behind declarations is the same whatever the names of these are. -/
theorem declare_renamed (g : Grammar) (parent : Option Nat) (scopes : List (List Nat))
    {as bs : List Declaration} (h : List.Forall₂ (Declaration.Renamed hidden id) as bs) : (c : CellSource) →
    List.Forall₂ (Declaration.Renamed hidden id) (declare g parent scopes as c) (declare g parent scopes bs c)
  | ⟨n, name, input, body, params⟩ => by
    rw [declare, declare, any_id_renamed h]
    split
    · exact h
    · exact declareAll_renamed g (some n) _ (List.rel_append h (.cons .same .nil)) body

theorem declareAll_renamed (g : Grammar) (parent : Option Nat) (scopes : List (List Nat))
    {as bs : List Declaration} (h : List.Forall₂ (Declaration.Renamed hidden id) as bs) :
    (cs : List CellSource) → List.Forall₂ (Declaration.Renamed hidden id)
      (declareAll g parent scopes as cs) (declareAll g parent scopes bs cs)
  | [] => h
  | c :: cs => declareAll_renamed g parent scopes (declare_renamed g parent scopes h c) cs

end

theorem declareAll_append (g : Grammar) (parent : Option Nat) (scopes : List (List Nat))
    (cs cs' : List CellSource) (declared : List Declaration) : declareAll g parent scopes declared (cs ++ cs') =
      declareAll g parent scopes (declareAll g parent scopes declared cs) cs' := by
  induction cs generalizing declared with
  | nil => rfl
  | cons c cs ih => rw [List.cons_append, declareAll, declareAll, ih]

theorem declaration_withName (g : Grammar) (parent : Option Nat) (scopes : List (List Nat)) (c : CellSource)
    {name : String} (hname : name ≠ "") : (c.withName name).declaration g parent scopes =
      { c.declaration g parent scopes with name := some name } := by
  have hgiven : (some name).filter (!·.isEmpty) = some name := by simp [hname]
  simp only [withName, declaration, hgiven]
  rfl

/-- A cell under another name is declared under that name, and the cells in it as they were. -/
theorem declare_withName (g : Grammar) (parent : Option Nat) (scopes : List (List Nat))
    (declared : List Declaration) (c : CellSource) {name name' : String} (hname : name ≠ "")
    (hname' : name' ≠ "") (hold : hidden name) (hnew : hidden name') :
    List.Forall₂ (Declaration.Renamed hidden c.id) (declare g parent scopes declared (c.withName name))
      (declare g parent scopes declared (c.withName name')) := by
  have hsame : List.Forall₂ (Declaration.Renamed hidden c.id) declared declared :=
    List.forall₂_same.mpr fun _ _ => .same
  have hdeclared : ((c.withName name).declaration g parent scopes).Renamed hidden c.id
      ((c.withName name').declaration g parent scopes) := by
    rw [declaration_withName g parent scopes c hname, declaration_withName g parent scopes c hname']
    exact .renamed rfl hold hnew rfl
  obtain ⟨n, old, input, body, params⟩ := c
  unfold withName at hdeclared ⊢
  rw [declare, declare]
  split
  · exact hsame
  · exact declareAll_renamed g (some n) _ (List.rel_append hsame (.cons hdeclared .nil)) body

/-- **Declarations under another name**: those of two notebooks that differ in the name of a cell at the top. -/
theorem declarations_renamed (g : Grammar) (front back : List CellSource) (c : CellSource) {name name' : String}
    (hname : name ≠ "") (hname' : name' ≠ "") (hold : hidden name) (hnew : hidden name') :
    List.Forall₂ (Declaration.Renamed hidden c.id) (declarations g (front ++ c.withName name :: back))
      (declarations g (front ++ c.withName name' :: back)) := by
  have hids (n : String) : (front ++ c.withName n :: back).map (·.id) = (front ++ c :: back).map (·.id) := by
    rw [List.map_append, List.map_append]
    rfl
  unfold declarations
  rw [hids, hids, declareAll_append, declareAll_append, declareAll, declareAll]
  exact declareAll_renamed g none _ (declare_withName g none _ _ c hname hname' hold hnew) back

end CellSource

/-! ## Links -/

section Links

variable {as bs : List Declaration} (h : List.Forall₂ (Declaration.Renamed hidden id) as bs)

include h

theorem findCell?_renamed (n : Nat) :
    Option.Rel (Declaration.Renamed hidden id) (findCell? as n) (findCell? bs n) :=
  find?_related (fun _ _ hab => by rw [hab.id_eq]) h

/-- **A name that is not hidden means what it meant.** -/
theorem resolve?_renamed (scopes : List (List Nat)) {name : String} (hname : ¬ hidden name) :
    resolve? bs scopes name = resolve? as scopes name := by
  have hfound : findNamed? bs name = findNamed? as name := by
    funext ids
    unfold findNamed?
    congr 1
    funext n
    have hrel := findCell?_renamed h n
    generalize findCell? as n = o at hrel
    generalize findCell? bs n = o' at hrel
    cases hrel with
    | none => rfl
    | some hab => rw [Option.any_some, Option.any_some, hab.name_beq_eq hname]
  rw [resolve?, resolve?, hfound]

theorem references_renamed {a b : Declaration} (hab : a.Renamed hidden id b)
    (hnames : ∀ n ∈ a.names, ¬ hidden n) : b.references bs = a.references as := by
  unfold Declaration.references
  rw [hab.isScopeOnly_eq, hab.names_eq, hab.scopes_eq]
  split
  · rfl
  · exact List.filterMap_congr fun name hname => by rw [resolve?_renamed h _ (hnames name hname)]

theorem renamed_ids : bs.map (·.id) = as.map (·.id) := by
  induction h with
  | nil => rfl
  | cons hab _ ih => rw [List.map_cons, List.map_cons, hab.id_eq, ih]

theorem namedChildren_renamed {a b : Declaration} (hab : a.Renamed hidden id b) :
    List.Forall₂ (Declaration.Renamed hidden id) (a.namedChildren as) (b.namedChildren bs) := by
  have hbody : List.Forall₂ Eq a.body a.body := List.forall₂_same.mpr fun _ _ => rfl
  have hfound : List.Forall₂ (Declaration.Renamed hidden id) (a.body.filterMap (findCell? as))
      (a.body.filterMap (findCell? bs)) :=
    List.rel_filterMap (fun n _ hn => hn ▸ findCell?_renamed h n) hbody
  unfold Declaration.namedChildren
  rw [hab.body_eq]
  refine List.rel_filter (fun c d hcd => ?_) hfound
  show c.name.isSome ↔ d.name.isSome
  rw [hcd.isSome_name_eq]

/-- **A cell reads what it read.** -/
theorem dependsOn_renamed {a b : Declaration} (hab : a.Renamed hidden id b)
    (hnames : ∀ n ∈ a.names, ¬ hidden n) : b.dependsOn bs = a.dependsOn as := by
  unfold Declaration.dependsOn
  rw [hab.isScopeOnly_eq, references_renamed h hab hnames, renamed_ids (namedChildren_renamed h hab)]

theorem link_renamed {a b : Declaration} (hab : a.Renamed hidden id b) (hnames : ∀ n ∈ a.names, ¬ hidden n) :
    (a.link as).Renamed hidden id (b.link bs) := by
  have hreferences := references_renamed h hab hnames
  have hdependsOn := dependsOn_renamed h hab hnames
  unfold Declaration.link
  rw [hreferences, hdependsOn]
  cases hab with
  | same => exact .same
  | renamed hid hold hnew hname => exact .renamed hid hold hnew hname

end Links

/-- What is made of related elements in the same way is the same. -/
theorem map_eq_of_related {α β γ : Type} {R : α → β → Prop} {f : α → γ} {f' : β → γ}
    (hf : ∀ a b, R a b → f' b = f a) {xs : List α} {ys : List β} (h : List.Forall₂ R xs ys) :
    ys.map f' = xs.map f := by
  induction h with
  | nil => rfl
  | cons hab _ ih => rw [List.map_cons, List.map_cons, hf _ _ hab, ih]

section Unsaid

variable {as bs : List Declaration} (h : List.Forall₂ (Declaration.Renamed hidden id) as bs)
  (hsaid : ∀ d ∈ as, ∀ n ∈ d.names, ¬ hidden n)

include h hsaid

theorem forall₂_renamed_unsaid :
    List.Forall₂ (fun a b => (∀ n ∈ a.names, ¬ hidden n) ∧ a.Renamed hidden id b) as bs :=
  (List.forall₂_and_left as bs).mpr ⟨hsaid, h⟩

/-- **The graph is the same.** -/
theorem linkGraph_renamed : linkGraph bs = linkGraph as := by
  have hvalued : List.Forall₂ (fun a b => (∀ n ∈ a.names, ¬ hidden n) ∧ a.Renamed hidden id b)
      (valued as) (valued bs) := by
    refine List.rel_filter (fun a b hab => ?_) (forall₂_renamed_unsaid h hsaid)
    show (!a.isScopeOnly) = true ↔ (!b.isScopeOnly) = true
    rw [hab.2.isScopeOnly_eq]
  have hnodes : (valued bs).map (GraphStep.node ·.id) = (valued as).map (GraphStep.node ·.id) :=
    map_eq_of_related (fun a b hab => by rw [hab.2.id_eq]) hvalued
  have hedges : (valued bs).map (fun d => (d.dependsOn bs).map (GraphStep.edge · d.id)) =
      (valued as).map fun d => (d.dependsOn as).map (GraphStep.edge · d.id) :=
    map_eq_of_related (fun a b hab => by rw [dependsOn_renamed h hab.2 hab.1, hab.2.id_eq]) hvalued
  rw [linkGraph_eq_build, linkGraph_eq_build, linkSteps, linkSteps, List.flatMap_def, List.flatMap_def,
    hnodes, hedges]

/-- **What is read is spoken of as it was**, if the cell under another name stands in no container. -/
theorem labelOf_renamed (hinside : ∀ d ∈ as, id ∉ d.body) {n : Nat}
    (hread : ∃ d ∈ as, n ∈ d.dependsOn as) : labelOf bs n = labelOf as n := by
  have hrel := findCell?_renamed h n
  have hfound (d : Declaration) : findCell? as n = some d → d.id = n := fun h => (findCell?_eq_some h).2
  have hunread : ∀ d, findCell? as n = some d → d.id = id →
      ¬ ∃ name, hidden name ∧ d.name = some name := by
    rintro e he rfl ⟨name, hhidden, hname⟩
    obtain ⟨d, hd, hn⟩ := hread
    cases hvalued : d.isScopeOnly with
    | true =>
      rw [Declaration.dependsOn_of_isScopeOnly hvalued] at hn
      exact List.not_mem_nil hn
    | false =>
      rcases (Declaration.mem_dependsOn hvalued).mp hn with ⟨said, hreference⟩ | ⟨child, hchild, rfl⟩
      · obtain ⟨e', he', hname'⟩ := resolve?_eq_some (Declaration.mem_references hreference)
        obtain rfl := Option.some.inj (he.symm.trans he')
        obtain rfl : name = said := Option.some.inj (hname.symm.trans hname')
        rw [Declaration.references_of_valued _ hvalued] at hreference
        obtain ⟨said, hsaid', hpair⟩ := List.mem_filterMap.mp hreference
        obtain ⟨_, -, hpair⟩ := Option.map_eq_some_iff.mp hpair
        exact hsaid d hd said hsaid' ((Prod.mk.inj hpair).1 ▸ hhidden)
      · obtain ⟨⟨m, hm, hfind⟩, -⟩ := Declaration.mem_namedChildren.mp hchild
        obtain rfl : child.id = m := (findCell?_eq_some hfind).2
        exact hinside d hd (hfound e he ▸ hm)
  unfold labelOf
  generalize findCell? as n = o at hrel hunread
  generalize findCell? bs n = o' at hrel
  cases hrel with
  | none => rfl
  | some hab =>
    cases hab with
    | same => rfl
    | renamed hid hold _ hname => exact absurd ⟨_, hold, hname⟩ (hunread _ rfl hid)

end Unsaid

/-! ## Notebooks -/

/-- **Notebooks that differ in the name of a cell** that nothing reads. -/
structure Notebook.Renamed (hidden : String → Prop) (id : Nat) (nb nb' : Notebook) : Prop where
  cells : List.Forall₂ (Cell.Renamed hidden id) nb.cells nb'.cells
  evalOrder : nb'.evalOrder = nb.evalOrder
  cyclicCells : nb'.cyclicCells = nb.cyclicCells
  fields : ∀ c ∈ nb.cells, nb'.fields c = nb.fields c
  reports : ∀ n, (nb'.cycleFault? n).map (·.report.toText) = (nb.cycleFault? n).map (·.report.toText)

namespace Notebook

theorem cell?_renamed {nb nb' : Notebook} (h : List.Forall₂ (Cell.Renamed hidden id) nb.cells nb'.cells)
    (n : Nat) : Option.Rel (Cell.Renamed hidden id) (nb.cell? n) (nb'.cell? n) :=
  find?_related (fun a b hab => by cases hab <;> rfl) h

/-- Every other cell keeps its name. -/
theorem cell?_renamed_of_ne {nb nb' : Notebook}
    (h : List.Forall₂ (Cell.Renamed hidden id) nb.cells nb'.cells) {n : Nat} (hn : n ≠ id) :
    nb'.cell? n = nb.cell? n := by
  have hrel := cell?_renamed h n
  have hfound (c : Cell) : nb.cell? n = some c → c.id = n := cell?_id
  generalize nb.cell? n = o at hrel hfound
  generalize nb'.cell? n = o' at hrel
  cases hrel with
  | none => rfl
  | some hab =>
    cases hab with
    | same => rfl
    | renamed hid => exact absurd ((hfound _ rfl).symm.trans hid) hn

theorem fields_renamed {nb nb' : Notebook} (h : List.Forall₂ (Cell.Renamed hidden id) nb.cells nb'.cells)
    {c : Cell} (hc : id ∉ c.body) : nb'.fields c = nb.fields c := by
  unfold fields
  have hcells : c.body.filterMap nb'.cell? = c.body.filterMap nb.cell? := by
    refine List.filterMap_congr fun n hn => cell?_renamed_of_ne h ?_
    rintro rfl
    exact hc hn
  rw [hcells]

section Build

variable {g : Grammar} {top top' : List CellSource}

/-- A fault tells of a cell on a cycle or behind one what other cells read. -/
theorem cycleFault?_renamed
    (hlabels : ∀ a b, (build g top).DependsOn a b →
      labelOf (declarations g top') b = labelOf (declarations g top) b)
    (hgraph : (build g top').graph = (build g top).graph) (n : Nat) :
    ((build g top').cycleFault? n).map (·.report.toText) =
      ((build g top).cycleFault? n).map (·.report.toText) := by
  have hsound : (build g top).graph.Sound := graph_sound
  have hlabels (a b : Nat) (h : (build g top).graph.DependsOn a b) :=
    hlabels a b (dependsOn_graph_iff.mp h)
  rw [cycleFault?_build, cycleFault?_build, hgraph]
  dsimp only
  by_cases hcyclic : n ∈ (build g top).graph.ordered.cyclic
  · rw [if_pos hcyclic, if_pos hcyclic]
    by_cases hcycle : (build g top).graph.OnCycle n
    · -- each cell of a cycle is read by the one before it
      obtain ⟨members, hfind, -, hmem⟩ := hsound.find?_cycles_of_onCycle hcycle
      have hmembers : members.map (labelOf (declarations g top')) =
          members.map (labelOf (declarations g top)) := by
        refine List.map_congr_left fun m hm => ?_
        obtain ⟨b, -, hb⟩ := TransGen.tail'_iff.mp (hcycle.of_entangled ((hmem m).mp hm))
        exact hlabels b m hb
      rw [hfind]
      dsimp only
      rw [hmembers]
    · obtain ⟨front, b, back, hdeps, -, -, hfind⟩ := hsound.exists_blocker hcyclic
      have hb : (build g top).graph.DependsOn n b := by
        rw [Graph.DependsOn, hdeps]
        exact List.mem_append_right front List.mem_cons_self
      rw [hsound.find?_cycles_eq_none hcycle, hfind]
      dsimp only [Option.getD_some]
      rw [hlabels n b hb]
      rfl
  · rw [if_neg hcyclic, if_neg hcyclic]

/-- Declarations that differ in the name of a cell make notebooks that do. -/
theorem renamed_of_declarations
    (h : List.Forall₂ (Declaration.Renamed hidden id) (declarations g top) (declarations g top'))
    (hsaid : ∀ d ∈ declarations g top, ∀ n ∈ d.names, ¬ hidden n)
    (hinside : ∀ d ∈ declarations g top, id ∉ d.body) :
    (build g top).Renamed hidden id (build g top') := by
  have hcells : List.Forall₂ (Cell.Renamed hidden id) (build g top).cells (build g top').cells := by
    refine List.forall₂_map_left_iff.mpr (List.forall₂_map_right_iff.mpr ?_)
    exact (forall₂_renamed_unsaid h hsaid).imp fun a b hab => link_renamed h hab.2 hab.1
  have hgraph : (build g top').graph = (build g top).graph := linkGraph_renamed h hsaid
  have horder : (build g top').graph.ordered = (build g top).graph.ordered := by rw [hgraph]
  refine
    { cells := hcells
      evalOrder := congrArg Ordered.order horder
      cyclicCells := congrArg Ordered.cyclic horder
      fields := fun c hc => fields_renamed hcells ?_
      reports := cycleFault?_renamed (fun a b hab => ?_) hgraph }
  · obtain ⟨d, hd, rfl⟩ := mem_cells.mp hc
    exact hinside d hd
  · obtain ⟨c, hc, -, hb⟩ := hab
    obtain ⟨d, hd, rfl⟩ := mem_cells.mp hc
    exact labelOf_renamed h hsaid hinside ⟨d, hd, hb⟩

end Build

end Notebook

/-! ## Cells at the top -/

namespace CellSource

mutual

theorem kept_subset_sites (around : List CellSource) (seen : List Nat) : (c : CellSource) →
    kept around seen c ⊆ sites around c
  | ⟨n, name, input, body, params⟩ => by
    rw [kept, sites]
    split
    · exact List.nil_subset _
    · exact List.cons_subset_cons _ (keptAll_subset_sitesAll _ _ body)

theorem keptAll_subset_sitesAll (around : List CellSource) (seen : List Nat) : (cs : List CellSource) →
    keptAll around seen cs ⊆ sitesAll around cs
  | [] => List.nil_subset _
  | c :: cs => by
    rw [keptAll, sitesAll]
    exact List.append_subset.mpr
      ⟨List.subset_append_of_subset_left _ (kept_subset_sites around seen c),
        List.subset_append_of_subset_right _ (keptAll_subset_sitesAll around _ cs)⟩

end

end CellSource

/-- The names that the formulas of a notebook say. -/
def Notebook.identifiers (nb : Notebook) : List String :=
  nb.cells.flatMap fun c => c.formula?.toList.flatMap fun f => f.occurrences.map (·.name)

/-- What is looked up for a cell, its formula says. -/
theorem Notebook.mem_identifiers_of_names {nb : Notebook} {c : Cell} (hc : c ∈ nb.cells) {name : String}
    (hname : name ∈ c.names) : name ∈ nb.identifiers := by
  unfold Declaration.names at hname
  split at hname
  next f hformula =>
    refine List.mem_flatMap.mpr ⟨c, hc, List.mem_flatMap.mpr ⟨f, by rw [hformula]; simp, ?_⟩⟩
    rw [Formula.freeNames_eq_occurrences, Formula.freeOf, List.map_map] at hname
    obtain ⟨o, ho, rfl⟩ := List.mem_map.mp (mem_distinct.mp hname)
    exact List.mem_map_of_mem (List.mem_filter.mp ho).1
  next => exact (List.not_mem_nil hname).elim

/-- **A cell at the top under another name**, if it stands in no container and no formula says either name:
the notebook is the same but for the name of that cell. -/
theorem Notebook.build_renamed (g : Grammar) (front back : List CellSource) (c : CellSource)
    {name name' : String} (hname : name ≠ "") (hname' : name' ≠ "")
    (hsaid : name ∉ (build g (front ++ c.withName name :: back)).identifiers)
    (hsaid' : name' ∉ (build g (front ++ c.withName name :: back)).identifiers)
    (hinside : ∀ s ∈ sitesAll [] (front ++ c.withName name :: back), c.id ∉ s.source.body.map (·.id)) :
    (build g (front ++ c.withName name :: back)).Renamed (fun n => n = name ∨ n = name') c.id
      (build g (front ++ c.withName name' :: back)) := by
  refine renamed_of_declarations
    (declarations_renamed g front back c hname hname' (.inl rfl) (.inr rfl)) (fun d hd n hn => ?_)
    fun d hd => ?_
  · have hcell : n ∈ (build g (front ++ c.withName name :: back)).identifiers :=
      mem_identifiers_of_names (mem_cells.mpr ⟨d, hd, rfl⟩) hn
    rintro (rfl | rfl)
    · exact hsaid hcell
    · exact hsaid' hcell
  · rw [declarations_eq_kept] at hd
    obtain ⟨s, hs, rfl⟩ := List.mem_map.mp hd
    exact hinside s (keptAll_subset_sitesAll _ _ _ hs)

end Cellbook
