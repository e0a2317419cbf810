import Mathlib.Data.List.Perm.Basic
import Cellbook.Proofs.Graph.Reordered
import Cellbook.Proofs.Notebook.Sites
import Cellbook.Proofs.Notebook.Unaffected

/-!
# Cells in another order

Cells that stand beside each other at the top of a request may be written in another order. If no number
comes twice in the request, and no name twice among those cells, then every name means the same cell as
before: inside a container nothing has moved, and of the cells at the top at most one has the name. So every
cell keeps its links (`Permuted.cell?_rel`), the graph is the same in another order (`Permuted.graph`), and
the faults of cyclic cells are the same but for the order in which a cycle is told (`Permuted.cycleFault?_rel`).
-/

namespace Cellbook

/-! ## Looking up in another order -/

/-- What only one element passes is found in any order. -/
theorem find?_eq_of_perm {α : Type} {p : α → Bool} {as bs : List α} (hperm : as.Perm bs)
    (honly : ∀ a ∈ as, ∀ b ∈ as, p a → p b → a = b) : bs.find? p = as.find? p := by
  cases hfind : as.find? p with
  | none =>
    refine List.find?_eq_none.mpr fun b hb => ?_
    exact List.find?_eq_none.mp hfind b (hperm.mem_iff.mpr hb)
  | some a =>
    have ha := List.mem_of_find?_eq_some hfind
    have hpa := List.find?_some hfind
    obtain ⟨b, hb⟩ : ∃ b, bs.find? p = some b :=
      Option.isSome_iff_exists.mp (List.find?_isSome.mpr ⟨a, hperm.mem_iff.mp ha, hpa⟩)
    have hmem := hperm.mem_iff.mpr (List.mem_of_find?_eq_some hb)
    rw [hb, honly b hmem a ha (List.find?_some hb) hpa]

/-- Where no key comes twice, the element of a key is found in any order. -/
theorem find?_key_eq_of_perm {α : Type} {key : α → Nat} {as bs : List α} (hperm : as.Perm bs)
    (hnodup : (as.map key).Nodup) (k : Nat) : bs.find? (key · == k) = as.find? (key · == k) := by
  refine find?_eq_of_perm hperm fun a ha b hb hka hkb => ?_
  exact List.inj_on_of_nodup_map hnodup ha hb ((beq_iff_eq.mp hka).trans (beq_iff_eq.mp hkb).symm)

theorem eq_of_nodup_filterMap {α β : Type} {f : α → Option β} {as : List α}
    (hnodup : (as.filterMap f).Nodup) {a b : α} (ha : a ∈ as) (hb : b ∈ as) {x : β} (hfa : f a = some x)
    (hfb : f b = some x) : a = b := by
  by_contra hne
  have hpairs := List.pairwise_filterMap.mp hnodup
  have hsymm : Std.Symm fun a b => ∀ x, f a = some x → ∀ y, f b = some y → x ≠ y :=
    ⟨fun a b h x hx y hy => (h y hy x hx).symm⟩
  exact hpairs.forall ha hb hne x hfa x hfb rfl

namespace CellSource

theorem sitesAll_perm (around : List CellSource) {cs cs' : List CellSource} (h : cs.Perm cs') :
    (sitesAll around cs).Perm (sitesAll around cs') := by
  rw [sitesAll_eq_flatMap, sitesAll_eq_flatMap]
  exact h.flatMap_right _

/-- **Cells in another order**: no number comes twice among them and those in them, and no name twice
among them. -/
structure Permuted (top top' : List CellSource) : Prop where
  perm : top.Perm top'
  ids : (idsOf (sitesAll [] top)).Nodup
  names : (top.filterMap (·.givenName?)).Nodup

namespace Permuted

theorem symm {top top' : List CellSource} (h : Permuted top top') : Permuted top' top where
  perm := h.perm.symm
  ids := ((sitesAll_perm [] h.perm).map _).nodup_iff.mp h.ids
  names := (h.perm.filterMap _).nodup_iff.mp h.names

variable {top top' : List CellSource} (h : Permuted top top') (g : Grammar)

include h

theorem declarations_eq : declarations g top = (sitesAll [] top).map (Site.declaration g top) := by
  have hkept : keptAll [] [] top = sitesAll [] top := keptAll_eq_sitesAll [] top h.ids
  rw [declarations_eq_kept, hkept]

/-- Under a number the declarations of one cell are found, or none. -/
theorem exists_site? (n : Nat) : ∃ s? : Option Site, (∀ s ∈ s?, s ∈ sitesAll [] top) ∧
    findCell? (declarations g top) n = s?.map (Site.declaration g top) ∧
    findCell? (declarations g top') n = s?.map (Site.declaration g top') := by
  have hfind := find?_key_eq_of_perm (sitesAll_perm [] h.perm) h.ids n
  refine ⟨(sitesAll [] top).find? (·.source.id == n), fun s hs => List.mem_of_find?_eq_some hs, ?_, ?_⟩
  · rw [h.declarations_eq, findCell?, List.find?_map]
    rfl
  · rw [h.symm.declarations_eq, findCell?, List.find?_map, ← hfind]
    rfl

theorem findNamed?_eq : findNamed? (declarations g top') = findNamed? (declarations g top) := by
  funext name ids
  unfold findNamed?
  congr 1
  funext n
  obtain ⟨s?, -, hs, hs'⟩ := h.exists_site? g n
  rw [hs, hs']
  cases s? <;> rfl

theorem labelOf_eq : labelOf (declarations g top') = labelOf (declarations g top) := by
  funext n
  obtain ⟨s?, -, hs, hs'⟩ := h.exists_site? g n
  unfold labelOf
  rw [hs, hs']
  cases s? <;> rfl

/-- A cell at the top is found by its number. -/
theorem findCell?_of_mem_top {c : CellSource} (hc : c ∈ top) :
    findCell? (declarations g top) c.id = some (Site.declaration g top ⟨c, []⟩) := by
  have hmem : Site.declaration g top ⟨c, []⟩ ∈ declarations g top := by
    rw [h.declarations_eq]
    exact List.mem_map_of_mem (mem_sitesAll_of_mem hc)
  exact findCell?_of_mem (declarations_nodup g top) hmem

/-- **Among the cells at the top** a name means the same one in any order. -/
theorem findNamed?_top (name : String) : findNamed? (declarations g top) name (top'.map (·.id)) =
    findNamed? (declarations g top) name (top.map (·.id)) := by
  refine find?_eq_of_perm (h.perm.map _) ?_
  have hnamed {c : CellSource} (hc : c ∈ top)
      (hname : (findCell? (declarations g top) c.id).any (·.name == some name)) :
      c.givenName? = some name := by
    rw [h.findCell?_of_mem_top g hc] at hname
    have hdeclared : (Site.declaration g top ⟨c, []⟩).name = some name := by simpa using hname
    exact hdeclared
  simp only [List.forall_mem_map]
  intro c hc d hd hcname hdname
  rw [eq_of_nodup_filterMap h.names hc hd (hnamed hc hcname) (hnamed hd hdname)]

/-- **A name means the same cell** as seen from any cell. -/
theorem resolve?_eq (s : Site) (name : String) :
    resolve? (declarations g top') (s.declaration g top').scopes name =
      resolve? (declarations g top) (s.declaration g top).scopes name := by
  have hscopes (top : List CellSource) : (s.declaration g top).scopes =
      s.around.map (·.body.map (·.id)) ++ [top.map (·.id)] := by
    show (s.around.map (·.body) ++ [top]).map (·.map (·.id)) = _
    rw [List.map_append, List.map_map]
    rfl
  rw [hscopes, hscopes, resolve?, resolve?, h.findNamed?_eq g, List.findSome?_append,
    List.findSome?_append, List.findSome?_singleton, List.findSome?_singleton, h.findNamed?_top g]

theorem references_eq (s : Site) : (s.declaration g top').references (declarations g top') =
    (s.declaration g top).references (declarations g top) := by
  unfold Declaration.references
  rw [Site.declaration_isScopeOnly, Site.declaration_isScopeOnly]
  split
  · rfl
  · have hnames : (s.declaration g top').names = (s.declaration g top).names := rfl
    rw [hnames]
    refine List.filterMap_congr fun name _ => ?_
    rw [h.resolve?_eq g s name]

theorem namedChildren_ids (s : Site) :
    ((s.declaration g top').namedChildren (declarations g top')).map (·.id) =
      ((s.declaration g top).namedChildren (declarations g top)).map (·.id) := by
  have hbody : (s.declaration g top').body = (s.declaration g top).body := rfl
  unfold Declaration.namedChildren
  rw [hbody]
  induction (s.declaration g top).body with
  | nil => rfl
  | cons n ns ih =>
    obtain ⟨s?, -, hs, hs'⟩ := h.exists_site? g n
    rw [List.filterMap_cons, List.filterMap_cons, hs, hs']
    cases s? with
    | none => exact ih
    | some t =>
      have hname : (t.declaration g top').name = (t.declaration g top).name := rfl
      have hid : (t.declaration g top').id = (t.declaration g top).id := rfl
      simp only [Option.map_some, List.filter_cons, hname]
      split
      · rw [List.map_cons, List.map_cons, ih, hid]
      · exact ih

/-- **A cell depends on the same cells**, in the same order. -/
theorem dependsOn_eq (s : Site) : (s.declaration g top').dependsOn (declarations g top') =
    (s.declaration g top).dependsOn (declarations g top) := by
  unfold Declaration.dependsOn
  rw [Site.declaration_isScopeOnly, Site.declaration_isScopeOnly, h.references_eq g s,
    h.namedChildren_ids g s]

/-! ## The graph -/

theorem mem_nodes_iff (n : Nat) : n ∈ (linkGraph (declarations g top)).nodes ↔
    ∃ s ∈ sitesAll [] top, s.source.id = n ∧ s.source.groups = false := by
  rw [mem_nodes_linkGraph, h.declarations_eq]
  constructor
  · rintro ⟨d, hd, hid, hvalued⟩
    obtain ⟨s, hs, rfl⟩ := List.mem_map.mp hd
    exact ⟨s, hs, hid, (s.declaration_isScopeOnly g top) ▸ hvalued⟩
  · rintro ⟨s, hs, hid, hvalued⟩
    exact ⟨_, List.mem_map_of_mem hs, hid, (s.declaration_isScopeOnly g top).trans hvalued⟩

/-- **The graph is the same**, but for the order of its vertices. -/
theorem graph : (linkGraph (declarations g top)).Reordered (linkGraph (declarations g top')) where
  nodes := by
    refine (List.perm_ext_iff_of_nodup (linkGraph_sound _).nodup (linkGraph_sound _).nodup).mpr fun n => ?_
    rw [h.mem_nodes_iff, h.symm.mem_nodes_iff]
    exact exists_congr fun s => and_congr_left' (sitesAll_perm [] h.perm).mem_iff.symm
  dependencies n := by
    obtain ⟨s?, -, hs, hs'⟩ := h.exists_site? g n
    rw [dependencies_linkGraph, dependencies_linkGraph, readsOf_eq_find (declarations_nodup g _),
      readsOf_eq_find (declarations_nodup g _), hs, hs']
    cases s? with
    | none => rfl
    | some s => simp only [Option.map_some, h.dependsOn_eq g s]

end Permuted

end CellSource

/-! ## The notebook -/

/-- **The same cell** beside others in another order. -/
def Cell.SameLinks (c c' : Cell) : Prop := c' = { c with scopes := c'.scopes }

namespace Notebook

variable {top top' : List CellSource} (h : CellSource.Permuted top top') (g : Grammar)

include h

/-- **Every cell keeps its links.** -/
theorem cell?_rel (n : Nat) :
    Option.Rel Cell.SameLinks ((build g top).cell? n) ((build g top').cell? n) := by
  obtain ⟨s?, -, hs, hs'⟩ := h.exists_site? g n
  rw [cell?_build, cell?_build, hs, hs']
  cases s? with
  | none => exact .none
  | some s =>
    have hlink : (s.declaration g top').link (CellSource.declarations g top') =
        ⟨s.declaration g top', (s.declaration g top).references (CellSource.declarations g top),
          (s.declaration g top).dependsOn (CellSource.declarations g top)⟩ := by
      rw [Declaration.link, h.references_eq g s, h.dependsOn_eq g s]
    exact .some hlink

theorem fields_eq (c : Cell) : (build g top').fields c = (build g top).fields c := by
  unfold fields
  induction c.body with
  | nil => rfl
  | cons n ns ih =>
    have hrel := cell?_rel h g n
    rw [List.filterMap_cons, List.filterMap_cons]
    generalize (build g top).cell? n = o at hrel
    generalize (build g top').cell? n = o' at hrel
    cases hrel with
    | none => exact ih
    | some hsame => rw [List.filterMap_cons, List.filterMap_cons, ih, hsame]

/-- A cell is emitted as before. -/
theorem emitCell_eq {κ : Type} (t : Target κ) {c c' : Cell} (hsame : c.SameLinks c') :
    (build g top').emitCell t c' = (build g top).emitCell t c := by
  have hfields : (build g top').fields c' = (build g top).fields c := by
    rw [fields_eq h g, hsame]
    rfl
  unfold emitCell
  rw [hfields, hsame]
  rfl

/-- **The same cells are cyclic.** -/
theorem cyclicCells_perm : (build g top').cyclicCells.Perm (build g top).cyclicCells :=
  (h.graph g).cyclic_perm graph_sound graph_sound

/-- **The same cells have a place in the order.** -/
theorem evalOrder_perm : (build g top').evalOrder.Perm (build g top).evalOrder :=
  (h.graph g).order_perm graph_sound graph_sound

end Notebook

/-- **The same fault**, or cycles told from different members on. -/
inductive EvalFault.SameCycle : EvalFault → EvalFault → Prop
  | same (f : EvalFault) : SameCycle f f
  | cyclic {labels labels' : List String} : labels.Perm labels' →
    SameCycle ⟨.cyclic labels, []⟩ ⟨.cyclic labels', []⟩

namespace Notebook

variable {top top' : List CellSource} (h : CellSource.Permuted top top') (g : Grammar)

include h

/-- **A cyclic cell has the same fault**, but for the order in which a cycle is told. -/
theorem cycleFault?_rel (n : Nat) :
    Option.Rel EvalFault.SameCycle ((build g top).cycleFault? n) ((build g top').cycleFault? n) := by
  have hgraph : (build g top).graph.Reordered (build g top').graph := h.graph g
  have hsound : (build g top).graph.Sound := graph_sound
  have hsound' : (build g top').graph.Sound := graph_sound
  have hmem (m : Nat) : m ∈ (build g top').graph.ordered.cyclic ↔ m ∈ (build g top).graph.ordered.cyclic :=
    hgraph.mem_cyclic_iff hsound hsound' m
  have hcontains : (build g top').graph.ordered.cyclic.contains =
      (build g top).graph.ordered.cyclic.contains := by
    funext m
    rw [Bool.eq_iff_iff, List.contains_iff_mem, List.contains_iff_mem]
    exact hmem m
  rw [cycleFault?_build, cycleFault?_build]
  dsimp only
  rw [h.labelOf_eq g, hcontains, show (build g top').graph.dependencies n =
    (build g top).graph.dependencies n from hgraph.dependencies n]
  simp only [hmem]
  split
  · refine .some ?_
    have hcycle := hgraph.find?_cycles_rel hsound hsound' n
    generalize ((build g top).graph.cycles _).find? _ = o at hcycle ⊢
    generalize ((build g top').graph.cycles _).find? _ = o' at hcycle ⊢
    cases hcycle with
    | none => exact .same _
    | some hperm => exact .cyclic (hperm.map _)
  · exact .none

end Notebook

end Cellbook
