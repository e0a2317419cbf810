import Mathlib.Data.List.Dedup
import Cellbook.Emission.OfNotebook
import Cellbook.Proofs.Graph.Order

/-!
# The links of a notebook

The graph of a notebook is built from its cells and what they read. Its vertices are the cells that have
a value (`nodes_linkGraph`), and a vertex depends on what its cell reads (`dependsOn_linkGraph_iff`): all
that a cell reads has a value, so no edge adds a vertex. In a notebook whatever code a cell is given
reads is among its links (`Notebook.mem_dependsOn_of_reference`, `Notebook.mem_dependsOn_of_field`).
-/

namespace Cellbook

theorem mem_distinct {α : Type} [BEq α] [LawfulBEq α] {a : α} {as : List α} :
    a ∈ distinct as ↔ a ∈ as := by
  induction as with
  | nil => exact Iff.rfl
  | cons b as ih =>
    rw [distinct, List.mem_cons, List.mem_cons, List.mem_filter, ih]
    by_cases hab : a = b
    · simp [hab]
    · simp [hab]

variable {cells : List Declaration}

/-! ## What a cell reads -/

theorem findCell?_eq_some {id : Nat} {d : Declaration} (h : findCell? cells id = some d) :
    d ∈ cells ∧ d.id = id := ⟨List.mem_of_find?_eq_some h, by simpa using List.find?_some h⟩

/-- A name means a cell of that name. -/
theorem resolve?_eq_some {scopes : List (List Nat)} {name : String} {id : Nat}
    (h : resolve? cells scopes name = some id) :
    ∃ d, findCell? cells id = some d ∧ d.name = some name := by
  obtain ⟨ids, -, hfound⟩ := List.exists_of_findSome?_eq_some h
  have hany := List.find?_some hfound
  obtain ⟨d, hd, hname⟩ := (Option.any_eq_true _ _).mp hany
  exact ⟨d, hd, by simpa using hname⟩

namespace Declaration

variable {d : Declaration}

theorem mem_references {name : String} {id : Nat} (h : (name, id) ∈ d.references cells) :
    resolve? cells d.scopes name = some id := by
  unfold references at h
  split at h
  · exact (List.not_mem_nil h).elim
  · obtain ⟨name', -, hname⟩ := List.mem_filterMap.mp h
    obtain ⟨id', hid, hpair⟩ := Option.map_eq_some_iff.mp hname
    obtain ⟨rfl, rfl⟩ := Prod.mk.inj hpair
    exact hid

theorem mem_namedChildren {child : Declaration} :
    child ∈ d.namedChildren cells ↔
      (∃ id ∈ d.body, findCell? cells id = some child) ∧ child.name.isSome := by
  rw [namedChildren, List.mem_filter, List.mem_filterMap]

theorem mem_dependsOn (hvalued : d.isScopeOnly = false) {id : Nat} :
    id ∈ d.dependsOn cells ↔
      (∃ name, (name, id) ∈ d.references cells) ∨ ∃ child ∈ d.namedChildren cells, child.id = id := by
  rw [dependsOn, hvalued, if_neg Bool.false_ne_true, mem_distinct, List.mem_append, List.mem_map,
    List.mem_map]
  refine or_congr ⟨?_, ?_⟩ Iff.rfl
  · rintro ⟨⟨name, _⟩, h, rfl⟩
    exact ⟨name, h⟩
  · rintro ⟨name, h⟩
    exact ⟨_, h, rfl⟩

theorem dependsOn_of_isScopeOnly (h : d.isScopeOnly = true) : d.dependsOn cells = [] := by
  rw [dependsOn, if_pos h]

/-- A cell with a name has a value. -/
theorem isScopeOnly_of_name (h : d.name.isSome) : d.isScopeOnly = false := by
  unfold isScopeOnly
  cases hname : d.name with
  | none => rw [hname] at h; cases h
  | some name => exact Bool.and_false _

/-- What a cell reads is declared and has a value. -/
theorem exists_of_mem_dependsOn {id : Nat} (h : id ∈ d.dependsOn cells) :
    ∃ e ∈ cells, e.id = id ∧ e.isScopeOnly = false := by
  cases hvalued : d.isScopeOnly with
  | true =>
    rw [dependsOn_of_isScopeOnly hvalued] at h
    exact (List.not_mem_nil h).elim
  | false =>
    rcases (mem_dependsOn hvalued).mp h with ⟨name, hname⟩ | ⟨child, hchild, rfl⟩
    · obtain ⟨e, he, hname⟩ := resolve?_eq_some (mem_references hname)
      obtain ⟨hmem, hid⟩ := findCell?_eq_some he
      exact ⟨e, hmem, hid, isScopeOnly_of_name (by rw [hname]; rfl)⟩
    · obtain ⟨⟨id, -, hfound⟩, hname⟩ := mem_namedChildren.mp hchild
      exact ⟨child, (findCell?_eq_some hfound).1, rfl, isScopeOnly_of_name hname⟩

end Declaration

/-! ## The graph -/

/-- The cells that have a value. -/
def valued (cells : List Declaration) : List Declaration := cells.filter (!·.isScopeOnly)

/-- The steps that build the graph of cells: first the vertices, and then the edges of each. -/
def linkSteps (cells : List Declaration) : List GraphStep :=
  (valued cells).map (.node ·.id) ++
    (valued cells).flatMap fun d => (d.dependsOn cells).map (.edge · d.id)

theorem linkGraph_eq_build (cells : List Declaration) : linkGraph cells = Graph.build (linkSteps cells) := by
  unfold linkGraph Graph.build linkSteps
  rw [List.foldl_append, List.foldl_map, List.foldl_flatMap]
  simp only [List.foldl_map]
  rfl

theorem linkGraph_sound (cells : List Declaration) : (linkGraph cells).Sound :=
  linkGraph_eq_build cells ▸ Graph.build_sound _

theorem mem_valued {d : Declaration} : d ∈ valued cells ↔ d ∈ cells ∧ d.isScopeOnly = false := by
  rw [valued, List.mem_filter, Bool.not_eq_true']

/-- **The vertices are the cells that have a value**, in their order. -/
theorem nodes_linkGraph (cells : List Declaration) :
    (linkGraph cells).nodes = Graph.addAllLast [] ((valued cells).map (·.id)) := by
  rw [linkGraph_eq_build, Graph.nodes_build, linkSteps, List.flatMap_append, List.flatMap_map]
  have hnodes : ((valued cells).flatMap fun d => (GraphStep.node d.id).mentions) =
      (valued cells).map (·.id) := by
    rw [List.map_eq_flatMap]
    rfl
  rw [hnodes, Graph.addAllLast, List.foldl_append]
  refine Graph.addAllLast_of_subset fun n hn => ?_
  refine Graph.mem_addAllLast.mpr (.inr ?_)
  obtain ⟨s, hs, hn⟩ := List.mem_flatMap.mp hn
  obtain ⟨d, hd, hs⟩ := List.mem_flatMap.mp hs
  obtain ⟨id, hid, rfl⟩ := List.mem_map.mp hs
  rcases List.mem_cons.mp hn with rfl | hn
  · obtain ⟨e, he, heid, hvalued⟩ := Declaration.exists_of_mem_dependsOn hid
    exact List.mem_map.mpr ⟨e, mem_valued.mpr ⟨he, hvalued⟩, heid⟩
  · rw [List.mem_singleton.mp hn]
    exact List.mem_map_of_mem hd

theorem mem_nodes_linkGraph {id : Nat} :
    id ∈ (linkGraph cells).nodes ↔ ∃ d ∈ cells, d.id = id ∧ d.isScopeOnly = false := by
  rw [nodes_linkGraph, Graph.mem_addAllLast, List.mem_map]
  constructor
  · rintro (h | ⟨d, hd, hid⟩)
    · exact (List.not_mem_nil h).elim
    · exact ⟨d, (mem_valued.mp hd).1, hid, (mem_valued.mp hd).2⟩
  · rintro ⟨d, hd, hid, hvalued⟩
    exact .inr ⟨d, mem_valued.mpr ⟨hd, hvalued⟩, hid⟩

/-- What the cells of a number read, one after the other. -/
def readsOf (cells : List Declaration) (id : Nat) : List Nat :=
  (valued cells).flatMap fun d => if d.id = id then d.dependsOn cells else []

theorem dependencies_linkGraph (cells : List Declaration) (id : Nat) :
    (linkGraph cells).dependencies id = Graph.addAllLast [] (readsOf cells id) := by
  rw [linkGraph_eq_build, Graph.dependencies_build, linkSteps, List.filterMap_append, List.filterMap_map]
  have hnone : (valued cells).filterMap ((GraphStep.into? id) ∘ (GraphStep.node ·.id)) = [] :=
    List.filterMap_eq_nil_iff.mpr fun _ _ => rfl
  rw [hnone, List.nil_append, List.filterMap_flatMap, readsOf]
  congr 2
  funext d
  rw [List.filterMap_map]
  by_cases hid : d.id = id
  · rw [if_pos hid]
    refine (List.filterMap_congr fun n _ => ?_).trans List.filterMap_some
    rw [Function.comp_apply, GraphStep.into?, if_pos hid]
  · rw [if_neg hid]
    refine List.filterMap_eq_nil_iff.mpr fun n _ => ?_
    rw [Function.comp_apply, GraphStep.into?, if_neg hid]

/-- **A vertex depends on what its cell reads.** -/
theorem dependsOn_linkGraph_iff {a b : Nat} :
    (linkGraph cells).DependsOn a b ↔ ∃ d ∈ cells, d.id = a ∧ b ∈ d.dependsOn cells := by
  rw [Graph.DependsOn, dependencies_linkGraph, Graph.mem_addAllLast, readsOf, List.mem_flatMap]
  constructor
  · rintro (h | ⟨d, hd, hb⟩)
    · exact (List.not_mem_nil h).elim
    · split at hb
      next hid => exact ⟨d, (mem_valued.mp hd).1, hid, hb⟩
      next => exact (List.not_mem_nil hb).elim
  · rintro ⟨d, hd, hid, hb⟩
    cases hvalued : d.isScopeOnly with
    | true =>
      rw [Declaration.dependsOn_of_isScopeOnly hvalued] at hb
      exact (List.not_mem_nil hb).elim
    | false => exact .inr ⟨d, mem_valued.mpr ⟨hd, hvalued⟩, by rwa [if_pos hid]⟩

/-! ## Declared cells -/

namespace CellSource

mutual

theorem declare_nodup (g : Grammar) (parent : Option Nat) (scopes : List (List Nat))
    {declared : List Declaration} (h : (declared.map (·.id)).Nodup) : (c : CellSource) →
    ((declare g parent scopes declared c).map (·.id)).Nodup
  | ⟨id, name, input, body, params⟩ => by
    rw [declare]
    split
    · exact h
    next hnew =>
      refine declareAll_nodup g (some id) _ ?_ body
      rw [List.map_append, List.map_singleton]
      refine List.nodup_append.mpr ⟨h, List.nodup_singleton _, fun a ha b hb => ?_⟩
      rw [List.mem_singleton.mp hb]
      rintro rfl
      obtain ⟨d, hd, hid⟩ := List.mem_map.mp ha
      exact hnew (List.any_eq_true.mpr ⟨d, hd, by simpa using hid⟩)

theorem declareAll_nodup (g : Grammar) (parent : Option Nat) (scopes : List (List Nat))
    {declared : List Declaration} (h : (declared.map (·.id)).Nodup) : (cs : List CellSource) →
    ((declareAll g parent scopes declared cs).map (·.id)).Nodup
  | [] => h
  | c :: cs => declareAll_nodup g parent scopes (declare_nodup g parent scopes h c) cs

end

/-- **No number is declared twice.** -/
theorem declarations_nodup (g : Grammar) (cs : List CellSource) :
    ((declarations g cs).map (·.id)).Nodup := by
  have hnone : (([] : List Declaration).map (·.id)).Nodup := List.nodup_nil
  exact declareAll_nodup g none _ hnone cs

end CellSource

/-- Where no number is declared twice, a declared cell is found by its number. -/
theorem findCell?_of_mem (hnodup : (cells.map (·.id)).Nodup) {d : Declaration} (hd : d ∈ cells) :
    findCell? cells d.id = some d := by
  induction cells with
  | nil => exact (List.not_mem_nil hd).elim
  | cons e cells ih =>
    obtain ⟨he, hnodup⟩ := List.nodup_cons.mp hnodup
    unfold findCell? at ih ⊢
    rw [List.find?_cons]
    rcases List.mem_cons.mp hd with rfl | hd
    · rw [beq_self_eq_true]
    · have hne : e.id ≠ d.id := by
        intro hid
        exact he (List.mem_map.mpr ⟨d, hd, hid.symm⟩)
      rw [beq_false_of_ne hne]
      exact ih hnodup hd

/-- What the cells of a number read is what the declaration found under it says. -/
theorem readsOf_eq_find (hnodup : (cells.map (·.id)).Nodup) (id : Nat) :
    readsOf cells id = ((findCell? cells id).map (·.dependsOn cells)).getD [] := by
  have hnone (ds : List Declaration) (h : id ∉ ds.map (·.id)) :
      ((valued ds).flatMap fun d => if d.id = id then d.dependsOn cells else []) = [] := by
    refine List.flatMap_eq_nil_iff.mpr fun d hd => if_neg fun hid => h ?_
    exact List.mem_map.mpr ⟨d, (mem_valued.mp hd).1, hid⟩
  suffices hpart : ∀ ds : List Declaration, (ds.map (·.id)).Nodup →
      ((valued ds).flatMap fun d => if d.id = id then d.dependsOn cells else []) =
        ((findCell? ds id).map (·.dependsOn cells)).getD [] from hpart cells hnodup
  intro ds hnodup
  induction ds with
  | nil => rfl
  | cons d ds ih =>
    obtain ⟨hd, hnodup⟩ := List.nodup_cons.mp hnodup
    have hfirst : ((valued (d :: ds)).flatMap fun d => if d.id = id then d.dependsOn cells else []) =
        (if d.id = id then d.dependsOn cells else []) ++
          (valued ds).flatMap fun d => if d.id = id then d.dependsOn cells else [] := by
      cases hvalued : d.isScopeOnly with
      | true => simp [valued, hvalued, Declaration.dependsOn_of_isScopeOnly hvalued]
      | false => simp [valued, hvalued]
    rw [hfirst, findCell?, List.find?_cons]
    by_cases hid : d.id = id
    · rw [hnone ds (hid ▸ hd), if_pos hid, beq_iff_eq.mpr hid, List.append_nil]
      rfl
    · rw [if_neg hid, beq_false_of_ne hid, List.nil_append]
      exact ih hnodup

/-! ## Notebooks -/

theorem lookup_map_self {α : Type} (f : Nat → α) (ids : List Nat) (id : Nat) :
    (ids.map fun n => (n, f n)).lookup id = if id ∈ ids then some (f id) else none := by
  induction ids with
  | nil => rfl
  | cons n ids ih =>
    rw [List.map_cons, List.lookup_cons]
    by_cases hn : id = n
    · simp [hn]
    · simp [beq_false_of_ne hn, hn, ih]

namespace Notebook

/-- One cell of a notebook reads another one. -/
def DependsOn (nb : Notebook) (a b : Nat) : Prop := ∃ c ∈ nb.cells, c.id = a ∧ b ∈ c.dependsOn

theorem cell?_id {nb : Notebook} {c : Cell} {id : Nat} (h : nb.cell? id = some c) : c.id = id := by
  simpa using List.find?_some h

theorem mem_cells_of_cell? {nb : Notebook} {c : Cell} {id : Nat} (h : nb.cell? id = some c) :
    c ∈ nb.cells := List.mem_of_find?_eq_some h

section Build

variable {g : Grammar} {sources : List CellSource}

theorem graph_sound : (build g sources).graph.Sound := linkGraph_sound _

theorem mem_cells {c : Cell} : c ∈ (build g sources).cells ↔
    ∃ d ∈ CellSource.declarations g sources, d.link (CellSource.declarations g sources) = c :=
  List.mem_map

theorem cell?_build (id : Nat) : (build g sources).cell? id =
    (findCell? (CellSource.declarations g sources) id).map
      (·.link (CellSource.declarations g sources)) := by
  show List.find? _ (List.map _ _) = _
  rw [List.find?_map]
  rfl

/-- Every cell is found by its number. -/
theorem cell?_of_mem {c : Cell} (hc : c ∈ (build g sources).cells) :
    (build g sources).cell? c.id = some c := by
  obtain ⟨d, hd, rfl⟩ := mem_cells.mp hc
  have hfind : findCell? (CellSource.declarations g sources) d.id = some d :=
    findCell?_of_mem (CellSource.declarations_nodup g sources) hd
  show (build g sources).cell? d.id = _
  rw [cell?_build, hfind]
  rfl

/-- **The graph of a notebook** has an edge wherever a cell reads another one. -/
theorem dependsOn_graph_iff {a b : Nat} :
    (build g sources).graph.DependsOn a b ↔ (build g sources).DependsOn a b := by
  refine dependsOn_linkGraph_iff.trans ⟨?_, ?_⟩
  · rintro ⟨d, hd, hid, hb⟩
    exact ⟨_, mem_cells.mpr ⟨d, hd, rfl⟩, hid, hb⟩
  · rintro ⟨c, hc, hid, hb⟩
    obtain ⟨d, hd, rfl⟩ := mem_cells.mp hc
    exact ⟨d, hd, hid, hb⟩

/-- A vertex is the number of a cell that has a value. -/
theorem exists_cell?_of_mem_nodes {id : Nat} (h : id ∈ (build g sources).graph.nodes) :
    ∃ c, (build g sources).cell? id = some c ∧ c.isScopeOnly = false := by
  obtain ⟨d, hd, rfl, hvalued⟩ := mem_nodes_linkGraph.mp h
  exact ⟨_, cell?_of_mem (mem_cells.mpr ⟨d, hd, rfl⟩), hvalued⟩

/-- A cell has a place in the order, or is cyclic, if it has a value, and not both. -/
theorem mem_evalOrder {id : Nat} : id ∈ (build g sources).evalOrder ↔
    id ∈ (build g sources).graph.nodes ∧ id ∉ (build g sources).cyclicCells := by
  have hsound : (build g sources).graph.Sound := graph_sound
  rw [← (Graph.ordered_progress _).perm.mem_iff, List.mem_append]
  have hnodup := hsound.ordered_nodup
  constructor
  · intro h
    exact ⟨.inl h, fun hc => (List.nodup_append.mp hnodup).2.2 id h id hc rfl⟩
  · rintro ⟨h, hc⟩
    exact h.resolve_right hc

theorem mem_nodes_of_mem_cyclicCells {id : Nat} (h : id ∈ (build g sources).cyclicCells) :
    id ∈ (build g sources).graph.nodes :=
  (Graph.ordered_progress _).perm.mem_iff.mp (List.mem_append_right _ h)

theorem exists_cycleFault? {id : Nat} (h : id ∈ (build g sources).cyclicCells) :
    ∃ fault, (build g sources).cycleFault? id = some fault :=
  ⟨_, (lookup_map_self _ _ _).trans (if_pos h)⟩

theorem mem_cyclicCells_of_cycleFault? {id : Nat} {fault : EvalFault}
    (h : (build g sources).cycleFault? id = some fault) : id ∈ (build g sources).cyclicCells := by
  by_contra hid
  have hnone : (build g sources).cycleFault? id = none := (lookup_map_self _ _ _).trans (if_neg hid)
  exact Option.some_ne_none fault (h.symm.trans hnone)

/-- **The names in a cell mean cells that it reads.** -/
theorem mem_dependsOn_of_reference {c : Cell} (hc : c ∈ (build g sources).cells) {name : String}
    {id : Nat} (h : (name, id) ∈ c.references) : id ∈ c.dependsOn := by
  obtain ⟨d, hd, rfl⟩ := mem_cells.mp hc
  cases hvalued : d.isScopeOnly with
  | false => exact (Declaration.mem_dependsOn hvalued).mpr (.inl ⟨name, h⟩)
  | true =>
    have hnone : d.references (CellSource.declarations g sources) = [] := if_pos hvalued
    have h : (name, id) ∈ d.references (CellSource.declarations g sources) := h
    rw [hnone] at h
    exact (List.not_mem_nil h).elim

/-- **The fields of a container are cells that it reads.** -/
theorem mem_dependsOn_of_field {c : Cell} (hc : c ∈ (build g sources).cells)
    (hvalued : c.isScopeOnly = false) {name : String} {id : Nat}
    (h : (name, id) ∈ (build g sources).fields c) : id ∈ c.dependsOn := by
  obtain ⟨d, hd, rfl⟩ := mem_cells.mp hc
  obtain ⟨child, hchild, hpair⟩ := List.mem_filterMap.mp h
  obtain ⟨name', hname, hpair⟩ := Option.map_eq_some_iff.mp hpair
  obtain ⟨n, hn, hfound⟩ := List.mem_filterMap.mp hchild
  rw [cell?_build] at hfound
  obtain ⟨e, he, rfl⟩ := Option.map_eq_some_iff.mp hfound
  refine (Declaration.mem_dependsOn hvalued).mpr (.inr ⟨e, ?_, congrArg Prod.snd hpair⟩)
  have hname : e.name = some name' := hname
  exact Declaration.mem_namedChildren.mpr ⟨⟨n, hn, he⟩, by rw [hname]; rfl⟩

end Build

end Notebook

end Cellbook
