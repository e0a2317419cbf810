import Cellbook.Proofs.Notebook.References

/-!
# Cells that repeat a number

Of the cells with one number a notebook declares the first, and nothing that stands in the others. What is left
of a request when the others are taken out of it (`CellSource.unrepeatedAll`) declares the same cells; but the
numbers of the others are still in the lists in which they stood. A cell is looked up by its number in such a
list, so it may be found where it does not stand.

It is not if every repeated cell stands beside the one that it repeats (`CellSource.RepeatsBeside`): then a list
with the repeated numbers and the list without them are the same but for repetitions. The declarations agree in
all but these lists (`declarations_unrepeated`), and so do the cells of the two notebooks
(`Notebook.build_unrepeated`), where names mean the same and each cell reads the same ones.
-/

namespace Cellbook

/-! ## Repetitions in lists -/

section Distinct

variable {α : Type} [BEq α]

theorem distinct_eq_nil {as : List α} : distinct as = [] ↔ as = [] := by
  cases as with
  | nil => exact Iff.rfl
  | cons a as => simp [distinct]

theorem isEmpty_distinct (as : List α) : (distinct as).isEmpty = as.isEmpty := by
  rw [Bool.eq_iff_iff, List.isEmpty_iff, List.isEmpty_iff, distinct_eq_nil]

/-- The first element that passes a test is no repetition. -/
theorem find?_distinct [LawfulBEq α] (p : α → Bool) (as : List α) : (distinct as).find? p = as.find? p := by
  induction as with
  | nil => rfl
  | cons a as ih =>
    rw [distinct, List.find?_cons, List.find?_cons]
    cases hp : p a with
    | true => rfl
    | false =>
      dsimp only
      rw [← ih, List.find?_filter]
      refine List.find?_congr fun b _ => ?_
      by_cases hb : b = a
      · simp [hb, hp]
      · simp [hb]

theorem distinct_append_distinct [LawfulBEq α] (as bs : List α) :
    distinct (as ++ distinct bs) = distinct (as ++ bs) := by
  induction as with
  | nil => exact distinct_of_nodup (distinct_nodup bs)
  | cons a as ih => rw [List.cons_append, List.cons_append, distinct, distinct, ih]

end Distinct

namespace CellSource

/-! ## Taking out repeated cells -/

mutual

/-- What is left of a cell when some numbers have been seen, and the numbers seen behind it: nothing if its own
number is one of them, and else the cell with what is left of the cells in it. -/
def unrepeated (seen : List Nat) : CellSource → List CellSource × List Nat
  | ⟨id, name, input, body, params⟩ =>
    if id ∈ seen then ([], seen)
    else
      let inside := unrepeatedAll (seen ++ [id]) body
      ([⟨id, name, input, inside.1, params⟩], inside.2)

/-- **What is left of cells** when of those with one number the first is kept, and nothing of the others. -/
def unrepeatedAll (seen : List Nat) : List CellSource → List CellSource × List Nat
  | [] => ([], seen)
  | c :: cs =>
    let first := unrepeated seen c
    let others := unrepeatedAll first.2 cs
    (first.1 ++ others.1, others.2)

end

/-- The numbers of cells that stand beside each other. -/
def numbers (cs : List CellSource) : List Nat := cs.map (·.id)

/-- The numbers of the cells that stand in each cell of some sites. -/
def bodies (ss : List Site) : List (List Nat) := ss.map fun s => numbers s.source.body

/-- **Every repeated cell stands beside the one that it repeats**: no list of cells loses a number when the
repeated cells are taken out. -/
structure RepeatsBeside (top : List CellSource) : Prop where
  beside : numbers top ⊆ numbers (unrepeatedAll [] top).1
  inside : List.Forall₂ (· ⊆ ·) (bodies (keptAll [] [] top)) (bodies (sitesAll [] (unrepeatedAll [] top).1))

mutual

/-- The numbers seen behind a cell are those seen before it and those of what is kept of it. -/
theorem unrepeated_seen (around : List CellSource) (seen : List Nat) : (c : CellSource) →
    (unrepeated seen c).2 = seen ++ idsOf (kept around seen c)
  | ⟨id, name, input, body, params⟩ => by
    rw [unrepeated, kept]
    split
    · exact (List.append_nil seen).symm
    · dsimp only
      rw [unrepeatedAll_seen (⟨id, name, input, body, params⟩ :: around), idsOf_cons, List.append_assoc]
      rfl

theorem unrepeatedAll_seen (around : List CellSource) (seen : List Nat) : (cs : List CellSource) →
    (unrepeatedAll seen cs).2 = seen ++ idsOf (keptAll around seen cs)
  | [] => (List.append_nil seen).symm
  | c :: cs => by
    rw [unrepeatedAll, keptAll]
    dsimp only
    rw [unrepeatedAll_seen around, unrepeated_seen around, idsOf_append, List.append_assoc]

end

mutual

/-- What is left has the numbers of what is kept. -/
theorem idsOf_unrepeated (around around' : List CellSource) (seen : List Nat) : (c : CellSource) →
    idsOf (sitesAll around' (unrepeated seen c).1) = idsOf (kept around seen c)
  | ⟨id, name, input, body, params⟩ => by
    rw [unrepeated, kept]
    split
    · rfl
    · dsimp only
      rw [sitesAll, sitesAll, sites, List.append_nil, idsOf_cons, idsOf_cons,
        idsOf_unrepeatedAll (⟨id, name, input, body, params⟩ :: around)]

theorem idsOf_unrepeatedAll (around around' : List CellSource) (seen : List Nat) : (cs : List CellSource) →
    idsOf (sitesAll around' (unrepeatedAll seen cs).1) = idsOf (keptAll around seen cs)
  | [] => rfl
  | c :: cs => by
    rw [unrepeatedAll, keptAll]
    dsimp only
    rw [sitesAll_eq_flatMap, List.flatMap_append, ← sitesAll_eq_flatMap, ← sitesAll_eq_flatMap, idsOf_append,
      idsOf_append, idsOf_unrepeated around, idsOf_unrepeatedAll around, unrepeated_seen around]

end

/-- No number is left twice. -/
theorem unrepeatedAll_nodup (top : List CellSource) : (idsOf (sitesAll [] (unrepeatedAll [] top).1)).Nodup := by
  rw [idsOf_unrepeatedAll [], ← map_declaration_id .empty top, ← declarations_eq_kept]
  exact declarations_nodup .empty top

/-! ## What is left of a list -/

theorem unrepeated_cases (seen : List Nat) (c : CellSource) :
    (c.id ∈ seen ∧ unrepeated seen c = ([], seen)) ∨
      (c.id ∉ seen ∧ seen ++ [c.id] ⊆ (unrepeated seen c).2 ∧ numbers (unrepeated seen c).1 = [c.id]) := by
  obtain ⟨id, name, input, body, params⟩ := c
  rw [unrepeated]
  by_cases hid : id ∈ seen
  · exact .inl ⟨hid, if_pos hid⟩
  · rw [if_neg hid]
    refine .inr ⟨hid, ?_, rfl⟩
    dsimp only
    rw [unrepeatedAll_seen []]
    exact List.subset_append_left _ _

/-- Of a list no number is left that had been seen. -/
theorem not_mem_numbers_unrepeatedAll {n : Nat} {seen : List Nat} (hn : n ∈ seen) (cs : List CellSource) :
    n ∉ numbers (unrepeatedAll seen cs).1 := by
  induction cs generalizing seen with
  | nil => exact List.not_mem_nil
  | cons c cs ih =>
    rw [unrepeatedAll]
    dsimp only
    rw [numbers, List.map_append, List.mem_append, not_or]
    rcases unrepeated_cases seen c with ⟨-, heq⟩ | ⟨hnew, hsub, hids⟩
    · rw [heq]
      exact ⟨List.not_mem_nil, ih hn⟩
    · refine ⟨?_, ih (hsub (List.mem_append_left _ hn))⟩
      rw [← numbers, hids, List.mem_singleton]
      exact fun heq => hnew (heq ▸ hn)

/-- What is left of a list of cells, if no number is lost but some that are known: the numbers of the list once
each, without those known. -/
theorem numbers_unrepeatedAll {known seen : List Nat} (hknown : known ⊆ seen) (cs : List CellSource)
    (h : ∀ n ∈ numbers cs, n ∈ known ∨ n ∈ numbers (unrepeatedAll seen cs).1) :
    numbers (unrepeatedAll seen cs).1 = (distinct (numbers cs)).filter (!known.contains ·) := by
  induction cs generalizing known seen with
  | nil => rfl
  | cons c cs ih =>
    have hrest (known' : List Nat) (hsub : known' ⊆ (unrepeated seen c).2)
        (hall : ∀ n ∈ known ++ numbers (unrepeated seen c).1, n ∈ known') :
        numbers (unrepeatedAll (unrepeated seen c).2 cs).1 =
          (distinct (numbers cs)).filter (!known'.contains ·) := by
      refine ih hsub fun n hn => ?_
      have hn := h n (List.mem_cons_of_mem _ hn)
      rw [unrepeatedAll] at hn
      dsimp only at hn
      rw [numbers, List.map_append, List.mem_append, ← or_assoc] at hn
      exact hn.imp_left fun hn => hall n (List.mem_append.mpr hn)
    rw [unrepeatedAll]
    dsimp only
    rw [show numbers (c :: cs) = c.id :: numbers cs from rfl, distinct, numbers, List.map_append, ← numbers,
      ← numbers]
    rcases unrepeated_cases seen c with ⟨hseen, heq⟩ | ⟨hnew, hsub, hids⟩
    · -- a repeated number is known: it is not left of the rest
      have hc : c.id ∈ known := by
        refine (h c.id List.mem_cons_self).resolve_right ?_
        exact not_mem_numbers_unrepeatedAll hseen (c :: cs)
      rw [hrest known (by rw [heq]; exact hknown) (by rw [heq]; simp [numbers]), heq,
        List.filter_cons_of_neg (by simpa using hc), List.filter_filter]
      refine List.filter_congr fun b _ => ?_
      by_cases hb : b = c.id
      · simp [hb, hc]
      · simp [hb]
    · have hc : c.id ∉ known := fun hc => hnew (hknown hc)
      rw [hrest (known ++ [c.id]) ?_ (by rw [hids]; exact fun n hn => hn), hids,
        List.filter_cons_of_pos (by simpa using hc), List.filter_filter, List.singleton_append]
      · congr 1
        refine List.filter_congr fun b _ => ?_
        by_cases hb : b = c.id <;> simp [hb]
      · exact fun n hn => hsub (List.append_subset.mpr
          ⟨fun _ hk => List.mem_append_left _ (hknown hk), List.subset_append_right _ _⟩ hn)

/-- **A list that loses no number** loses nothing but repetitions. -/
theorem numbers_unrepeatedAll_of_subset {seen : List Nat} {cs : List CellSource}
    (h : numbers cs ⊆ numbers (unrepeatedAll seen cs).1) :
    numbers (unrepeatedAll seen cs).1 = distinct (numbers cs) := by
  rw [numbers_unrepeatedAll (List.nil_subset seen) cs fun n hn => .inr (h hn)]
  exact List.filter_eq_self.mpr fun _ _ => rfl

end CellSource

/-! ## Declarations -/

/-- A declaration without the repetitions in its lists of cells. -/
def Declaration.thin (d : Declaration) : Declaration :=
  { d with body := distinct d.body, scopes := d.scopes.map distinct }

namespace CellSource

section Declarations

variable (g : Grammar) {top top' : List CellSource}

/-- A cell has the same content without repeated cells in it, if its list of cells is the same but for
repetitions. -/
theorem content_of_body (id : Nat) (name : Option String) (input : String) {body body' : List CellSource}
    (params : List String) (h : numbers body' = distinct (numbers body)) :
    content g ⟨id, name, input, body', params⟩ = content g ⟨id, name, input, body, params⟩ := by
  have hempty : body'.isEmpty = body.isEmpty := by
    have hnumbers (cs : List CellSource) : (numbers cs).isEmpty = cs.isEmpty := List.isEmpty_map
    rw [← hnumbers body', h, isEmpty_distinct, hnumbers]
  simp only [content, hempty]

theorem forall₂_append_iff {α β : Type} {R : α → β → Prop} {as as' : List α} {bs bs' : List β}
    (hlength : as.length = bs.length) :
    List.Forall₂ R (as ++ as') (bs ++ bs') ↔ List.Forall₂ R as bs ∧ List.Forall₂ R as' bs' := by
  induction as generalizing bs with
  | nil =>
    obtain rfl := List.length_eq_zero_iff.mp hlength.symm
    exact ⟨fun h => ⟨.nil, h⟩, And.right⟩
  | cons a as ih =>
    obtain ⟨b, bs, rfl⟩ := List.exists_cons_of_length_eq_add_one hlength.symm
    rw [List.cons_append, List.cons_append, List.forall₂_cons, List.forall₂_cons,
      ih (Nat.succ.inj hlength), and_assoc]

theorem length_bodies {ss ss' : List Site} (h : idsOf ss' = idsOf ss) :
    (bodies ss).length = (bodies ss').length := by
  have hlength := congrArg List.length h
  simp only [idsOf, List.length_map] at hlength
  simp only [bodies, List.length_map, hlength]

mutual

/-- A cell that is kept is declared without the repetitions in its lists, if no list in it loses a number. -/
theorem declaration_unrepeated (around around' : List CellSource) (seen : List Nat)
    (hscopes : scopesIn top' around' = (scopesIn top around).map distinct)
    (hparent : around'.head?.map (·.id) = around.head?.map (·.id)) : (c : CellSource) →
    List.Forall₂ (· ⊆ ·) (bodies (kept around seen c)) (bodies (sitesAll around' (unrepeated seen c).1)) →
    (sitesAll around' (unrepeated seen c).1).map (Site.declaration g top') =
      ((kept around seen c).map (Site.declaration g top)).map Declaration.thin
  | ⟨id, name, input, body, params⟩, hbodies => by
    rw [unrepeated, kept] at hbodies ⊢
    by_cases hid : id ∈ seen
    · rw [if_pos hid, if_pos hid]
      rfl
    · rw [if_neg hid, if_neg hid] at hbodies ⊢
      dsimp only at hbodies ⊢
      rw [sitesAll, sitesAll, sites, List.append_nil] at hbodies ⊢
      obtain ⟨hbody, hinside⟩ := List.forall₂_cons.mp hbodies
      have hnumbers : numbers (unrepeatedAll (seen ++ [id]) body).1 = distinct (numbers body) :=
        numbers_unrepeatedAll_of_subset hbody
      have hcontent := content_of_body g id name input params hnumbers
      have hscopes' : scopesIn top' (⟨id, name, input, (unrepeatedAll (seen ++ [id]) body).1, params⟩ :: around') =
          (scopesIn top (⟨id, name, input, body, params⟩ :: around)).map distinct :=
        congrArg₂ List.cons hnumbers hscopes
      rw [List.map_cons, List.map_cons, List.map_cons,
        declarationAll_unrepeated _ _ _ hscopes' rfl body hinside]
      refine congrArg (· :: _) ?_
      show declaration g (around'.head?.map (·.id)) (scopesIn top' around') _ =
        (declaration g (around.head?.map (·.id)) (scopesIn top around) _).thin
      unfold declaration Declaration.thin
      rw [hparent, hscopes, hcontent]
      exact congrArg (fun body => (⟨id, name.filter (!·.isEmpty), params, body, _, _, _⟩ : Declaration)) hnumbers

theorem declarationAll_unrepeated (around around' : List CellSource) (seen : List Nat)
    (hscopes : scopesIn top' around' = (scopesIn top around).map distinct)
    (hparent : around'.head?.map (·.id) = around.head?.map (·.id)) : (cs : List CellSource) →
    List.Forall₂ (· ⊆ ·) (bodies (keptAll around seen cs))
      (bodies (sitesAll around' (unrepeatedAll seen cs).1)) →
    (sitesAll around' (unrepeatedAll seen cs).1).map (Site.declaration g top') =
      ((keptAll around seen cs).map (Site.declaration g top)).map Declaration.thin
  | [], _ => rfl
  | c :: cs, hbodies => by
    have hids := idsOf_unrepeated around around' seen c
    rw [unrepeatedAll, keptAll] at hbodies ⊢
    dsimp only at hbodies ⊢
    rw [sitesAll_eq_flatMap, List.flatMap_append, ← sitesAll_eq_flatMap, ← sitesAll_eq_flatMap] at hbodies ⊢
    rw [bodies, List.map_append, bodies, List.map_append, ← bodies, ← bodies, ← bodies, ← bodies,
      forall₂_append_iff (length_bodies hids), ← unrepeated_seen around] at hbodies
    rw [List.map_append, List.map_append, List.map_append,
      declaration_unrepeated around around' seen hscopes hparent c hbodies.1,
      declarationAll_unrepeated around around' _ hscopes hparent cs hbodies.2, unrepeated_seen around]

end

/-- **The declarations without the repeated cells** are the same but for repetitions in their lists. -/
theorem declarations_unrepeated (h : RepeatsBeside top) :
    declarations g (unrepeatedAll [] top).1 = (declarations g top).map Declaration.thin := by
  have hscopes : scopesIn (unrepeatedAll [] top).1 [] = (scopesIn top []).map distinct :=
    congrArg (fun ids => [ids]) (numbers_unrepeatedAll_of_subset h.beside)
  have hkept : keptAll [] [] (unrepeatedAll [] top).1 = sitesAll [] (unrepeatedAll [] top).1 :=
    keptAll_eq_sitesAll [] _ (unrepeatedAll_nodup top)
  rw [declarations_eq_kept, declarations_eq_kept, hkept]
  exact declarationAll_unrepeated g [] [] [] hscopes rfl top h.inside

end Declarations

end CellSource

/-! ## Links -/

section Links

variable (cells : List Declaration)

theorem findCell?_thin (id : Nat) :
    findCell? (cells.map Declaration.thin) id = (findCell? cells id).map Declaration.thin := by
  unfold findCell?
  rw [List.find?_map]
  rfl

theorem resolve?_thin (scopes : List (List Nat)) (name : String) :
    resolve? (cells.map Declaration.thin) (scopes.map distinct) name = resolve? cells scopes name := by
  have hnamed (ids : List Nat) :
      findNamed? (cells.map Declaration.thin) name (distinct ids) = findNamed? cells name ids := by
    unfold findNamed?
    rw [find?_distinct]
    refine List.find?_congr fun id _ => ?_
    rw [findCell?_thin, Option.any_map]
    rfl
  unfold resolve?
  rw [List.findSome?_map]
  exact congrArg (scopes.findSome? ·) (funext hnamed)

theorem labelOf_thin : labelOf (cells.map Declaration.thin) = labelOf cells := by
  funext id
  unfold labelOf
  rw [findCell?_thin]
  cases findCell? cells id <;> rfl

namespace Declaration

variable (d : Declaration)

theorem isContainer_thin : d.thin.isContainer = d.isContainer := congrArg (!·) (isEmpty_distinct d.body)

theorem isScopeOnly_thin : d.thin.isScopeOnly = d.isScopeOnly := by
  unfold isScopeOnly
  rw [isContainer_thin]
  rfl

theorem references_thin : d.thin.references (cells.map Declaration.thin) = d.references cells := by
  unfold references
  rw [isScopeOnly_thin]
  refine if_congr Iff.rfl rfl (List.filterMap_congr fun name _ => ?_)
  rw [show d.thin.scopes = d.scopes.map distinct from rfl, resolve?_thin]

/-- The numbers of the named cells in a container. -/
theorem namedChildren_ids :
    (d.namedChildren cells).map (·.id) = d.body.filter fun id => (findCell? cells id).any (·.name.isSome) := by
  unfold namedChildren
  rw [List.filter_filterMap, List.map_filterMap, ← List.filterMap_eq_filter]
  refine List.filterMap_congr fun id _ => ?_
  cases hfind : findCell? cells id with
  | none => simp [Option.guard, hfind]
  | some e =>
    have hid := (findCell?_eq_some hfind).2
    cases hname : e.name with
    | none => simp [Option.filter, Option.guard, hfind, hname]
    | some name => simp [Option.filter, Option.guard, hfind, hname, hid]

theorem dependsOn_thin : d.thin.dependsOn (cells.map Declaration.thin) = d.dependsOn cells := by
  have hnamed : (fun id => (findCell? (cells.map Declaration.thin) id).any (·.name.isSome)) =
      fun id => (findCell? cells id).any (·.name.isSome) := by
    funext id
    rw [findCell?_thin, Option.any_map]
    rfl
  unfold dependsOn
  rw [isScopeOnly_thin, references_thin, namedChildren_ids, namedChildren_ids, hnamed,
    show d.thin.body = distinct d.body from rfl, filter_distinct, distinct_append_distinct]

end Declaration

/-- **The links are the same** without repetitions in the lists of cells. -/
theorem linkGraph_thin : linkGraph (cells.map Declaration.thin) = linkGraph cells := by
  have hvalued : valued (cells.map Declaration.thin) = (valued cells).map Declaration.thin := by
    unfold valued
    rw [List.filter_map]
    refine congrArg (List.map _) (List.filter_congr fun d _ => ?_)
    rw [Function.comp_apply, d.isScopeOnly_thin]
  rw [linkGraph_eq_build, linkGraph_eq_build]
  refine congrArg Graph.build ?_
  unfold linkSteps
  rw [hvalued, List.map_map, List.flatMap_map]
  simp only [Declaration.dependsOn_thin]
  rfl

end Links

/-! ## Notebooks -/

/-- A cell without the repetitions in its lists of cells. -/
def Cell.thin (c : Cell) : Cell := { c with toDeclaration := c.toDeclaration.thin }

namespace Notebook

/-- A notebook without the repetitions in the lists of its cells. -/
def thin (nb : Notebook) : Notebook := { nb with cells := nb.cells.map Cell.thin }

/-- **The notebook without repeated cells** is the same but for repetitions in the lists of its cells, if they
stand beside those that they repeat. -/
theorem build_unrepeated (g : Grammar) {top : List CellSource} (h : CellSource.RepeatsBeside top) :
    build g (CellSource.unrepeatedAll [] top).1 = (build g top).thin := by
  have hlink (cells : List Declaration) (d : Declaration) :
      d.thin.link (cells.map Declaration.thin) = (d.link cells).thin := by
    unfold Declaration.link
    rw [d.references_thin, d.dependsOn_thin]
    rfl
  have hcells (ds : List Declaration) : (ds.map Declaration.thin).map (·.link (ds.map Declaration.thin)) =
      (ds.map (·.link ds)).map Cell.thin := by
    rw [List.map_map, List.map_map]
    exact List.map_congr_left fun d _ => hlink ds d
  have hfault (ds : List Declaration) (graph : Graph) (left : List Nat) (cycles : List (List Nat × List String)) :
      cycleFault (ds.map Declaration.thin) graph left cycles = cycleFault ds graph left cycles := by
    funext id
    unfold cycleFault
    rw [labelOf_thin]
  unfold build thin
  dsimp only
  rw [CellSource.declarations_unrepeated g h, linkGraph_thin, labelOf_thin, hcells, hfault]

end Notebook

end Cellbook
