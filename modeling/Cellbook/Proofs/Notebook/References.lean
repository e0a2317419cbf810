import Mathlib.Data.List.Find
import Cellbook.Proofs.Formula.Occurrences
import Cellbook.Proofs.Notebook.Sites

/-!
# What the names in a cell mean

The links of a cell said without the declarations (`Cell.LinkedAt`): by the occurrences of names in its
formula and by the cells around the place where it stands. `links_exact` shows it of every cell of a
notebook whose cells have different numbers.

**Visible cells.** From a cell a name means the first cell of that name among the cells beside it, or
beside its container, and so outward. A notebook looks names up among numbers, and takes from each what is
declared under it; that is the cell which stands there, since no other one has the number.
-/

namespace Cellbook

/-! ## Elements in the order in which they first come -/

section Distinct

variable {α β : Type} [BEq α] [LawfulBEq α] [BEq β] [LawfulBEq β]

theorem filter_distinct (p : α → Bool) (as : List α) :
    (distinct as).filter p = distinct (as.filter p) := by
  induction as with
  | nil => rfl
  | cons a as ih =>
    by_cases hp : p a
    · rw [List.filter_cons_of_pos hp, distinct, distinct, List.filter_cons_of_pos hp, ← ih,
        List.filter_filter, List.filter_filter]
      simp only [Bool.and_comm]
    · rw [List.filter_cons_of_neg hp, distinct, List.filter_cons_of_neg hp, ← ih, List.filter_filter]
      refine List.filter_congr fun b _ => ?_
      by_cases hb : b = a
      · subst hb
        simp [hp]
      · simp [hb]

theorem distinct_eq_eraseDups (as : List α) : distinct as = as.eraseDups := by
  induction h : as.length using Nat.strongRecOn generalizing as with
  | ind n ih =>
    cases as with
    | nil => rfl
    | cons a as =>
      have hlen := List.length_filter_le (!· == a) as
      rw [List.length_cons] at h
      rw [distinct, List.eraseDups_cons, filter_distinct, ih _ (by omega) _ rfl]

omit [LawfulBEq α] in
theorem distinct_nodup [LawfulBEq α] (as : List α) : (distinct as).Nodup := by
  induction as with
  | nil => exact List.nodup_nil
  | cons a as ih =>
    refine List.nodup_cons.mpr ⟨fun h => ?_, ih.filter _⟩
    simpa using (List.mem_filter.mp h).2

omit [LawfulBEq α] in
theorem distinct_of_nodup [LawfulBEq α] {as : List α} (h : as.Nodup) : distinct as = as := by
  induction as with
  | nil => rfl
  | cons a as ih =>
    obtain ⟨hnew, hnodup⟩ := List.nodup_cons.mp h
    rw [distinct, ih hnodup, List.filter_eq_self.mpr]
    intro b hb
    have hne : b ≠ a := fun hba => hnew (hba ▸ hb)
    simp [hne]

/-- What comes first stays first if all elements are replaced. -/
theorem distinct_filterMap_distinct (r : α → Option β) (as : List α) :
    distinct ((distinct as).filterMap r) = distinct (as.filterMap r) := by
  induction as with
  | nil => rfl
  | cons a as ih =>
    rw [distinct]
    cases hr : r a with
    | none =>
      have hsame : ((distinct as).filter (!· == a)).filterMap r = (distinct as).filterMap r := by
        rw [List.filterMap_filter]
        refine List.filterMap_congr fun b _ => ?_
        by_cases hb : b = a
        · simp [hb, hr]
        · simp [hb]
      rw [List.filterMap_cons_none hr, List.filterMap_cons_none hr, hsame, ih]
    | some b =>
      -- elements that were equal to the first one go where it goes
      have hsame : (((distinct as).filter (!· == a)).filterMap r).filter (!· == b) =
          ((distinct as).filterMap r).filter (!· == b) := by
        rw [List.filterMap_filter, List.filter_filterMap, List.filter_filterMap]
        refine List.filterMap_congr fun c _ => ?_
        by_cases hc : c = a
        · simp [hc, hr, Option.filter]
        · simp [hc]
      rw [List.filterMap_cons_some hr, List.filterMap_cons_some hr, distinct, distinct,
        filter_distinct, hsame, ← filter_distinct, ih]

end Distinct

/-! ## Sites -/

namespace CellSource

mutual

/-- Whatever stands in a cell that has a site has a site itself. -/
theorem mem_sites_inside {around : List CellSource} {s : Site} : (c : CellSource) →
    s ∈ sites around c → ∀ d ∈ s.source.body, ⟨d, s.source :: s.around⟩ ∈ sites around c
  | ⟨id, name, input, body, params⟩, hs, d, hd => by
    rw [sites] at hs ⊢
    refine List.mem_cons_of_mem _ ?_
    rcases List.mem_cons.mp hs with rfl | hs
    · exact mem_sitesAll_of_mem hd
    · exact mem_sitesAll_inside body hs d hd

theorem mem_sitesAll_inside {around : List CellSource} {s : Site} : (cs : List CellSource) →
    s ∈ sitesAll around cs → ∀ d ∈ s.source.body, ⟨d, s.source :: s.around⟩ ∈ sitesAll around cs
  | [], hs, _, _ => (List.not_mem_nil hs).elim
  | c :: cs, hs, d, hd => by
    rw [sitesAll] at hs ⊢
    rcases List.mem_append.mp hs with hs | hs
    · exact List.mem_append_left _ (mem_sites_inside c hs d hd)
    · exact List.mem_append_right _ (mem_sitesAll_inside cs hs d hd)

end

mutual

/-- The cells around a site have sites, as far as they are not those around all. -/
theorem mem_sites_around {around : List CellSource} {s : Site} : (c : CellSource) →
    s ∈ sites around c → ∀ p ∈ s.around, p ∈ around ∨ ∃ t ∈ sites around c, t.source = p
  | ⟨id, name, input, body, params⟩, hs, p, hp => by
    rw [sites] at hs ⊢
    rcases List.mem_cons.mp hs with rfl | hs
    · exact .inl hp
    · rcases mem_sitesAll_around body hs p hp with hp | ⟨t, ht, rfl⟩
      · rcases List.mem_cons.mp hp with rfl | hp
        · exact .inr ⟨_, List.mem_cons_self, rfl⟩
        · exact .inl hp
      · exact .inr ⟨t, List.mem_cons_of_mem _ ht, rfl⟩

theorem mem_sitesAll_around {around : List CellSource} {s : Site} : (cs : List CellSource) →
    s ∈ sitesAll around cs → ∀ p ∈ s.around, p ∈ around ∨ ∃ t ∈ sitesAll around cs, t.source = p
  | [], hs, _, _ => (List.not_mem_nil hs).elim
  | c :: cs, hs, p, hp => by
    rw [sitesAll] at hs ⊢
    rcases List.mem_append.mp hs with hs | hs
    · rcases mem_sites_around c hs p hp with hp | ⟨t, ht, rfl⟩
      · exact .inl hp
      · exact .inr ⟨t, List.mem_append_left _ ht, rfl⟩
    · rcases mem_sitesAll_around cs hs p hp with hp | ⟨t, ht, rfl⟩
      · exact .inl hp
      · exact .inr ⟨t, List.mem_append_right _ ht, rfl⟩

end

theorem ids_sublist_sitesAll (around : List CellSource) (cs : List CellSource) :
    (cs.map (·.id)).Sublist (idsOf (sitesAll around cs)) := by
  induction cs with
  | nil => exact List.Sublist.slnil
  | cons c cs ih =>
    obtain ⟨id, name, input, body, params⟩ := c
    rw [sitesAll, sites, idsOf_append, idsOf_cons, List.map_cons, List.cons_append]
    exact (ih.trans (List.sublist_append_right _ _)).cons_cons id

mutual

/-- The cells in a cell that has a site are among all cells. -/
theorem body_sublist_sites {around : List CellSource} {s : Site} : (c : CellSource) →
    s ∈ sites around c → (s.source.body.map (·.id)).Sublist (idsOf (sites around c))
  | ⟨id, name, input, body, params⟩, hs => by
    rw [sites] at hs ⊢
    rw [idsOf_cons]
    refine List.Sublist.cons _ ?_
    rcases List.mem_cons.mp hs with rfl | hs
    · exact ids_sublist_sitesAll _ body
    · exact body_sublist_sitesAll body hs

theorem body_sublist_sitesAll {around : List CellSource} {s : Site} : (cs : List CellSource) →
    s ∈ sitesAll around cs → (s.source.body.map (·.id)).Sublist (idsOf (sitesAll around cs))
  | [], hs => (List.not_mem_nil hs).elim
  | c :: cs, hs => by
    rw [sitesAll] at hs ⊢
    rw [idsOf_append]
    rcases List.mem_append.mp hs with hs | hs
    · exact (body_sublist_sites c hs).trans (List.sublist_append_left _ _)
    · exact (body_sublist_sitesAll cs hs).trans (List.sublist_append_right _ _)

end

/-- **Every cell that can be seen from a site has a site.** -/
theorem exists_site_of_mem_level {top : List CellSource} {s : Site} (hs : s ∈ sitesAll [] top)
    {level : List CellSource} (hlevel : level ∈ s.levels top) {c : CellSource} (hc : c ∈ level) :
    ∃ t ∈ sitesAll [] top, t.source = c := by
  rcases List.mem_append.mp hlevel with hlevel | hlevel
  · obtain ⟨p, hp, rfl⟩ := List.mem_map.mp hlevel
    obtain hp | ⟨t, ht, rfl⟩ := mem_sitesAll_around top hs p hp
    · exact (List.not_mem_nil hp).elim
    · exact ⟨_, mem_sitesAll_inside top ht c hc, rfl⟩
  · obtain rfl := List.mem_singleton.mp hlevel
    exact ⟨_, mem_sitesAll_of_mem hc, rfl⟩

end CellSource

/-- **The cell that a name means** as seen from a site. -/
def Site.visible? (top : List CellSource) (s : Site) (name : String) : Option Nat :=
  (s.levels top).findSome? fun level => (level.find? (·.givenName? == some name)).map (·.id)

open CellSource

/-! ## Names -/

section Names

variable {g : Grammar} {top : List CellSource} (hdistinct : (idsOf (sitesAll [] top)).Nodup)

theorem declarations_eq_sites (g : Grammar) (hdistinct : (idsOf (sitesAll [] top)).Nodup) :
    declarations g top = (sitesAll [] top).map (Site.declaration g top) := by
  rw [declarations_eq_kept, keptAll_eq_sitesAll [] top (by simpa using hdistinct)]

include hdistinct

/-- Under the number of a cell its own declaration is found. -/
theorem findCell?_of_site {s : Site} (hs : s ∈ sitesAll [] top) :
    findCell? (declarations g top) s.source.id = some (s.declaration g top) := by
  have hmem : s.declaration g top ∈ declarations g top := by
    rw [declarations_eq_sites g hdistinct]
    exact List.mem_map_of_mem hs
  exact findCell?_of_mem (declarations_nodup g top) hmem

/-- **Looking a name up in the scopes of a cell** finds the visible cell. -/
theorem resolve?_eq_visible? {s : Site} (hs : s ∈ sitesAll [] top) :
    resolve? (declarations g top) (s.declaration g top).scopes = s.visible? top := by
  funext name
  show List.findSome? (findNamed? (declarations g top) name) ((s.levels top).map (·.map (·.id))) = _
  have hlevel : ∀ level ∈ s.levels top,
      findNamed? (declarations g top) name (level.map (·.id)) =
        (level.find? (·.givenName? == some name)).map (·.id) := by
    intro level hlevel
    rw [findNamed?, List.find?_map]
    congr 1
    refine List.find?_congr fun c hc => ?_
    obtain ⟨t, ht, rfl⟩ := exists_site_of_mem_level hs hlevel hc
    rw [Function.comp_apply, findCell?_of_site hdistinct ht, Option.any_some]
    rfl
  rw [List.findSome?_map, Site.visible?]
  generalize s.levels top = levels at hlevel
  induction levels with
  | nil => rfl
  | cons level levels ih =>
    obtain ⟨hfirst, hrest⟩ := List.forall_mem_cons.mp hlevel
    rw [List.findSome?_cons, List.findSome?_cons, Function.comp_apply, hfirst, ih hrest]

end Names

/-! ## Links -/

/-- **The links of a cell that stands somewhere.** -/
structure Cell.LinkedAt (g : Grammar) (top : List CellSource) (s : Site) (c : Cell) : Prop where
  /-- It is the cell that stands there. -/
  declared : c.toDeclaration = s.declaration g top
  /-- It has a reference for every name that occurs free in its formula and means a cell, -/
  references (tree : Node) (f : Formula) : c.content = .formula tree f → ∀ name id,
    (name, id) ∈ c.references ↔
      (∃ o ∈ f.occurrences, o.isFree c.params ∧ o.name = name) ∧ s.visible? top name = some id
  /-- one for each. -/
  names_nodup : (c.references.map (·.1)).Nodup
  /-- It reads these cells, each once, in the order in which their names first occur free. -/
  dependsOn (tree : Node) (f : Formula) : c.content = .formula tree f →
    c.dependsOn = ((f.occurrences.filter (·.isFree c.params)).filterMap
      fun o => s.visible? top o.name).eraseDups
  /-- A container with a name reads the named cells in it, in order. -/
  dependsOn_container : s.source.body ≠ [] → s.source.givenName?.isSome →
    c.dependsOn = (s.source.body.filter (·.givenName?.isSome)).map (·.id)
  /-- A cell reads nothing if it says no formula and is no container with a name. -/
  dependsOn_none : (∀ tree f, c.content ≠ .formula tree f) →
    (s.source.body ≠ [] → s.source.givenName? = none) → c.dependsOn = []

section Links

variable {g : Grammar} {top : List CellSource}

namespace Declaration

variable {d : Declaration}

/-- The names in a declaration are those that occur free in its formula. -/
theorem names_of_formula {tree : Node} {f : Formula} (h : d.content = .formula tree f) :
    d.names = distinct ((f.occurrences.filter (·.isFree d.params)).map (·.name)) := by
  have hformula : d.formula? = some f := by rw [formula?, h]
  rw [names, hformula]
  dsimp only
  rw [Formula.freeNames_eq_occurrences, Formula.freeOf, List.map_map]
  rfl

theorem names_of_no_formula (h : ∀ tree f, d.content ≠ .formula tree f) : d.names = [] := by
  unfold names formula?
  cases hcontent : d.content with
  | blank => rfl
  | faulty fault => rfl
  | formula tree f => exact absurd hcontent (h tree f)

theorem references_of_valued (cells : List Declaration) (h : d.isScopeOnly = false) :
    d.references cells =
      d.names.filterMap fun name => (resolve? cells d.scopes name).map (name, ·) := by
  rw [references, h, if_neg Bool.false_ne_true]

/-- Without a formula and without cells in it, a cell reads nothing. -/
theorem dependsOn_eq_nil (cells : List Declaration) (hcontent : ∀ tree f, d.content ≠ .formula tree f)
    (hbody : d.body = []) : d.dependsOn cells = [] := by
  have hvalued : d.isScopeOnly = false := by rw [isScopeOnly, isContainer, hbody]; rfl
  rw [dependsOn, hvalued, if_neg Bool.false_ne_true, references_of_valued cells hvalued,
    names_of_no_formula hcontent, namedChildren, hbody]
  rfl

theorem references_names_nodup (cells : List Declaration) :
    ((d.references cells).map (·.1)).Nodup := by
  rw [references]
  split
  · exact List.nodup_nil
  · have hnames : d.names.Nodup := by
      unfold names
      split
      · exact distinct_nodup _
      · exact List.nodup_nil
    rw [List.map_filterMap]
    refine List.Nodup.filterMap (fun name name' found h h' => ?_) hnames
    obtain ⟨_, hpair, rfl⟩ := Option.map_eq_some_iff.mp h
    obtain ⟨_, hpair', hname⟩ := Option.map_eq_some_iff.mp h'
    obtain ⟨_, -, rfl⟩ := Option.map_eq_some_iff.mp hpair
    obtain ⟨_, -, rfl⟩ := Option.map_eq_some_iff.mp hpair'
    exact hname.symm

end Declaration

/-- A cell that says something has no cells in it. -/
theorem body_eq_nil_of_content {c : CellSource} {said : CellContent} (h : c.content g = said)
    (hsaid : said ≠ .blank) : c.body = [] := by
  cases hbody : c.body with
  | nil => rfl
  | cons d ds =>
    have hblank : c.content g = .blank := by simp [content, hbody]
    exact absurd (h.symm.trans hblank) hsaid

theorem valued_of_content {s : Site} {tree : Node} {f : Formula}
    (h : (s.declaration g top).content = .formula tree f) :
    (s.declaration g top).isScopeOnly = false := by
  rw [Site.declaration_isScopeOnly, groups, body_eq_nil_of_content h nofun]
  rfl

variable (hdistinct : (idsOf (sitesAll [] top)).Nodup)

include hdistinct

/-- The named cells that are found in a container are the named ones of those that stand in it. -/
theorem namedChildren_of_site {s : Site} (hs : s ∈ sitesAll [] top) :
    ((s.declaration g top).namedChildren (declarations g top)).map (·.id) =
      (s.source.body.filter (·.givenName?.isSome)).map (·.id) := by
  have hfound : ∀ cs : List CellSource, (∀ c ∈ cs, c ∈ s.source.body) →
      (((cs.map (·.id)).filterMap (findCell? (declarations g top))).filter (·.name.isSome)).map (·.id) =
        (cs.filter (·.givenName?.isSome)).map (·.id) := by
    intro cs hcs
    induction cs with
    | nil => rfl
    | cons c cs ih =>
      obtain ⟨hc, hcs⟩ := List.forall_mem_cons.mp hcs
      have hinside := mem_sitesAll_inside top hs c hc
      have hfind := findCell?_of_site (g := g) hdistinct hinside
      rw [List.map_cons, List.filterMap_cons_some hfind, List.filter_cons, List.filter_cons]
      have hname : (Site.declaration g top ⟨c, s.source :: s.around⟩).name = c.givenName? := rfl
      rw [hname]
      split
      · rw [List.map_cons, List.map_cons, ih hcs]
        rfl
      · exact ih hcs
  exact hfound s.source.body fun _ hc => hc

/-- A formula is read in the cells that its free names mean. -/
theorem linkedAt_dependsOn {s : Site} (hs : s ∈ sitesAll [] top) {tree : Node} {f : Formula}
    (h : (s.declaration g top).content = .formula tree f) :
    (s.declaration g top).dependsOn (declarations g top) =
      ((f.occurrences.filter (·.isFree (s.declaration g top).params)).filterMap
        fun o => s.visible? top o.name).eraseDups := by
  have hbody := body_eq_nil_of_content h nofun
  have hvalued := valued_of_content h
  have hreferences : ((s.declaration g top).references (declarations g top)).map (·.2) =
      (s.declaration g top).names.filterMap (s.visible? top) := by
    rw [Declaration.references_of_valued _ hvalued, resolve?_eq_visible? hdistinct hs,
      List.map_filterMap]
    refine List.filterMap_congr fun name _ => ?_
    rw [Option.map_map]
    exact Option.map_id'
  rw [Declaration.dependsOn, hvalued, if_neg Bool.false_ne_true, hreferences,
    namedChildren_of_site hdistinct hs, hbody, List.filter_nil, List.map_nil, List.append_nil,
    Declaration.names_of_formula h, distinct_filterMap_distinct, List.filterMap_map,
    distinct_eq_eraseDups]
  rfl

/-- A container with a name reads the named cells in it. -/
theorem linkedAt_container {s : Site} (hs : s ∈ sitesAll [] top) (hbody : s.source.body ≠ [])
    (hname : s.source.givenName?.isSome) :
    (s.declaration g top).dependsOn (declarations g top) =
      (s.source.body.filter (·.givenName?.isSome)).map (·.id) := by
  have hvalued : (s.declaration g top).isScopeOnly = false := Declaration.isScopeOnly_of_name hname
  have hnames : (s.declaration g top).names = [] := by
    refine Declaration.names_of_no_formula fun tree f hcontent => ?_
    exact hbody (body_eq_nil_of_content hcontent nofun)
  have hnodup : ((s.source.body.filter (·.givenName?.isSome)).map (·.id)).Nodup :=
    ((List.filter_sublist.map _).trans (body_sublist_sitesAll top hs)).nodup hdistinct
  rw [Declaration.dependsOn, hvalued, if_neg Bool.false_ne_true,
    Declaration.references_of_valued _ hvalued, hnames, List.filterMap_nil, List.map_nil,
    List.nil_append, namedChildren_of_site hdistinct hs, distinct_of_nodup hnodup]

omit hdistinct in
/-- Where there is neither a formula nor a named container, nothing is read. -/
theorem linkedAt_none {s : Site} (hcontent : ∀ tree f, (s.declaration g top).content ≠ .formula tree f)
    (hname : s.source.body ≠ [] → s.source.givenName? = none) :
    (s.declaration g top).dependsOn (declarations g top) = [] := by
  by_cases hbody : s.source.body = []
  · exact Declaration.dependsOn_eq_nil _ hcontent (by simp [Site.declaration, declaration, hbody])
  · have hgroups : (s.declaration g top).isScopeOnly = true := by
      rw [Site.declaration_isScopeOnly, groups, hname hbody]
      simpa using hbody
    exact Declaration.dependsOn_of_isScopeOnly hgroups

/-- A name has a reference if it occurs free in the formula and a cell is visible under it. -/
theorem linkedAt_references {s : Site} (hs : s ∈ sitesAll [] top) {tree : Node} {f : Formula}
    (h : (s.declaration g top).content = .formula tree f) (name : String) (id : Nat) :
    (name, id) ∈ (s.declaration g top).references (declarations g top) ↔
      (∃ o ∈ f.occurrences, o.isFree (s.declaration g top).params ∧ o.name = name) ∧
        s.visible? top name = some id := by
  rw [Declaration.references_of_valued _ (valued_of_content h), resolve?_eq_visible? hdistinct hs,
    Declaration.names_of_formula h, List.mem_filterMap]
  constructor
  · rintro ⟨name', hname, hfound⟩
    obtain ⟨id', hid, hpair⟩ := Option.map_eq_some_iff.mp hfound
    obtain ⟨rfl, rfl⟩ := Prod.mk.inj hpair
    obtain ⟨o, ho, rfl⟩ := List.mem_map.mp (mem_distinct.mp hname)
    exact ⟨⟨o, (List.mem_filter.mp ho).1, (List.mem_filter.mp ho).2, rfl⟩, hid⟩
  · rintro ⟨⟨o, ho, hfree, rfl⟩, hid⟩
    have hname := List.mem_map_of_mem (f := (·.name)) (List.mem_filter.mpr ⟨ho, hfree⟩)
    exact ⟨o.name, mem_distinct.mpr hname, by rw [hid]; rfl⟩

omit hdistinct in
/-- **The links of every cell are those of the place where it stands**, if no two cells have the same
number. -/
theorem Notebook.links_exact (g : Grammar) (top : List CellSource)
    (hdistinct : (idsOf (sitesAll [] top)).Nodup) :
    ∀ c ∈ (Notebook.build g top).cells, ∃ s ∈ sitesAll [] top, c.LinkedAt g top s := by
  intro c hc
  obtain ⟨d, hd, rfl⟩ := Notebook.mem_cells.mp hc
  rw [declarations_eq_sites g hdistinct] at hd
  obtain ⟨s, hs, rfl⟩ := List.mem_map.mp hd
  refine ⟨s, hs, ?_⟩
  exact
    { declared := rfl
      references := fun tree f h => linkedAt_references hdistinct hs h
      names_nodup := Declaration.references_names_nodup _
      dependsOn := fun tree f h => linkedAt_dependsOn hdistinct hs h
      dependsOn_container := linkedAt_container hdistinct hs
      dependsOn_none := linkedAt_none }

end Links

/-- A container whose cells hide a name, and see another one from inside and one from outside. -/
def hiddenRate : List CellSource :=
  [{ id := 1, name := some "rate", input := "2" },
    { id := 2, name := some "group", body :=
      [{ id := 3, name := some "rate", input := "10" },
        { id := 4, name := some "total", input := "(x) if x > base: x * rate", params := ["y"] }] },
    { id := 5, name := some "base", input := "rate" }]

/-- The links of the cells of a container that hides a name. -/
theorem Notebook.links_exact_of_hiddenRate :
    (idsOf (sitesAll [] hiddenRate)).Nodup ∧
      ∀ c ∈ (Notebook.build .standard hiddenRate).cells,
        ∃ s ∈ sitesAll [] hiddenRate, c.LinkedAt .standard hiddenRate s := by
  have hdistinct : (idsOf (sitesAll [] hiddenRate)).Nodup := by decide +kernel
  exact ⟨hdistinct, Notebook.links_exact .standard hiddenRate hdistinct⟩

example : (Notebook.build .standard hiddenRate).cells.map (fun c => (c.id, c.dependsOn)) =
    [(1, []), (2, [3, 4]), (3, []), (4, [5, 3]), (5, [1])] := by decide +kernel

end Cellbook
