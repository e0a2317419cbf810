import Cellbook.Proofs.Emission.Fields
import Cellbook.Proofs.Notebook.Exact
import Cellbook.Response

/-!
# A container from inside and from outside

A name of a cell in a container is looked up in two ways. From inside it means the first of the cells that
have it; from outside it is a field of the container, and that is the value of the last of them, since each
field is put in its place by the cells one after the other (`evaluate_container`). Where one cell only has
the name this is the same cell (`Response.Agrees`), and where several have it the two differ
(`evaluate_shadowed`).
-/

namespace Cellbook

open CellSource Run

/-- The value that a response gives for a cell, if it gives one. -/
def Response.value? (a : Response) (id : Nat) : Option (Value Closure) :=
  (outcome? a.results id).bind (·.result.toOption)

/-- **A name is the same from inside and from outside** of a container with that value: as seen from each
cell in it, the name means a cell whose value is the field. -/
def Response.Agrees (a : Response) (r : Request) (container : CellSource) (v : Value Closure)
    (name : String) : Prop :=
  ∀ c ∈ container.body, ∃ id w, r.notebook.resolve? c.id name = some id ∧ a.value? id = some w ∧
    v.member name = .ok w

theorem Outcome.toOption_eq_some_iff {o : Outcome} {v : Value Closure} :
    o.result.toOption = some v ↔ o.result = .ok v := by
  cases o.result with
  | error d => exact ⟨nofun, nofun⟩
  | ok w => simp [Except.toOption]

/-! ## From inside -/

namespace Notebook

variable {g : Grammar} {top : List CellSource} (hdistinct : (idsOf (sitesAll [] top)).Nodup)

include hdistinct

theorem cell?_of_site {s : Site} (hs : s ∈ sitesAll [] top) :
    (build g top).cell? s.source.id = some ((s.declaration g top).link (declarations g top)) := by
  rw [cell?_build, findCell?_of_site hdistinct hs]
  rfl

/-- **As seen from a cell, a name means the visible cell.** -/
theorem resolve?_of_site {s : Site} (hs : s ∈ sitesAll [] top) (name : String) :
    (build g top).resolve? s.source.id name = s.visible? top name := by
  have hcells : (build g top).cells.map (·.toDeclaration) = declarations g top := by
    show ((declarations g top).map _).map _ = _
    rw [List.map_map]
    exact List.map_id _
  rw [Notebook.resolve?, cell?_of_site hdistinct hs, Option.bind_some, hcells]
  exact congrFun (resolve?_eq_visible? hdistinct hs) name

/-- In a container the first cell of a name is meant. -/
theorem resolve?_inside {s : Site} (hs : s ∈ sitesAll [] top) {name : String} {first : CellSource}
    (hfirst : s.source.body.find? (·.givenName? == some name) = some first) {c : CellSource}
    (hc : c ∈ s.source.body) : (build g top).resolve? c.id name = some first.id := by
  have hinside : ⟨c, s.source :: s.around⟩ ∈ sitesAll [] top := mem_sitesAll_inside top hs c hc
  rw [resolve?_of_site hdistinct hinside, Site.visible?, Site.levels, List.map_cons, List.cons_append,
    List.findSome?_cons, hfirst]
  rfl

/-! ## From outside -/

/-- The fields of a container are the named cells in it. -/
theorem fields_of_site {s : Site} (hs : s ∈ sitesAll [] top) :
    (build g top).fields ((s.declaration g top).link (declarations g top)) =
      s.source.body.filterMap fun c => c.givenName?.map (·, c.id) := by
  show ((s.source.body.map (·.id)).filterMap (build g top).cell?).filterMap _ = _
  rw [List.filterMap_map, List.filterMap_filterMap]
  refine List.filterMap_congr fun c hc => ?_
  have hinside : ⟨c, s.source :: s.around⟩ ∈ sitesAll [] top := mem_sitesAll_inside top hs c hc
  have hcell := cell?_of_site (g := g) hdistinct hinside
  rw [Function.comp_apply, hcell]
  rfl

end Notebook

/-- What is read from a cell is the value that it ended with. -/
theorem exists_outcome_of_readCell {frame : Frame} {outcomes : List Outcome} {reads : List Nat}
    (hcells : frame.cells = visibleOf outcomes reads) {id : Nat} {w : Value Closure}
    (h : frame.readCell id = .ok w) : ∃ o, outcome? outcomes id = some o ∧ o.result = .ok w := by
  unfold Frame.readCell at h
  rw [hcells] at h
  split at h
  next label v hslot =>
    obtain ⟨before, after, heq, -⟩ := List.lookup_eq_some_iff.mp hslot
    have hmem : (id, (⟨label, .ok v⟩ : Slot Closure)) ∈ visibleOf outcomes reads := by
      rw [heq]
      exact List.mem_append_right _ List.mem_cons_self
    obtain ⟨id', -, hid'⟩ := List.mem_filterMap.mp hmem
    obtain ⟨o, ho, hpair⟩ := Option.map_eq_some_iff.mp hid'
    obtain ⟨rfl, hleft⟩ := Prod.mk.inj hpair
    obtain rfl : v = w := Except.ok.inj h
    exact ⟨o, ho, congrArg Slot.outcome hleft⟩
  next => cases h
  next => cases h

namespace Notebook

variable {g : Grammar} {top : List CellSource} {depth : Nat} {settings : Settings}
  {outcomes : List Outcome} (hrun : (build g top).program.run depth settings = some outcomes)

include hrun

/-- A cell that ended with a value has a place in the order. -/
theorem mem_evalOrder_of_value {id : Nat} {o : Outcome} (ho : outcome? outcomes id = some o)
    {v : Value Closure} (hv : o.result = .ok v) : id ∈ (build g top).evalOrder := by
  by_contra horder
  by_cases hcyclic : id ∈ (build g top).cyclicCells
  · obtain ⟨_, _, -, -, ho'⟩ := outcome_of_mem_cyclicCells hrun hcyclic
    obtain rfl := Option.some.inj (ho.symm.trans ho')
    cases hv
  · have hnone := outcome?_eq_none hrun horder hcyclic
    rw [hnone] at ho
    cases ho

/-- **The value of a container** is the object of its fields, read from the outcomes of the cells in it. -/
theorem insertFields_of_container (hdistinct : (idsOf (sitesAll [] top)).Nodup) {s : Site}
    (hs : s ∈ sitesAll [] top) (hbody : s.source.body ≠ []) {o : Outcome}
    (ho : outcome? outcomes s.source.id = some o) {v : Value Closure} (hv : o.result = .ok v) :
    ∃ (frame : Frame) (reads : List Nat) (object : Object Closure),
      frame.cells = visibleOf outcomes reads ∧ v = object.toValue ∧
      frame.insertFields .empty (s.source.body.filterMap fun c => c.givenName?.map (·, c.id)) =
        .ok object := by
  obtain ⟨c, n, o', hc, -, ho', -, hends⟩ :=
    ends_of_mem_evalOrder hrun (mem_evalOrder_of_value hrun ho hv)
  obtain rfl := Option.some.inj (ho.symm.trans ho')
  obtain rfl := Option.some.inj ((cell?_of_site (g := g) hdistinct hs).symm.trans hc)
  have hcontainer : ((s.declaration g top).link (declarations g top)).isContainer = true := by
    show (!(s.source.body.map (·.id)).isEmpty) = true
    simpa using hbody
  have hblank : ((s.declaration g top).link (declarations g top)).content = .blank := by
    show s.source.content g = .blank
    simp [content, hbody]
  have hrealizes (frame : Frame) : Realizes frame _ (.code frame) _ :=
    Cell.emitValue_container_realizes hcontainer
      ((build g top).fields ((s.declaration g top).link (declarations g top)))
  rw [emitCell_of_value _ fun fault hfaulty => by cases hblank.symm.trans hfaulty] at hends
  unfold CellTask.Ends at hends
  dsimp only at hends
  generalize hframe : Frame.run _ _ _ _ _ = e at hends
  cases e with
  | ok ended =>
    obtain ⟨v', next⟩ := ended
    obtain rfl : v = v' := Except.ok.inj (hv.symm.trans hends)
    have hread := ((hrealizes ⟨[], [], _, settings⟩).ends_run_iff n []).mp ⟨depth, hframe⟩
    obtain ⟨object, hobject, rfl⟩ := (ends_bind_pure_iff (.const _)).mp hread
    rw [fields_of_site hdistinct hs] at hobject
    exact ⟨_, _, object, rfl, rfl, (ends_ofExcept_iff.mp hobject).1⟩
  | error stop =>
    cases stop with
    | fault f => cases hv.symm.trans hends
    | tooDeep => exact hends.elim

/-- **The field of a name** is the value of the last cell in the container that has it. -/
theorem field_of_container (hdistinct : (idsOf (sitesAll [] top)).Nodup) {s : Site}
    (hs : s ∈ sitesAll [] top) (hbody : s.source.body ≠ []) {o : Outcome}
    (ho : outcome? outcomes s.source.id = some o) {v : Value Closure} (hv : o.result = .ok v)
    {name : String} {last : CellSource}
    (hlast : s.source.body.reverse.find? (·.givenName? == some name) = some last) :
    ∃ p w, outcome? outcomes last.id = some p ∧ p.result = .ok w ∧ v.member name = .ok w := by
  obtain ⟨frame, reads, object, hcells, rfl, hinsert⟩ :=
    insertFields_of_container hrun hdistinct hs hbody ho hv
  obtain ⟨hname, behind, front, hreverse, hbehind⟩ := List.find?_eq_some_iff_append.mp hlast
  have hname : last.givenName? = some name := by simpa using hname
  have hsplit : s.source.body = front.reverse ++ last :: behind.reverse := by
    rw [← List.reverse_reverse s.source.body, hreverse]
    simp
  have hnot : name ∉ (behind.reverse.filterMap fun c => c.givenName?.map (·, c.id)).map (·.1) := by
    intro hmem
    obtain ⟨field, hfield, rfl⟩ := List.mem_map.mp hmem
    obtain ⟨c, hc, hpair⟩ := List.mem_filterMap.mp hfield
    obtain ⟨given, hgiven, rfl⟩ := Option.map_eq_some_iff.mp hpair
    have := hbehind c (List.mem_reverse.mp hc)
    simp [hgiven] at this
  have hfields : (last :: behind.reverse).filterMap (fun c => c.givenName?.map (·, c.id)) =
      (name, last.id) :: behind.reverse.filterMap fun c => c.givenName?.map (·, c.id) :=
    List.filterMap_cons_some (by rw [hname]; rfl)
  rw [hsplit, List.filterMap_append, hfields] at hinsert
  obtain ⟨w, hw, hfield⟩ := Frame.field?_of_insertFields hinsert hnot
  obtain ⟨p, hp, hresult⟩ := exists_outcome_of_readCell hcells hw
  refine ⟨p, w, hp, hresult, ?_⟩
  unfold Value.member Object.toValue
  dsimp only
  rw [hfield]

end Notebook

namespace Request

/-- **A container from inside and from outside**, in a request whose cells have different numbers. Where a
container that has a name has a value, then of each name in it: the first cell of the name is meant by it as
seen from each cell in the container; the value of the last one is the field. So the two agree on every name
that one cell only has. -/
theorem evaluate_container (r : Request) (hdistinct : (idsOf (sitesAll [] r.body)).Nodup) {depth : Nat}
    {settings : Settings} {a : Response} (h : r.evaluate depth settings = some a) {s : Site}
    (hs : s ∈ sitesAll [] r.body) (hbody : s.source.body ≠ []) {v : Value Closure}
    (hv : a.value? s.source.id = some v) {name : String}
    (hname : ∃ c ∈ s.source.body, c.givenName? = some name) :
    ∃ first last,
      s.source.body.find? (·.givenName? == some name) = some first ∧
      s.source.body.reverse.find? (·.givenName? == some name) = some last ∧
      (∀ c ∈ s.source.body, r.notebook.resolve? c.id name = some first.id) ∧
      (∃ w, a.value? last.id = some w ∧ v.member name = .ok w) ∧
      ((∀ c ∈ s.source.body, c.givenName? = some name → c = first) → a.Agrees r s.source v name) := by
  obtain ⟨outcomes, hrun, rfl⟩ := Option.map_eq_some_iff.mp h
  obtain ⟨o, ho, hresult⟩ := Option.bind_eq_some_iff.mp hv
  have hresult := Outcome.toOption_eq_some_iff.mp hresult
  obtain ⟨carrier, hcarrier, hgiven⟩ := hname
  obtain ⟨first, hfirst⟩ : ∃ first, s.source.body.find? (·.givenName? == some name) = some first :=
    Option.isSome_iff_exists.mp (List.find?_isSome.mpr ⟨carrier, hcarrier, by simp [hgiven]⟩)
  obtain ⟨last, hlast⟩ : ∃ last, s.source.body.reverse.find? (·.givenName? == some name) = some last :=
    Option.isSome_iff_exists.mp
      (List.find?_isSome.mpr ⟨carrier, List.mem_reverse.mpr hcarrier, by simp [hgiven]⟩)
  have hinside : ∀ c ∈ s.source.body, r.notebook.resolve? c.id name = some first.id := fun c hc =>
    Notebook.resolve?_inside hdistinct hs hfirst hc
  obtain ⟨p, w, hp, hw, hfield⟩ := Notebook.field_of_container hrun hdistinct hs hbody ho hresult hlast
  have hvalue : (outcome? outcomes last.id).bind (·.result.toOption) = some w := by
    rw [hp, Option.bind_some, Outcome.toOption_eq_some_iff.mpr hw]
  refine ⟨first, last, hfirst, hlast, hinside, ⟨w, hvalue, hfield⟩, fun honce c hc => ?_⟩
  obtain rfl : last = first := by
    refine honce last (List.mem_reverse.mp (List.mem_of_find?_eq_some hlast)) ?_
    simpa using List.find?_some hlast
  exact ⟨last.id, w, hinside c hc, hvalue, hfield⟩

/-- A container in which two cells have one name, and a third one reads it. -/
def shadowedGroup : CellSource :=
  { id := 1, name := some "g", body :=
      [{ id := 2, name := some "x", input := "1" }, { id := 3, name := some "x", input := "2" },
        { id := 4, name := some "y", input := "x" }] }

/-- A request with such a container. -/
def shadowed : Request := ⟨[shadowedGroup]⟩

/-- The two cells of one name in the container. -/
theorem evaluate_container_of_shadowed :
    (idsOf (sitesAll [] shadowed.body)).Nodup ∧
      ∃ a v first last, shadowed.evaluate 0 {} = some a ∧ a.value? shadowedGroup.id = some v ∧
        shadowedGroup.body.find? (·.givenName? == some "x") = some first ∧
        shadowedGroup.body.reverse.find? (·.givenName? == some "x") = some last ∧
        (∀ c ∈ shadowedGroup.body, shadowed.notebook.resolve? c.id "x" = some first.id) ∧
        ∃ w, a.value? last.id = some w ∧ v.member "x" = .ok w := by
  have hdistinct : (idsOf (sitesAll [] shadowed.body)).Nodup := by decide +kernel
  have hvalue : ((shadowed.evaluate 0 {}).bind (·.value? shadowedGroup.id)).isSome := by decide +kernel
  obtain ⟨v, hv⟩ := Option.isSome_iff_exists.mp hvalue
  obtain ⟨a, ha, hv⟩ := Option.bind_eq_some_iff.mp hv
  have hs : (⟨shadowedGroup, []⟩ : Site) ∈ sitesAll [] shadowed.body :=
    mem_sitesAll_of_mem List.mem_cons_self
  have hname : ∃ c ∈ shadowedGroup.body, c.givenName? = some "x" :=
    ⟨_, List.mem_cons_self, by decide +kernel⟩
  obtain ⟨first, last, hfirst, hlast, hinside, hfield, -⟩ :=
    evaluate_container shadowed hdistinct ha hs (List.cons_ne_nil _ _) hv hname
  exact ⟨hdistinct, a, v, first, last, ha, hv, hfirst, hlast, hinside, hfield⟩

/-- **From inside and from outside a name may mean different cells**: the third cell reads the first one
under a name whose field is the value of the second. -/
theorem evaluate_shadowed :
    (idsOf (sitesAll [] shadowed.body)).Nodup ∧
      ∃ a v, shadowed.evaluate 0 {} = some a ∧ a.value? shadowedGroup.id = some v ∧
        (∃ c ∈ shadowedGroup.body, c.givenName? = some "x") ∧ ¬ a.Agrees shadowed shadowedGroup v "x" := by
  have hdistinct : (idsOf (sitesAll [] shadowed.body)).Nodup := by decide +kernel
  have hinside : shadowed.notebook.resolve? 4 "x" = some 2 := by decide +kernel
  have hread : ((shadowed.evaluate 0 {}).bind fun a => (a.value? 2).map (·.toText)) = some "1" := by
    decide +kernel
  have hfield : ((shadowed.evaluate 0 {}).bind fun a => (a.value? 1).bind fun v =>
      (v.member "x").toOption.map (·.toText)) = some "2" := by decide +kernel
  obtain ⟨a, ha, hfield⟩ := Option.bind_eq_some_iff.mp hfield
  obtain ⟨v, hv, hfield⟩ := Option.bind_eq_some_iff.mp hfield
  rw [ha, Option.bind_some] at hread
  refine ⟨hdistinct, a, v, ha, hv, ⟨_, List.mem_cons_self, by decide +kernel⟩, fun hagrees => ?_⟩
  obtain ⟨id, w, hid, hw, hmember⟩ :=
    hagrees { id := 4, name := some "y", input := "x" } (by simp [shadowedGroup])
  obtain rfl : 2 = id := Option.some.inj (hinside.symm.trans hid)
  rw [hw] at hread
  rw [hmember] at hfield
  have hsame : some "1" = some "2" := hread.symm.trans hfield
  exact absurd hsame (by decide)

end Request

end Cellbook
