import Cellbook.Proofs.Machine.Progress
import Cellbook.Proofs.Notebook.Program
import Cellbook.Proofs.Notebook.Unaffected
import Cellbook.Response

/-!
# An edit is answered where it can be seen

The response to a request with an edited cell gives every cell that does not depend on the edited one what
it gave before (`evaluate_withInput`): the same value, in text and in JSON, or the same report.

**Two runs.** The programs before and after the edit have their cells in different orders, with other
variables and with other cells that fail. What is related in the two runs is the outcome of each unaffected
cell. A cell reads unaffected cells if it is one, so this goes along the order of the first notebook
(`outcome?_related`). The values themselves need not be equal, since closures hold code with its variables,
but related values show the same.
-/

namespace Cellbook

open Relation Run

/-! ## What is shown -/

/-- What can be seen of an outcome: its value in text and in JSON, or what is reported. -/
def Outcome.shown (o : Outcome) : Except Diagnostic (String × Json) :=
  o.result.map fun v => (v.toText, v.toJson)

/-- **What a response shows for a cell**: each outcome of that number, with the name of the cell. -/
def Response.shownOf (r : Response) (id : Nat) :
    List (Option String × Except Diagnostic (String × Json)) :=
  (r.results.filter (·.id == id)).map fun o => (o.name, o.shown)

namespace Value

variable {φ ψ : Type} {R : φ → ψ → Prop}

mutual

/-- Related values have the same form in JSON. -/
theorem Related.toJson_eq {v : Value φ} {w : Value ψ} (h : Related R v w) : v.toJson = w.toJson :=
  match h with
  | .none => rfl
  | .boolean _ => rfl
  | .number _ => rfl
  | .text _ => rfl
  | .stream hs => by rw [toJson, toJson, hs.toJson_eq]
  | .object he _ => by rw [toJson, toJson, he.toJson_eq]
  | .function hf => by rw [toJson, toJson, hf.toText_eq]

theorem ItemsRelated.toJson_eq {xs : List (Value φ)} {ys : List (Value ψ)}
    (h : ItemsRelated R xs ys) : itemsToJson xs = itemsToJson ys :=
  match h with
  | .nil => rfl
  | .cons hx hs => by rw [itemsToJson, itemsToJson, hx.toJson_eq, hs.toJson_eq]

theorem EntriesRelated.toJson_eq {es : List (Value φ × Value φ)} {fs : List (Value ψ × Value ψ)}
    (h : EntriesRelated R es fs) : entriesToJson es = entriesToJson fs :=
  match h with
  | .nil => rfl
  | .cons hk hv hs => by
    rw [entriesToJson, entriesToJson, hk.toText_eq, hv.toJson_eq, hs.toJson_eq]

end

end Value

/-- Outcomes of the same cell that agree but for closures. -/
inductive Outcome.Related : Outcome → Outcome → Prop
  | mk (id : Nat) (name : Option String) {x y : Except Diagnostic (Value Closure)} :
    Agree (Value.Related Closure.Aligned) x y → Related ⟨id, name, x⟩ ⟨id, name, y⟩

theorem Outcome.Related.slot {o o' : Outcome} (h : o.Related o') :
    Slot.Related Closure.Aligned o.slot o'.slot := by
  cases h with
  | mk id name h => exact .mk _ h

/-- **Related outcomes show the same.** -/
theorem Outcome.Related.shown_eq {o o' : Outcome} (h : o.Related o') :
    (o'.name, o'.shown) = (o.name, o.shown) := by
  cases h with
  | mk id name h =>
    cases h with
    | error d => rfl
    | ok hv =>
      simp only [Outcome.shown, Except.map]
      rw [hv.toText_eq, hv.toJson_eq]

theorem filter_id_eq {outcomes : List Outcome} (hnodup : (outcomes.map (·.id)).Nodup) (id : Nat) :
    outcomes.filter (·.id == id) = (outcome? outcomes id).toList := by
  induction outcomes with
  | nil => rfl
  | cons o outcomes ih =>
    obtain ⟨hnew, hnodup⟩ := List.nodup_cons.mp hnodup
    have ih := ih hnodup
    unfold outcome? at ih ⊢
    rw [List.filter_cons, List.find?_cons]
    by_cases hid : o.id = id
    · have hrest : outcomes.filter (·.id == id) = [] := by
        rw [List.filter_eq_nil_iff]
        intro o' ho' hid'
        exact hnew (List.mem_map.mpr ⟨o', ho', (beq_iff_eq.mp hid').trans hid.symm⟩)
      rw [if_pos (beq_iff_eq.mpr hid), beq_iff_eq.mpr hid, hrest]
      rfl
    · rw [if_neg (fun h => hid (beq_iff_eq.mp h)), beq_false_of_ne hid, ih]

/-! ## One cell in two runs -/

section Ends

variable {before after : List Outcome}

/-- Where the outcomes that a cell reads are related, so is what it sees. -/
theorem visibleOf_aligned (reads : List Nat)
    (h : ∀ id ∈ reads, Option.Rel Outcome.Related (outcome? before id) (outcome? after id)) :
    (visibleOf before reads).map (·.1) = (visibleOf after reads).map (·.1) ∧
      List.Forall₂ (Slot.Related Closure.Aligned) ((visibleOf before reads).map (·.2))
        ((visibleOf after reads).map (·.2)) := by
  unfold visibleOf
  induction reads with
  | nil => exact ⟨rfl, .nil⟩
  | cons id reads ih =>
    obtain ⟨hid, hreads⟩ := List.forall_mem_cons.mp h
    obtain ⟨hids, hslots⟩ := ih hreads
    rw [List.filterMap_cons, List.filterMap_cons]
    generalize outcome? before id = o at hid
    generalize outcome? after id = o' at hid
    cases hid with
    | none => exact ⟨hids, hslots⟩
    | some hrel => exact ⟨congrArg (id :: ·) hids, .cons hrel.slot hslots⟩

/-- **Aligned tasks end alike** where the outcomes that they may read are related. -/
theorem CellTask.Aligned.exists_ends {cells : Nat → Prop} {task task' : CellTask Closure}
    (h : CellTask.Aligned cells task task')
    (hread : ∀ id, cells id → Option.Rel Outcome.Related (outcome? before id) (outcome? after id))
    {depth : Nat} {settings : Settings} {id : Nat} {x : Except Diagnostic (Value Closure)}
    (hx : task.Ends depth settings id before x) :
    ∃ y, task'.Ends depth settings id after y ∧ Agree (Value.Related Closure.Aligned) x y := by
  cases h with
  | report d =>
    obtain rfl : x = .error d := hx
    exact ⟨.error d, rfl, .error d⟩
  | @run _ _ _ _ _ reads hbody hresult hreads =>
    obtain ⟨hids, hslots⟩ := visibleOf_aligned reads fun id hid => hread id (hreads id hid)
    have hframe : Frame.Aligned ⟨[], [], visibleOf before reads, settings⟩
        ⟨[], [], visibleOf after reads, settings⟩ := ⟨rfl, .nil, hids, hslots, rfl⟩
    have hrun := Frame.run_aligned (Closure.invoke_aligned depth) hframe hbody hresult ⟨id, 0⟩
    unfold CellTask.Ends at hx ⊢
    dsimp only at hx ⊢
    generalize Frame.run _ _ _ _ _ = e at hrun hx
    generalize Frame.run _ _ _ _ _ = e' at hrun ⊢
    cases hrun with
    | tooDeep e => exact hx.elim
    | fault f =>
      obtain rfl := hx
      exact ⟨_, rfl, .error _⟩
    | value i hvw =>
      obtain rfl := hx
      exact ⟨_, rfl, .ok hvw⟩

theorem CellTask.Aligned.ends {cells : Nat → Prop} {task task' : CellTask Closure}
    (h : CellTask.Aligned cells task task')
    (hread : ∀ id, cells id → Option.Rel Outcome.Related (outcome? before id) (outcome? after id))
    {depth : Nat} {settings : Settings} {id : Nat} {x y : Except Diagnostic (Value Closure)}
    (hx : task.Ends depth settings id before x) (hy : task'.Ends depth settings id after y) :
    Agree (Value.Related Closure.Aligned) x y := by
  obtain ⟨y', hy', hxy⟩ := h.exists_ends hread hx
  rwa [hy.unique hy']

end Ends

/-! ## All cells in two runs -/

section Edit

variable {g : Grammar} {sources : List CellSource} {edited : Nat} {text : String} {depth : Nat}
  {settings : Settings} {before after : List Outcome}
  (hbefore : (Notebook.build g sources).program.run depth settings = some before)
  (hafter : (Notebook.build g (CellSource.withInputAll edited text sources)).program.run depth settings =
    some after)

include hbefore hafter

/-- A cell with a place in the order ends alike in both runs if the cells that it reads do. -/
theorem outcome?_related_of_reads {id : Nat} (hid : (Notebook.build g sources).Unaffected edited id)
    (horder : id ∈ (Notebook.build g sources).evalOrder)
    (hreads : ∀ r, (Notebook.build g sources).DependsOn id r →
      Option.Rel Outcome.Related (outcome? before r) (outcome? after r)) :
    Option.Rel Outcome.Related (outcome? before id) (outcome? after id) := by
  have hedit := Notebook.build_sameBut g edited text sources
  have horder' := (Notebook.mem_evalOrder_iff text hid).mpr horder
  obtain ⟨c, n, o, hc, hvalued, ho, hname, hends⟩ := Notebook.ends_of_mem_evalOrder hbefore horder
  obtain ⟨c', n', o', hc', -, ho', hname', hends'⟩ := Notebook.ends_of_mem_evalOrder hafter horder'
  obtain rfl : c' = c := Option.some.inj (hc'.symm.trans ((hedit.cell?_eq hid.1).trans hc))
  have hmem := Notebook.mem_cells_of_cell? hc
  have htasks := Notebook.emitCell_dependsOn hc hvalued (hedit.fields_eq c') n n'
  have hresult := htasks.ends (fun r hr => hreads r ⟨c', hmem, Notebook.cell?_id hc, hr⟩) hends hends'
  have hoid := outcome?_id ho
  have hoid' := outcome?_id ho'
  obtain ⟨_, _, x⟩ := o
  obtain ⟨_, _, y⟩ := o'
  rw [ho, ho']
  simp only at hoid hoid' hname hname'
  subst hoid hoid' hname hname'
  exact .some (.mk _ _ hresult)

/-- A cyclic cell fails with the same fault in both runs. -/
theorem outcome?_related_of_cyclic {id : Nat} (hid : (Notebook.build g sources).Unaffected edited id)
    (hcyclic : id ∈ (Notebook.build g sources).cyclicCells) :
    Option.Rel Outcome.Related (outcome? before id) (outcome? after id) := by
  have hedit := Notebook.build_sameBut g edited text sources
  have hcyclic' := (Notebook.mem_cyclicCells_iff text hid).mpr hcyclic
  obtain ⟨c, fault, hc, hfault, ho⟩ := Notebook.outcome_of_mem_cyclicCells hbefore hcyclic
  obtain ⟨c', fault', hc', hfault', ho'⟩ := Notebook.outcome_of_mem_cyclicCells hafter hcyclic'
  rw [hedit.cell?_eq hid.1, hc] at hc'
  rw [Notebook.cycleFault?_eq text hid, hfault] at hfault'
  rw [ho, ho', Option.some.inj hc', Option.some.inj hfault']
  exact .some (.mk _ _ (.error _))

/-- **Every unaffected cell ends alike in both runs.** -/
theorem outcome?_related {id : Nat} (hid : (Notebook.build g sources).Unaffected edited id) :
    Option.Rel Outcome.Related (outcome? before id) (outcome? after id) := by
  by_cases horder : id ∈ (Notebook.build g sources).evalOrder
  · have hrespects := (Graph.ordered_progress (Notebook.build g sources).graph).respects
    refine hrespects.induction (P := fun id => (Notebook.build g sources).Unaffected edited id →
      Option.Rel Outcome.Related (outcome? before id) (outcome? after id)) ?_ id horder hid
    intro id horder ih hid
    refine outcome?_related_of_reads hbefore hafter hid horder fun r hr => ?_
    exact ih r (Notebook.dependsOn_graph_iff.mpr hr) (hid.step hr)
  by_cases hcyclic : id ∈ (Notebook.build g sources).cyclicCells
  · exact outcome?_related_of_cyclic hbefore hafter hid hcyclic
  rw [Notebook.outcome?_eq_none hbefore horder hcyclic, Notebook.outcome?_eq_none hafter
    (mt (Notebook.mem_evalOrder_iff text hid).mp horder) (mt (Notebook.mem_cyclicCells_iff text hid).mp hcyclic)]
  exact .none

end Edit

/-! ## The response -/

namespace Request

/-- **Edits the cell of a number.** -/
def withInput (r : Request) (edited : Nat) (text : String) : Request :=
  ⟨CellSource.withInputAll edited text r.body⟩

/-- **An edit changes no cell that does not depend on the edited one**, whatever text is written into that
one: where both requests are answered, such a cell has the same result in both answers, and it is in both
or in neither among the cyclic cells. -/
theorem evaluate_withInput (r : Request) (edited : Nat) (text : String) {depth depth' : Nat}
    {settings : Settings} {before after : Response}
    (hbefore : r.evaluate depth settings = some before)
    (hafter : (r.withInput edited text).evaluate depth' settings = some after) {id : Nat}
    (hother : id ≠ edited) (hfar : ¬ TransGen r.notebook.DependsOn id edited) :
    after.shownOf id = before.shownOf id ∧
      (id ∈ after.cyclicCells ↔ id ∈ before.cyclicCells) := by
  obtain ⟨outcomes, hrun, rfl⟩ := Option.map_eq_some_iff.mp hbefore
  obtain ⟨outcomes', hrun', rfl⟩ := Option.map_eq_some_iff.mp hafter
  have hid : r.notebook.Unaffected edited id := ⟨hother, hfar⟩
  -- both runs end alike at the greater one of the two depths
  have hrun := Program.run_mono (Nat.le_max_left depth depth') settings _ hrun
  have hrun' := Program.run_mono (Nat.le_max_right depth depth') settings _ hrun'
  refine ⟨?_, Notebook.mem_cyclicCells_iff text hid⟩
  have hnodup : (outcomes.map (·.id)).Nodup := by
    rw [Program.run_ids hrun]
    exact Notebook.program_nodup
  have hnodup' : (outcomes'.map (·.id)).Nodup := by
    rw [Program.run_ids hrun']
    exact Notebook.program_nodup
  have hrel := outcome?_related hrun hrun' hid
  unfold Response.shownOf
  dsimp only
  rw [filter_id_eq hnodup, filter_id_eq hnodup']
  generalize outcome? outcomes id = o at hrel
  generalize outcome? outcomes' id = o' at hrel
  cases hrel with
  | none => rfl
  | some hrel => exact congrArg (fun x => [x]) hrel.shown_eq

/-- A request in which the second cell reads the first one. -/
def chain : Request :=
  ⟨[{ id := 1, name := some "a", input := "2" }, { id := 2, name := some "b", input := "a" }]⟩

/-- An edit after which the second cell reads itself leaves the first one alone. -/
theorem evaluate_withInput_of_chain :
    ∃ before after, chain.evaluate 1 {} = some before ∧
      (chain.withInput 2 "b").evaluate 1 {} = some after ∧ 1 ≠ 2 ∧
      ¬ TransGen chain.notebook.DependsOn 1 2 ∧ after.shownOf 1 = before.shownOf 1 ∧
      (1 ∈ after.cyclicCells ↔ 1 ∈ before.cyclicCells) := by
  have hbefore : (chain.evaluate 1 {}).isSome := by decide +kernel
  have hafter : ((chain.withInput 2 "b").evaluate 1 {}).isSome := by decide +kernel
  have hreads : ∀ c ∈ chain.notebook.cells, c.id = 1 → c.dependsOn = [] := by decide +kernel
  obtain ⟨before, hbefore⟩ := Option.isSome_iff_exists.mp hbefore
  obtain ⟨after, hafter⟩ := Option.isSome_iff_exists.mp hafter
  have hfar : ¬ TransGen chain.notebook.DependsOn 1 2 := by
    intro h
    obtain ⟨b, ⟨c, hc, hid, hb⟩, -⟩ := TransGen.head'_iff.mp h
    rw [hreads c hc hid] at hb
    exact List.not_mem_nil hb
  exact ⟨before, after, hbefore, hafter, by decide, hfar,
    evaluate_withInput chain 2 "b" hbefore hafter (by decide) hfar⟩

end Request

end Cellbook
