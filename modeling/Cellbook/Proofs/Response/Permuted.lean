import Cellbook.Proofs.Notebook.Permuted
import Cellbook.Proofs.Response.Locality

/-!
# The order of the cells does not matter

If the cells of a request are written in another order, the response to it says the same of each of them
(`evaluate_perm`), as long as no number and no name comes twice. The cells run in another order then, with
other variables, and the cells of a cycle may be told in another order.

**The second run.** It is not given that the second request is answered. Its cells run one after the other,
and each ends as it did in the first run, since what it reads has run before it and has ended so
(`exists_ends_of_perm`). So none of them is too deep.
-/

namespace Cellbook

open Run

/-! ## Faults -/

/-- What is shown of a cell, or the same report of a cycle told in another order. -/
inductive SameShown : Option String × Except Diagnostic (String × Json) →
    Option String × Except Diagnostic (String × Json) → Prop
  | same (x : Option String × Except Diagnostic (String × Json)) : SameShown x x
  | cyclic (name : Option String) {labels labels' : List String} : labels.Perm labels' →
    SameShown (name, .error (EvalFault.report ⟨.cyclic labels, []⟩))
      (name, .error (EvalFault.report ⟨.cyclic labels', []⟩))

theorem EvalFault.SameCycle.sameShown {f f' : EvalFault} (h : f.SameCycle f') (id : Nat)
    (name : Option String) :
    SameShown (name, Outcome.shown ⟨id, name, .error f.report⟩)
      (name, Outcome.shown ⟨id, name, .error f'.report⟩) := by
  cases h with
  | same f => exact .same _
  | cyclic hperm => exact .cyclic name hperm

/-! ## The second run -/

section Runs

open Notebook

variable {g : Grammar} {top top' : List CellSource} (h : CellSource.Permuted top top') {depth : Nat}
  {settings : Settings} {before : List Outcome}
  (hbefore : (build g top).program.run depth settings = some before)

/-- Outcomes of cells with a place in the order that are as in the first run. -/
def AsBefore (nb : Notebook) (before os : List Outcome) : Prop :=
  ∀ o ∈ os, o.id ∈ nb.evalOrder → ∃ o₀, outcome? before o.id = some o₀ ∧ o₀.Related o

theorem AsBefore.exists_related {nb : Notebook} {before os : List Outcome} (h : AsBefore nb before os) {id : Nat}
    (horder : id ∈ nb.evalOrder) (hran : id ∈ os.map (·.id)) :
    ∃ o o₀, outcome? os id = some o ∧ outcome? before id = some o₀ ∧ o₀.Related o := by
  obtain ⟨o, ho⟩ := exists_outcome?_of_mem hran
  obtain rfl := outcome?_id ho
  obtain ⟨o₀, ho₀, hrel⟩ := h o (List.mem_of_find?_eq_some ho) horder
  exact ⟨o, o₀, ho, ho₀, hrel⟩

include h hbefore

/-- **A cell with a place in the order ends as before**, if those that it reads have ended so. -/
theorem exists_ends_of_perm {front back : Program Closure} {p : CellCode Closure} {os : List Outcome}
    (hp : (build g top').program = front ++ p :: back) (hids : os.map (·.id) = front.map (·.id))
    (hos : AsBefore (build g top) before os) (horder : p.id ∈ (build g top).evalOrder) :
    ∃ result o₀, p.task.Ends depth settings p.id os result ∧ outcome? before p.id = some o₀ ∧
      o₀.Related ⟨p.id, p.name, result⟩ := by
  have hcyclic : p.id ∉ (build g top').cyclicCells :=
    (mem_evalOrder.mp ((evalOrder_perm h g).mem_iff.mpr horder)).2
  rcases program_cell hp with ⟨fault, hfault, -⟩ | ⟨c', n', hc', -, rfl, hfront⟩
  · exact absurd (mem_cyclicCells_of_cycleFault? hfault) hcyclic
  have hid : ((build g top').emitCell (.tree (φ := Closure)) c' n').1.toCode.id = c'.id := emitCell_id _ c' n'
  rw [hid] at hc' horder ⊢
  obtain ⟨c, n, o₀, hc, hvalued, ho₀, hname, hends⟩ := ends_of_mem_evalOrder hbefore horder
  have hsame : c.SameLinks c' := by
    have hrel := cell?_rel h g c'.id
    rw [hc, hc'] at hrel
    cases hrel with
    | some hsame => exact hsame
  have hdependsOn : c'.dependsOn = c.dependsOn := by rw [hsame]
  have hcname : c'.name = c.name := by rw [hsame]
  have hfields : (build g top).fields c = (build g top).fields c := rfl
  have htasks := emitCell_dependsOn hc hvalued hfields n n'
  have hread (r : Nat) (hr : r ∈ c.dependsOn) :
      Option.Rel Outcome.Related (outcome? before r) (outcome? os r) := by
    have hdep : (build g top).DependsOn c'.id r := ⟨c, mem_cells_of_cell? hc, cell?_id hc, hr⟩
    have hr' : r ∈ (build g top).evalOrder :=
      (Graph.ordered_progress _).respects.mem_of_dependsOn horder (dependsOn_graph_iff.mpr hdep)
    obtain ⟨o, o₀, ho, ho₀, hrel⟩ := hos.exists_related hr' (hids ▸ hfront r (hdependsOn ▸ hr))
    rw [ho, ho₀]
    exact .some hrel
  obtain ⟨result, hresult, hagree⟩ := htasks.exists_ends hread hends
  refine ⟨result, o₀, (emitCell_eq h g _ hsame) ▸ hresult, ho₀, ?_⟩
  have hoid := outcome?_id ho₀
  obtain ⟨_, _, x⟩ := o₀
  have hpname : ((build g top').emitCell (.tree (φ := Closure)) c' n').1.toCode.name = c'.name :=
    emitCell_name _ c' n'
  rw [hpname, hcname]
  simp only at hoid hname
  subst hoid hname
  exact .mk _ _ hagree

/-- **The cells in another order run to the end**, and those with a place in the order end as before. -/
theorem exists_run_of_perm : ∃ after, (build g top').program.run depth settings = some after ∧
    AsBefore (build g top) before after := by
  refine Program.exists_run program_nodup (fun o ho => (List.not_mem_nil ho).elim) ?_
  intro front p back os hp hids hos
  have hmem : p ∈ (build g top').program := by rw [hp]; simp
  by_cases horder : p.id ∈ (build g top).evalOrder
  · obtain ⟨result, o₀, hends, ho₀, hrel⟩ := exists_ends_of_perm h hbefore hp hids hos horder
    refine ⟨result, hends, List.forall_mem_append.mpr ⟨hos, ?_⟩⟩
    simp only [List.forall_mem_singleton]
    exact fun _ => ⟨o₀, ho₀, hrel⟩
  · -- a cell without a place only reports why
    have hcyclic : p.id ∈ (build g top').cyclicCells := by
      have hall : p.id ∈ (build g top').evalOrder ++ (build g top').cyclicCells := by
        rw [← program_ids]
        exact List.mem_map_of_mem hmem
      refine (List.mem_append.mp hall).resolve_left fun horder' => horder ?_
      exact (evalOrder_perm h g).mem_iff.mp horder'
    obtain ⟨c, fault, -, -, hreport⟩ := report_mem_program hcyclic
    have hreports : ⟨p.id, c.name, .report fault.report⟩ = p :=
      List.inj_on_of_nodup_map program_nodup hreport hmem rfl
    refine ⟨.error fault.report, hreports ▸ rfl, List.forall_mem_append.mpr ⟨hos, ?_⟩⟩
    simp only [List.forall_mem_singleton]
    exact fun hid => (horder hid).elim

section Shown

variable {after : List Outcome} (hafter : (build g top').program.run depth settings = some after)

include hafter

/-- A cyclic cell shows the same in the two runs, but for the order in which a cycle is told. -/
theorem outcome?_sameShown_of_cyclic {id : Nat} (hid : id ∈ (build g top).cyclicCells) :
    Option.Rel (fun o o' => SameShown (o.name, o.shown) (o'.name, o'.shown)) (outcome? before id)
      (outcome? after id) := by
  have hid' := (cyclicCells_perm h g).mem_iff.mpr hid
  obtain ⟨c, fault, hc, hfault, ho⟩ := outcome_of_mem_cyclicCells hbefore hid
  obtain ⟨c', fault', hc', hfault', ho'⟩ := outcome_of_mem_cyclicCells hafter hid'
  have hcells := cell?_rel h g id
  have hfaults := cycleFault?_rel h g id
  rw [hc, hc'] at hcells
  rw [hfault, hfault'] at hfaults
  rw [ho, ho']
  cases hcells with
  | some hsame =>
    cases hfaults with
    | some hcycle =>
      have hname : c'.name = c.name := by rw [hsame]
      rw [hname]
      exact .some (hcycle.sameShown id c.name)

/-- **What each cell has in the two runs** shows the same. -/
theorem outcome?_sameShown (has : AsBefore (build g top) before after) (id : Nat) :
    Option.Rel (fun o o' => SameShown (o.name, o.shown) (o'.name, o'.shown)) (outcome? before id)
      (outcome? after id) := by
  by_cases horder : id ∈ (build g top).evalOrder
  · have hran : id ∈ after.map (·.id) := by
      rw [Program.run_ids hafter, program_ids]
      exact List.mem_append_left _ ((evalOrder_perm h g).mem_iff.mpr horder)
    obtain ⟨o, o₀, ho, ho₀, hrel⟩ := has.exists_related horder hran
    rw [ho, ho₀]
    exact .some (hrel.shown_eq ▸ .same _)
  by_cases hcyclic : id ∈ (build g top).cyclicCells
  · exact outcome?_sameShown_of_cyclic h hbefore hafter hcyclic
  rw [outcome?_eq_none hbefore horder hcyclic, outcome?_eq_none hafter
    (mt (evalOrder_perm h g).mem_iff.mp horder) (mt (cyclicCells_perm h g).mem_iff.mp hcyclic)]
  exact .none

end Shown

end Runs

/-! ## The response -/

namespace Request

/-- **The order of the cells does not matter.** Where no number comes twice in a request, and no name twice
among the cells at its top, the request with these cells in another order is answered if the first one is:
the same cells are evaluated and the same are cyclic, and each of them is shown with the same value or the
same report, but for the order in which a cycle is told. -/
theorem evaluate_perm (r r' : Request) (hperm : r.body.Perm r'.body)
    (hids : (CellSource.idsOf (CellSource.sitesAll [] r.body)).Nodup)
    (hnames : (r.body.filterMap (·.givenName?)).Nodup) {depth : Nat} {settings : Settings}
    {before : Response} (hbefore : r.evaluate depth settings = some before) :
    ∃ after, r'.evaluate depth settings = some after ∧
      after.evalOrder.Perm before.evalOrder ∧ after.cyclicCells.Perm before.cyclicCells ∧
      ∀ id, List.Forall₂ SameShown (before.shownOf id) (after.shownOf id) := by
  obtain ⟨outcomes, hrun, rfl⟩ := Option.map_eq_some_iff.mp hbefore
  have h : CellSource.Permuted r.body r'.body := ⟨hperm, hids, hnames⟩
  obtain ⟨outcomes', hrun', has⟩ := exists_run_of_perm h hrun
  refine ⟨_, Option.map_eq_some_iff.mpr ⟨outcomes', hrun', rfl⟩, Notebook.evalOrder_perm h .standard,
    Notebook.cyclicCells_perm h .standard, fun id => ?_⟩
  have hnodup : (outcomes.map (·.id)).Nodup := by
    rw [Program.run_ids hrun]
    exact Notebook.program_nodup
  have hnodup' : (outcomes'.map (·.id)).Nodup := by
    rw [Program.run_ids hrun']
    exact Notebook.program_nodup
  have hrel := outcome?_sameShown h hrun hrun' has id
  unfold Response.shownOf
  dsimp only
  rw [filter_id_eq hnodup, filter_id_eq hnodup']
  generalize outcome? outcomes id = o at hrel
  generalize outcome? outcomes' id = o' at hrel
  cases hrel with
  | none => exact .nil
  | some hshown => exact .cons hshown .nil

/-- A request in which the first two cells read each other, the third one reads the first, and the last one
reads a cell in the container before it. -/
def crossing : Request :=
  ⟨[{ id := 1, name := some "a", input := "b" }, { id := 2, name := some "b", input := "a" },
    { id := 3, name := some "c", input := "a" },
    { id := 4, name := some "d", body := [{ id := 5, name := some "a", input := "2" }] },
    { id := 6, name := some "e", input := "d.a + 1" }]⟩

/-- The same answer to its cells in the opposite order. -/
theorem evaluate_perm_of_crossing :
    ∃ before, crossing.evaluate 1 {} = some before ∧ crossing.body.Perm crossing.body.reverse ∧
      (CellSource.idsOf (CellSource.sitesAll [] crossing.body)).Nodup ∧
      (crossing.body.filterMap (·.givenName?)).Nodup ∧
      ∃ after, Request.evaluate ⟨crossing.body.reverse⟩ 1 {} = some after ∧
        after.evalOrder.Perm before.evalOrder ∧ after.cyclicCells.Perm before.cyclicCells ∧
        ∀ id, List.Forall₂ SameShown (before.shownOf id) (after.shownOf id) := by
  have hbefore : (crossing.evaluate 1 {}).isSome := by decide +kernel
  have hids : (CellSource.idsOf (CellSource.sitesAll [] crossing.body)).Nodup := by decide +kernel
  have hnames : (crossing.body.filterMap (·.givenName?)).Nodup := by decide +kernel
  have hperm : crossing.body.Perm crossing.body.reverse := (List.reverse_perm _).symm
  obtain ⟨before, hbefore⟩ := Option.isSome_iff_exists.mp hbefore
  exact ⟨before, hbefore, hperm, hids, hnames,
    evaluate_perm crossing ⟨crossing.body.reverse⟩ hperm hids hnames hbefore⟩

end Request

end Cellbook
