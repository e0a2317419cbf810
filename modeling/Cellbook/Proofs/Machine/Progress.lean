import Cellbook.Proofs.Machine.Outcomes

/-!
# When a program runs to its end

A program has outcomes unless calls are nested too deep in one of its cells. So it runs to its end if each
of its cells ends on whatever outcomes those before it have left (`Program.exists_run`); what is so of these
outcomes may be used for the next cell, and is so of all of them in the end.
-/

namespace Cellbook

variable {depth : Nat} {settings : Settings}

/-- A task ends in one way on the same outcomes. -/
theorem CellTask.Ends.unique {task : CellTask Closure} {id : Nat} {outcomes : List Outcome}
    {x y : Except Diagnostic (Value Closure)} (hx : task.Ends depth settings id outcomes x)
    (hy : task.Ends depth settings id outcomes y) : x = y := by
  cases task with
  | report d => exact Eq.trans hx (Eq.symm hy)
  | skip => exact Eq.trans hx (Eq.symm hy)
  | run body code reads =>
    unfold Ends at hx hy
    dsimp only at hx hy
    generalize Frame.run _ _ _ _ _ = e at hx hy
    match e with
    | .ok (v, i) => exact Eq.trans hx (Eq.symm hy)
    | .error (.fault f) => exact Eq.trans hx (Eq.symm hy)
    | .error .tooDeep => exact hx.elim

namespace Machine

variable {m : Machine} {outcomes : List Outcome}

/-- A cell whose task ends on the outcomes that are held, ends so when it runs. -/
theorem Holds.exists_runCell (h : m.Holds outcomes) {c : CellCode Closure}
    (hnew : c.id ∉ outcomes.map (·.id)) {result : Except Diagnostic (Value Closure)}
    (hends : c.task.Ends depth settings c.id outcomes result) :
    ∃ next, m.runCell depth settings c = some (result, next) := by
  have hsome : ∃ e, m.runCell depth settings c = some e := by
    have hfirst : m.nextIdentity c.id = ⟨c.id, 0⟩ := by rw [nextIdentity, h.made c.id hnew]; rfl
    unfold runCell
    cases htask : c.task with
    | report d => exact ⟨_, rfl⟩
    | skip => exact ⟨_, rfl⟩
    | run body code reads =>
      rw [htask] at hends
      unfold CellTask.Ends at hends
      simp only [h.visible, hfirst, StateT.run]
      dsimp only at hends
      generalize Frame.run _ _ _ _ _ = e at hends ⊢
      cases e with
      | ok r => exact ⟨_, rfl⟩
      | error stop =>
        cases stop with
        | fault f => exact ⟨_, rfl⟩
        | tooDeep => exact hends.elim
  obtain ⟨⟨result', next⟩, hrun⟩ := hsome
  exact ⟨next, (h.ends hnew hrun).unique hends ▸ hrun⟩

/-- From a machine on, cells run to the end if each of them ends on the outcomes before it. -/
theorem exists_runFrom {done p : Program Closure} (h : m.Holds outcomes)
    (hids : outcomes.map (·.id) = done.map (·.id)) (hnodup : ((done ++ p).map (·.id)).Nodup)
    {Good : List Outcome → Prop} (hgood : Good outcomes)
    (hstep : ∀ front c back os, done ++ p = front ++ c :: back → os.map (·.id) = front.map (·.id) →
      Good os → ∃ result, c.task.Ends depth settings c.id os result ∧
        Good (os ++ [⟨c.id, c.name, result⟩])) :
    ∃ rest, m.runFrom depth settings p = some rest ∧ Good (outcomes ++ rest) := by
  induction p generalizing m outcomes done with
  | nil => exact ⟨[], rfl, (List.append_nil outcomes).symm ▸ hgood⟩
  | cons c p ih =>
    obtain ⟨result, hends, hgood'⟩ := hstep done c p outcomes rfl hids hgood
    have hnew : c.id ∉ outcomes.map (·.id) := by
      rw [hids]
      exact not_mem_of_nodup (p := p) (by rwa [← List.map_append])
    obtain ⟨next, hcell⟩ := h.exists_runCell hnew hends
    have hsplit : (done ++ [c]) ++ p = done ++ c :: p := List.append_cons done c p |>.symm
    have hids' : (outcomes ++ [(⟨c.id, c.name, result⟩ : Outcome)]).map (·.id) =
        (done ++ [c]).map (·.id) := by
      rw [List.map_append, List.map_append, hids]
      rfl
    obtain ⟨rest, hrest, hgood''⟩ := ih (h.finish hnew result next) hids' (hsplit ▸ hnodup) hgood'
      (hsplit ▸ hstep)
    refine ⟨⟨c.id, c.name, result⟩ :: rest, ?_, ?_⟩
    · rw [runFrom, hcell]
      simp only [hrest, Option.map_some]
    · rwa [List.append_assoc] at hgood''

end Machine

/-- **A program runs to its end** if each of its cells ends on good outcomes of those before it, and the
outcomes stay good. -/
theorem Program.exists_run {p : Program Closure} (hnodup : (p.map (·.id)).Nodup)
    {Good : List Outcome → Prop} (hstart : Good [])
    (hstep : ∀ front c back os, p = front ++ c :: back → os.map (·.id) = front.map (·.id) → Good os →
      ∃ result, c.task.Ends depth settings c.id os result ∧ Good (os ++ [⟨c.id, c.name, result⟩])) :
    ∃ outcomes, p.run depth settings = some outcomes ∧ Good outcomes := by
  have hids : ([] : List Outcome).map (·.id) = ([] : Program Closure).map (·.id) := rfl
  exact Machine.exists_runFrom Machine.Holds.start hids hnodup hstart hstep

end Cellbook
