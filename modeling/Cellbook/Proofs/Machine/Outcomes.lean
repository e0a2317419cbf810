import Mathlib.Data.List.Nodup
import Cellbook.Machine.Basic

/-!
# The outcomes of a program

What a machine keeps of the cells that have run is their outcomes and nothing else (`Machine.Holds`). So in
a program in which no number comes twice and no cell reads one that runs after it, a cell ends as its task
does on the outcomes of the program as a whole (`Program.run_ends`): in whatever order the cells run, the
outcomes are those that fit all the tasks.
-/

namespace Cellbook

/-- The outcome of the cell of a number. -/
def outcome? (outcomes : List Outcome) (id : Nat) : Option Outcome := outcomes.find? (·.id == id)

/-- What a finished cell leaves. -/
def Outcome.slot (o : Outcome) : Slot Closure := ⟨cellLabel o.name o.id, o.result⟩

/-- What a cell with these reads sees of outcomes. -/
def visibleOf (outcomes : List Outcome) (reads : List Nat) : List (Nat × Slot Closure) :=
  reads.filterMap fun id => (outcome? outcomes id).map fun o => (id, o.slot)

/-- The cells that a task reads. -/
def CellTask.reads {φ : Type} : CellTask φ → List Nat
  | .report _ | .skip => []
  | .run _ _ reads => reads

/-- **How a task ends** that sees outcomes, as that of the cell of a number. -/
def CellTask.Ends (depth : Nat) (settings : Settings) (id : Nat) (outcomes : List Outcome) :
    CellTask Closure → Except Diagnostic (Value Closure) → Prop
  | .report d, r => r = .error d
  | .skip, r => r = .ok .none
  | .run body result reads, r =>
    let frame : Frame := ⟨[], [], visibleOf outcomes reads, settings⟩
    match frame.run (Closure.invoke depth) body result ⟨id, 0⟩ with
    | .ok (v, _) => r = .ok v
    | .error (.fault f) => r = .error f.report
    | .error .tooDeep => False

/-! ## Outcomes by number -/

theorem outcome?_id {outcomes : List Outcome} {id : Nat} {o : Outcome}
    (h : outcome? outcomes id = some o) : o.id = id := by
  simpa using List.find?_some h

theorem outcome?_eq_some_iff {outcomes : List Outcome} (hnodup : (outcomes.map (·.id)).Nodup)
    {id : Nat} {o : Outcome} : outcome? outcomes id = some o ↔ o ∈ outcomes ∧ o.id = id := by
  constructor
  · intro h
    exact ⟨List.mem_of_find?_eq_some h, outcome?_id h⟩
  · rintro ⟨hmem, rfl⟩
    cases hfind : outcome? outcomes o.id with
    | none => exact absurd (List.find?_eq_none.mp hfind o hmem) (by simp)
    | some o' =>
      have hmem' := List.mem_of_find?_eq_some hfind
      rw [List.inj_on_of_nodup_map hnodup hmem' hmem (outcome?_id hfind)]

theorem outcome?_eq_none_iff {outcomes : List Outcome} {id : Nat} :
    outcome? outcomes id = none ↔ id ∉ outcomes.map (·.id) := by
  simp [outcome?]

theorem exists_outcome?_of_mem {outcomes : List Outcome} {id : Nat} (h : id ∈ outcomes.map (·.id)) :
    ∃ o, outcome? outcomes id = some o :=
  Option.ne_none_iff_exists'.mp fun hnone => outcome?_eq_none_iff.mp hnone h

/-! ## What a machine keeps -/

namespace Machine

/-- **A machine that holds outcomes**: the slot of each, and the number of each as one that has run. -/
structure Holds (m : Machine) (outcomes : List Outcome) : Prop where
  slots : ∀ id, m.slots.lookup id = (outcome? outcomes id).map (·.slot)
  made : ∀ id, id ∉ outcomes.map (·.id) → m.made.lookup id = none

theorem Holds.start : start.Holds [] := ⟨fun _ => rfl, fun _ _ => rfl⟩

variable {depth : Nat} {settings : Settings} {m : Machine} {outcomes : List Outcome}

/-- What a cell ends with is held when it has ended. -/
theorem Holds.finish (h : m.Holds outcomes) {c : CellCode Closure}
    (hnew : c.id ∉ outcomes.map (·.id)) (result : Except Diagnostic (Value Closure))
    (next : Identity) : (m.finish c result next).Holds (outcomes ++ [⟨c.id, c.name, result⟩]) := by
  refine ⟨fun id => ?_, fun id hid => ?_⟩
  · show List.lookup id ((c.id, _) :: m.slots) = _
    rw [List.lookup_cons, h.slots, outcome?, outcome?, List.find?_append]
    by_cases hc : id = c.id
    · subst hc
      have hnone : outcomes.find? (·.id == c.id) = none := outcome?_eq_none_iff.mpr hnew
      rw [hnone, beq_self_eq_true]
      simp [Outcome.slot, CellCode.label]
    · have hc' : (c.id == id) = false := beq_false_of_ne (Ne.symm hc)
      simp [beq_false_of_ne hc, hc']
  · rw [List.map_append, List.mem_append, not_or] at hid
    have hc : id ≠ c.id := fun e => hid.2 (e ▸ List.mem_singleton_self _)
    show List.lookup id ((c.id, _) :: m.made) = none
    rw [List.lookup_cons, beq_false_of_ne hc]
    exact h.made id hid.1

theorem Holds.visible (h : m.Holds outcomes) (reads : List Nat) :
    m.visible reads = visibleOf outcomes reads := by
  unfold Machine.visible visibleOf
  congr 1
  funext id
  rw [h.slots, Option.map_map]
  rfl

/-- **A cell that runs for the first time** ends as its task does on the outcomes that are held. -/
theorem Holds.ends (h : m.Holds outcomes) {c : CellCode Closure} (hnew : c.id ∉ outcomes.map (·.id))
    {result : Except Diagnostic (Value Closure)} {next : Identity}
    (hrun : m.runCell depth settings c = some (result, next)) :
    c.task.Ends depth settings c.id outcomes result := by
  have hfirst : m.nextIdentity c.id = ⟨c.id, 0⟩ := by rw [nextIdentity, h.made c.id hnew]; rfl
  unfold runCell at hrun
  cases htask : c.task with
  | report d =>
    simp only [htask, Option.some.injEq, Prod.mk.injEq] at hrun
    exact hrun.1.symm
  | skip =>
    simp only [htask, Option.some.injEq, Prod.mk.injEq] at hrun
    exact hrun.1.symm
  | run body code reads =>
    simp only [htask, h.visible, hfirst, StateT.run] at hrun
    unfold CellTask.Ends
    dsimp only
    generalize Frame.run _ _ _ _ _ = e at hrun ⊢
    match e with
    | .ok (v, i) => exact (Prod.mk.inj (Option.some.inj hrun)).1.symm
    | .error (.fault f) => exact (Prod.mk.inj (Option.some.inj hrun)).1.symm
    | .error .tooDeep => cases hrun

/-! ## Runs -/

theorem runFrom_cons {c : CellCode Closure} {p : Program Closure} {os : List Outcome}
    (hrun : m.runFrom depth settings (c :: p) = some os) :
    ∃ result next rest, m.runCell depth settings c = some (result, next) ∧
      (m.finish c result next).runFrom depth settings p = some rest ∧
      os = ⟨c.id, c.name, result⟩ :: rest := by
  unfold runFrom at hrun
  cases hcell : m.runCell depth settings c with
  | none => rw [hcell] at hrun; cases hrun
  | some e =>
    obtain ⟨result, next⟩ := e
    rw [hcell] at hrun
    obtain ⟨rest, hrest, rfl⟩ := Option.map_eq_some_iff.mp hrun
    exact ⟨result, next, rest, rfl, hrest, rfl⟩

/-- **There is one outcome for each cell**, in order. -/
theorem runFrom_idents {p : Program Closure} {os : List Outcome}
    (hrun : m.runFrom depth settings p = some os) :
    os.map (fun o => (o.id, o.name)) = p.map fun c => (c.id, c.name) := by
  induction p generalizing m os with
  | nil =>
    obtain rfl : [] = os := Option.some.inj hrun
    rfl
  | cons c p ih =>
    obtain ⟨result, next, rest, -, hrest, rfl⟩ := runFrom_cons hrun
    rw [List.map_cons, List.map_cons, ih hrest]

theorem not_mem_of_nodup {ids : List Nat} {c : CellCode Closure} {p : Program Closure}
    (h : (ids ++ (c :: p).map (·.id)).Nodup) : c.id ∉ ids := by
  intro hc
  exact (List.nodup_append.mp h).2.2 c.id hc c.id List.mem_cons_self rfl

/-- When a cell runs, its machine holds the outcomes of those before it. -/
theorem runFrom_ends {front back : Program Closure} {c : CellCode Closure} {os : List Outcome}
    (h : m.Holds outcomes)
    (hnodup : (outcomes.map (·.id) ++ (front ++ c :: back).map (·.id)).Nodup)
    (hrun : m.runFrom depth settings (front ++ c :: back) = some os) :
    ∃ first o last, os = first ++ o :: last ∧ first.map (·.id) = front.map (·.id) ∧
      o.id = c.id ∧ o.name = c.name ∧
      c.task.Ends depth settings c.id (outcomes ++ first) o.result := by
  induction front generalizing m outcomes os with
  | nil =>
    obtain ⟨result, next, rest, hcell, -, rfl⟩ := runFrom_cons hrun
    refine ⟨[], ⟨c.id, c.name, result⟩, rest, rfl, rfl, rfl, rfl, ?_⟩
    rw [List.append_nil]
    exact h.ends (not_mem_of_nodup hnodup) hcell
  | cons d front ih =>
    obtain ⟨result, next, rest, -, hrest, rfl⟩ := runFrom_cons hrun
    have hnodup' : ((outcomes ++ [(⟨d.id, d.name, result⟩ : Outcome)]).map (·.id) ++
        (front ++ c :: back).map (·.id)).Nodup := by
      rw [List.map_append, List.append_assoc]
      exact hnodup
    obtain ⟨first, o, last, rfl, hfirst, hid, hname, hends⟩ :=
      ih (h.finish (not_mem_of_nodup hnodup) result next) hnodup' hrest
    refine ⟨⟨d.id, d.name, result⟩ :: first, o, last, rfl, ?_, hid, hname, ?_⟩
    · rw [List.map_cons, List.map_cons, hfirst]
    · rwa [List.append_assoc] at hends

end Machine

/-! ## Programs -/

section Programs

variable {depth : Nat} {settings : Settings} {p : Program Closure} {outcomes : List Outcome}

theorem Program.run_ids (hrun : p.run depth settings = some outcomes) :
    outcomes.map (·.id) = p.map (·.id) := by
  have h := congrArg (List.map Prod.fst) (Machine.runFrom_idents hrun)
  rwa [List.map_map, List.map_map] at h

/-- How a task ends depends on the outcomes of the cells that it reads. -/
theorem CellTask.Ends.congr {before after : List Outcome} {id : Nat} {task : CellTask Closure}
    {result : Except Diagnostic (Value Closure)}
    (hsame : ∀ n ∈ task.reads, outcome? before n = outcome? after n)
    (h : task.Ends depth settings id before result) : task.Ends depth settings id after result := by
  cases task with
  | report d => exact h
  | skip => exact h
  | run body code reads =>
    have hvisible : visibleOf after reads = visibleOf before reads := by
      unfold visibleOf
      exact List.filterMap_congr fun n hn => by rw [hsame n hn]
    unfold Ends at h ⊢
    dsimp only at h ⊢
    rwa [hvisible]

/-- **A cell ends as its task does on the outcomes of the program**, if none of the cells that it reads
runs after it. -/
theorem Program.run_ends (hnodup : (p.map (·.id)).Nodup)
    (hrun : p.run depth settings = some outcomes) {front back : Program Closure}
    {c : CellCode Closure} (hp : p = front ++ c :: back)
    (hreads : ∀ id ∈ c.task.reads, id ∈ p.map (·.id) → id ∈ front.map (·.id)) :
    ∃ o, outcome? outcomes c.id = some o ∧ o.name = c.name ∧
      c.task.Ends depth settings c.id outcomes o.result := by
  have hids := Program.run_ids hrun
  have hnodup' : (outcomes.map (·.id)).Nodup := hids ▸ hnodup
  rw [hp] at hrun hnodup
  obtain ⟨first, o, last, rfl, hfirst, hid, hname, hends⟩ :=
    Machine.runFrom_ends Machine.Holds.start hnodup hrun
  refine ⟨o, (outcome?_eq_some_iff hnodup').mpr ⟨by simp, hid⟩, hname, ?_⟩
  rw [List.nil_append] at hends
  -- of what is read, nothing is among the outcomes that come later
  refine hends.congr fun id hmem => ?_
  by_cases hin : id ∈ first.map (·.id)
  · obtain ⟨o', ho', hid'⟩ := List.mem_map.mp hin
    have hfirst' : (first.map (·.id)).Nodup := by
      rw [List.map_append] at hnodup'
      exact (List.nodup_append.mp hnodup').1
    rw [(outcome?_eq_some_iff hfirst').mpr ⟨ho', hid'⟩,
      (outcome?_eq_some_iff hnodup').mpr ⟨List.mem_append_left _ ho', hid'⟩]
  · have hnot : id ∉ (first ++ o :: last).map (·.id) := by
      intro hall
      rw [hids] at hall
      exact hin (hfirst ▸ hreads id hmem hall)
    rw [outcome?_eq_none_iff.mpr hin, outcome?_eq_none_iff.mpr hnot]

end Programs

end Cellbook
