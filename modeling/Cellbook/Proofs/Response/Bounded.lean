import Cellbook.Proofs.Machine.Plain
import Cellbook.Proofs.Response.Safe

/-!
# When evaluation ends

A cell reads only what was evaluated before it, so along the names in its code no function leads back to itself.
But functions are values, and one that gets itself as an argument can call itself as often as it likes:
with `x(x)` as the body of a function `f` of `x`, the call `f(f)` is nested deeper than any bound
(`evaluate_selfApplied`).

Nothing else makes calls go on for ever. If no function is called with an argument that is a function or holds
one, calls are nested no deeper than the functions in the program (`evaluate_of_firstOrder`), and every cell
ends with a value or a report.
-/

namespace Cellbook

open Run

/-! ## Runs of the machine that stops -/

namespace Machine

variable {S : Nat → Closure → Prop} {ran : List Nat} {m : Machine} {depth n : Nat} {fault : EvalFault}

theorem Keeps.mono {S' : Nat → Closure → Prop} (hS : ∀ count c, S count c → S' count c) (h : m.Keeps S ran) :
    m.Keeps S' ran :=
  ⟨h.slots, fun p hp v hv => (h.fits p hp v hv).mono hS⟩

variable (hfault : fault.Regular Closure) (settings : Settings)

include hfault

/-- **A cell ends** where calls may be nested deeper, by how deep its functions are nested, than the functions
of the cells before need. -/
theorem Keeps.exists_runCellBy (h : m.Keeps S ran) (hcall : Closure.Callable fault S depth)
    {c : CellCode Closure} (hc : c.task.Sound ran) (hn : depth + c.task.nesting ≤ n) :
    ∃ result next, m.runCellBy (Closure.invokePlain (.fault fault) n) settings c = some (result, next) ∧
      ∀ v, result = .ok v → v.Fits (Closure.Level S c.task.nesting) := by
  unfold runCellBy
  cases htask : c.task with
  | report d => exact ⟨_, _, rfl, nofun⟩
  | skip =>
    refine ⟨_, _, rfl, fun v hv => ?_⟩
    cases hv
    exact .none
  | run body result reads =>
    rw [htask] at hc hn
    cases hc with
    | @run cells _ _ _ _ hbody hresult hcells hreads =>
      have hvisible (id : Nat) (hid : cells id) := h.mem_visible hreads id (hcells id hid)
      have hlevel := hcall.level hfault (CellTask.run body result reads).nesting
      have hrun : Safe (EvalFault.Regular Closure) False
          (Value.Fits (Closure.Level S (CellTask.run body result reads).nesting))
          ((m.frame reads settings).run (Closure.invokePlain (.fault fault) n) body result)
          ((m.frame reads settings).run (Closure.invokePlain (.fault fault) n) body result) :=
        hlevel.run hfault hn (List.forall_mem_nil _) (List.forall_mem_nil _) hvisible
          (h.fits_visible reads) hbody hresult (Nat.le_refl _)
      have hends := (hrun (m.nextIdentity c.id)).2
      dsimp only [StateT.run] at hends ⊢
      generalize Frame.run _ _ _ _ _ = e at hends ⊢
      cases hends with
      | @ok p hv =>
        refine ⟨_, _, rfl, fun v hv' => ?_⟩
        cases hv'
        exact hv
      | @error halt hhalt =>
        cases halt with
        | fault f => exact ⟨_, _, rfl, nofun⟩
        | tooDeep => exact hhalt.elim

/-- **A program ends** where calls may be nested deeper by how deep its functions are nested. -/
theorem Keeps.exists_runFromBy {p : Program Closure} (h : m.Keeps S ran)
    (hcall : Closure.Callable fault S depth)
    (hp : ∀ front c back, p = front ++ c :: back → c.task.Sound (ran ++ front.map (·.id)))
    (hn : depth + p.nesting ≤ n) :
    ∃ outcomes, m.runFromBy (Closure.invokePlain (.fault fault) n) settings p = some outcomes := by
  induction p generalizing S ran m depth with
  | nil => exact ⟨[], rfl⟩
  | cons c p ih =>
    have hnesting : depth + c.task.nesting + Program.nesting p ≤ n := by
      rw [Nat.add_assoc]
      exact hn
    have hc : c.task.Sound ran := by simpa using hp [] c p rfl
    obtain ⟨result, next, hcell, hvalue⟩ := h.exists_runCellBy hfault settings hcall hc
      (Nat.le_of_add_right_le hnesting)
    have hkeeps := (h.mono fun _ _ => Closure.Level.of_held).finish c hvalue next
    have hrest : ∀ front d back, p = front ++ d :: back →
        d.task.Sound ((ran ++ [c.id]) ++ front.map (·.id)) := fun front d back hsplit => by
      simpa using hp (c :: front) d back (congrArg (c :: ·) hsplit)
    obtain ⟨outcomes, hrun⟩ := ih hkeeps (hcall.level hfault _) hrest hnesting
    refine ⟨⟨c.id, c.name, result⟩ :: outcomes, ?_⟩
    rw [runFromBy, hcell]
    simp only [hrun, Option.map_some]

end Machine

/-! ## Requests -/

namespace Request

theorem evaluate_eq_none_iff (r : Request) {depth : Nat} {settings : Settings} :
    r.evaluate depth settings = none ↔ r.program.run depth settings = none := Option.map_eq_none_iff

/-- **In the evaluation of the request no function is called with an argument that is a function or holds
one**: it would be the same, however it were stopped there. -/
def FirstOrder (r : Request) (depth : Nat) (settings : Settings) : Prop :=
  ∀ stop, r.program.runPlain stop depth settings = r.program.run depth settings

/-- **Evaluation ends** at a depth that is known beforehand, with a result for each cell of the program, if no
function is called with an argument that is a function or holds one. -/
theorem evaluate_of_firstOrder (r : Request) {depth : Nat} {settings : Settings}
    (hdepth : r.program.nesting ≤ depth) (h : r.FirstOrder depth settings) :
    ∃ a, r.evaluate depth settings = some a ∧ a.results.map (·.id) = r.program.map (·.id) := by
  let fault : EvalFault := ⟨.unresolved "", []⟩
  have hfault : fault.Regular Closure := .plain rfl
  -- before the first cell there is no function to call
  have hcall : Closure.Callable fault (fun _ _ => False) 0 := fun _ _ _ _ h _ => h.elim
  have hnesting : 0 + r.program.nesting ≤ depth := by omega
  obtain ⟨outcomes, hrun⟩ := Machine.Keeps.start.exists_runFromBy hfault settings hcall
    (fun front c back hp => Notebook.program_sound hp) hnesting
  have hrun : r.program.run depth settings = some outcomes := (h (.fault fault)).symm.trans hrun
  exact ⟨_, Option.map_eq_some_iff.mpr ⟨outcomes, hrun, rfl⟩, Program.run_ids hrun⟩

/-- A function that makes functions, one that calls these from a filter, and a call of it. -/
def scaled : Request :=
  ⟨[{ id := 1, name := some "scale", input := "(x): k * x", params := ["k"] },
    { id := 2, name := some "above", input := "items[(x): x > scale(2)(bound)]",
      params := ["items", "bound"] },
    { id := 3, input := "above([1, 3, 5], 2)" }]⟩

theorem evaluate_of_firstOrder_of_scaled :
    scaled.program.nesting ≤ 4 ∧ scaled.FirstOrder 4 {} ∧
      ∃ a, scaled.evaluate 4 {} = some a ∧ a.results.map (·.id) = scaled.program.map (·.id) := by
  have hnesting : scaled.program.nesting ≤ 4 := by decide +kernel
  have hends : (scaled.program.runPlain .tooDeep 4 {}).isSome := by decide +kernel
  have hplain : scaled.FirstOrder 4 {} := Program.runPlain_eq_run hends
  exact ⟨hnesting, hplain, evaluate_of_firstOrder scaled hnesting hplain⟩

/-! ## A function that gets itself -/

/-- A function that calls its argument with that argument, and its call with itself. -/
def selfApplied : Request :=
  ⟨[{ id := 1, name := some "f", input := "x(x)", params := ["x"] }, { id := 2, input := "f(f)" },
    { id := 3, input := "true" }]⟩

/-- What its first cell makes. -/
def selfCaller : Function Closure :=
  ⟨["x"], .mk ⟨1, 0⟩ ["x"] [(0, .call .call [.param "x", .param "x"])] (.var 0) [] [] [] {}, none⟩

/-- The program of these cells: the function, its call with itself, and a literal. -/
def isSelfApplied : Program Closure → Bool
  | [⟨1, some "f", .run [] (.lambda ["x"] [(0, .call .call [.param "x", .param "x"])] (.var 0) []) []⟩,
      ⟨2, none, .run [(1, .call .call [.cell 1, .cell 1])] (.var 1) [1]⟩,
      ⟨3, none, .run [] (.literal (.boolean true)) []⟩] => true
  | _ => false

theorem selfApplied_program : selfApplied.program =
    [⟨1, some "f", .run [] (.lambda ["x"] [(0, .call .call [.param "x", .param "x"])] (.var 0) []) []⟩,
      ⟨2, none, .run [(1, .call .call [.cell 1, .cell 1])] (.var 1) [1]⟩,
      ⟨3, none, .run [] (.literal (.boolean true)) []⟩] := by
  have h : isSelfApplied selfApplied.program := by decide +kernel
  unfold isSelfApplied at h
  split at h
  next heq => exact heq
  next => cases h

/-- Statements that call the function with itself are too deep if the call of its body is. -/
theorem run_selfCall {invoke : Closure → List (Value Closure) → Run (Value Closure)} {frame : Frame}
    {c result : Code Closure} {n : Nat} {i : Identity}
    (hc : frame.eval invoke c = pure (.function selfCaller))
    (h : invoke selfCaller.body [.function selfCaller] i = .error .tooDeep) :
    frame.run invoke [(n, .call .call [c, c])] result i = .error .tooDeep := by
  have hcall : Value.call invoke (.function selfCaller) [.function selfCaller] i = .error .tooDeep := h
  unfold Frame.run Frame.exec
  simp only [Frame.eval, Frame.evalAll, hc, pure_bind, bind_assoc, Builtin.apply]
  show (Value.call invoke (.function selfCaller) [.function selfCaller] i >>= _) = _
  rw [hcall]
  rfl

theorem invoke_selfCaller (depth : Nat) (i : Identity) :
    Closure.invoke depth selfCaller.body [.function selfCaller] i = .error .tooDeep := by
  induction depth with
  | zero => rfl
  | succ depth ih => exact run_selfCall rfl ih

theorem run_selfApplied (depth : Nat) : selfApplied.program.run depth {} = none := by
  rw [selfApplied_program]
  let c : CellCode Closure := ⟨1, some "f",
    .run [] (.lambda ["x"] [(0, .call .call [.param "x", .param "x"])] (.var 0) []) []⟩
  let m : Machine := Machine.start.finish c (.ok (.function selfCaller)) ⟨1, 1⟩
  have hfirst : Machine.start.runCell depth {} c = some (.ok (.function selfCaller), ⟨1, 1⟩) := rfl
  have hcall : Frame.run (Closure.invoke depth) ⟨[], [], m.visible [1], {}⟩
      [(1, .call .call [.cell 1, .cell 1])] (.var 1) ⟨2, 0⟩ = .error .tooDeep :=
    run_selfCall rfl (invoke_selfCaller depth ⟨2, 0⟩)
  have hsecond : m.runCell depth {} ⟨2, none, .run [(1, .call .call [.cell 1, .cell 1])] (.var 1) [1]⟩ =
      none := by
    unfold Machine.runCell
    dsimp only [StateT.run]
    rw [show m.nextIdentity 2 = ⟨2, 0⟩ from rfl, hcall]
  unfold Program.run Machine.runFrom
  rw [hfirst]
  dsimp only
  unfold Machine.runFrom
  rw [hsecond]
  rfl

/-- **No depth is enough** for a function that calls itself. -/
theorem evaluate_selfApplied :
    ¬ ∃ bound, ∀ depth, bound ≤ depth → ∃ a, selfApplied.evaluate depth {} = some a := by
  rintro ⟨depth, h⟩
  obtain ⟨a, ha⟩ := h depth (Nat.le_refl _)
  exact Option.some_ne_none a (ha.symm.trans ((evaluate_eq_none_iff selfApplied).mpr (run_selfApplied depth)))

end Request

end Cellbook
