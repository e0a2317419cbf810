import Cellbook.Machine.Basic
import Cellbook.Proofs.Value.Calls

/-!
# More depth changes nothing

How deep calls may be nested decides only whether a run ends. What ends at some depth ends in the same way
at every greater one: a call (`Closure.invoke_mono`), the run of some code in a frame (`Frame.run_mono`), and
a whole program (`Program.run_mono`).
-/

namespace Cellbook

open Run

namespace Frame

variable {invoke invoke' : Closure → List (Value Closure) → Run (Value Closure)}

/-- Calls refine each other with equality as the relation if they do so for equal arguments. -/
theorem invokeRefines_of_refines (h : ∀ c args, Refines Eq (invoke c args) (invoke' c args)) :
    InvokeRefines Eq invoke invoke' := by
  rintro c _ args args' rfl hargs
  rw [hargs.eq]
  exact (h c args').mono fun _ _ => Value.related_eq_iff.mpr

mutual

theorem eval_mono (h : ∀ c args, Refines Eq (invoke c args) (invoke' c args)) (frame : Frame) :
    (code : Code Closure) → Refines Eq (frame.eval invoke code) (frame.eval invoke' code)
  | .var _ => .refl
  | .param _ => .refl
  | .cell _ => .refl
  | .literal _ => .refl
  | .array items => (evalAll_mono h frame items).bind fun _ _ hs => hs ▸ .refl
  | .call builtin args => (evalAll_mono h frame args).bind fun vs _ hs => hs ▸
      (Builtin.apply_refines keepsEquality_eq (invokeRefines_of_refines h) frame.settings builtin
        (Value.ItemsRelated.rfl vs)).mono fun _ _ => Value.Related.eq
  | .member object _ => (eval_mono h frame object).bind fun _ _ hv => hv ▸ .refl
  | .lambda _ _ _ _ => .refl

theorem evalAll_mono (h : ∀ c args, Refines Eq (invoke c args) (invoke' c args)) (frame : Frame) :
    (codes : List (Code Closure)) →
      Refines Eq (frame.evalAll invoke codes) (frame.evalAll invoke' codes)
  | [] => .refl
  | c :: cs => (eval_mono h frame c).bind fun _ _ hv => hv ▸
      (evalAll_mono h frame cs).bind fun _ _ hs => hs ▸ .refl

end

theorem exec_mono (h : ∀ c args, Refines Eq (invoke c args) (invoke' c args)) (frame : Frame)
    (body : Statements Closure) : Refines Eq (frame.exec invoke body) (frame.exec invoke' body) := by
  induction body generalizing frame with
  | nil => exact .refl
  | cons statement body ih => exact (eval_mono h frame _).bind fun v _ hv => hv ▸ ih _

theorem run_refines (h : ∀ c args, Refines Eq (invoke c args) (invoke' c args)) (frame : Frame)
    (body : Statements Closure) (result : Code Closure) :
    Refines Eq (frame.run invoke body result) (frame.run invoke' body result) :=
  (exec_mono h frame body).bind fun _ _ hf => hf ▸ eval_mono h _ result

end Frame

/-- **A call that ends at some depth** ends in the same way at every greater one. -/
theorem Closure.invoke_mono {depth depth' : Nat} (h : depth ≤ depth') (c : Closure)
    (args : List (Value Closure)) : Refines Eq (invoke depth c args) (invoke depth' c args) := by
  induction depth generalizing depth' c args with
  | zero => exact .tooDeep _
  | succ depth ih =>
    obtain ⟨depth', rfl⟩ : ∃ n, depth' = n + 1 := ⟨depth' - 1, by omega⟩
    obtain ⟨_, params, body, result, _, _, _, _⟩ := c
    unfold invoke
    dsimp only
    split
    · exact .refl
    · exact Frame.run_refines (fun c args => ih (by omega) c args) _ body result

theorem Frame.run_mono {depth depth' : Nat} (h : depth ≤ depth') (frame : Frame)
    (body : Statements Closure) (result : Code Closure) :
    Refines Eq (frame.run (Closure.invoke depth) body result)
      (frame.run (Closure.invoke depth') body result) :=
  run_refines (fun c args => Closure.invoke_mono h c args) frame body result

/-! ## Programs -/

namespace Machine

/-- Runs a cell with calls made by `invoke`. -/
def runCellBy (invoke : Closure → List (Value Closure) → Run (Value Closure)) (settings : Settings)
    (m : Machine) (c : CellCode Closure) : Option (Except Diagnostic (Value Closure) × Identity) :=
  let first := m.nextIdentity c.id
  match c.task with
  | .report d => some (.error d, first)
  | .skip => some (.ok .none, first)
  | .run body result reads =>
    let frame : Frame := ⟨[], [], m.visible reads, settings⟩
    match (frame.run invoke body result).run first with
    | .ok (v, next) => some (.ok v, next)
    | .error (.fault f) => some (.error f.report, first)
    | .error .tooDeep => none

/-- Runs cells in order, from a machine on, with calls made by `invoke`. -/
def runFromBy (invoke : Closure → List (Value Closure) → Run (Value Closure)) (settings : Settings)
    (m : Machine) : Program Closure → Option (List Outcome)
  | [] => some []
  | c :: cs =>
    match m.runCellBy invoke settings c with
    | none => none
    | some (result, next) =>
      (runFromBy invoke settings (m.finish c result next) cs).map (⟨c.id, c.name, result⟩ :: ·)

/-- The machine makes calls that may be nested as deep as it is told. -/
theorem runFromBy_invoke (depth : Nat) (settings : Settings) (m : Machine) (p : Program Closure) :
    m.runFromBy (Closure.invoke depth) settings p = m.runFrom depth settings p := by
  induction p generalizing m with
  | nil => rfl
  | cons c p ih =>
    have hcell : m.runCellBy (Closure.invoke depth) settings c = m.runCell depth settings c := rfl
    rw [runFromBy, runFrom, hcell]
    cases m.runCell depth settings c with
    | none => rfl
    | some e => exact congrArg (Option.map _) (ih _)

section Refined

variable {invoke invoke' : Closure → List (Value Closure) → Run (Value Closure)}
  (h : ∀ c args, Refines Eq (invoke c args) (invoke' c args)) (settings : Settings)

include h

theorem runCellBy_refines (m : Machine) (c : CellCode Closure)
    {end' : Except Diagnostic (Value Closure) × Identity}
    (hrun : m.runCellBy invoke settings c = some end') : m.runCellBy invoke' settings c = some end' := by
  unfold runCellBy at hrun ⊢
  cases htask : c.task with
  | report d => simpa only [htask] using hrun
  | skip => simpa only [htask] using hrun
  | run body result reads =>
    simp only [htask] at hrun ⊢
    have hends := Frame.run_refines h ⟨[], [], m.visible reads, settings⟩ body result
      (m.nextIdentity c.id)
    simp only [StateT.run] at hrun ⊢
    generalize Frame.run invoke _ _ _ _ = e at hrun hends
    generalize Frame.run invoke' _ _ _ _ = e' at hends ⊢
    cases hends with
    | tooDeep e => cases hrun
    | fault f => exact hrun
    | value i hab => exact hab ▸ hrun

theorem runFromBy_refines (m : Machine) (p : Program Closure) {outcomes : List Outcome}
    (hrun : m.runFromBy invoke settings p = some outcomes) :
    m.runFromBy invoke' settings p = some outcomes := by
  induction p generalizing m outcomes with
  | nil => exact hrun
  | cons c p ih =>
    unfold runFromBy at hrun ⊢
    cases hcell : m.runCellBy invoke settings c with
    | none => rw [hcell] at hrun; cases hrun
    | some e =>
      rw [hcell] at hrun
      rw [runCellBy_refines h settings m c hcell]
      obtain ⟨rest, hrest, rfl⟩ := Option.map_eq_some_iff.mp hrun
      exact Option.map_eq_some_iff.mpr ⟨rest, ih _ hrest, rfl⟩

end Refined

end Machine

/-- **A program that ends at some depth** has the same outcomes at every greater one. -/
theorem Program.run_mono {depth depth' : Nat} (h : depth ≤ depth') (settings : Settings)
    (p : Program Closure) {outcomes : List Outcome} (hrun : p.run depth settings = some outcomes) :
    p.run depth' settings = some outcomes := by
  unfold run at hrun ⊢
  rw [← Machine.runFromBy_invoke] at hrun ⊢
  exact Machine.runFromBy_refines (fun c args => Closure.invoke_mono h c args) settings _ p hrun

end Cellbook
