import Cellbook.Machine.Basic
import Cellbook.Proofs.Value.Calls

/-!
# The watched machine

There are things that a machine can do and that compiled code never makes it do: read a variable, a
parameter or a cell that is not there, run the body of a function with the wrong number of arguments, or
call a built-in function with arguments that it refuses (`Alarm`). The machine meets them with a fault, and
some of these faults are also those of code that is in order, so that a fault does not tell whether it
happened.

The watched machine does in each of these places whatever it is told to, `trip`, and everything else as the
machine does it. Told to fail as the machine fails, it is the machine (`Program.watchedRun_halt`). A program
that runs the same whatever it is told has done none of these things.
-/

namespace Cellbook

/-- **What compiled code never does.** -/
inductive Alarm where
  | unboundVariable (n : Nat)
  | unboundParameter (name : String)
  | missingCell (id : Nat)
  /-- The body of a function runs with a number of arguments that is not that of its parameters. -/
  | closureArguments (expected got : Nat)
  /-- A built-in function refuses its arguments for their number or for their kinds. -/
  | refusal (fault : EvalFault)

/-- How the machine ends there. -/
def Alarm.halt : Alarm → Halt
  | .unboundVariable n => .fault ⟨.unboundVariable n, []⟩
  | .unboundParameter name => .fault ⟨.unresolved name, []⟩
  | .missingCell id => .fault ⟨.unresolved s!"#{id}", []⟩
  | .closureArguments expected got => .fault ⟨.argumentCount "function" expected got, []⟩
  | .refusal fault => .fault fault

/-! ## Refused arguments -/

namespace Builtin

variable {φ : Type}

/-- The fault of an argument that has not that kind. -/
def expect (b : Builtin) (kind : Kind) (v : Value φ) : Option EvalFault :=
  if v.kind = kind then none else some (b.refuse kind.name v)

/-- The fault of a branch that is neither none nor a function. -/
def expectBranch (v : Value φ) : Option EvalFault :=
  if v.kind = .none then none else expect .cond .function v

/-- The fault of an argument that has not the kind that it must have by the form of the code. Of a condition,
only the branch that is taken must have one. -/
def wrongKind? (b : Builtin) (args : List (Value φ)) : Option EvalFault :=
  match b, args with
  | .stream, [v] => expect .stream .stream v
  | .insert, [object, _, _] => expect .insert .object object
  | .define, [object, f] => (expect .define .object object).or (expect .define .function f)
  | .guard, [f, g] => (expect .guard .function f).or (expect .guard .function g)
  | .attr, [_, name] => expect .attr .text name
  | .cond, [condition, whenTrue] => if condition.truthy then expectBranch whenTrue else none
  | .cond, [condition, whenTrue, whenFalse] =>
    expectBranch (if condition.truthy then whenTrue else whenFalse)
  | .unresolved, [name] => expect .unresolved .text name
  | _, _ => none

/-- **The fault with which a built-in function refuses arguments**: there are too many or too few, or one of
them has the wrong kind. -/
def refusal? (b : Builtin) (args : List (Value φ)) : Option EvalFault :=
  if b.takes args.length then b.wrongKind? args
  else some ⟨.argumentCount b.name b.argumentCount args.length, []⟩

theorem expect_eq_some_iff {b : Builtin} {kind : Kind} {v : Value φ} {fault : EvalFault} :
    b.expect kind v = some fault ↔ v.kind ≠ kind ∧ b.refuse kind.name v = fault := by
  unfold expect
  split <;> simp_all

theorem branch_of_expectBranch {invoke : φ → List (Value φ) → Run (Value φ)} {v : Value φ}
    {fault : EvalFault} (h : expectBranch v = some fault) :
    branch invoke (some v) = throw (.fault fault) := by
  unfold expectBranch at h
  split at h
  next => cases h
  next hnone =>
    obtain ⟨hkind, rfl⟩ := expect_eq_some_iff.mp h
    cases v with
    | none => exact absurd rfl hnone
    | function f => exact absurd rfl hkind
    | _ => rfl

section Apply

variable [BEq φ] {invoke : φ → List (Value φ) → Run (Value φ)} (settings : Settings) {b : Builtin}
  {args : List (Value φ)} {fault : EvalFault}

theorem apply_of_wrongKind (h : b.wrongKind? args = some fault) :
    b.apply invoke settings args = throw (.fault fault) := by
  unfold wrongKind? at h
  split at h
  next v =>
    obtain ⟨hkind, rfl⟩ := expect_eq_some_iff.mp h
    cases v with
    | stream items => exact absurd rfl hkind
    | _ => rfl
  next object _ _ =>
    obtain ⟨hkind, rfl⟩ := expect_eq_some_iff.mp h
    cases object with
    | object entries methods => exact absurd rfl hkind
    | _ => rfl
  next object f =>
    -- the second argument is looked at only if the first one is an object
    rcases Option.or_eq_some_iff.mp h with hobject | ⟨hobject, hf⟩
    · obtain ⟨hkind, rfl⟩ := expect_eq_some_iff.mp hobject
      cases object with
      | object entries methods => exact absurd rfl hkind
      | _ => rfl
    · obtain ⟨hkind, rfl⟩ := expect_eq_some_iff.mp hf
      cases object with
      | object entries methods =>
        cases f with
        | function f => exact absurd rfl hkind
        | _ => rfl
      | _ => cases hobject
  next f g =>
    rcases Option.or_eq_some_iff.mp h with hf | ⟨hf, hg⟩
    · obtain ⟨hkind, rfl⟩ := expect_eq_some_iff.mp hf
      cases f with
      | function f => exact absurd rfl hkind
      | _ => rfl
    · obtain ⟨hkind, rfl⟩ := expect_eq_some_iff.mp hg
      cases f with
      | function f =>
        cases g with
        | function g => exact absurd rfl hkind
        | _ => rfl
      | _ => cases hf
  next name =>
    obtain ⟨hkind, rfl⟩ := expect_eq_some_iff.mp h
    cases name with
    | text name => exact absurd rfl hkind
    | _ => rfl
  next condition whenTrue =>
    split at h
    next htrue =>
      rw [apply, if_pos htrue]
      exact branch_of_expectBranch h
    next => cases h
  next => exact branch_of_expectBranch h
  next name =>
    obtain ⟨hkind, rfl⟩ := expect_eq_some_iff.mp h
    cases name with
    | text name => exact absurd rfl hkind
    | _ => rfl
  next => cases h

/-- What is refused fails with that fault. -/
theorem apply_of_refusal (h : b.refusal? args = some fault) :
    b.apply invoke settings args = throw (.fault fault) := by
  unfold refusal? at h
  split at h
  next => exact apply_of_wrongKind settings h
  next htakes =>
    obtain rfl := Option.some.inj h
    exact apply_of_not_takes settings b (eq_false_of_ne_true htakes)

end Apply

end Builtin

/-! ## The machine -/

/-- The frame in which a cell with these reads runs. -/
abbrev Machine.frame (m : Machine) (reads : List Nat) (settings : Settings) : Frame :=
  ⟨[], [], m.visible reads, settings⟩

namespace Watched

variable (trip : Alarm → Halt)

/-- A built-in function that trips where it refuses its arguments. -/
def apply {φ : Type} [BEq φ] (invoke : φ → List (Value φ) → Run (Value φ)) (settings : Settings)
    (b : Builtin) (args : List (Value φ)) : Run (Value φ) :=
  match b.refusal? args with
  | some fault => throw (trip (.refusal fault))
  | none => b.apply invoke settings args

section Invoke

variable (invoke : Closure → List (Value Closure) → Run (Value Closure))

mutual

/-- Evaluates code, and trips where it reads what is not there. -/
def eval (frame : Frame) : Code Closure → Run (Value Closure)
  | .var n =>
    match frame.vars.lookup n with
    | some v => return v
    | none => throw (trip (.unboundVariable n))
  | .param name =>
    match frame.bound.lookup name with
    | some v => return v
    | none => throw (trip (.unboundParameter name))
  | .cell id =>
    match frame.cells.lookup id with
    | some _ => frame.readCell id
    | none => throw (trip (.missingCell id))
  | .literal v => return v
  | .array items => return .stream (← evalAll frame items)
  | .call builtin args => do apply trip invoke frame.settings builtin (← evalAll frame args)
  | .member object attr => do Value.member (← eval frame object) attr
  | .lambda params body result captures => do
    return .function (frame.close (← Run.newIdentity) params body result captures)

def evalAll (frame : Frame) : List (Code Closure) → Run (List (Value Closure))
  | [] => return []
  | c :: cs => do return (← eval frame c) :: (← evalAll frame cs)

end

def exec (frame : Frame) : Statements Closure → Run Frame
  | [] => return frame
  | (n, c) :: rest => do
    let v ← eval trip invoke frame c
    exec { frame with vars := (n, v) :: frame.vars } rest

def run (frame : Frame) (body : Statements Closure) (result : Code Closure) : Run (Value Closure) := do
  eval trip invoke (← exec trip invoke frame body) result

end Invoke

/-- Calls a closure, and trips if the number of arguments is wrong. -/
def invoke : (depth : Nat) → Closure → List (Value Closure) → Run (Value Closure)
  | 0, _, _ => throw .tooDeep
  | depth + 1, closure, args =>
    match closure with
    | .mk _ params body result _ _ _ _ =>
      if args.length ≠ params.length then throw (trip (.closureArguments params.length args.length))
      else run trip (invoke depth) (closure.frame args) body result

def runCell (depth : Nat) (settings : Settings) (m : Machine) (c : CellCode Closure) :
    Option (Except Diagnostic (Value Closure) × Identity) :=
  let first := m.nextIdentity c.id
  match c.task with
  | .report d => some (.error d, first)
  | .skip => some (.ok .none, first)
  | .run body result reads =>
    match (run trip (invoke trip depth) (m.frame reads settings) body result).run first with
    | .ok (v, next) => some (.ok v, next)
    | .error (.fault f) => some (.error f.report, first)
    | .error .tooDeep => none

def runFrom (depth : Nat) (settings : Settings) (m : Machine) :
    Program Closure → Option (List Outcome)
  | [] => some []
  | c :: cs =>
    match runCell trip depth settings m c with
    | none => none
    | some (result, next) =>
      (runFrom depth settings (m.finish c result next) cs).map (⟨c.id, c.name, result⟩ :: ·)

end Watched

/-- **Runs a program on the watched machine**, which ends an evaluation by `trip` in the places that code
should never come to. -/
def Program.watchedRun (trip : Alarm → Halt) (p : Program Closure) (depth : Nat) (settings : Settings) :
    Option (List Outcome) :=
  Watched.runFrom trip depth settings .start p

/-! ## A machine told to fail as the machine fails -/

namespace Watched

theorem apply_halt {φ : Type} [BEq φ] (invoke : φ → List (Value φ) → Run (Value φ))
    (settings : Settings) (b : Builtin) (args : List (Value φ)) :
    apply Alarm.halt invoke settings b args = b.apply invoke settings args := by
  unfold apply
  split
  next fault h => exact (Builtin.apply_of_refusal settings h).symm
  next => rfl

section Invoke

variable (invoke : Closure → List (Value Closure) → Run (Value Closure)) (frame : Frame)

mutual

theorem eval_halt : (c : Code Closure) → eval Alarm.halt invoke frame c = frame.eval invoke c
  | .var n => rfl
  | .param name => rfl
  | .cell id => by
    unfold eval Frame.eval Frame.readCell
    cases frame.cells.lookup id <;> rfl
  | .literal v => rfl
  | .array items => by rw [eval, Frame.eval, evalAll_halt items]
  | .call builtin args => by
    rw [eval, Frame.eval, evalAll_halt args]
    simp only [apply_halt]
  | .member object attr => by rw [eval, Frame.eval, eval_halt object]
  | .lambda params body result captures => rfl

theorem evalAll_halt : (cs : List (Code Closure)) →
    evalAll Alarm.halt invoke frame cs = frame.evalAll invoke cs
  | [] => rfl
  | c :: cs => by rw [evalAll, Frame.evalAll, eval_halt c, evalAll_halt cs]

end

theorem exec_halt (body : Statements Closure) : exec Alarm.halt invoke frame body = frame.exec invoke body := by
  induction body generalizing frame with
  | nil => rfl
  | cons statement body ih =>
    rw [exec, Frame.exec, eval_halt]
    simp only [ih]

theorem run_halt (body : Statements Closure) (result : Code Closure) :
    run Alarm.halt invoke frame body result = frame.run invoke body result := by
  simp only [run, Frame.run, exec_halt, eval_halt]

end Invoke

theorem invoke_halt (depth : Nat) : invoke Alarm.halt depth = Closure.invoke depth := by
  induction depth with
  | zero => rfl
  | succ depth ih =>
    funext closure args
    obtain ⟨_, params, body, result, _, _, _, _⟩ := closure
    rw [invoke, Closure.invoke, ih, run_halt]
    rfl

/-- A cell runs alike on both machines if its code does. -/
theorem runCell_eq {trip : Alarm → Halt} {depth : Nat} {settings : Settings} {m : Machine}
    {c : CellCode Closure}
    (h : ∀ body result reads, c.task = .run body result reads →
      run trip (invoke trip depth) (m.frame reads settings) body result (m.nextIdentity c.id) =
        (m.frame reads settings).run (Closure.invoke depth) body result (m.nextIdentity c.id)) :
    runCell trip depth settings m c = m.runCell depth settings c := by
  unfold runCell Machine.runCell
  cases htask : c.task with
  | report d => rfl
  | skip => rfl
  | run body result reads =>
    have hsame := h body result reads htask
    dsimp only [StateT.run] at hsame ⊢
    generalize run _ _ _ _ _ _ = e at hsame ⊢
    subst hsame
    rfl

theorem runFrom_halt (depth : Nat) (settings : Settings) (m : Machine) (p : Program Closure) :
    runFrom Alarm.halt depth settings m p = m.runFrom depth settings p := by
  induction p generalizing m with
  | nil => rfl
  | cons c p ih =>
    have hcell : runCell Alarm.halt depth settings m c = m.runCell depth settings c :=
      runCell_eq fun body result reads _ => by rw [invoke_halt, run_halt]
    rw [runFrom, Machine.runFrom, hcell]
    cases m.runCell depth settings c with
    | none => rfl
    | some e => exact congrArg (Option.map _) (ih _)

end Watched

/-- **The watched machine is the machine**, if it fails where the machine fails. -/
theorem Program.watchedRun_halt (p : Program Closure) (depth : Nat) (settings : Settings) :
    p.watchedRun Alarm.halt depth settings = p.run depth settings :=
  Watched.runFrom_halt depth settings .start p

/-- Code that reads a variable before it is set. -/
example : Program.watchedRun (fun _ => .tooDeep) [⟨1, none, .run [] (.var 0) []⟩] 1 {} = none := rfl

end Cellbook
