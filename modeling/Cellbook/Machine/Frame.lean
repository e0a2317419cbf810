import Cellbook.Machine.Closure

/-!
# Running code

Code runs in a frame, which holds the variables set so far, the parameters in scope and the cells
that are visible. Making a function only stores the frame; calling it runs its body in a frame of its
own. Calls may be nested as deep as `depth` says, and a run that would go deeper stops as too deep.
Since nothing but calls can go on for ever, a run ends whatever the code is.
-/

namespace Cellbook

/-- Where code runs: what each name in it means. Of two meanings the first one counts. -/
structure Frame where
  vars : List (Nat × Value Closure)
  bound : List (String × Value Closure)
  cells : List (Nat × Slot Closure)
  settings : Settings

namespace Frame

/-- The value of a visible cell. Reading a failed cell is a fault that names it. -/
def readCell (frame : Frame) (id : Nat) : Except EvalFault (Value Closure) :=
  match frame.cells.lookup id with
  | some ⟨_, .ok v⟩ => .ok v
  | some ⟨label, .error d⟩ => .error ⟨.unresolved label, [.cellFailed label d.toText]⟩
  | none => .error ⟨.unresolved s!"#{id}", []⟩

/-- The function that a lambda makes in a frame. -/
def close (frame : Frame) (identity : Identity) (params : List String)
    (body : Statements Closure) (result : Code Closure) (captures : List Nat) : Function Closure :=
  let vars := captures.filterMap fun n => (frame.vars.lookup n).map (n, ·)
  ⟨params, .mk identity params body result vars frame.bound frame.cells frame.settings, none⟩

section Invoke

variable (invoke : Closure → List (Value Closure) → Run (Value Closure))

mutual

/-- The value of code in a frame. -/
def eval (frame : Frame) : Code Closure → Run (Value Closure)
  | .var n =>
    match frame.vars.lookup n with
    | some v => return v
    | none => .fail (.unboundVariable n)
  | .param name =>
    match frame.bound.lookup name with
    | some v => return v
    | none => .fail (.unresolved name)
  | .cell id => frame.readCell id
  | .literal v => return v
  | .array items => return .stream (← evalAll frame items)
  | .call builtin args => do builtin.apply invoke frame.settings (← evalAll frame args)
  | .member object attr => do Value.member (← eval frame object) attr
  | .lambda params body result captures => do
    return .function (frame.close (← Run.newIdentity) params body result captures)

def evalAll (frame : Frame) : List (Code Closure) → Run (List (Value Closure))
  | [] => return []
  | c :: cs => do return (← eval frame c) :: (← evalAll frame cs)

end

/-- The frame in which the statements have set their variables. -/
def exec (frame : Frame) : Statements Closure → Run Frame
  | [] => return frame
  | (n, c) :: rest => do
    let v ← frame.eval invoke c
    exec { frame with vars := (n, v) :: frame.vars } rest

/-- Runs statements and then a result. -/
def run (frame : Frame) (body : Statements Closure) (result : Code Closure) :
    Run (Value Closure) := do
  (← frame.exec invoke body).eval invoke result

end Invoke

end Frame

namespace Closure

/-- The frame in which a closure runs with arguments. An argument hides what its parameter meant
where the function was made, and of two parameters with one name the last one counts. -/
def frame : Closure → List (Value Closure) → Frame
  | .mk _ params _ _ vars bound cells settings, args =>
    ⟨vars, (params.zip args).reverse ++ bound, cells, settings⟩

/-- **Calls a closure**, with calls inside it nested no deeper than `depth`. -/
def invoke : (depth : Nat) → Closure → List (Value Closure) → Run (Value Closure)
  | 0, _, _ => throw .tooDeep
  | depth + 1, closure, args =>
    match closure with
    | .mk _ params body result _ _ _ _ =>
      if args.length ≠ params.length then
        .fail (.argumentCount "function" params.length args.length)
      else (closure.frame args).run (invoke depth) body result

end Closure

end Cellbook
