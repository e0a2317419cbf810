import Cellbook.Machine.Frame

/-!
# Running a program

The cells of a program run one after the other. Each sees only the cells that it reads, and only
those that ran before it. A fault ends the run of its cell and of no other: the next cell runs, and
reads from the failed one that it failed. Only if calls are nested deeper than allowed the program as
a whole has no outcome.
-/

namespace Cellbook

/-- The end of a cell: a value or what is to be reported. -/
structure Outcome where
  id : Nat
  name : Option String
  result : Except Diagnostic (Value Closure)

/-- What a machine keeps of the cells that have run: what they left, and how many functions their runs
have made. -/
structure Machine where
  slots : List (Nat × Slot Closure)
  made : List (Nat × Nat)

namespace Machine

def start : Machine := ⟨[], []⟩

/-- The part of the slots that a cell with these reads sees. -/
def visible (m : Machine) (reads : List Nat) : List (Nat × Slot Closure) :=
  reads.filterMap fun id => (m.slots.lookup id).map (id, ·)

/-- The first identity that a run of this cell hands out: a cell that has run before goes on from
where it was. -/
def nextIdentity (m : Machine) (id : Nat) : Identity := ⟨id, (m.made.lookup id).getD 0⟩

/-- The machine after a cell has ended. -/
def finish {φ : Type} (m : Machine) (c : CellCode φ) (result : Except Diagnostic (Value Closure))
    (next : Identity) : Machine :=
  ⟨(c.id, ⟨c.label, result⟩) :: m.slots, (c.id, next.serial) :: m.made⟩

/-- Runs a cell: what it ends with and the identity after the last that it took, or nothing if calls
were nested too deep. -/
def runCell (depth : Nat) (settings : Settings) (m : Machine) (c : CellCode Closure) :
    Option (Except Diagnostic (Value Closure) × Identity) :=
  let first := m.nextIdentity c.id
  match c.task with
  | .report d => some (.error d, first)
  | .skip => some (.ok .none, first)
  | .run body result reads =>
    let frame : Frame := ⟨[], [], m.visible reads, settings⟩
    match (frame.run (Closure.invoke depth) body result).run first with
    | .ok (v, next) => some (.ok v, next)
    | .error (.fault f) => some (.error f.report, first)
    | .error .tooDeep => none

/-- Runs cells in order, from a machine on. -/
def runFrom (depth : Nat) (settings : Settings) (m : Machine) :
    Program Closure → Option (List Outcome)
  | [] => some []
  | c :: cs =>
    match m.runCell depth settings c with
    | none => none
    | some (result, next) =>
      (runFrom depth settings (m.finish c result next) cs).map (⟨c.id, c.name, result⟩ :: ·)

end Machine

/-- **Runs a program**: the outcome of each cell in order, or nothing if function calls were nested
deeper than `depth`. -/
def Program.run (p : Program Closure) (depth : Nat) (settings : Settings) :
    Option (List Outcome) :=
  Machine.start.runFrom depth settings p

end Cellbook
