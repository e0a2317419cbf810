import Cellbook.Emission.Basic
import Cellbook.Formula.Basic

/-!
# The code of a formula

The parts of a formula are emitted from left to right, each followed by the call that takes them
together. Only three kinds of part are not emitted where they stand, since they run later or not at
all: the branches of a conditional, and the values and the guards of entries with a signature. These
become functions.
-/

namespace Cellbook

/-- What the names in a formula mean: those that are bound are parameters, others may be cells. -/
structure Scope where
  bound : List String
  cells : List (String × Nat)

namespace Scope

/-- The scope inside a signature. -/
def bind (s : Scope) (params : List String) : Scope := { s with bound := s.bound ++ params }

end Scope

namespace Formula

variable {κ : Type}

/-- Emits what a name means. -/
def emitName (t : Target κ) (s : Scope) (name : String) : Emit κ κ :=
  if s.bound.contains name then return t.param name
  else
    match s.cells.lookup name with
    | some id => return t.cell id
    | none => Emit.call t .unresolved [t.literal (.text name)]

/-- Emits a function without parameters. -/
def emitBranch (t : Target κ) (body : Emit κ κ) : Emit κ κ := do
  Emit.declare t (← Emit.lambda t [] body)

/-- Emits the numbers of a range with both ends included. -/
def emitRange (t : Target κ) (before after : List κ) : Emit κ κ :=
  Emit.call t .generate [t.array before, t.array after, t.literal (.boolean true)]

mutual

/-- **Emits a formula.** -/
def emit (t : Target κ) (s : Scope) : Formula → Emit κ κ
  | .literal _ v => return t.literal v
  | .identifier _ name => emitName t s name
  | .binary _ op left right => do
    let left ← emit t s left
    let right ← emit t s right
    Emit.call t (.binary op) [left, right]
  | .unary _ op operand => do
    let operand ← emit t s operand
    Emit.call t (.unary op) [operand]
  | .map _ entries => do
    let object ← Emit.call t .map []
    emitEntries t s object entries
  | .block _ parts => emitParts t s parts
  | .array _ elements none => do
    let elements ← emitAll t s elements
    Emit.call t .stream [t.array elements]
  | .array _ elements (some place) => do
    let (before, after) ← emitAround t s place elements
    emitRange t before after
  | .range _ first last => do
    let before ← emitEnd t s first
    let after ← emitEnd t s last
    emitRange t before after
  | .index _ target key => do
    let target ← emit t s target
    let key ← emit t s key
    Emit.call t .get [target, key]
  | .call _ callee args => do
    let callee ← emit t s callee
    let args ← emitAll t s args
    Emit.call t .call (callee :: args)
  | .conditional _ clauses => emitClauses t s clauses
  | .member _ object attr => do
    let object ← emit t s object
    Emit.declare t (t.member object attr)

/-- Emits formulas one after the other. -/
def emitAll (t : Target κ) (s : Scope) : List Formula → Emit κ (List κ)
  | [] => return []
  | f :: fs => do
    let code ← emit t s f
    return code :: (← emitAll t s fs)

/-- Emits the parts of a block, which has the value of the last one. -/
def emitParts (t : Target κ) (s : Scope) : List Formula → Emit κ κ
  | [] => return t.literal .none
  | [f] => emit t s f
  | f :: fs => do
    let _ ← emit t s f
    emitParts t s fs

/-- Emits an end of a range, if it is there. -/
def emitEnd (t : Target κ) (s : Scope) : Option Formula → Emit κ (List κ)
  | none => return []
  | some f => return [← emit t s f]

/-- Emits elements one of which, at `place`, is a range: those up to the first end of the range, and
those from the last end on. -/
def emitAround (t : Target κ) (s : Scope) (place : Nat) :
    List Formula → Emit κ (List κ × List κ)
  | [] => return ([], [])
  | f :: fs =>
    match place with
    | 0 =>
      match f with
      | .range _ first last => do
        let before ← emitEnd t s first
        let after ← emitEnd t s last
        return (before, after ++ (← emitAll t s fs))
      | _ => return ([], ← emitAll t s fs)
    | place + 1 => do
      let code ← emit t s f
      let (before, after) ← emitAround t s place fs
      return (code :: before, after)

/-- Emits the entries of a map, beginning with `object`. -/
def emitEntries (t : Target κ) (s : Scope) (object : κ) : List Entry → Emit κ κ
  | [] => return object
  | .mk (.name key) value _ :: entries => do
    let value ← emit t s value
    let object ← Emit.call t .insert [object, t.literal (.text key), value]
    emitEntries t s object entries
  | .mk (.computed key) value _ :: entries => do
    let key ← emit t s key
    let value ← emit t s value
    let object ← Emit.call t .insert [object, key, value]
    emitEntries t s object entries
  | .mk (.signature name params _ guard) value _ :: entries => do
    let method ← Emit.declare t (← Emit.lambda t params (emit t (s.bind params) value))
    let method ← emitGuard t (s.bind params) params method guard
    let object ←
      match name with
      | some name => Emit.call t .insert [object, t.literal (.text name), method]
      | none => Emit.call t .define [object, method]
    emitEntries t s object entries

/-- Emits the guard of a method, if it has one: the method with that guard. -/
def emitGuard (t : Target κ) (s : Scope) (params : List String) (method : κ) :
    Option Formula → Emit κ κ
  | none => return method
  | some f => do
    let guard ← Emit.declare t (← Emit.lambda t params (emit t s f))
    Emit.call t .guard [method, guard]

/-- Emits the clauses of a conditional: the later ones are in the branch that is taken if the
condition of the first one does not hold. -/
def emitClauses (t : Target κ) (s : Scope) : List Clause → Emit κ κ
  | [] => return t.literal .none
  | .mk none body :: _ => emit t s body
  | .mk (some condition) body :: clauses => do
    let condition ← emit t s condition
    let whenTrue ← emitBranch t (emit t s body)
    let whenFalse ←
      if clauses.isEmpty then pure (t.literal .none)
      else emitBranch t (emitClauses t s clauses)
    Emit.call t .cond [condition, whenTrue, whenFalse]

end

end Formula

end Cellbook
