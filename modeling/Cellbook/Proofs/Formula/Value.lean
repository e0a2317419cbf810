import Cellbook.Emission.OfFormula
import Cellbook.Machine.Frame

/-!
# The value of a formula

What a formula evaluates to, said without code: by recursion over the formula, its parts from left to
right. The names in it are parameters, which have values, and cells, which have values or have failed; both
are what they are in a frame, of which the variables are not read. How functions run is given as `invoke`.

**Choices.** A conditional tests its conditions in order up to the first one that holds and evaluates the
body that belongs to it and no other. Compiled, every arm that is tested makes a function of its body, and
one more of the arms behind it if there are any. No value shows these functions, but they take identities,
and the functions made later have the identities behind these. So a choice passes over as many.
-/

namespace Cellbook

/-- Passes over so many identities. -/
def Run.skipIdentities (count : Nat) : Run Unit :=
  modifyGet fun i => ((), { i with serial := i.serial + count })

/-- What a name means in a frame. -/
def Frame.valueOfName (frame : Frame) (s : Scope) (name : String) : Except EvalFault (Value Closure) :=
  if s.bound.contains name then
    match frame.bound.lookup name with
    | some v => .ok v
    | none => .error ⟨.unresolved name, []⟩
  else
    match s.cells.lookup name with
    | some id => frame.readCell id
    | none => .error ⟨.unresolved name, []⟩

namespace Formula

/-! ## Formulas without signatures -/

mutual

/-- Whether a formula makes no function: no entry in it has a signature. -/
def plain : Formula → Bool
  | .literal _ _ | .identifier _ _ => true
  | .binary _ _ left right => plain left && plain right
  | .unary _ _ operand => plain operand
  | .map _ entries => plainEntries entries
  | .block _ parts => plainAll parts
  | .array _ elements _ => plainAll elements
  | .range _ first last => plainEnd first && plainEnd last
  | .index _ target key => plain target && plain key
  | .call _ callee args => plain callee && plainAll args
  | .conditional _ clauses => plainClauses clauses
  | .member _ object _ => plain object

def plainAll : List Formula → Bool
  | [] => true
  | f :: fs => plain f && plainAll fs

def plainEnd : Option Formula → Bool
  | none => true
  | some f => plain f

def plainEntries : List Entry → Bool
  | [] => true
  | .mk (.name _) value _ :: entries => plain value && plainEntries entries
  | .mk (.computed key) value _ :: entries => plain key && plain value && plainEntries entries
  | .mk (.signature _ _ _ _) _ _ :: _ => false

def plainClauses : List Clause → Bool
  | [] => true
  | .mk condition body :: clauses => plainEnd condition && plain body && plainClauses clauses

end

/-! ## Direct evaluation -/

section Value

variable (invoke : Closure → List (Value Closure) → Run (Value Closure)) (frame : Frame) (s : Scope)

/-- The stream that a range makes with the elements before and after it, both ends included. -/
def generated (before after : List (Value Closure)) : Run (Value Closure) :=
  Builtin.generate.apply invoke frame.settings [.stream before, .stream after, .boolean true]

mutual

/-- **The value of a formula.** -/
def value : Formula → Run (Value Closure)
  | .literal _ v => return v.toValue
  | .identifier _ name => frame.valueOfName s name
  | .binary _ op left right => do
    let x ← value left
    let y ← value right
    Value.binary frame.settings op x y
  | .unary _ op operand => do
    let x ← value operand
    Value.unary op x
  | .map _ entries => return (← valueEntries .empty entries).toValue
  | .block _ parts => valueLast parts
  | .array _ elements none => return .stream (← valueAll elements)
  | .array _ elements (some _) => do
    let (before, after) ← valueAround elements
    generated invoke frame before after
  | .range _ first last => do
    let before ← valueEnd first
    let after ← valueEnd last
    generated invoke frame before after
  | .index _ target key => do
    let target ← value target
    let key ← value key
    Value.index invoke target key
  | .call _ callee args => do
    let callee ← value callee
    let args ← valueAll args
    Value.call invoke callee args
  | .conditional _ clauses => valueChosen clauses
  | .member _ object attr => do
    let object ← value object
    Value.member object attr

/-- The values of formulas in order. -/
def valueAll : List Formula → Run (List (Value Closure))
  | [] => return []
  | f :: fs => do
    let v ← value f
    return v :: (← valueAll fs)

/-- The value of the last one of some formulas, all of which are evaluated. -/
def valueLast : List Formula → Run (Value Closure)
  | [] => return .none
  | [f] => value f
  | f :: fs => do
    let _ ← value f
    valueLast fs

/-- The value of an end of a range, if it is there. -/
def valueEnd : Option Formula → Run (List (Value Closure))
  | none => return []
  | some f => return [← value f]

/-- The values of elements up to the first end of the range among them, and from its last end on. -/
def valueAround : List Formula → Run (List (Value Closure) × List (Value Closure))
  | [] => return ([], [])
  | .range _ first last :: fs => do
    let before ← valueEnd first
    let after ← valueEnd last
    return (before, after ++ (← valueAll fs))
  | f :: fs => do
    let v ← value f
    let (before, after) ← valueAround fs
    return (v :: before, after)

/-- The object with the values of entries inserted in order. Those with a signature are no values. -/
def valueEntries (object : Object Closure) : List Entry → Run (Object Closure)
  | [] => return object
  | .mk (.name key) value' _ :: entries => do
    let v ← value value'
    valueEntries (object.insert (.text key) v) entries
  | .mk (.computed key) value' _ :: entries => do
    let k ← value key
    let v ← value value'
    valueEntries (object.insert k v) entries
  | .mk (.signature _ _ _ _) _ _ :: entries => valueEntries object entries

/-- The value of the body of the first clause whose condition holds; none if there is no such clause. -/
def valueChosen : List Clause → Run (Value Closure)
  | [] => return .none
  | .mk none body :: _ => value body
  | .mk (some condition) body :: clauses => do
    let v ← value condition
    Run.skipIdentities (if clauses.isEmpty then 1 else 2)
    if v.truthy then value body else valueChosen clauses

end

end Value

end Formula

end Cellbook
