import Cellbook.Run
import Cellbook.Value.Object

/-!
# Calls, members and indexing

What can be done with a value that involves functions. How the body of a function runs is given as
`invoke`. A function must get as many arguments as it has parameters, and its guard must accept
them; an object tries its methods in order and calls the first one that takes the arguments.
-/

namespace Cellbook.Value

variable {φ : Type}

/-! ## Members and elements -/

/-- The entry of an object under a text. -/
def member (target : Value φ) (name : String) : Except EvalFault (Value φ) :=
  match target with
  | .object entries methods =>
    match Object.field? ⟨entries, methods⟩ name with
    | some v => .ok v
    | none => .error ⟨.undefinedField name, []⟩
  | target => .error ⟨.undefinedField name, [.noFields target.kind]⟩

/-- The element at an index; a negative index counts from the end. -/
def elementAt {α : Type} (items : List α) (index : Int) : Except EvalFault α :=
  let position := if index < 0 then items.length + index else index
  match if position < 0 then none else items[position.toNat]? with
  | some item => .ok item
  | none => .error ⟨.indexOutOfRange index items.length, []⟩

/-- The integer that a number is as an index. -/
def toIndex (x : Decimal) : Except EvalFault Int :=
  match x.toInt64? with
  | some index => .ok index
  | none => .error ⟨.argumentKind "__get__" "integer" .number, []⟩

/-- The items whose mark is true. -/
def keepMarked {α : Type} (items : List α) (marks : List (Value φ)) : List α :=
  (items.zip marks).filterMap fun (item, mark) => if mark.truthy then some item else none

/-! ## Calls -/

section Calls

variable (invoke : φ → List (Value φ) → Run (Value φ))

/-- Whether a function takes these arguments: their count first, and then its guard. -/
def accepts (f : Function φ) (args : List (Value φ)) : Run Bool :=
  if args.length ≠ f.arity then return false
  else
    match f.guard with
    | none => return true
    | some guard => return (← invoke guard args).truthy

/-- Calls the first method that takes the arguments. -/
def callFirst (args : List (Value φ)) : List (Function φ) → Run (Value φ)
  | [] => .fail (.noMatchingSignature args.length)
  | f :: fs => do
    if ← accepts invoke f args then invoke f.body args else callFirst args fs

/-- **Calls a value** with arguments. -/
def call (callee : Value φ) (args : List (Value φ)) : Run (Value φ) :=
  match callee with
  | .function f => do
    if args.length ≠ f.arity then .fail (.argumentCount f.toText f.arity args.length)
    else if ← accepts invoke f args then invoke f.body args
    else .fail (.noMatchingSignature args.length)
  | .object _ methods => callFirst invoke args methods
  | callee => .fail (.notCallable callee.kind)

/-- **Indexing**: an element of a stream or a character of a text by number, the elements of a
stream that are marked by another one or that a function accepts, an entry of an object by key. -/
def index [BEq φ] (target key : Value φ) : Run (Value φ) :=
  match target, key with
  | .stream items, .number x => do elementAt items (← toIndex x)
  | .stream items, .stream marks =>
    if items.length ≠ marks.length then .fail (.lengthMismatch items.length marks.length)
    else return .stream (keepMarked items marks)
  | .stream items, .function f =>
    return .stream (← items.filterM fun item => return (← call invoke (.function f) [item]).truthy)
  | .stream items, .object entries methods =>
    return .stream
      (← items.filterM fun item => return (← call invoke (.object entries methods) [item]).truthy)
  | .object entries methods, key =>
    match Object.get? ⟨entries, methods⟩ key with
    | some v => return v
    | none => .fail (.undefinedField key.toText)
  | .text s, .number x => do
    return .text (String.singleton (← elementAt s.toList (← toIndex x)))
  | target, key => .fail (.unsupported "[]" target.kind key.kind)

end Calls

end Cellbook.Value
