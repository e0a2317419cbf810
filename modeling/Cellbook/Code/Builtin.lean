import Cellbook.Value.Apply
import Cellbook.Value.Call
import Cellbook.Value.Range

/-!
# Built-in functions

The functions that compiled code calls: one for each operator, and one for each form of a formula
that is more than an operator. Each takes a fixed number of arguments of certain kinds; compiled
formulas keep to that, code written by hand need not.
-/

namespace Cellbook

/-- A function that compiled code may call. -/
inductive Builtin where
  | binary (op : BinaryOp)
  | unary (op : UnaryOp)
  /-- `(array)`: the array as a stream. -/
  | stream
  /-- `(before, after, inclusive)`: the numbers of a range. -/
  | generate
  /-- `()`: an object without entries. -/
  | map
  /-- `(object, key, value)`: the object with one more entry. -/
  | insert
  /-- `(object, function)`: the object with one more method. -/
  | define
  /-- `(function, guard)`: the function, for arguments that the guard accepts. -/
  | guard
  /-- `(callee, arguments ..)`: the result of a call. -/
  | call
  /-- `(object, name)`: the entry under a text. -/
  | attr
  /-- `(target, key)`: an element, or the elements that a key chooses. -/
  | get
  /-- `(condition, then, else)`: the result of one of two functions without parameters. -/
  | cond
  /-- `(name)`: a name that means nothing. -/
  | unresolved
deriving DecidableEq, Repr

namespace Builtin

def all : List Builtin :=
  BinaryOp.all.map .binary ++ UnaryOp.all.map .unary ++
    [.stream, .generate, .map, .insert, .define, .guard, .call, .attr, .get, .cond, .unresolved]

/-- The name in compiled code. -/
def name : Builtin → String
  | .binary op => op.functionName
  | .unary op => op.functionName
  | .stream => "__stream__"
  | .generate => "__generate__"
  | .map => "__map__"
  | .insert => "__insert__"
  | .define => "__define__"
  | .guard => "__guard__"
  | .call => "__call__"
  | .attr => "__attr__"
  | .get => "__get__"
  | .cond => "__cond__"
  | .unresolved => "__unresolved__"

/-- The function of that name. -/
def ofName? (name : String) : Option Builtin := all.find? (·.name == name)

theorem ofName?_name (b : Builtin) : ofName? b.name = some b := by
  cases b with
  | binary op => cases op <;> decide
  | unary op => cases op <;> decide
  | _ => decide

/-- The number of arguments that a call must have, or the least number for `call`. A condition may
lack its last argument. -/
def argumentCount : Builtin → Nat
  | .binary _ | .define | .guard | .attr | .get => 2
  | .unary _ | .stream | .call | .unresolved => 1
  | .generate | .insert | .cond => 3
  | .map => 0

section Apply

variable {φ : Type}

/-- The fault of an argument of the wrong kind. -/
def refuse (b : Builtin) (expected : String) (v : Value φ) : EvalFault :=
  ⟨.argumentKind b.name expected v.kind, []⟩

/-- The numbers in a stream. -/
def numbers (b : Builtin) : Value φ → Except EvalFault (List Decimal)
  | .stream items => items.mapM fun
    | .number x => .ok x
    | v => .error (b.refuse "number" v)
  | v => .error (b.refuse "stream" v)

/-- The result of the branch that a condition chose; no branch gives none. -/
def branch (invoke : φ → List (Value φ) → Run (Value φ)) : Option (Value φ) → Run (Value φ)
  | some (.function f) => invoke f.body []
  | some .none | none => return .none
  | some v => throw (.fault (refuse .cond "function" v))

/-- **The result of a built-in function.** How the bodies of functions run is given as `invoke`. -/
def apply [BEq φ] (invoke : φ → List (Value φ) → Run (Value φ)) (settings : Settings) (b : Builtin)
    (args : List (Value φ)) : Run (Value φ) :=
  match b, args with
  | .binary op, [x, y] => Value.binary settings op x y
  | .unary op, [x] => Value.unary op x
  | .stream, [.stream items] => return .stream items
  | .stream, [v] => throw (.fault (refuse .stream "stream" v))
  | .generate, [before, after, inclusive] => do
    let before ← numbers .generate before
    let after ← numbers .generate after
    return .stream ((← Value.generate settings before after inclusive.truthy).map .number)
  | .map, [] => return .object [] []
  | .insert, [.object entries methods, key, value] =>
    return (Object.insert ⟨entries, methods⟩ key value).toValue
  | .insert, [v, _, _] => throw (.fault (refuse .insert "object" v))
  | .define, [.object entries methods, .function f] =>
    return (Object.define ⟨entries, methods⟩ f).toValue
  | .define, [.object _ _, v] => throw (.fault (refuse .define "function" v))
  | .define, [v, _] => throw (.fault (refuse .define "object" v))
  | .guard, [.function f, .function g] => return .function (f.withGuard g)
  | .guard, [.function _, v] => throw (.fault (refuse .guard "function" v))
  | .guard, [v, _] => throw (.fault (refuse .guard "function" v))
  | .call, callee :: args => Value.call invoke callee args
  | .attr, [target, .text name] => Value.member target name
  | .attr, [_, v] => throw (.fault (refuse .attr "text" v))
  | .get, [target, key] => Value.index invoke target key
  | .cond, [condition, whenTrue] =>
    branch invoke (if condition.truthy then some whenTrue else none)
  | .cond, [condition, whenTrue, whenFalse] =>
    branch invoke (some (if condition.truthy then whenTrue else whenFalse))
  | .unresolved, [.text name] => .fail (.unresolved name)
  | .unresolved, [v] => throw (.fault (refuse .unresolved "text" v))
  | b, args => .fail (.argumentCount b.name b.argumentCount args.length)

end Apply

end Builtin

end Cellbook
