import Cellbook.Decimal.Power
import Cellbook.Settings
import Cellbook.Value.Broadcast
import Cellbook.Value.Object

/-!
# Operators on values

What each operator does to two values that are no streams, and which operators broadcast. Numbers
take arithmetic and comparison; texts take comparison and join with other simple values by `+`;
everything takes equality and the operators on truth. Membership and identity look at a stream as a
whole and do not broadcast.
-/

namespace Cellbook

/-- The fault of an operator that does not take its operands. -/
def BinaryOp.refuse {φ : Type} (op : BinaryOp) (x y : Value φ) : EvalFault :=
  ⟨.unsupported op.symbol x.kind y.kind, []⟩

/-- The kinds of single values that an operator takes against each element of a stream. -/
def BinaryOp.meets (op : BinaryOp) (kind : Kind) : Bool :=
  match op with
  | .sub | .mul | .div | .rem | .pow => kind == .number
  | .add | .lt | .le | .gt | .ge => kind == .number || kind == .text
  | .and | .or | .eq | .ne => true
  | .isIn | .notIn | .is => false

namespace Value

variable {φ : Type}

/-- A number, or the fault that stands in its place. -/
def ofResult : Except Decimal.Fault Decimal → Except EvalFault (Value φ)
  | .ok x => .ok (.number x)
  | .error fault => .error ⟨.arithmetic fault, []⟩

/-- Arithmetic on two numbers; none for an operator of another sort. -/
def arithmetic? (settings : Settings) (op : BinaryOp) (x y : Decimal) :
    Option (Except Decimal.Fault Decimal) :=
  match op with
  | .add => some (.ok (x.add y))
  | .sub => some (.ok (x.sub y))
  | .mul => some (.ok (x.mul y))
  | .div => some (x.div y)
  | .rem => some (x.rem y)
  | .pow => some (x.pow y settings.precision)
  | _ => none

/-- Whether a comparison holds between two things in that order; none for another operator. -/
def holds? (op : BinaryOp) (order : Ordering) : Option Bool :=
  match op with
  | .lt => some (order == .lt)
  | .le => some (order != .gt)
  | .gt => some (order == .gt)
  | .ge => some (order != .lt)
  | _ => none

/-- Whether a kind of value joins with a text: a text and every simple value. -/
def joins (kind : Kind) : Bool :=
  kind == .text || kind == .number || kind == .boolean || kind == .none

/-- An operator on two numbers. -/
def applyNumbers (settings : Settings) (op : BinaryOp) (x y : Decimal) :
    Except EvalFault (Value φ) :=
  match arithmetic? settings op x y, holds? op (compare x y) with
  | some result, _ => ofResult result
  | none, some b => .ok (.boolean b)
  | none, none => .error (op.refuse (φ := φ) (.number x) (.number y))

/-- The operators that not every kind of value takes, on two values that are no streams. -/
def applySingles (settings : Settings) (op : BinaryOp) (x y : Value φ) :
    Except EvalFault (Value φ) :=
  match x, y with
  | .number a, .number b => applyNumbers settings op a b
  | x, y =>
    match op, x, y with
    | .add, x, y =>
      if (x.kind == .text && joins y.kind) || (joins x.kind && y.kind == .text) then
        .ok (.text (x.toText ++ y.toText))
      else .error (op.refuse x y)
    | op, .text a, .text b =>
      match holds? op (compare a b) with
      | some b => .ok (.boolean b)
      | none => .error (op.refuse x y)
    | op, x, y => .error (op.refuse x y)

/-- Whether a text holds another one somewhere. -/
def hasPart (part : List Char) : List Char → Bool
  | [] => part.isEmpty
  | c :: cs => part.isPrefixOf (c :: cs) || hasPart part cs

variable [BEq φ]

/-- Whether `x` is an element of a stream, a key of an object or a part of a text. -/
def memberOf? (x : Value φ) : Value φ → Option Bool
  | .stream items => some (items.any (· == x))
  | .object entries methods => some (Object.containsKey ⟨entries, methods⟩ x)
  | .text whole =>
    match x with
    | .text part => some (hasPart part.toList whole.toList)
    | _ => none
  | _ => none

/-- **An operator applied to two values.** -/
def binary (settings : Settings) (op : BinaryOp) (x y : Value φ) : Except EvalFault (Value φ) :=
  match op with
  | .is => .ok (.boolean (x == y))
  | .isIn | .notIn =>
    match memberOf? x y with
    | some found => .ok (.boolean (if op == .notIn then !found else found))
    | none => .error (op.refuse x y)
  | .eq => broadcast op.meets op.refuse (fun a b => .ok (.boolean (a == b))) x y
  | .ne => broadcast op.meets op.refuse (fun a b => .ok (.boolean (!(a == b)))) x y
  | .and => broadcast op.meets op.refuse (fun a b => .ok (.boolean (a.truthy && b.truthy))) x y
  | .or => broadcast op.meets op.refuse (fun a b => .ok (.boolean (a.truthy || b.truthy))) x y
  | op => broadcast op.meets op.refuse (applySingles settings op) x y

omit [BEq φ] in
/-- An operator on a single value that is no stream. -/
def applySingle (op : UnaryOp) (x : Value φ) : Except EvalFault (Value φ) :=
  match op, x with
  | .neg, .number a => .ok (.number a.neg)
  | .neg, x => .error ⟨.unsupportedUnary op x.kind, []⟩
  | .not, x => .ok (.boolean (!x.truthy))

omit [BEq φ] in
/-- **An operator applied to one value**, in a stream to each element. -/
def unary (op : UnaryOp) (x : Value φ) : Except EvalFault (Value φ) := mapSingles (applySingle op) x

end Value

end Cellbook
