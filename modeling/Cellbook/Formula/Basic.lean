import Cellbook.Operator
import Cellbook.Scalar
import Cellbook.Source.Span

/-!
# Formulas

What a cell says. A formula keeps for each of its parts the cell and the span it comes from.

A map has entries in order. The key of an entry is a name, a computed value, or a signature, which
makes the entry a function: its parameters are in scope in the guard and in the value, and an entry
without a name is a method of the map. A block of several parts has the value of the last one.
-/

namespace Cellbook

/-- The cell and the part of its source that something comes from. -/
structure Origin where
  cell : Nat
  span : Span
deriving DecidableEq, Repr

mutual

/-- **A formula.** -/
inductive Formula where
  | literal (origin : Origin) (v : Scalar)
  | identifier (origin : Origin) (name : String)
  | binary (origin : Origin) (op : BinaryOp) (left right : Formula)
  | unary (origin : Origin) (op : UnaryOp) (operand : Formula)
  | map (origin : Origin) (entries : List Entry)
  | block (origin : Origin) (parts : List Formula)
  /-- Elements, with the position of the one that is a range. -/
  | array (origin : Origin) (elements : List Formula) (range : Option Nat)
  /-- A range with both ends included; either may be missing. -/
  | range (origin : Origin) (first last : Option Formula)
  | index (origin : Origin) (target key : Formula)
  | call (origin : Origin) (callee : Formula) (args : List Formula)
  | conditional (origin : Origin) (clauses : List Clause)
  | member (origin : Origin) (object : Formula) (attr : String)

/-- A key and its value. -/
inductive Entry where
  | mk (key : Key) (value : Formula) (origin : Origin)

/-- What an entry stands under. -/
inductive Key where
  | name (s : String)
  | computed (key : Formula)
  | signature (name : Option String) (params : List String) (paramsOrigin : Origin)
      (guard : Option Formula)

/-- An arm of a conditional; the one that is taken if no other is has no condition. -/
inductive Clause where
  | mk (condition : Option Formula) (body : Formula)

end

namespace Formula

def origin : Formula → Origin
  | .literal o _ | .identifier o _ | .binary o _ _ _ | .unary o _ _ | .map o _ | .block o _
  | .array o _ _ | .range o _ _ | .index o _ _ | .call o _ _ | .conditional o _ | .member o _ _ => o

end Formula

def Entry.origin : Entry → Origin
  | .mk _ _ o => o

end Cellbook
