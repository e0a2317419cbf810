import Cellbook.Scalar
import Cellbook.Source.Span
import Cellbook.Text.Bytes

/-!
# Syntax trees

The tree of an expression as it was written. A node keeps the keyword that made it, its kind, its
span, up to two operands, and what else it holds: a value, a name or a list of nodes. Nothing in the
type says which kinds of nodes have which parts; reading a tree as a formula finds that out.
-/

namespace Cellbook

/-- The kinds of nodes. -/
inductive NodeKind where
  | literal
  | identifier
  | binary
  | unary
  /-- Items in parentheses. -/
  | grouping
  | array
  /-- A call: an operand and its arguments. -/
  | apply
  /-- An index: an operand and what is in the brackets. -/
  | index
  | member
  /-- An entry: a key and a value. -/
  | entry
  /-- Entries in order. -/
  | entries
  /-- A parameter list and a condition. -/
  | guard
  | ifHeader
  | elseIfHeader
  | elseHeader
  | range
deriving DecidableEq, Repr

/-- What a node holds beside its operands, which are of type `ν`. -/
inductive Content (ν : Type) where
  | empty
  | scalar (v : Scalar)
  | name (s : String)
  | items (nodes : List ν)

/-- **A syntax tree.** -/
structure Node where
  operator : String
  kind : NodeKind
  content : Content Node
  span : Span
  left : Option Node
  right : Option Node

namespace Node

/-- A node without operands. -/
def leaf (operator : String) (kind : NodeKind) (span : Span) (content : Content Node := .empty) :
    Node :=
  ⟨operator, kind, content, span, none, none⟩

/-- The node with a left operand, its span widened to cover it. -/
def withLeft (n left : Node) : Node :=
  { n with span := n.span.join left.span, left := some left }

/-- The node with a right operand, its span widened to cover it. -/
def withRight (n right : Node) : Node :=
  { n with span := n.span.join right.span, right := some right }

/-- The nodes in a list that a node holds. -/
def items (n : Node) : List Node :=
  match n.content with
  | .items nodes => nodes
  | _ => []

/-- The name that a node holds. -/
def name? (n : Node) : Option String :=
  match n.content with
  | .name s => some s
  | _ => none

/-- The part of the source that a node covers, cut out between the bytes at which its span begins and ends. -/
def sourceText? (n : Node) (source : String) : Option String :=
  let start := Text.byteIndex source n.span.start
  let stop := Text.byteIndex source n.span.stop
  Text.between? source start (max stop start)

def sourceText (n : Node) (source : String) : String := (n.sourceText? source).getD ""

/-! ## The text of a tree -/

mutual

/-- A tree in prefix form: operators and their operands in parentheses. -/
def toText : Node → String
  | ⟨operator, kind, content, _, left, right⟩ =>
    match kind, content with
    | .literal, .scalar v => v.toQuotedText
    | .identifier, .name s => s
    | .grouping, .items nodes => "(group" ++ itemsText nodes ++ ")"
    | .grouping, _ => "(group)"
    | .array, .items nodes => "(array" ++ itemsText nodes ++ ")"
    | .array, _ => "(array)"
    | .entry, .items nodes => "(:" ++ itemsText nodes ++ ")"
    | .entry, _ => "(:)"
    | .entries, .items nodes => "(maplist" ++ itemsText nodes ++ ")"
    | .entries, _ => "(maplist)"
    | .apply, .items nodes => "(call" ++ operandText left ++ itemsText nodes ++ ")"
    | .apply, _ => "(call" ++ operandText left ++ ")"
    | .index, .items nodes => "(where" ++ operandText left ++ itemsText nodes ++ ")"
    | .index, _ => "(where" ++ operandText left ++ ")"
    | _, _ => "(" ++ operator ++ operandText left ++ operandText right ++ ")"

/-- Trees, each after a blank. -/
def itemsText : List Node → String
  | [] => ""
  | n :: ns => " " ++ toText n ++ itemsText ns

/-- A tree, if there is one, after a blank. -/
def operandText : Option Node → String
  | none => ""
  | some n => " " ++ toText n

end

end Node

end Cellbook
