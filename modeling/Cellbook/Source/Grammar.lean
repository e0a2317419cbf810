/-!
# Grammars

A grammar says what each keyword may do. A keyword may stand at the head of an expression, or after
one; in the second case its binding power says how tightly it holds on to what stands before it.
Tokens without a spelling of their own, such as numbers or line breaks, go by the name of their
class in parentheses.
-/

namespace Cellbook

/-- What a keyword does at the head of an expression. -/
inductive Leading where
  | literal
  | identifier
  /-- An operator on the operand that follows. -/
  | unary
  /-- The operand that follows, as it is. -/
  | plus
  /-- Items in parentheses. -/
  | group
  /-- Items in brackets. -/
  | array
  /-- A block in braces. -/
  | brace
  /-- The head of a conditional entry. -/
  | ifHeader
  /-- The head of an alternative entry, with a condition of its own or without. -/
  | elseHeader
  /-- A range without a start. -/
  | range
  /-- A block on lines of its own. -/
  | block
deriving DecidableEq, Repr

/-- What a keyword does after an expression. -/
inductive Trailing where
  /-- An operator that groups to the left. -/
  | binary
  /-- An operator that groups to the right. -/
  | binaryRight
  /-- The operator of two words, `not in`. -/
  | notIn
  /-- Arguments in parentheses. -/
  | call
  /-- An index in brackets. -/
  | index
  /-- A member name. -/
  | member
  /-- The value of an entry. -/
  | entry
  /-- A further entry. -/
  | continuation
  /-- The guard of a parameter list. -/
  | guard
  | range
deriving DecidableEq, Repr

/-- **What a keyword may do.** -/
structure Keyword where
  name : String
  /-- The binding power after an expression. -/
  power : Nat := 0
  leading : Option Leading := none
  trailing : Option Trailing := none
  /-- Whether the spelling is read as an operator rather than as a mark. -/
  isOperator : Bool := false
deriving DecidableEq, Repr

/-- **A grammar**: its keywords, no two of one name. -/
structure Grammar where
  keywords : List Keyword
deriving DecidableEq, Repr

namespace Grammar

/-! ## The names of classes of tokens -/

def literalName : String := "(literal)"
def identifierName : String := "(identifier)"
def newlineName : String := "(newline)"
def indentName : String := "(indent)"
def dedentName : String := "(dedent)"
def endName : String := "(end)"

/-! ## Looking up and building -/

def empty : Grammar := ⟨[]⟩

def get? (g : Grammar) (name : String) : Option Keyword := g.keywords.find? (·.name == name)

/-- Whether a spelling is read as an operator. -/
def isOperator (g : Grammar) (name : String) : Bool := ((g.get? name).map (·.isOperator)).getD false

/-- Changes the keyword of that name, adding it behind the others if there is none. -/
def updateKeyword (name : String) (f : Keyword → Keyword) : List Keyword → List Keyword
  | [] => [f { name }]
  | k :: ks => if k.name == name then f k :: ks else k :: updateKeyword name f ks

/-- Lets a keyword stand at the head of an expression. -/
def withLeading (g : Grammar) (name : String) (leading : Leading) (isOperator : Bool) : Grammar :=
  ⟨updateKeyword name
    (fun k => { k with leading := some leading, isOperator := k.isOperator || isOperator })
    g.keywords⟩

/-- Lets a keyword stand after an expression. -/
def withTrailing (g : Grammar) (name : String) (power : Nat) (trailing : Trailing)
    (isOperator : Bool) : Grammar :=
  ⟨updateKeyword name
    (fun k => { k with
      power, trailing := some trailing, isOperator := k.isOperator || isOperator })
    g.keywords⟩

/-- A keyword that does nothing but end an expression. -/
def withCloser (g : Grammar) (name : String) : Grammar :=
  ⟨updateKeyword name id g.keywords⟩

/-! ## The grammar of formulas -/

/-- The operators with two operands: how tightly they bind, and whether they group to the right. -/
def operators : List (String × Nat × Bool) :=
  [("or", 30, true), ("and", 40, true),
   ("==", 45, false), ("!=", 45, false), ("<", 45, false), ("<=", 45, false), (">", 45, false),
   (">=", 45, false),
   ("in", 47, false), ("is", 47, false),
   ("+", 50, false), ("-", 50, false),
   ("*", 60, false), ("/", 60, false), ("%", 60, false),
   ("**", 70, true)]

/-- Adds an operator with two operands. -/
def withOperator (g : Grammar) (op : String × Nat × Bool) : Grammar :=
  g.withTrailing op.1 op.2.1 (if op.2.2 then .binaryRight else .binary) true

/-- **The grammar of formulas.** -/
def standard : Grammar :=
  (operators.foldl withOperator empty)
    |>.withTrailing "not" 47 .notIn true
    |>.withLeading "not" .unary true
    |>.withLeading "-" .unary true
    |>.withLeading "+" .plus true
    |>.withLeading literalName .literal false
    |>.withLeading identifierName .identifier false
    |>.withTrailing newlineName 10 .continuation false
    |>.withTrailing "," 10 .continuation false
    |>.withLeading indentName .block false
    |>.withCloser dedentName
    |>.withCloser endName
    |>.withTrailing ":" 20 .entry false
    |>.withTrailing ".." 25 .range true
    |>.withLeading ".." .range true
    |>.withTrailing "if" 25 .guard true
    |>.withLeading "if" .ifHeader true
    |>.withLeading "else" .elseHeader true
    |>.withTrailing "(" 150 .call false
    |>.withLeading "(" .group false
    |>.withCloser ")"
    |>.withTrailing "[" 150 .index false
    |>.withLeading "[" .array false
    |>.withCloser "]"
    |>.withLeading "\x7b" .brace false
    |>.withCloser "\x7d"
    |>.withTrailing "." 150 .member false

end Grammar

end Cellbook
