import Cellbook.Fault.Source
import Cellbook.Source.Grammar
import Cellbook.Source.Node
import Cellbook.Source.Token

/-!
# From tokens to a syntax tree

An expression begins with a keyword that may lead one and goes on as long as the next keyword binds
more tightly than `power`, the binding power of what stands before the expression. So the grammar
alone decides what groups with what.

**Steps.** Every function takes a number of steps, which bounds how deep its calls go. The tokens that
are left never become more, and of four calls inside each other one takes a token, so four steps for
each token are enough. A reader that runs out of steps says so by `Stop.exhausted`.
-/

namespace Cellbook

namespace Node

/-- Why reading stops: at a fault, or because the steps were too few. -/
inductive Stop where
  | fault (f : SourceFault)
  | exhausted
deriving DecidableEq

/-- The name in the grammar of the next token. -/
def nextName : List Token → String
  | [] => Grammar.endName
  | t :: _ =>
    match t.kind with
    | .literal _ => Grammar.literalName
    | .identifier => Grammar.identifierName
    | .newline => Grammar.newlineName
    | .indent => Grammar.indentName
    | .dedent => Grammar.dedentName
    | .operator | .delimiter => t.lexeme

/-- The keyword that the next token is. -/
def nextKeyword? (g : Grammar) (ts : List Token) : Option Keyword := g.get? (nextName ts)

/-- The binding power of the next token after an expression. -/
def nextPower (g : Grammar) (ts : List Token) : Nat := ((nextKeyword? g ts).map (·.power)).getD 0

/-- The fault of a token that does not belong where it stands, or of the end of the source, which is
at `stop`. -/
def unexpected (stop : Nat) : List Token → Stop
  | [] => .fault ⟨.unexpectedEnd, stop⟩
  | t :: _ => .fault ⟨.unexpectedToken t.shown, t.span.start⟩

/-- Takes the token with that name. -/
def expect (stop : Nat) (name : String) (ts : List Token) : Except Stop (Token × List Token) :=
  match ts with
  | [] => throw (.fault ⟨.expectedToken name "end of input", stop⟩)
  | t :: rest =>
    if nextName ts = name then return (t, rest)
    else throw (.fault ⟨.expectedToken name t.shown, t.span.start⟩)

/-- The binding power before the operand of an operator with one operand. -/
def unaryPower : Nat := 100

/-- The binding power before an item of a list, so that a comma ends it. -/
def itemPower : Nat := 10

/-- The binding power before a condition, so that a colon ends it. -/
def conditionPower : Nat := 20

/-- The binding power before the value of an entry, so that a further colon belongs to it. -/
def valuePower : Nat := 19

/-- Whether a range may end before the next token. -/
def rangeEndsHere (ts : List Token) : Bool :=
  ts.isEmpty ||
    ["]", ",", ")", Grammar.newlineName, Grammar.dedentName].contains (nextName ts)

/-- Joins a further entry to what comes before it, if that is an entry or a list of them. -/
def addEntry? (span : Span) (left right : Node) : Option Node :=
  match right.kind, left.kind, left.content with
  | .entry, .entry, _ => some (leaf "," .entries span (.items [left, right]))
  | .entry, .entries, .items nodes => some { left with span, content := .items (nodes ++ [right]) }
  | .entry, .entries, _ => some { left with span }
  | _, _, _ => none

section Read

variable (g : Grammar) (stop : Nat)

mutual

/-- An expression after something of binding power `power`. -/
def expression : (steps : Nat) → (power : Nat) → List Token → Except Stop (Node × List Token)
  | 0, _, _ => throw .exhausted
  | steps + 1, power, ts =>
    match (nextKeyword? g ts).bind (·.leading), ts with
    | some leading, t :: rest => do
      let (left, rest) ← lead steps leading t rest
      follow steps power left rest
    | _, ts => throw (unexpected stop ts)

/-- Goes on with an expression as long as the next keyword binds more tightly than `power`. -/
def follow : (steps : Nat) → (power : Nat) → Node → List Token → Except Stop (Node × List Token)
  | 0, _, _, _ => throw .exhausted
  | steps + 1, power, left, ts =>
    if nextPower g ts ≤ power then return (left, ts)
    else
      match ts with
      | [] => return (left, [])
      | t :: rest =>
        match (nextKeyword? g ts).bind (·.trailing) with
        | none => throw (unexpected stop ts)
        | some trailing => do
          let (left, rest) ← join steps trailing (nextPower g ts) t left rest
          follow steps power left rest

/-- What a keyword leads, the keyword itself being taken. -/
def lead : (steps : Nat) → Leading → Token → List Token → Except Stop (Node × List Token)
  | 0, _, _, _ => throw .exhausted
  | steps + 1, leading, t, ts =>
    match leading with
    | .literal =>
      match t.kind with
      | .literal v => return (leaf Grammar.literalName .literal t.span (.scalar v), ts)
      | _ => throw (.fault ⟨.invalidExpression .tokenWithoutValue none, t.span.start⟩)
    | .identifier =>
      return (leaf Grammar.identifierName .identifier t.span (.name t.lexeme), ts)
    | .unary => do
      let (operand, ts) ← expression steps unaryPower ts
      return ((leaf t.lexeme .unary t.span).withRight operand, ts)
    | .plus => expression steps unaryPower ts
    | .group => do
      let ((nodes, close), ts) ← itemList steps ")" ts
      return (leaf "(" .grouping (t.span.join close) (.items nodes), ts)
    | .array => do
      let ((nodes, close), ts) ← itemList steps "]" ts
      return (leaf "[" .array (t.span.join close) (.items nodes), ts)
    | .brace =>
      if nextName ts = "\x7d" then do
        let (close, ts) ← expect stop "\x7d" ts
        return (leaf "\x7b" .entries (t.span.join close.span) (.items []), ts)
      else do
        let (inner, ts) ← expression steps 0 ts
        let (_, ts) ← expect stop "\x7d" ts
        return (inner, ts)
    | .block => do
      let (inner, ts) ← expression steps 0 ts
      let (_, ts) ← expect stop Grammar.dedentName ts
      return (inner, ts)
    | .ifHeader => do
      let (condition, ts) ← expression steps conditionPower ts
      return ((leaf "if" .ifHeader t.span).withLeft condition, ts)
    | .elseHeader =>
      if nextName ts = "if" then do
        let (condition, ts) ← expression steps conditionPower (ts.drop 1)
        return ((leaf "else if" .elseIfHeader t.span).withLeft condition, ts)
      else return (leaf "else" .elseHeader t.span, ts)
    | .range =>
      if rangeEndsHere ts then return (leaf ".." .range t.span, ts)
      else do
        let (last, ts) ← expression steps (((g.get? "..").map (·.power)).getD 0) ts
        return ((leaf ".." .range t.span).withRight last, ts)

/-- What a keyword makes of the expression before it and of what follows, the keyword itself being
taken. -/
def join : (steps : Nat) → Trailing → (power : Nat) → Token → Node → List Token →
    Except Stop (Node × List Token)
  | 0, _, _, _, _, _ => throw .exhausted
  | steps + 1, trailing, power, t, left, ts =>
    match trailing with
    | .binary => do
      let (right, ts) ← expression steps power ts
      return (((leaf t.lexeme .binary t.span).withLeft left).withRight right, ts)
    | .binaryRight => do
      let (right, ts) ← expression steps (power - 1) ts
      return (((leaf t.lexeme .binary t.span).withLeft left).withRight right, ts)
    | .notIn => do
      let (_, ts) ← expect stop "in" ts
      let (right, ts) ← expression steps power ts
      return (((leaf "not in" .binary t.span).withLeft left).withRight right, ts)
    | .call => do
      let ((args, close), ts) ← itemList steps ")" ts
      return ((leaf "(" .apply (t.span.join close) (.items args)).withLeft left, ts)
    | .index => do
      let (key, ts) ← expression steps itemPower ts
      let (close, ts) ← expect stop "]" ts
      return ((leaf "[" .index (t.span.join close.span) (.items [key])).withLeft left, ts)
    | .member =>
      match ts with
      | name :: rest =>
        if name.kind = .identifier then
          let attr := leaf Grammar.identifierName .identifier name.span (.name name.lexeme)
          return (((leaf "." .member t.span).withLeft left).withRight attr, rest)
        else throw (unexpected stop ts)
      | [] => throw (unexpected stop ts)
    | .entry => do
      let (value, ts) ← expression steps valuePower ts
      let span := (t.span.join left.span).join value.span
      return (leaf ":" .entry span (.items [left, value]), ts)
    | .continuation => do
      let (right, ts) ← expression steps power ts
      match addEntry? ((t.span.join left.span).join right.span) left right with
      | some node => return (node, ts)
      | none => throw (.fault ⟨.unexpectedToken t.shown, t.span.start⟩)
    | .guard =>
      if left.kind = .grouping then do
        let (condition, ts) ← expression steps power ts
        return (((leaf "if" .guard t.span).withLeft left).withRight condition, ts)
      else throw (.fault ⟨.invalidExpression .guardWithoutParameters none, t.span.start⟩)
    | .range =>
      let node := (leaf ".." .range t.span).withLeft left
      if rangeEndsHere ts then return (node, ts)
      else do
        let (last, ts) ← expression steps power ts
        return (node.withRight last, ts)

/-- Items with commas between them up to the token named `close`, and the span of that token. -/
def itemList : (steps : Nat) → (close : String) → List Token →
    Except Stop ((List Node × Span) × List Token)
  | 0, _, _ => throw .exhausted
  | steps + 1, close, ts =>
    if nextName ts = close then do
      let (t, ts) ← expect stop close ts
      return (([], t.span), ts)
    else moreItems steps close ts

/-- One item or more. -/
def moreItems : (steps : Nat) → (close : String) → List Token →
    Except Stop ((List Node × Span) × List Token)
  | 0, _, _ => throw .exhausted
  | steps + 1, close, ts => do
    let (node, ts) ← expression steps itemPower ts
    if nextName ts = "," then
      let ((nodes, span), ts) ← moreItems steps close (ts.drop 1)
      return ((node :: nodes, span), ts)
    else
      let (t, ts) ← expect stop close ts
      return (([node], t.span), ts)

end

end Read

/-- Where the source ends, as far as the tokens show. -/
def endOf (ts : List Token) : Nat := (ts.getLast?.map (·.span.stop)).getD 0

/-- The steps that are enough for so many tokens. -/
def enoughSteps (ts : List Token) : Nat := 4 * ts.length + 4

/-- Reads a tree with a number of steps; no token may be left. -/
def parseWith (g : Grammar) (steps : Nat) (ts : List Token) : Except Stop Node := do
  let (node, rest) ← expression g (endOf ts) steps 0 ts
  if rest.isEmpty then return node else throw (unexpected (endOf ts) rest)

/-- **The tree that a list of tokens writes.** -/
def parse (g : Grammar) (ts : List Token) : Except SourceFault Node :=
  match parseWith g (enoughSteps ts) ts with
  | .ok node => .ok node
  | .error (.fault f) => .error f
  | .error .exhausted => .error ⟨.unexpectedEnd, endOf ts⟩

end Node

end Cellbook
