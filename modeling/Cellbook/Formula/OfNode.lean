import Cellbook.Formula.Blocks
import Cellbook.Source.Node

/-!
# From a syntax tree to a formula

Not every tree is a formula: parentheses hold one value unless they are a parameter list or the
arguments of a call, a range stands in an array, a guard and the head of a conditional stand before a
colon, and so on. Whatever the tree, its first flaw from left to right is the one that is found; of
an entry the value comes before the key.
-/

namespace Cellbook

namespace Formula

/-- The fault of a node with a flaw. -/
def flawed (n : Node) (flaw : Flaw) : SourceFault :=
  ⟨.invalidExpression flaw (some n.toText), n.span.start⟩

/-- The names of parameters. -/
def parameterNames (nodes : List Node) : Except SourceFault (List String) :=
  nodes.mapM fun n =>
    match n.kind, n.name? with
    | .identifier, some name => .ok name
    | _, _ => .error (flawed n .parameterName)

/-- The formula of a part of `n`, which must not be missing. -/
def required (n : Node) (part : Except SourceFault (Option Formula)) :
    Except SourceFault Formula := do
  match ← part with
  | some f => return f
  | none => throw (flawed n .incomplete)

/-- The signature that a parameter list makes. -/
def signatureOf (cell : Nat) (name : Option String) (group : Node) (guard : Option Formula) :
    Except SourceFault Key := do
  return .signature name (← parameterNames group.items) ⟨cell, group.span⟩ guard

/-- The entry of a node with a key and a value. `part` is the formula of that part of the key which
is one: the condition of a header or guard, the computed key in brackets, or the key itself. -/
def entryOf (cell : Nat) (node key : Node) (value : Except SourceFault Formula)
    (part : Except SourceFault (Option Formula)) : Except SourceFault ListEntry := do
  let body ← value
  let plain (k : Key) : ListEntry := .plain (.mk k body ⟨cell, node.span⟩)
  match key.kind with
  | .ifHeader => return .first (.mk (some (← required key part)) body) node.span
  | .elseIfHeader => return .further (.mk (some (← required key part)) body) node.span
  | .elseHeader => return .last (.mk none body) node.span
  | .identifier => return plain (.name (key.name?.getD ""))
  | .grouping => return plain (← signatureOf cell none key none)
  | .guard =>
    match key.left with
    | none => throw (flawed key .incomplete)
    | some group =>
      let condition ← required key part
      return plain (← signatureOf cell none group (some condition))
  | .apply =>
    match key.left with
    | none => throw (flawed key .incomplete)
    | some callee =>
      match callee.name? with
      | none => throw (flawed key .signatureName)
      | some name => return plain (← signatureOf cell (some name) key none)
  | .array =>
    match key.items with
    | [computed] =>
      if computed.kind = .range then throw (flawed key .computedKeyCount)
      else return plain (.computed (← required key part))
    | _ => throw (flawed key .computedKeyCount)
  | _ => return plain (.computed (← required key part))

mutual

/-- **The formula that a tree is**, in a cell. -/
def ofNode (cell : Nat) : Node → Except SourceFault Formula
  | ⟨operator, kind, content, span, left, right⟩ =>
    let node : Node := ⟨operator, kind, content, span, left, right⟩
    let origin : Origin := ⟨cell, span⟩
    match kind with
    | .literal =>
      match content with
      | .scalar v => return .literal origin v
      | _ => throw (flawed node .literalWithoutValue)
    | .identifier =>
      match content with
      | .name name => return .identifier origin name
      | _ => throw (flawed node .identifierWithoutName)
    | .binary =>
      match BinaryOp.ofSymbol? operator with
      | none => throw (flawed node .unknownBinary)
      | some op => do
        let l ← required node (ofOperand cell left)
        let r ← required node (ofOperand cell right)
        return .binary origin op l r
    | .unary =>
      match UnaryOp.ofSymbol? operator with
      | none => throw (flawed node .unknownUnary)
      | some op => return .unary origin op (← required node (ofOperand cell right))
    | .grouping =>
      match content with
      | .items [single] => ofNode cell single
      | .items (_ :: _) => throw (flawed node .severalInParentheses)
      | _ => throw (flawed node .emptyParentheses)
    | .array =>
      match content with
      | .items nodes => do
        let (elements, place) ← ofElements cell 0 none nodes
        return .array origin elements place
      | _ => return .array origin [] none
    | .apply => do
      let callee ← required node (ofOperand cell left)
      match content with
      | .items nodes => return .call origin callee (← ofNodes cell nodes)
      | _ => return .call origin callee []
    | .index => do
      let target ← required node (ofOperand cell left)
      match content with
      | .items [key] => return .index origin target (← ofNode cell key)
      | _ => throw (flawed node .indexCount)
    | .member => do
      let object ← required node (ofOperand cell left)
      match right with
      | none => throw (flawed node .incomplete)
      | some attr =>
        match attr.name? with
        | some name => return .member origin object name
        | none => throw (flawed node .memberName)
    | .entry =>
      match content with
      | .items nodes => do
        let entry ← ofPair cell node nodes
        return (← BlockParts.empty.add cell entry).toFormula cell span
      | _ => throw (flawed node .notAnEntry)
    | .entries =>
      match content with
      | .items nodes => return (← ofEntries cell .empty nodes).toFormula cell span
      | _ => return BlockParts.empty.toFormula cell span
    | .guard => throw (flawed node .guardOutsideKey)
    | .ifHeader | .elseIfHeader | .elseHeader => throw (flawed node .conditionWithoutBody)
    | .range => throw (flawed node .rangeOutsideArray)

/-- The formula of an operand, if there is one. -/
def ofOperand (cell : Nat) : Option Node → Except SourceFault (Option Formula)
  | none => return none
  | some n => return some (← ofNode cell n)

def ofNodes (cell : Nat) : List Node → Except SourceFault (List Formula)
  | [] => return []
  | n :: ns => do return (← ofNode cell n) :: (← ofNodes cell ns)

/-- The elements of an array from `position` on, and the position of the range among them. -/
def ofElements (cell position : Nat) (place : Option Nat) :
    List Node → Except SourceFault (List Formula × Option Nat)
  | [] => return ([], place)
  | n :: ns =>
    match n with
    | ⟨_, .range, _, span, left, right⟩ =>
      if place.isSome then throw (flawed n .secondRange)
      else do
        let first ← ofOperand cell left
        let last ← ofOperand cell right
        let (elements, place) ← ofElements cell (position + 1) (some position) ns
        return (.range ⟨cell, span⟩ first last :: elements, place)
    | n => do
      let element ← ofNode cell n
      let (elements, place) ← ofElements cell (position + 1) place ns
      return (element :: elements, place)

/-- The entry of a node that holds those nodes, a key and a value. -/
def ofPair (cell : Nat) (node : Node) : List Node → Except SourceFault ListEntry
  | [key, value] =>
    if node.kind = .entry then
      let part :=
        match key with
        | ⟨_, .ifHeader, _, _, left, _⟩ => ofOperand cell left
        | ⟨_, .elseIfHeader, _, _, left, _⟩ => ofOperand cell left
        | ⟨_, .guard, _, _, _, right⟩ => ofOperand cell right
        | ⟨_, .array, .items [computed], _, _, _⟩ => some <$> ofNode cell computed
        | key => some <$> ofNode cell key
      entryOf cell node key (ofNode cell value) part
    else throw (flawed node .notAnEntry)
  | _ => throw (flawed node .notAnEntry)

/-- The parts of a block after further entries. -/
def ofEntries (cell : Nat) (parts : BlockParts) : List Node → Except SourceFault BlockParts
  | [] => return parts
  | n :: ns => do
    let entry ← match n with
      | ⟨operator, kind, .items nodes, span, left, right⟩ =>
        ofPair cell ⟨operator, kind, .items nodes, span, left, right⟩ nodes
      | n => throw (flawed n .notAnEntry)
    ofEntries cell (← parts.add cell entry) ns

end

end Formula

end Cellbook
