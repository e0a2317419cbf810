import Cellbook.Formula.Basic

/-!
# Free names

The names in a formula that mean something outside of it, from left to right. The names of keys,
signatures and members are not among them, and within an entry the parameters of its signature hide
what their names mean elsewhere.
-/

namespace Cellbook

namespace Formula

mutual

/-- The free names of a formula, with where they stand; `bound` are the names in scope. -/
def freeNames (bound : List String) : Formula → List (String × Origin)
  | .literal _ _ => []
  | .identifier o name => if bound.contains name then [] else [(name, o)]
  | .binary _ _ left right => freeNames bound left ++ freeNames bound right
  | .unary _ _ operand => freeNames bound operand
  | .map _ entries => entriesNames bound entries
  | .block _ parts => partsNames bound parts
  | .array _ elements _ => partsNames bound elements
  | .range _ first last => partNames bound first ++ partNames bound last
  | .index _ target key => freeNames bound target ++ freeNames bound key
  | .call _ callee args => freeNames bound callee ++ partsNames bound args
  | .conditional _ clauses => clausesNames bound clauses
  | .member _ object _ => freeNames bound object

def partNames (bound : List String) : Option Formula → List (String × Origin)
  | none => []
  | some f => freeNames bound f

def partsNames (bound : List String) : List Formula → List (String × Origin)
  | [] => []
  | f :: fs => freeNames bound f ++ partsNames bound fs

def entriesNames (bound : List String) : List Entry → List (String × Origin)
  | [] => []
  | .mk (.name _) value _ :: es => freeNames bound value ++ entriesNames bound es
  | .mk (.computed key) value _ :: es =>
    freeNames bound key ++ freeNames bound value ++ entriesNames bound es
  | .mk (.signature _ params _ guard) value _ :: es =>
    partNames (bound ++ params) guard ++ freeNames (bound ++ params) value ++ entriesNames bound es

def clausesNames (bound : List String) : List Clause → List (String × Origin)
  | [] => []
  | .mk condition body :: cs =>
    partNames bound condition ++ freeNames bound body ++ clausesNames bound cs

end

end Formula

end Cellbook
