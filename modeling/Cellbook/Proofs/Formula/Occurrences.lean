import Cellbook.Formula.Names

/-!
# Occurrences of names

Where a formula says a name. An occurrence is listed together with the parameters of the signatures that
it stands in, whatever scope the formula itself is in, so that whether it is free is a question about the
occurrence alone. Names of keys, signatures and members are no occurrences.

The free names of a formula are those of its free occurrences, in the same order
(`freeNames_eq_occurrences`), although they are found with a scope that grows on the way down.
-/

namespace Cellbook

/-- **A name in a formula** and the parameters of all the signatures around it. -/
structure Occurrence where
  name : String
  origin : Origin
  signatures : List String

namespace Occurrence

/-- The occurrence inside one more signature. -/
def inside (params : List String) (o : Occurrence) : Occurrence :=
  { o with signatures := params ++ o.signatures }

/-- Whether neither the given names nor a signature around it bind an occurrence. -/
def isFree (bound : List String) (o : Occurrence) : Bool :=
  !bound.contains o.name && !o.signatures.contains o.name

theorem isFree_iff {bound : List String} {o : Occurrence} :
    o.isFree bound ↔ o.name ∉ bound ∧ o.name ∉ o.signatures := by
  simp [isFree]

/-- To be bound by a signature is to be bound by its parameters as names in scope. -/
theorem isFree_inside (bound params : List String) (o : Occurrence) :
    (o.inside params).isFree bound = o.isFree (bound ++ params) := by
  rw [Bool.eq_iff_iff, isFree_iff, isFree_iff]
  simp only [inside, List.mem_append, not_or, and_assoc]

end Occurrence

namespace Formula

mutual

/-- **The occurrences of names in a formula**, from left to right. -/
def occurrences : Formula → List Occurrence
  | .literal _ _ => []
  | .identifier o name => [⟨name, o, []⟩]
  | .binary _ _ left right => occurrences left ++ occurrences right
  | .unary _ _ operand => occurrences operand
  | .map _ entries => entriesOccurrences entries
  | .block _ parts => partsOccurrences parts
  | .array _ elements _ => partsOccurrences elements
  | .range _ first last => partOccurrences first ++ partOccurrences last
  | .index _ target key => occurrences target ++ occurrences key
  | .call _ callee args => occurrences callee ++ partsOccurrences args
  | .conditional _ clauses => clausesOccurrences clauses
  | .member _ object _ => occurrences object

def partOccurrences : Option Formula → List Occurrence
  | none => []
  | some f => occurrences f

def partsOccurrences : List Formula → List Occurrence
  | [] => []
  | f :: fs => occurrences f ++ partsOccurrences fs

/-- The parameters of a signature are bound in its guard and in the value. -/
def entriesOccurrences : List Entry → List Occurrence
  | [] => []
  | .mk (.name _) value _ :: es => occurrences value ++ entriesOccurrences es
  | .mk (.computed key) value _ :: es => occurrences key ++ occurrences value ++ entriesOccurrences es
  | .mk (.signature _ params _ guard) value _ :: es =>
    (partOccurrences guard ++ occurrences value).map (.inside params) ++ entriesOccurrences es

def clausesOccurrences : List Clause → List Occurrence
  | [] => []
  | .mk condition body :: cs =>
    partOccurrences condition ++ occurrences body ++ clausesOccurrences cs

end

/-! ## Free names -/

/-- The names of the occurrences that are free where some names are bound. -/
def freeOf (bound : List String) (os : List Occurrence) : List (String × Origin) :=
  (os.filter (·.isFree bound)).map fun o => (o.name, o.origin)

@[simp] theorem freeOf_nil (bound : List String) : freeOf bound [] = [] := rfl

@[simp] theorem freeOf_append (bound : List String) (os os' : List Occurrence) :
    freeOf bound (os ++ os') = freeOf bound os ++ freeOf bound os' := by
  simp only [freeOf, List.filter_append, List.map_append]

theorem freeOf_inside (bound params : List String) (os : List Occurrence) :
    freeOf bound (os.map (.inside params)) = freeOf (bound ++ params) os := by
  have htest : (Occurrence.isFree bound ∘ Occurrence.inside params) =
      Occurrence.isFree (bound ++ params) := funext (Occurrence.isFree_inside bound params)
  rw [freeOf, freeOf, List.filter_map, htest, List.map_map]
  rfl

mutual

/-- **The free names of a formula** are the names of its free occurrences. -/
theorem freeNames_eq_occurrences (bound : List String) :
    (f : Formula) → f.freeNames bound = freeOf bound f.occurrences
  | .literal _ _ => rfl
  | .identifier o name => by
    by_cases hbound : name ∈ bound <;>
      simp [freeNames, occurrences, freeOf, Occurrence.isFree, hbound]
  | .binary _ _ left right => by
    rw [freeNames, occurrences, freeOf_append, freeNames_eq_occurrences bound left,
      freeNames_eq_occurrences bound right]
  | .unary _ _ operand => by
    rw [freeNames, occurrences, freeNames_eq_occurrences bound operand]
  | .map _ entries => by rw [freeNames, occurrences, entriesNames_eq bound entries]
  | .block _ parts => by rw [freeNames, occurrences, partsNames_eq bound parts]
  | .array _ elements _ => by rw [freeNames, occurrences, partsNames_eq bound elements]
  | .range _ first last => by
    rw [freeNames, occurrences, freeOf_append, partNames_eq bound first, partNames_eq bound last]
  | .index _ target key => by
    rw [freeNames, occurrences, freeOf_append, freeNames_eq_occurrences bound target,
      freeNames_eq_occurrences bound key]
  | .call _ callee args => by
    rw [freeNames, occurrences, freeOf_append, freeNames_eq_occurrences bound callee,
      partsNames_eq bound args]
  | .conditional _ clauses => by rw [freeNames, occurrences, clausesNames_eq bound clauses]
  | .member _ object _ => by
    rw [freeNames, occurrences, freeNames_eq_occurrences bound object]

theorem partNames_eq (bound : List String) :
    (f? : Option Formula) → partNames bound f? = freeOf bound (partOccurrences f?)
  | none => rfl
  | some f => by rw [partNames, partOccurrences, freeNames_eq_occurrences bound f]

theorem partsNames_eq (bound : List String) :
    (fs : List Formula) → partsNames bound fs = freeOf bound (partsOccurrences fs)
  | [] => rfl
  | f :: fs => by
    rw [partsNames, partsOccurrences, freeOf_append, freeNames_eq_occurrences bound f,
      partsNames_eq bound fs]

theorem entriesNames_eq (bound : List String) :
    (es : List Entry) → entriesNames bound es = freeOf bound (entriesOccurrences es)
  | [] => rfl
  | .mk (.name _) value _ :: es => by
    rw [entriesNames, entriesOccurrences, freeOf_append, freeNames_eq_occurrences bound value,
      entriesNames_eq bound es]
  | .mk (.computed key) value _ :: es => by
    rw [entriesNames, entriesOccurrences, freeOf_append, freeOf_append,
      freeNames_eq_occurrences bound key, freeNames_eq_occurrences bound value,
      entriesNames_eq bound es]
  | .mk (.signature _ params _ guard) value _ :: es => by
    rw [entriesNames, entriesOccurrences, freeOf_append, freeOf_inside, freeOf_append,
      partNames_eq (bound ++ params) guard, freeNames_eq_occurrences (bound ++ params) value,
      entriesNames_eq bound es]

theorem clausesNames_eq (bound : List String) :
    (cs : List Clause) → clausesNames bound cs = freeOf bound (clausesOccurrences cs)
  | [] => rfl
  | .mk condition body :: cs => by
    rw [clausesNames, clausesOccurrences, freeOf_append, freeOf_append, partNames_eq bound condition,
      freeNames_eq_occurrences bound body, clausesNames_eq bound cs]

end

end Formula

end Cellbook
