import Mathlib.Logic.Relation
import Cellbook.Emission.OfFormula
import Cellbook.Proofs.Formula.WellFormed
import Cellbook.Source.Grammar

/-!
# Shapes at every depth

What is so of a formula made from a tree is so of all formulas in it, however deep: of the elements of arrays and
the arguments of calls, of keys, guards and values, of conditions and bodies. `ofNode_wellShaped` says of each of
them where ranges are, which clauses have conditions, what the parts of a block are and which cell it comes from.

Code depends on two of these. The element at the place of an array is looked up, so there must be one. And of the
clauses of a conditional only those are emitted that are reached (`emitClauses_reached`), so all of them must be.
-/

namespace Cellbook

open Relation (ReflTransGen)

/-- The formulas in a key. -/
def Key.formulas : Key → List Formula
  | .name _ => []
  | .computed key => [key]
  | .signature _ _ _ guard => guard.toList

/-- Where a parameter list in a key comes from. -/
def Key.origins : Key → List Origin
  | .signature _ _ origin _ => [origin]
  | .name _ | .computed _ => []

def Entry.formulas : Entry → List Formula
  | .mk key value _ => key.formulas ++ [value]

def Entry.origins : Entry → List Origin
  | .mk key _ origin => origin :: key.origins

def Clause.formulas : Clause → List Formula
  | .mk condition body => condition.toList ++ [body]

namespace Formula

/-- The formulas right in a formula, from left to right. -/
def children : Formula → List Formula
  | .literal _ _ | .identifier _ _ => []
  | .binary _ _ left right => [left, right]
  | .unary _ _ operand => [operand]
  | .map _ entries => entries.flatMap Entry.formulas
  | .block _ parts => parts
  | .array _ elements _ => elements
  | .range _ first last => first.toList ++ last.toList
  | .index _ target key => [target, key]
  | .call _ callee args => callee :: args
  | .conditional _ clauses => clauses.flatMap Clause.formulas
  | .member _ object _ => [object]

/-- Where a formula comes from, and the entries and parameter lists right in it. -/
def origins : Formula → List Origin
  | .map origin entries => origin :: entries.flatMap Entry.origins
  | f => [f.origin]

/-- **A formula stands in another one**, at any depth; it stands in itself. -/
def Contains : Formula → Formula → Prop := ReflTransGen fun f g => g ∈ f.children

def isRange : Formula → Bool
  | .range _ _ _ => true
  | _ => false

/-- The place that an array names. -/
def place? : Formula → Option Nat
  | .array _ _ place => place
  | _ => none

/-- The clauses that are reached: all up to the first one without a condition. -/
def reached : List Clause → List Clause
  | [] => []
  | c :: cs => if c.condition?.isSome then c :: reached cs else [c]

/-- **The shape of a formula** in a cell, apart from the formulas in it. -/
structure WellShaped (cell : Nat) (f : Formula) : Prop where
  origins : ∀ o ∈ f.origins, o.cell = cell
  /-- A range in it is the element at the place that it names, as an array, and at that place there is one. -/
  range_iff : ∀ i, (∃ g, f.children[i]? = some g ∧ g.isRange) ↔ f.place? = some i
  /-- The place that it names is one of its own. -/
  place_lt : ∀ i, f.place? = some i → i < f.children.length
  /-- The clauses of a conditional have conditions, but the last one need not; so all of them are reached. -/
  clauses : ∀ o clauses, f = .conditional o clauses → Tested clauses ∧ reached clauses = clauses
  /-- A block has two parts or more: maps with entries and conditionals, and no two maps next to each other. -/
  parts : ∀ o parts, f = .block o parts → 2 ≤ parts.length ∧ Parts parts

/-! ## Clauses -/

theorem reached_of_forall (front : List Clause) (h : ∀ c ∈ front, c.condition?.isSome) (d : Clause) :
    reached (front ++ [d]) = front ++ [d] := by
  induction front with
  | nil =>
    rw [List.nil_append, reached, reached]
    split <;> rfl
  | cons c front ih =>
    obtain ⟨hc, hfront⟩ := List.forall_mem_cons.mp h
    rw [List.cons_append, reached, if_pos hc, ih hfront]

theorem Tested.reached_eq {clauses : List Clause} (h : Tested clauses) : reached clauses = clauses := by
  cases h with
  | one _ => exact reached_of_forall [] (List.forall_mem_nil _) _
  | @many c d cs hc hcs => exact reached_of_forall (c :: cs) (List.forall_mem_cons.mpr ⟨hc, hcs⟩) d

/-- **The emitted clauses are those that are reached**, whatever clauses there are. -/
theorem emitClauses_reached {κ : Type} (t : Target κ) (s : Scope) (clauses : List Clause) :
    emitClauses t s (reached clauses) = emitClauses t s clauses := by
  induction clauses with
  | nil => rfl
  | cons c clauses ih =>
    obtain ⟨condition, body⟩ := c
    cases condition with
    | none =>
      show emitClauses t s [.mk none body] = _
      rw [emitClauses, emitClauses]
    | some condition =>
      have hempty : (reached clauses).isEmpty = clauses.isEmpty := by
        cases clauses with
        | nil => rfl
        | cons d clauses =>
          rw [reached]
          split <;> rfl
      show emitClauses t s (.mk (some condition) body :: reached clauses) = _
      rw [emitClauses, emitClauses, ih, hempty]

/-! ## From the whole to its parts -/

variable {cell : Nat} {f g : Formula}

theorem WellFormed.isRange_eq (h : WellFormed cell f) : f.isRange = false := by
  cases h <;> rfl

/-- **A formula where it stands in another one**: it is made from a tree, or it is the range of an array. -/
inductive InPlace (cell : Nat) : Formula → Prop
  | wellFormed {f : Formula} : WellFormed cell f → InPlace cell f
  | range {o : Origin} {first last : Option Formula} : o.cell = cell → (∀ f ∈ first, WellFormed cell f) →
    (∀ f ∈ last, WellFormed cell f) → InPlace cell (.range o first last)

theorem EntryWellFormed.formulas {e : Entry} (h : EntryWellFormed cell e) : ∀ g ∈ e.formulas, WellFormed cell g := by
  cases h with
  | mk _ hkey hvalue =>
    refine List.forall_mem_append.mpr ⟨?_, List.forall_mem_singleton.mpr hvalue⟩
    cases hkey with
    | name => exact List.forall_mem_nil _
    | computed hkey => exact List.forall_mem_singleton.mpr hkey
    | signature _ hguard => exact fun g hg => hguard g (Option.mem_toList.mp hg)

theorem EntryWellFormed.origins {e : Entry} (h : EntryWellFormed cell e) : ∀ o ∈ e.origins, o.cell = cell := by
  cases h with
  | mk horigin hkey _ =>
    refine List.forall_mem_cons.mpr ⟨horigin, ?_⟩
    cases hkey with
    | name | computed => exact List.forall_mem_nil _
    | signature horigin _ => exact List.forall_mem_singleton.mpr horigin

theorem ClauseWellFormed.formulas {c : Clause} (h : ClauseWellFormed cell c) :
    ∀ g ∈ c.formulas, WellFormed cell g := by
  cases h with
  | mk hcondition hbody =>
    refine List.forall_mem_append.mpr ⟨fun g hg => hcondition g (Option.mem_toList.mp hg), ?_⟩
    exact List.forall_mem_singleton.mpr hbody

/-- **What is right in a formula**: formulas by themselves, and a range if it is an array that names its place. -/
inductive Children (cell : Nat) (f : Formula) : Prop
  | plain (hplace : f.place? = none) (hall : ∀ g ∈ f.children, WellFormed cell g) : Children cell f
  | aroundRange {o : Origin} {before after : List Formula} {first last : Option Formula}
      (hplace : f.place? = some before.length) (hchildren : f.children = before ++ .range o first last :: after)
      (horigin : o.cell = cell) (hbefore : ∀ g ∈ before, WellFormed cell g) (hfirst : ∀ g ∈ first, WellFormed cell g)
      (hlast : ∀ g ∈ last, WellFormed cell g) (hafter : ∀ g ∈ after, WellFormed cell g) : Children cell f

theorem WellFormed.children (h : WellFormed cell f) : Children cell f := by
  cases h with
  | literal | identifier => exact .plain rfl (List.forall_mem_nil _)
  | binary _ hleft hright =>
    exact .plain rfl (List.forall_mem_cons.mpr ⟨hleft, List.forall_mem_singleton.mpr hright⟩)
  | unary _ hoperand => exact .plain rfl (List.forall_mem_singleton.mpr hoperand)
  | map _ hentries =>
    refine .plain rfl fun g hg => ?_
    obtain ⟨e, he, hg⟩ := List.mem_flatMap.mp hg
    exact (hentries e he).formulas g hg
  | block _ _ _ hparts => exact .plain rfl hparts
  | array _ helements => exact .plain rfl helements
  | arrayOfRange _ hrange hbefore hfirst hlast hafter =>
    exact .aroundRange rfl rfl hrange hbefore hfirst hlast hafter
  | index _ htarget hkey => exact .plain rfl (List.forall_mem_cons.mpr ⟨htarget, List.forall_mem_singleton.mpr hkey⟩)
  | call _ hcallee hargs => exact .plain rfl (List.forall_mem_cons.mpr ⟨hcallee, hargs⟩)
  | conditional _ _ hclauses =>
    refine .plain rfl fun g hg => ?_
    obtain ⟨c, hc, hg⟩ := List.mem_flatMap.mp hg
    exact (hclauses c hc).formulas g hg
  | member _ hobject => exact .plain rfl (List.forall_mem_singleton.mpr hobject)

theorem InPlace.children (h : InPlace cell f) : ∀ g ∈ f.children, InPlace cell g := by
  intro g hg
  cases h with
  | wellFormed h =>
    cases h.children with
    | plain _ hall => exact .wellFormed (hall g hg)
    | aroundRange _ hchildren horigin hbefore hfirst hlast hafter =>
      rw [hchildren] at hg
      rcases List.mem_append.mp hg with hg | hg
      · exact .wellFormed (hbefore g hg)
      rcases List.mem_cons.mp hg with rfl | hg
      · exact .range horigin hfirst hlast
      · exact .wellFormed (hafter g hg)
  | range _ hfirst hlast =>
    rcases List.mem_append.mp hg with hg | hg
    · exact .wellFormed (hfirst g (Option.mem_toList.mp hg))
    · exact .wellFormed (hlast g (Option.mem_toList.mp hg))

theorem InPlace.of_contains (h : InPlace cell f) (hg : f.Contains g) : InPlace cell g := by
  induction hg with
  | refl => exact h
  | tail _ hchild ih => exact ih.children _ hchild

/-! ## The shape of each -/

theorem WellFormed.origins (h : WellFormed cell f) : ∀ o ∈ f.origins, o.cell = cell := by
  cases h with
  | map horigin hentries =>
    refine List.forall_mem_cons.mpr ⟨horigin, fun o ho => ?_⟩
    obtain ⟨e, he, ho⟩ := List.mem_flatMap.mp ho
    exact (hentries e he).origins o ho
  | literal horigin | identifier horigin | binary horigin | unary horigin | block horigin | array horigin
  | arrayOfRange horigin | index horigin | call horigin | conditional horigin | member horigin =>
    exact List.forall_mem_singleton.mpr horigin

theorem not_isRange_of_forall {fs : List Formula} (h : ∀ g ∈ fs, WellFormed cell g) (i : Nat) :
    ¬∃ g, fs[i]? = some g ∧ g.isRange := by
  rintro ⟨g, hg, hrange⟩
  rw [(h g (List.mem_of_getElem? hg)).isRange_eq] at hrange
  cases hrange

/-- Among elements one of which is a range, that one stands behind those before it. -/
theorem isRange_append_cons_iff {before after : List Formula} {r : Formula}
    (hbefore : ∀ g ∈ before, WellFormed cell g) (hr : r.isRange) (hafter : ∀ g ∈ after, WellFormed cell g) (i : Nat) :
    (∃ g, (before ++ r :: after)[i]? = some g ∧ g.isRange) ↔ i = before.length := by
  rcases Nat.lt_trichotomy i before.length with hlt | rfl | hgt
  · rw [List.getElem?_append_left hlt]
    exact ⟨fun h => absurd h (not_isRange_of_forall hbefore i), fun h => absurd h hlt.ne⟩
  · rw [List.getElem?_append_right (Nat.le_refl _), Nat.sub_self, List.getElem?_cons_zero]
    exact ⟨fun _ => rfl, fun _ => ⟨r, rfl, hr⟩⟩
  · obtain ⟨j, rfl⟩ := Nat.exists_eq_add_of_lt hgt
    rw [List.getElem?_append_right (by omega), Nat.add_assoc, Nat.add_sub_cancel_left, List.getElem?_cons_succ]
    exact ⟨fun h => absurd h (not_isRange_of_forall hafter j), fun h => absurd h hgt.ne'⟩

theorem WellFormed.range_iff (h : WellFormed cell f) (i : Nat) :
    (∃ g, f.children[i]? = some g ∧ g.isRange) ↔ f.place? = some i := by
  cases h.children with
  | plain hplace hall =>
    rw [hplace]
    exact ⟨fun h => absurd h (not_isRange_of_forall hall i), fun h => nomatch h⟩
  | aroundRange hplace hchildren _ hbefore _ _ hafter =>
    rw [hplace, hchildren, isRange_append_cons_iff hbefore rfl hafter, Option.some_inj, eq_comm]

theorem WellFormed.wellShaped (h : WellFormed cell f) : WellShaped cell f where
  origins := h.origins
  range_iff := h.range_iff
  place_lt i hi := by
    obtain ⟨g, hg, -⟩ := (h.range_iff i).mpr hi
    exact (List.getElem?_eq_some_iff.mp hg).1
  clauses := by
    rintro o clauses rfl
    cases h with
    | conditional _ htested _ => exact ⟨htested, htested.reached_eq⟩
  parts := by
    rintro o parts rfl
    cases h with
    | block _ htwo hparts _ => exact ⟨htwo, hparts⟩

theorem InPlace.wellShaped (h : InPlace cell f) : WellShaped cell f := by
  cases h with
  | wellFormed h => exact h.wellShaped
  | @range o first last horigin hfirst hlast =>
    have hall : ∀ g ∈ first.toList ++ last.toList, WellFormed cell g :=
      List.forall_mem_append.mpr ⟨fun g hg => hfirst g (Option.mem_toList.mp hg), fun g hg =>
        hlast g (Option.mem_toList.mp hg)⟩
    refine ⟨List.forall_mem_singleton.mpr horigin, fun i => ⟨fun h => ?_, nofun⟩, nofun, nofun, nofun⟩
    exact absurd h (not_isRange_of_forall hall i)

/-- **Shapes at every depth.** The formula of a tree, whatever tree it is, is no range, and every formula in it has
the shape of one in that cell. -/
theorem ofNode_wellShaped {n : Node} (h : ofNode cell n = .ok f) :
    f.isRange = false ∧ ∀ g, f.Contains g → WellShaped cell g := by
  have hf := ofNode_wellFormed n h
  refine ⟨hf.isRange_eq, fun g hg => ?_⟩
  exact ((InPlace.wellFormed hf).of_contains hg).wellShaped

/-- A range in an array in a map, and behind the map a conditional. -/
theorem ofNode_wellShaped_of_range_in_map :
    let span : Span := ⟨0, 0⟩
    let name (s : String) : Node := .leaf Grammar.identifierName .identifier span (.name s)
    let entry (key value : Node) : Node := .leaf ":" .entry span (.items [key, value])
    let tree : Node := .leaf "," .entries span (.items
      [entry (name "a") (.leaf "[" .array span (.items
        [name "w", ((Node.leaf ".." .range span).withLeft (name "x")).withRight (name "y"), name "z"])),
        entry ((Node.leaf "if" .ifHeader span).withLeft (name "x")) (name "v"),
        entry (.leaf "else" .elseHeader span) (name "w")])
    let o : Origin := ⟨7, span⟩
    let means (s : String) : Formula := .identifier o s
    let array : Formula := .array o [means "w", .range o (some (means "x")) (some (means "y")), means "z"] (some 1)
    let block : Formula := .block o [.map o [.mk (.name "a") array o],
      .conditional o [.mk (some (means "x")) (means "v"), .mk none (means "w")]]
    ofNode 7 tree = .ok block ∧ block.isRange = false ∧ block.Contains array ∧ WellShaped 7 array := by
  intro span name entry tree o means array block
  have hblock : ofNode 7 tree = .ok block := rfl
  have harray : block.Contains array :=
    .tail (.single (List.mem_cons_self : Formula.map o [.mk (.name "a") array o] ∈ block.children)) List.mem_cons_self
  obtain ⟨hrange, hshaped⟩ := ofNode_wellShaped hblock
  exact ⟨hblock, hrange, harray, hshaped array harray⟩

end Formula

end Cellbook
