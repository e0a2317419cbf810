import Mathlib.Algebra.Order.Group.Multiset
import Mathlib.Tactic.Abel
import Cellbook.Proofs.Emission.Compiled
import Cellbook.Proofs.Formula.Occurrences

/-!
# The leaves of code

Nothing that a formula says is lost when its code is emitted, and nothing comes twice. The leaves of code
are the parameters, cells and literals in it and its calls with unresolved names (`Code.leaves`). Those of
the code of a formula are one for each name that occurs in it, and one for each constant, that is for each
of its literals and for what emission adds by itself (`Formula.leaves`, `emit_leaves`).

**Accounting.** What is emitted is given back in part, and in part it stands in statements. Both together are
what counts (`Emit.Yields`): a variable that is given back has no leaves, since its statement has them. So a
part may be used once only, and no part that has leaves may be dropped. It is for this that the formula must be
well-formed: of the parts of a block all but the last are dropped, and they are variables; clauses behind one
without a condition are dropped, and there are none.
-/

namespace Cellbook

/-! ## Leaves of code -/

namespace Code

variable {φ : Type}

mutual

/-- **The leaves of code**, those of its functions too. -/
def leaves : Code φ → Multiset (Code φ)
  | .var _ => 0
  | .param name => {.param name}
  | .cell id => {.cell id}
  | .literal v => {.literal v}
  | .array items => leavesAll items
  | .call .unresolved args => {.call .unresolved args} + leavesAll args
  | .call _ args => leavesAll args
  | .member object _ => leaves object
  | .lambda _ body result _ => leavesBody body + leaves result

def leavesAll : List (Code φ) → Multiset (Code φ)
  | [] => 0
  | c :: cs => leaves c + leavesAll cs

def leavesBody : Statements φ → Multiset (Code φ)
  | [] => 0
  | (_, c) :: rest => leaves c + leavesBody rest

end

theorem leavesAll_append (cs ds : List (Code φ)) :
    leavesAll (cs ++ ds) = leavesAll cs + leavesAll ds := by
  induction cs with
  | nil => exact (zero_add _).symm
  | cons c cs ih => rw [List.cons_append, leavesAll, leavesAll, ih, add_assoc]

theorem leavesBody_append (body rest : Statements φ) :
    leavesBody (body ++ rest) = leavesBody body + leavesBody rest := by
  induction body with
  | nil => exact (zero_add _).symm
  | cons st body ih =>
    obtain ⟨x, c⟩ := st
    rw [List.cons_append, leavesBody, leavesBody, ih, add_assoc]

theorem leaves_call {b : Builtin} (hb : b ≠ .unresolved) (args : List (Code φ)) :
    leaves (.call b args) = leavesAll args := by
  rw [leaves]
  exact hb

section Cells

variable {id : Nat}

mutual

/-- The cells that code reads are among its leaves. -/
theorem mem_cells_iff : (c : Code φ) → (id ∈ c.cells ↔ .cell id ∈ c.leaves)
  | .var _ => by simp [cells, leaves]
  | .param _ => by simp [cells, leaves]
  | .cell _ => by simp [cells, leaves]
  | .literal _ => by simp [cells, leaves]
  | .array items => mem_cellsAll_iff items
  | .call b args => by
    rw [cells, mem_cellsAll_iff args]
    by_cases hb : b = .unresolved
    · subst hb
      simp [leaves]
    · rw [leaves_call hb]
  | .member object _ => mem_cells_iff object
  | .lambda _ body result _ => by
    rw [cells, leaves, List.mem_append, Multiset.mem_add, mem_cellsBody_iff body, mem_cells_iff result]

theorem mem_cellsAll_iff : (cs : List (Code φ)) → (id ∈ cellsAll cs ↔ .cell id ∈ leavesAll cs)
  | [] => by simp [cellsAll, leavesAll]
  | c :: cs => by
    rw [cellsAll, leavesAll, List.mem_append, Multiset.mem_add, mem_cells_iff c, mem_cellsAll_iff cs]

theorem mem_cellsBody_iff : (body : Statements φ) → (id ∈ cellsBody body ↔ .cell id ∈ leavesBody body)
  | [] => by simp [cellsBody, leavesBody]
  | (_, c) :: rest => by
    rw [cellsBody, leavesBody, List.mem_append, Multiset.mem_add, mem_cells_iff c, mem_cellsBody_iff rest]

end

end Cells

end Code

/-! ## Leaves of formulas -/

/-- What of a formula becomes a literal. -/
inductive Constant where
  /-- A literal of the formula. -/
  | written (v : Scalar)
  /-- The name of a key or a signature. -/
  | key (name : String)
  /-- That the ends of a range are part of it. -/
  | inclusive
  /-- What a conditional comes to if no condition holds. -/
  | otherwise

/-- The literal that a constant becomes. -/
def Constant.scalar : Constant → Scalar
  | .written v => v
  | .key name => .text name
  | .inclusive => .boolean true
  | .otherwise => .none

namespace Formula

mutual

/-- **The constants of a formula.** -/
def constants : Formula → List Constant
  | .literal _ v => [.written v]
  | .identifier _ _ => []
  | .binary _ _ left right => constants left ++ constants right
  | .unary _ _ operand => constants operand
  | .map _ entries => entriesConstants entries
  | .block _ parts => partsConstants parts
  | .array _ elements _ => partsConstants elements
  | .range _ first last => .inclusive :: (partConstants first ++ partConstants last)
  | .index _ target key => constants target ++ constants key
  | .call _ callee args => constants callee ++ partsConstants args
  | .conditional _ clauses =>
    clausesConstants clauses ++ if clauses.all (·.condition?.isSome) then [.otherwise] else []
  | .member _ object _ => constants object

def partConstants : Option Formula → List Constant
  | none => []
  | some f => constants f

def partsConstants : List Formula → List Constant
  | [] => []
  | f :: fs => constants f ++ partsConstants fs

def entriesConstants : List Entry → List Constant
  | [] => []
  | .mk (.name key) value _ :: es => .key key :: (constants value ++ entriesConstants es)
  | .mk (.computed key) value _ :: es => constants key ++ constants value ++ entriesConstants es
  | .mk (.signature name _ _ guard) value _ :: es =>
    name.toList.map .key ++ partConstants guard ++ constants value ++ entriesConstants es

def clausesConstants : List Clause → List Constant
  | [] => []
  | .mk condition body :: cs => partConstants condition ++ constants body ++ clausesConstants cs

end

end Formula

variable {φ : Type}

/-- **The leaf of an occurrence**: a parameter where the name is bound, else the cell that it means, and a
call with the name if it means nothing. -/
def Occurrence.leaf (s : Scope) (o : Occurrence) : Code φ :=
  if o.isFree s.bound then
    match s.cells.lookup o.name with
    | some id => .cell id
    | none => .call .unresolved [.literal (.text o.name)]
  else .param o.name

/-- Whether the name of an occurrence means nothing. -/
def Occurrence.isUnresolved (s : Scope) (o : Occurrence) : Bool :=
  o.isFree s.bound && (s.cells.lookup o.name).isNone

/-- **The leaves that names and constants make**: one for each, and the texts of the names that mean
nothing. -/
def leavesOf (s : Scope) (os : List Occurrence) (cs : List Constant) : Multiset (Code φ) :=
  let names : List (Code φ) := os.map (·.leaf s)
  let texts : List (Code φ) := (os.filter (·.isUnresolved s)).map fun o => .literal (.text o.name)
  let literals : List (Code φ) := cs.map fun c => .literal c.scalar.toValue
  ↑(names ++ texts ++ literals)

/-- **The leaves of a formula** in a scope. -/
def Formula.leaves (s : Scope) (f : Formula) : Multiset (Code φ) := leavesOf s f.occurrences f.constants

section

variable (s : Scope)

theorem leavesOf_append (os os' : List Occurrence) (cs cs' : List Constant) :
    leavesOf (φ := φ) s (os ++ os') (cs ++ cs') = leavesOf s os cs + leavesOf s os' cs' := by
  simp only [leavesOf, List.map_append, List.filter_append, ← Multiset.coe_add]
  abel

theorem leavesOf_cons (os : List Occurrence) (c : Constant) (cs : List Constant) :
    leavesOf (φ := φ) s os (c :: cs) = {.literal c.scalar.toValue} + leavesOf s os cs := by
  have h := leavesOf_append (φ := φ) s [] os [c] cs
  rwa [List.nil_append, List.singleton_append] at h

/-- What a signature binds is bound inside it. -/
theorem leavesOf_inside (params : List String) (os : List Occurrence) (cs : List Constant) :
    leavesOf (φ := φ) s (os.map (.inside params)) cs = leavesOf (s.bind params) os cs := by
  have hleaf : (Occurrence.leaf (φ := φ) s) ∘ Occurrence.inside params = Occurrence.leaf (s.bind params) := by
    funext o
    simp only [Function.comp_apply, Occurrence.leaf, Occurrence.isFree_inside]
    rfl
  have hnone : (Occurrence.isUnresolved s) ∘ Occurrence.inside params =
      Occurrence.isUnresolved (s.bind params) := by
    funext o
    simp only [Function.comp_apply, Occurrence.isUnresolved, Occurrence.isFree_inside]
    rfl
  unfold leavesOf
  rw [List.map_map, List.filter_map, List.map_map, hleaf, hnone]
  rfl

/-- The leaves of an entry with a signature are those of its name, its guard and its value. -/
theorem leavesOf_signature (params : List String) (guard value os : List Occurrence)
    (k g v cs : List Constant) :
    leavesOf (φ := φ) s ((guard ++ value).map (.inside params) ++ os) (k ++ g ++ v ++ cs) =
      leavesOf s [] k + leavesOf (s.bind params) guard g + leavesOf (s.bind params) value v +
        leavesOf s os cs := by
  rw [leavesOf_append, leavesOf_inside, leavesOf_append]
  congr 2
  exact leavesOf_append (s.bind params) [] guard k g

end

/-! ## Emission -/

/-- **What an emission gives**, together with the leaves of its statements, is as `Q` says. -/
def Emit.Yields {α : Type} (m : Emit (Code φ) α) (Q : α → Multiset (Code φ) → Prop) : Prop :=
  ∀ n, Q (m n).1 (Code.leavesBody (m n).2.1)

namespace Emit.Yields

variable {α β : Type} {m : Emit (Code φ) α} {P : α → Multiset (Code φ) → Prop}
  {Q : β → Multiset (Code φ) → Prop}

theorem pure {b : β} (h : Q b 0) : Yields (Pure.pure b) Q := fun _ => h

theorem bind {f : α → Emit (Code φ) β} (h : Yields m P)
    (hf : ∀ a x, P a x → Yields (f a) fun b y => Q b (x + y)) : Yields (m >>= f) Q := by
  intro n
  rw [Emit.bind_apply, Code.leavesBody_append]
  exact hf _ _ (h n) _

theorem mono {P' : α → Multiset (Code φ) → Prop} (h : Yields m P) (himp : ∀ a x, P a x → P' a x) :
    Yields m P' := fun n => himp _ _ (h n)

variable {Q : Code φ → Multiset (Code φ) → Prop}

theorem declare {c : Code φ} (h : ∀ n, Q (.var n) c.leaves) : Yields (Emit.declare .tree c) Q := by
  intro n
  have hbody : Code.leavesBody [(n, c)] = c.leaves := add_zero _
  exact hbody.symm ▸ h n

theorem call {b : Builtin} (hb : b ≠ .unresolved) {args : List (Code φ)}
    (h : ∀ n, Q (.var n) (Code.leavesAll args)) : Yields (Emit.call .tree b args) Q :=
  declare fun n => (Code.leaves_call hb args).symm ▸ h n

end Emit.Yields

/-- An emission of code that has, with its statements, these leaves. -/
def Emit.Carries (m : Emit (Code φ) (Code φ)) (leaves : Multiset (Code φ)) : Prop :=
  Yields m fun c x => c.leaves + x = leaves

namespace Emit.Carries

variable {m : Emit (Code φ) (Code φ)} {leaves : Multiset (Code φ)}

theorem pure {c : Code φ} (h : c.leaves = leaves) : Carries (Pure.pure c) leaves :=
  Yields.pure ((add_zero c.leaves).trans h)

theorem declare {c : Code φ} (h : c.leaves = leaves) : Carries (Emit.declare .tree c) leaves :=
  Yields.declare fun _ => (zero_add c.leaves).trans h

theorem call {b : Builtin} (hb : b ≠ .unresolved) {args : List (Code φ)}
    (h : Code.leavesAll args = leaves) : Carries (Emit.call .tree b args) leaves :=
  declare ((Code.leaves_call hb args).trans h)

theorem lambda (params : List String) (h : Carries m leaves) :
    Carries (Emit.lambda .tree params m) leaves := by
  intro n
  show Code.leavesBody (m n).2.1 + (m n).1.leaves + 0 = leaves
  rw [add_zero, add_comm]
  exact h n

theorem branch (h : Carries m leaves) : Carries (Formula.emitBranch .tree m) leaves :=
  Yields.bind (lambda [] h) fun c x hx => Yields.declare fun _ => by
    rw [← hx, Code.leaves, zero_add, add_comm]

end Emit.Carries

namespace Formula

open Emit

variable {s : Scope}

theorem emitName_carries (o : Origin) (name : String) :
    Carries (φ := φ) (emitName .tree s name) (leavesOf s [⟨name, o, []⟩] []) := by
  have hfree : (Occurrence.mk name o []).isFree s.bound = !s.bound.contains name := by
    simp [Occurrence.isFree]
  unfold emitName leavesOf
  simp only [List.map_singleton, List.filter_singleton, Occurrence.leaf, Occurrence.isUnresolved, hfree]
  by_cases hbound : s.bound.contains name
  · simp only [hbound]
    exact .pure rfl
  · simp only [hbound]
    cases s.cells.lookup name with
    | some id => exact .pure rfl
    | none => exact .declare rfl

/-- The leaves of parts that are emitted one after the other. -/
def CarriesAll (m : Emit (Code φ) (List (Code φ))) (leaves : Multiset (Code φ)) : Prop :=
  Yields m fun cs x => Code.leavesAll cs + x = leaves

/-- Clauses of which only the last one may have no condition. -/
inductive Closed : List Clause → Prop
  | nil : Closed []
  | otherwise (body : Formula) : Closed [.mk none body]
  | cons (condition body : Formula) {cs : List Clause} : Closed cs → Closed (.mk (some condition) body :: cs)

theorem Closed.of_tested {clauses : List Clause} (h : Tested clauses) : Closed clauses := by
  have hsome {c : Clause} {cs : List Clause} (hc : c.condition?.isSome) (hcs : Closed cs) :
      Closed (c :: cs) := by
    match c, hc with
    | .mk (some condition) body, _ => exact .cons condition body hcs
  cases h with
  | one hc => exact hsome hc .nil
  | @many c d cs hc hcs =>
    refine hsome hc ?_
    induction cs with
    | nil =>
      obtain ⟨condition, body⟩ := d
      cases condition with
      | none => exact .otherwise body
      | some condition => exact .cons condition body .nil
    | cons e cs ih =>
      obtain ⟨he, hcs⟩ := List.forall_mem_cons.mp hcs
      exact hsome he (ih hcs)

/-- The constants of clauses, and one more if none of them is without condition. -/
def chosenConstants (clauses : List Clause) : List Constant :=
  clausesConstants clauses ++ if clauses.all (·.condition?.isSome) then [.otherwise] else []

theorem chosenConstants_cons (condition body : Formula) (clauses : List Clause) :
    chosenConstants (.mk (some condition) body :: clauses) =
      constants condition ++ constants body ++ chosenConstants clauses := by
  simp only [chosenConstants, clausesConstants, partConstants, List.append_assoc]
  rfl

variable {cell : Nat}

mutual

/-- **What is emitted for a formula has its leaves.** -/
theorem emit_carries {s : Scope} : (f : Formula) → WellFormed cell f →
    Carries (φ := Closure) (f.emit .tree s) (leavesOf s f.occurrences f.constants)
  | .literal _ v, _ => .pure rfl
  | .identifier o name, _ => emitName_carries o name
  | .binary _ op left right, h => by
    obtain ⟨hleft, hright⟩ : WellFormed cell left ∧ WellFormed cell right := by
      cases h with | binary _ hleft hright => exact ⟨hleft, hright⟩
    refine Yields.bind (emit_carries left hleft) fun l x hl => ?_
    refine Yields.bind (emit_carries right hright) fun r y hr => .call (by nofun) fun n => ?_
    rw [occurrences, constants, leavesOf_append, ← hl, ← hr]
    simp only [Code.leavesAll, Code.leaves]
    abel
  | .unary _ op operand, h => by
    have h : WellFormed cell operand := by cases h with | unary _ h => exact h
    refine Yields.bind (emit_carries operand h) fun c x hc => .call (by nofun) fun n => ?_
    rw [occurrences, constants, ← hc]
    simp only [Code.leavesAll, Code.leaves]
    abel
  | .map _ entries, h => by
    have h : ∀ e ∈ entries, EntryWellFormed cell e := by cases h with | map _ h => exact h
    refine Yields.bind (Carries.call (by nofun) rfl) fun c x hc => ?_
    refine (emitEntries_carries entries h c).mono fun d y hd => ?_
    rw [occurrences, constants]
    simp only [Code.leavesAll] at hc
    grind
  | .block _ parts, h => by
    obtain ⟨hlength, hparts, h⟩ : 2 ≤ parts.length ∧ Parts parts ∧ ∀ f ∈ parts, WellFormed cell f := by
      cases h with | block _ hlength hparts h => exact ⟨hlength, hparts, h⟩
    have hne : parts ≠ [] := List.ne_nil_of_length_pos (by omega)
    exact emitParts_carries parts hne h hparts.isPart
  | .array _ elements none, h => by
    have h : ∀ f ∈ elements, WellFormed cell f := by cases h with | array _ h => exact h
    refine Yields.bind (emitAll_carries elements h) fun cs x hcs => .call (by nofun) fun n => ?_
    rw [occurrences, constants, ← hcs]
    simp only [Target.tree, Code.leavesAll, Code.leaves]
    abel
  | .array _ elements (some place), h => by
    have h : AroundWellFormed cell elements place := by
      cases h with
      | arrayOfRange _ _ hbefore hfirst hlast hafter => exact .of_range hbefore hfirst hlast hafter
    refine Yields.bind (emitAround_carries elements place h) fun p x hp => .call (by nofun) fun n => ?_
    rw [occurrences, constants, ← hp]
    simp only [Target.tree, Code.leavesAll, Code.leaves]
    abel
  | .range _ first last, h => by cases h
  | .index _ target key, h => by
    obtain ⟨htarget, hkey⟩ : WellFormed cell target ∧ WellFormed cell key := by
      cases h with | index _ htarget hkey => exact ⟨htarget, hkey⟩
    refine Yields.bind (emit_carries target htarget) fun t x ht => ?_
    refine Yields.bind (emit_carries key hkey) fun k y hk => .call (by nofun) fun n => ?_
    rw [occurrences, constants, leavesOf_append, ← ht, ← hk]
    simp only [Code.leavesAll, Code.leaves]
    abel
  | .call _ callee args, h => by
    obtain ⟨hcallee, hargs⟩ : WellFormed cell callee ∧ ∀ f ∈ args, WellFormed cell f := by
      cases h with | call _ hcallee hargs => exact ⟨hcallee, hargs⟩
    refine Yields.bind (emit_carries callee hcallee) fun c x hc => ?_
    refine Yields.bind (emitAll_carries args hargs) fun cs y hcs => .call (by nofun) fun n => ?_
    rw [occurrences, constants, leavesOf_append, ← hc, ← hcs]
    simp only [Code.leavesAll, Code.leaves]
    abel
  | .conditional _ clauses, h => by
    obtain ⟨htested, h⟩ : Tested clauses ∧ ∀ c ∈ clauses, ClauseWellFormed cell c := by
      cases h with | conditional _ htested h => exact ⟨htested, h⟩
    exact emitClauses_carries clauses h (.of_tested htested)
  | .member _ object attr, h => by
    have h : WellFormed cell object := by cases h with | member _ h => exact h
    refine Yields.bind (emit_carries object h) fun c x hc => .declare fun n => ?_
    rw [occurrences, constants, ← hc]
    simp only [Code.leaves]
    abel

theorem emitAll_carries {s : Scope} : (fs : List Formula) → (∀ f ∈ fs, WellFormed cell f) →
    CarriesAll (φ := Closure) (emitAll .tree s fs) (leavesOf s (partsOccurrences fs) (partsConstants fs))
  | [], _ => Yields.pure rfl
  | f :: fs, h => by
    obtain ⟨hf, hfs⟩ := List.forall_mem_cons.mp h
    refine Yields.bind (emit_carries f hf) fun c x hc => ?_
    refine Yields.bind (emitAll_carries fs hfs) fun cs y hcs => .pure ?_
    rw [partsOccurrences, partsConstants, leavesOf_append, ← hc, ← hcs]
    simp only [Code.leavesAll]
    abel

theorem emitEnd_carries {s : Scope} : (f? : Option Formula) → (∀ f ∈ f?, WellFormed cell f) →
    CarriesAll (φ := Closure) (emitEnd .tree s f?) (leavesOf s (partOccurrences f?) (partConstants f?))
  | none, _ => Yields.pure rfl
  | some f, h => by
    refine Yields.bind (emit_carries f (h f rfl)) fun c x hc => .pure ?_
    rw [partOccurrences, partConstants, ← hc]
    simp only [Code.leavesAll]
    abel

/-- All parts but the last one give variables, so that nothing is lost when they are dropped. -/
theorem emitParts_carries {s : Scope} : (fs : List Formula) → fs ≠ [] →
    (∀ f ∈ fs, WellFormed cell f) → (∀ f ∈ fs, f.isPart) →
    Carries (φ := Closure) (emitParts .tree s fs) (leavesOf s (partsOccurrences fs) (partsConstants fs))
  | [], hne, _, _ => absurd rfl hne
  | [f], _, h, _ => by
    have := emit_carries (s := s) f (h f List.mem_cons_self)
    rwa [← List.append_nil f.occurrences, ← List.append_nil f.constants] at this
  | f :: g :: fs, _, h, hparts => by
    obtain ⟨hf, hfs⟩ := List.forall_mem_cons.mp h
    obtain ⟨hpart, hparts⟩ := List.forall_mem_cons.mp hparts
    have hdropped : Yields (φ := Closure) (f.emit .tree s) fun _ x => x = leavesOf s f.occurrences f.constants := by
      intro n
      obtain ⟨body, x, c, -, hx⟩ := setsLast_of_isPart (s := s) hf hpart n
      have := emit_carries (s := s) f hf n
      rwa [hx, Code.leaves, zero_add] at this
    refine Yields.bind hdropped fun _ x hx => ?_
    refine (emitParts_carries (g :: fs) (List.cons_ne_nil g fs) hfs hparts).mono fun c y hc => ?_
    rw [partsOccurrences, partsConstants, leavesOf_append, ← hx, ← hc]
    abel

/-- The range at the place is taken apart; that its ends belong to it is left to what is made of them. -/
theorem emitAround_carries {s : Scope} : (fs : List Formula) → (place : Nat) →
    AroundWellFormed cell fs place →
    Yields (φ := Closure) (emitAround .tree s place fs) fun p x =>
      {.literal (.boolean true)} + (Code.leavesAll p.1 + Code.leavesAll p.2 + x) =
        leavesOf s (partsOccurrences fs) (partsConstants fs)
  | f :: fs, 0, h => by
    match f, h with
    | .range _ first last, .here hfirst hlast hafter =>
      refine Yields.bind (emitEnd_carries first hfirst) fun before x hx => ?_
      refine Yields.bind (emitEnd_carries last hlast) fun after y hy => ?_
      refine Yields.bind (emitAll_carries fs hafter) fun rest z hz => .pure ?_
      rw [partsOccurrences, partsConstants, leavesOf_append, occurrences, constants, leavesOf_cons,
        leavesOf_append, ← hx, ← hy, ← hz, Code.leavesAll_append]
      show _ = ({.literal (.boolean true)} + _ : Multiset (Code Closure)) + _
      abel
  | f :: fs, place + 1, h => by
    obtain ⟨hf, hfs⟩ : WellFormed cell f ∧ AroundWellFormed cell fs place := by
      cases h with | later hf hfs => exact ⟨hf, hfs⟩
    refine Yields.bind (emit_carries f hf) fun c x hc => ?_
    refine Yields.bind (emitAround_carries fs place hfs) fun p y hp => .pure ?_
    rw [partsOccurrences, partsConstants, leavesOf_append, ← hc, ← hp]
    simp only [Code.leavesAll]
    abel

theorem emitEntries_carries {s : Scope} : (entries : List Entry) →
    (∀ e ∈ entries, EntryWellFormed cell e) → (object : Code Closure) →
    Carries (emitEntries .tree s object entries)
      (object.leaves + leavesOf s (entriesOccurrences entries) (entriesConstants entries))
  | [], _, object => .pure (add_zero object.leaves).symm
  | .mk (.name key) value _ :: entries, h, object => by
    obtain ⟨he, hes⟩ := List.forall_mem_cons.mp h
    have hvalue : WellFormed cell value := by cases he with | mk _ _ hvalue => exact hvalue
    refine Yields.bind (emit_carries value hvalue) fun v x hv => ?_
    refine Yields.bind (Carries.call (by nofun) rfl) fun o y ho => ?_
    refine (emitEntries_carries entries hes o).mono fun c z hc => ?_
    rw [entriesOccurrences, entriesConstants, leavesOf_cons, leavesOf_append]
    simp only [Target.tree, Code.leavesAll, Code.leaves] at ho
    grind [Constant.scalar, Scalar.toValue]
  | .mk (.computed key) value _ :: entries, h, object => by
    obtain ⟨he, hes⟩ := List.forall_mem_cons.mp h
    obtain ⟨hkey, hvalue⟩ : WellFormed cell key ∧ WellFormed cell value := by
      cases he with | mk _ hkey hvalue => cases hkey with | computed hkey => exact ⟨hkey, hvalue⟩
    refine Yields.bind (emit_carries key hkey) fun k w hk => ?_
    refine Yields.bind (emit_carries value hvalue) fun v x hv => ?_
    refine Yields.bind (Carries.call (by nofun) rfl) fun o y ho => ?_
    refine (emitEntries_carries entries hes o).mono fun c z hc => ?_
    rw [entriesOccurrences, entriesConstants, leavesOf_append, leavesOf_append]
    simp only [Code.leavesAll] at ho
    grind
  | .mk (.signature name params _ guard) value _ :: entries, h, object => by
    obtain ⟨he, hes⟩ := List.forall_mem_cons.mp h
    obtain ⟨hguard, hvalue⟩ : (∀ f ∈ guard, WellFormed cell f) ∧ WellFormed cell value := by
      cases he with | mk _ hkey hvalue => cases hkey with | signature _ hguard => exact ⟨hguard, hvalue⟩
    have hvalue := emit_carries (s := s.bind params) value hvalue
    unfold emitEntries
    refine Yields.bind (Carries.lambda params hvalue) fun l v hl => ?_
    refine Yields.bind (Carries.declare rfl) fun m w hm => ?_
    refine Yields.bind (emitGuard_carries guard hguard params m) fun m' x hm' => ?_
    rw [entriesOccurrences, entriesConstants, leavesOf_signature]
    cases name with
    | none =>
      refine Yields.bind (Carries.call (by nofun) rfl) fun o y ho => ?_
      refine (emitEntries_carries entries hes o).mono fun c z hc => ?_
      have hnone : leavesOf (φ := Closure) s [] ((none : Option String).toList.map .key) = 0 := rfl
      simp only [Code.leavesAll] at ho
      grind
    | some name =>
      refine Yields.bind (Carries.call (by nofun) rfl) fun o y ho => ?_
      refine (emitEntries_carries entries hes o).mono fun c z hc => ?_
      have hsome : leavesOf (φ := Closure) s [] ((some name).toList.map .key) =
        {.literal (.text name)} := rfl
      simp only [Target.tree, Code.leavesAll, Code.leaves] at ho
      grind [Scalar.toValue]

theorem emitGuard_carries {s : Scope} : (guard : Option Formula) → (∀ f ∈ guard, WellFormed cell f) →
    (params : List String) → (method : Code Closure) →
    Carries (emitGuard .tree s params method guard)
      (method.leaves + leavesOf s (partOccurrences guard) (partConstants guard))
  | none, _, _, method => .pure (add_zero method.leaves).symm
  | some f, h, params, method => by
    refine Yields.bind (Carries.lambda params (emit_carries f (h f rfl))) fun l x hl => ?_
    refine Yields.bind (Carries.declare rfl) fun g y hg => .call (by nofun) fun n => ?_
    rw [partOccurrences, partConstants, ← hl, ← hg]
    simp only [Code.leavesAll, Code.leaves]
    abel

theorem emitClauses_carries {s : Scope} : (clauses : List Clause) →
    (∀ c ∈ clauses, ClauseWellFormed cell c) → Closed clauses →
    Carries (φ := Closure) (emitClauses .tree s clauses)
      (leavesOf s (clausesOccurrences clauses) (chosenConstants clauses))
  | [], _, _ => .pure rfl
  | .mk none body :: clauses, h, hclosed => by
    obtain ⟨hclause, -⟩ := List.forall_mem_cons.mp h
    have hbody : WellFormed cell body := by cases hclause with | mk _ hbody => exact hbody
    obtain rfl : clauses = [] := by cases hclosed; rfl
    have := emit_carries (s := s) body hbody
    rwa [← List.append_nil body.occurrences, ← List.append_nil body.constants,
      ← List.append_nil (body.constants ++ [])] at this
  | .mk (some condition) body :: clauses, h, hclosed => by
    obtain ⟨hclause, hclauses⟩ := List.forall_mem_cons.mp h
    obtain ⟨hcondition, hbody⟩ : WellFormed cell condition ∧ WellFormed cell body := by
      cases hclause with | mk hcondition hbody => exact ⟨hcondition _ rfl, hbody⟩
    have hclosed : Closed clauses := by cases hclosed with | cons _ _ h => exact h
    have hrest := emitClauses_carries (s := s) clauses hclauses hclosed
    rw [clausesOccurrences, chosenConstants_cons, leavesOf_append, leavesOf_append]
    refine Yields.bind (emit_carries condition hcondition) fun c x hc => ?_
    refine Yields.bind (Carries.branch (emit_carries body hbody)) fun t y ht => ?_
    rw [partOccurrences, ← hc, ← ht]
    cases clauses with
    | nil =>
      have hnone : leavesOf (φ := Closure) s (clausesOccurrences []) (chosenConstants []) =
        {.literal .none} := rfl
      refine .call (by nofun) fun n => ?_
      rw [hnone]
      simp only [Target.tree, Code.leavesAll, Code.leaves, Scalar.toValue]
      abel
    | cons d ds =>
      refine Yields.bind (Carries.branch hrest) fun f z hf => .call (by nofun) fun n => ?_
      rw [← hf]
      simp only [Code.leavesAll, Code.leaves]
      abel

end

end Formula

/-! ## Cells -/

open Emit

/-- The leaves of an object of cells: each cell, and its name. -/
def fieldLeaves (fields : List (String × Nat)) : Multiset (Code φ) :=
  let cells : List (Code φ) := fields.map fun field => .cell field.2
  let names : List (Code φ) := fields.map fun field => .literal (.text field.1)
  ↑(cells ++ names)

theorem fieldLeaves_cons (name : String) (id : Nat) (fields : List (String × Nat)) :
    fieldLeaves (φ := φ) ((name, id) :: fields) = {.cell id} + {.literal (.text name)} + fieldLeaves fields := by
  simp only [fieldLeaves, List.map_cons, ← Multiset.coe_add, ← Multiset.cons_coe, ← Multiset.singleton_add]
  abel

theorem emitFields_carries (fields : List (String × Nat)) (object : Code φ) :
    Carries (emitFields .tree object fields) (object.leaves + fieldLeaves fields) := by
  induction fields generalizing object with
  | nil => exact .pure (add_zero object.leaves).symm
  | cons field fields ih =>
    obtain ⟨name, id⟩ := field
    refine Yields.bind (Carries.call (by nofun) rfl) fun o x ho => (ih o).mono fun c y hc => ?_
    rw [fieldLeaves_cons]
    simp only [Target.tree, Code.leavesAll, Code.leaves, Scalar.toValue] at ho
    grind

namespace Cell

variable {c : Cell} (fields : List (String × Nat))

/-- A container is emitted with its fields. -/
theorem emitValue_container (hc : c.isContainer = true) :
    Carries (φ := φ) (c.emitValue .tree fields) (fieldLeaves fields) := by
  unfold emitValue
  rw [if_pos hc]
  refine Yields.bind (Carries.call (by nofun) rfl) fun o x ho => ?_
  refine (emitFields_carries fields o).mono fun d y hd => ?_
  rw [add_left_comm, hd, ← add_assoc, add_comm x, ho, Code.leavesAll, zero_add]

/-- A cell with a formula is emitted with the leaves of the formula, be it a function or not. -/
theorem emitValue_formula {f : Formula} {cell : Nat} (hc : c.isContainer = false)
    (hformula : c.formula? = some f) (hf : f.WellFormed cell) :
    Carries (φ := Closure) (c.emitValue .tree fields) (f.leaves ⟨c.params, c.references⟩) := by
  unfold emitValue
  rw [hc, if_neg Bool.false_ne_true, hformula]
  dsimp only
  split
  · exact f.emit_carries hf
  · exact .lambda c.params (f.emit_carries hf)

/-- A blank cell is emitted as nothing. -/
theorem emitValue_blank (hc : c.isContainer = false) (hformula : c.formula? = none) :
    Carries (φ := φ) (c.emitValue .tree fields) {.literal .none} := by
  unfold emitValue
  rw [hc, if_neg Bool.false_ne_true, hformula]
  exact .pure rfl

end Cell

end Cellbook
