import Cellbook.Emission.Tree
import Cellbook.Proofs.Machine.Sound

/-!
# Emitted code is shaped

What is emitted for a formula reads the variables that are set before it, the parameters that are bound
where the formula stands, and the cells that its names mean; and where a built-in function requires a shape,
the emission passes something that has it (`Formula.emit_shaped`, `Cell.emitValue_shaped`).

An emission is shaped if this holds wherever at least some variables are set. The body of a function is
emitted as if none were: all that it reads it sets by itself.
-/

namespace Cellbook

variable {φ : Type}

namespace Code

variable {cells : Nat → Prop} {names : List String}

mutual

/-- Code keeps its shape where more variables are set. -/
theorem Shaped.mono {vars vars' : Shapes} (hvars : vars ⊆ vars') : {c : Code φ} → {σ : Shape} →
    c.Shaped cells names vars σ → c.Shaped cells names vars' σ
  | _, _, .var h => .var (hvars h)
  | _, _, .param h => .param h
  | _, _, .cell h => .cell h
  | _, _, .literal v => .literal v
  | _, _, .text s => .text s
  | _, _, .noBranch => .noBranch
  | _, _, .array h => .array (h.mono hvars)
  | _, _, .call hb h => .call hb (h.mono hvars)
  | _, _, .member attr h => .member attr (h.mono hvars)
  | _, _, .lambda captures hbody h => .lambda captures hbody h
  | _, _, .forget h => .forget (h.mono hvars)
  | _, _, .branch h => .branch (h.mono hvars)

theorem ShapedAll.mono {vars vars' : Shapes} (hvars : vars ⊆ vars') : {cs : List (Code φ)} →
    {shapes : List Shape} → ShapedAll cells names vars cs shapes → ShapedAll cells names vars' cs shapes
  | _, _, .nil => .nil
  | _, _, .cons h hs => .cons (h.mono hvars) (hs.mono hvars)

end

theorem ShapedBody.append {vars vars' vars'' : Shapes} {body body' : Statements φ}
    (h : ShapedBody cells names vars body vars') (h' : ShapedBody cells names vars' body' vars'') :
    ShapedBody cells names vars (body ++ body') vars'' := by
  induction body generalizing vars with
  | nil => cases h with | nil => exact h'
  | cons statement body ih =>
    cases h with
    | cons hc hnew hbody => exact .cons hc hnew (ih hbody)

/-- Codes of any shape. -/
def AnyAll (cells : Nat → Prop) (names : List String) (vars : Shapes) (cs : List (Code φ)) : Prop :=
  ∀ c ∈ cs, c.Shaped cells names vars .any

theorem AnyAll.mono {vars vars' : Shapes} (hvars : vars ⊆ vars') {cs : List (Code φ)}
    (h : AnyAll cells names vars cs) : AnyAll cells names vars' cs := fun c hc => (h c hc).mono hvars

theorem AnyAll.cons {vars : Shapes} {c : Code φ} {cs : List (Code φ)}
    (h : c.Shaped cells names vars .any) (hs : AnyAll cells names vars cs) :
    AnyAll cells names vars (c :: cs) := List.forall_mem_cons.mpr ⟨h, hs⟩

theorem AnyAll.shapedAll {vars : Shapes} {cs : List (Code φ)} (h : AnyAll cells names vars cs) :
    ShapedAll cells names vars cs (List.replicate cs.length .any) := by
  induction cs with
  | nil => exact .nil
  | cons c cs ih =>
    obtain ⟨hc, hcs⟩ := List.forall_mem_cons.mp h
    exact .cons hc (ih hcs)

theorem AnyAll.array {vars : Shapes} {cs : List (Code φ)} (h : AnyAll cells names vars cs) :
    (Code.array cs).Shaped cells names vars .stream := .array h.shapedAll

end Code

/-! ## Emissions -/

/-- The variables in a list have numbers below the next one. -/
def Shapes.Below (vars : Shapes) (n : Nat) : Prop := ∀ p ∈ vars, p.1 < n

/-- What an emission gives at a number, and the variables that are set then. -/
structure EmitShapedAt {α : Type} (cells : Nat → Prop) (names : List String) (A : Shapes → α → Prop)
    (vars : Shapes) (n : Nat) (o : α × Statements φ × Nat) (vars' : Shapes) : Prop where
  body : Code.ShapedBody cells names vars o.2.1 vars'
  subset : vars ⊆ vars'
  below : vars'.Below o.2.2
  next : n ≤ o.2.2
  given : A vars' o.1

/-- **A shaped emission**, wherever at least the variables in `vars` are set. -/
def EmitShaped {α : Type} (cells : Nat → Prop) (names : List String) (A : Shapes → α → Prop)
    (vars : Shapes) (m : Emit (Code φ) α) : Prop :=
  ∀ ⦃vars₁⦄, vars ⊆ vars₁ → ∀ ⦃n⦄, vars₁.Below n →
    ∃ vars', EmitShapedAt cells names A vars₁ n (m n) vars'

/-- The emission of code whose value has a shape. -/
abbrev Emits (cells : Nat → Prop) (names : List String) (σ : Shape) (vars : Shapes)
    (m : Emit (Code φ) (Code φ)) : Prop :=
  EmitShaped cells names (fun vars c => c.Shaped cells names vars σ) vars m

namespace EmitShaped

variable {cells : Nat → Prop} {names : List String} {α β : Type} {A A' : Shapes → α → Prop}
  {B : Shapes → β → Prop} {vars : Shapes}

theorem pure {a : α} (h : ∀ ⦃vars'⦄, vars ⊆ vars' → A vars' a) :
    EmitShaped cells names A vars (Pure.pure a : Emit (Code φ) α) := fun vars₁ hvars _ hbelow =>
  ⟨vars₁, .nil, fun _ => id, hbelow, Nat.le_refl _, h hvars⟩

theorem bind {m : Emit (Code φ) α} {f : α → Emit (Code φ) β} (h : EmitShaped cells names A vars m)
    (hf : ∀ ⦃vars'⦄, vars ⊆ vars' → ∀ a, A vars' a → EmitShaped cells names B vars' (f a)) :
    EmitShaped cells names B vars (m >>= f) := by
  intro vars₁ hvars n hbelow
  obtain ⟨vars₂, h₁⟩ := h hvars hbelow
  obtain ⟨vars₃, h₂⟩ := hf (fun _ hp => h₁.subset (hvars hp)) _ h₁.given (fun _ => id) h₁.below
  exact ⟨vars₃, h₁.body.append h₂.body, fun _ hp => h₂.subset (h₁.subset hp), h₂.below,
    Nat.le_trans h₁.next h₂.next, h₂.given⟩

theorem mono {m : Emit (Code φ) α} (h : EmitShaped cells names A vars m)
    (hA : ∀ vars a, A vars a → A' vars a) : EmitShaped cells names A' vars m := by
  intro vars₁ hvars n hbelow
  obtain ⟨vars₂, h₁⟩ := h hvars hbelow
  exact ⟨vars₂, { h₁ with given := hA _ _ h₁.given }⟩

theorem declare {c : Code φ} {σ : Shape} (h : c.Shaped cells names vars σ) :
    Emits cells names σ vars (Emit.declare .tree c) := by
  intro vars₁ hvars n hbelow
  refine ⟨(n, σ) :: vars₁, ?_, List.subset_cons_self _ _, ?_, Nat.le_succ n, .var List.mem_cons_self⟩
  · exact .cons (h.mono hvars) (fun p hp => Nat.ne_of_lt (hbelow p hp)) .nil
  · intro p hp
    rcases List.mem_cons.mp hp with rfl | hp
    · exact Nat.lt_succ_self n
    · exact Nat.lt_succ_of_lt (hbelow p hp)

theorem call {b : Builtin} {shapes : List Shape} {σ : Shape} (hb : b.Signature shapes σ)
    {cs : List (Code φ)} (h : Code.ShapedAll cells names vars cs shapes) :
    Emits cells names σ vars (Emit.call .tree b cs) := declare (.call hb h)

theorem lambda (params : List String) {m : Emit (Code φ) (Code φ)}
    (h : Emits cells (names ++ params) .any [] m) :
    Emits cells names (.function params.length) vars (Emit.lambda .tree params m) := by
  intro vars₁ _ n hbelow
  have hnone : Shapes.Below [] n := fun _ hp => (List.not_mem_nil hp).elim
  obtain ⟨vars₂, h₁⟩ := h (List.nil_subset []) hnone
  refine ⟨vars₁, .nil, fun _ => id, fun p hp => ?_, h₁.next, .lambda _ h₁.body h₁.given⟩
  exact Nat.lt_of_lt_of_le (hbelow p hp) h₁.next

end EmitShaped

/-! ## Formulas -/

namespace Formula

open EmitShaped Code

variable {cells : Nat → Prop} {names : List String} {vars : Shapes}

theorem emitName_shaped {s : Scope} (hs : ∀ p ∈ s.cells, cells p.2) (name : String) :
    Emits (φ := φ) cells s.bound .any vars (emitName .tree s name) := by
  unfold emitName
  split
  next hbound => exact .pure fun _ _ => .param (by simpa using hbound)
  next =>
    cases hlookup : s.cells.lookup name with
    | some id =>
      obtain ⟨before, after, hcells, -⟩ := List.lookup_eq_some_iff.mp hlookup
      exact .pure fun _ _ => .cell (hs (name, id) (by simp [hcells]))
    | none => exact EmitShaped.call .unresolved (.cons (.text name) .nil)

theorem emitBranch_shaped {m : Emit (Code φ) (Code φ)} (h : Emits cells names .any [] m) :
    Emits cells names .branch vars (emitBranch .tree m) := by
  rw [← List.append_nil names] at h
  exact (lambda [] h).bind fun _ _ _ hc => declare (.branch hc)

theorem emitRange_shaped {before after : List (Code φ)} (hbefore : AnyAll cells names vars before)
    (hafter : AnyAll cells names vars after) :
    Emits cells names .any vars (emitRange .tree before after) :=
  EmitShaped.call .generate (.cons hbefore.array (.cons hafter.array (.cons (.literal (.boolean true)) .nil)))

mutual

/-- **The code of a formula is shaped.** -/
theorem emit_shaped {s : Scope} (hs : ∀ p ∈ s.cells, cells p.2) {vars : Shapes} : (f : Formula) →
    Emits (φ := φ) cells s.bound .any vars (f.emit .tree s)
  | .literal _ v => .pure fun _ _ => .literal v
  | .identifier _ name => emitName_shaped hs name
  | .binary _ op left right =>
    (emit_shaped hs left).bind fun _ _ _ hl => (emit_shaped hs right).bind fun _ hvars _ hr =>
      EmitShaped.call (.binary op) (.cons (hl.mono hvars) (.cons hr .nil))
  | .unary _ op operand =>
    (emit_shaped hs operand).bind fun _ _ _ hc => EmitShaped.call (.unary op) (.cons hc .nil)
  | .map _ entries =>
    ((EmitShaped.call .map .nil).bind fun _ _ _ ho => emitEntries_shaped hs entries ho).mono
      fun _ _ ho => .forget ho
  | .block _ parts => emitParts_shaped hs parts
  | .array _ elements none =>
    (emitAll_shaped hs elements).bind fun _ _ _ hcs => EmitShaped.call .stream (.cons hcs.array .nil)
  | .array _ elements (some place) =>
    (emitAround_shaped hs elements place).bind fun _ _ _ hcs => emitRange_shaped hcs.1 hcs.2
  | .range _ first last =>
    (emitEnd_shaped hs first).bind fun _ _ _ hfirst => (emitEnd_shaped hs last).bind fun _ hvars _ hlast =>
      emitRange_shaped (hfirst.mono hvars) hlast
  | .index _ target key =>
    (emit_shaped hs target).bind fun _ _ _ htarget => (emit_shaped hs key).bind fun _ hvars _ hkey =>
      EmitShaped.call .get (.cons (htarget.mono hvars) (.cons hkey .nil))
  | .call _ callee args =>
    (emit_shaped hs callee).bind fun _ _ _ hcallee => (emitAll_shaped hs args).bind fun _ hvars _ hargs =>
      EmitShaped.call (.call _) (.cons (hcallee.mono hvars) hargs.shapedAll)
  | .conditional _ clauses => emitClauses_shaped hs clauses
  | .member _ object attr => (emit_shaped hs object).bind fun _ _ _ hc => declare (.member attr hc)

theorem emitAll_shaped {s : Scope} (hs : ∀ p ∈ s.cells, cells p.2) {vars : Shapes} :
    (fs : List Formula) →
    EmitShaped (φ := φ) cells s.bound (AnyAll cells s.bound) vars (emitAll .tree s fs)
  | [] => .pure fun _ _ => List.forall_mem_nil _
  | f :: fs =>
    (emit_shaped hs f).bind fun _ _ _ hc => (emitAll_shaped hs fs).bind fun _ hvars _ hcs =>
      .pure fun _ hvars' => .cons ((hc.mono hvars).mono hvars') (hcs.mono hvars')

theorem emitParts_shaped {s : Scope} (hs : ∀ p ∈ s.cells, cells p.2) {vars : Shapes} :
    (fs : List Formula) → Emits (φ := φ) cells s.bound .any vars (emitParts .tree s fs)
  | [] => .pure fun _ _ => .literal .none
  | [f] => emit_shaped hs f
  | f :: g :: fs => (emit_shaped hs f).bind fun _ _ _ _ => emitParts_shaped hs (g :: fs)

theorem emitEnd_shaped {s : Scope} (hs : ∀ p ∈ s.cells, cells p.2) {vars : Shapes} :
    (f? : Option Formula) →
    EmitShaped (φ := φ) cells s.bound (AnyAll cells s.bound) vars (emitEnd .tree s f?)
  | none => .pure fun _ _ => List.forall_mem_nil _
  | some f => (emit_shaped hs f).bind fun _ _ _ hc =>
    .pure fun _ hvars => .cons (hc.mono hvars) (List.forall_mem_nil _)

theorem emitAround_shaped {s : Scope} (hs : ∀ p ∈ s.cells, cells p.2) {vars : Shapes} :
    (fs : List Formula) → (place : Nat) →
    EmitShaped (φ := φ) cells s.bound
      (fun vars p => AnyAll cells s.bound vars p.1 ∧ AnyAll cells s.bound vars p.2) vars
      (emitAround .tree s place fs)
  | [], _ => .pure fun _ _ => ⟨List.forall_mem_nil _, List.forall_mem_nil _⟩
  | .range _ first last :: fs, 0 =>
    (emitEnd_shaped hs first).bind fun _ _ _ hfirst => (emitEnd_shaped hs last).bind fun _ hvars _ hlast =>
      (emitAll_shaped hs fs).bind fun _ hvars' _ hfs => .pure fun _ hvars'' =>
        ⟨((hfirst.mono hvars).mono hvars').mono hvars'',
          List.forall_mem_append.mpr ⟨(hlast.mono hvars').mono hvars'', hfs.mono hvars''⟩⟩
  | .literal _ _ :: fs, 0 | .identifier _ _ :: fs, 0 | .binary _ _ _ _ :: fs, 0
  | .unary _ _ _ :: fs, 0 | .map _ _ :: fs, 0 | .block _ _ :: fs, 0 | .array _ _ _ :: fs, 0
  | .index _ _ _ :: fs, 0 | .call _ _ _ :: fs, 0 | .conditional _ _ :: fs, 0
  | .member _ _ _ :: fs, 0 =>
    (emitAll_shaped hs fs).bind fun _ _ _ hfs =>
      .pure fun _ hvars => ⟨List.forall_mem_nil _, hfs.mono hvars⟩
  | f :: fs, place + 1 =>
    (emit_shaped hs f).bind fun _ _ _ hc => (emitAround_shaped hs fs place).bind fun _ hvars _ hcs =>
      .pure fun _ hvars' =>
        ⟨.cons ((hc.mono hvars).mono hvars') (hcs.1.mono hvars'), hcs.2.mono hvars'⟩

/-- The entries of an object are put into it one after the other. -/
theorem emitEntries_shaped {s : Scope} (hs : ∀ p ∈ s.cells, cells p.2) {vars : Shapes} :
    (entries : List Entry) → {object : Code φ} → object.Shaped cells s.bound vars .object →
    Emits cells s.bound .object vars (emitEntries .tree s object entries)
  | [], _, ho => .pure fun _ hvars => ho.mono hvars
  | .mk (.name key) value _ :: entries, _, ho =>
    (emit_shaped hs value).bind fun _ hvars _ hv =>
      (EmitShaped.call .insert (.cons (ho.mono hvars) (.cons (.literal (.text key)) (.cons hv .nil)))).bind
        fun _ _ _ ho => emitEntries_shaped hs entries ho
  | .mk (.computed key) value _ :: entries, _, ho =>
    (emit_shaped hs key).bind fun _ hvars _ hk => (emit_shaped hs value).bind fun _ hvars' _ hv =>
      (EmitShaped.call .insert
        (.cons ((ho.mono hvars).mono hvars') (.cons (hk.mono hvars') (.cons hv .nil)))).bind
        fun _ _ _ ho => emitEntries_shaped hs entries ho
  | .mk (.signature name params _ guard) value _ :: entries, _, ho => by
    unfold emitEntries
    refine (lambda params (emit_shaped (s := s.bind params) hs value)).bind fun _ hvars _ hc =>
      (declare hc).bind fun _ hvars' _ hm =>
        (emitGuard_shaped (s := s) hs params guard hm).bind fun _ hvars'' _ hm => ?_
    have ho := ((ho.mono hvars).mono hvars').mono hvars''
    cases name with
    | none =>
      exact (EmitShaped.call (.define _) (.cons ho (.cons hm .nil))).bind
        fun _ _ _ ho => emitEntries_shaped hs entries ho
    | some name =>
      exact (EmitShaped.call .insert
        (.cons ho (.cons (.literal (.text name)) (.cons (.forget hm) .nil)))).bind
        fun _ _ _ ho => emitEntries_shaped hs entries ho

/-- A guard has the parameters of the method that it is put on. -/
theorem emitGuard_shaped {s : Scope} (hs : ∀ p ∈ s.cells, cells p.2) {vars : Shapes}
    (params : List String) : (guard : Option Formula) → {method : Code φ} →
    method.Shaped cells s.bound vars (.function params.length) →
    Emits cells s.bound (.function params.length) vars
      (emitGuard .tree (s.bind params) params method guard)
  | none, _, hm => .pure fun _ hvars => hm.mono hvars
  | some f, _, hm =>
    ((lambda params (emit_shaped (s := s.bind params) hs f)).bind fun _ _ _ hc => declare hc).bind
      fun _ hvars _ hg => EmitShaped.call (.guard _) (.cons (hm.mono hvars) (.cons hg .nil))

theorem emitClauses_shaped {s : Scope} (hs : ∀ p ∈ s.cells, cells p.2) {vars : Shapes} :
    (clauses : List Clause) → Emits (φ := φ) cells s.bound .any vars (emitClauses .tree s clauses)
  | [] => .pure fun _ _ => .literal .none
  | .mk none body :: _ => emit_shaped hs body
  | .mk (some condition) body :: clauses => by
    unfold emitClauses
    refine (emit_shaped hs condition).bind fun _ _ _ hc =>
      (emitBranch_shaped (emit_shaped hs body)).bind fun _ hvars _ hbody => ?_
    have hc := hc.mono hvars
    dsimp only
    split
    · exact EmitShaped.call .cond (.cons hc (.cons hbody (.cons .noBranch .nil)))
    · exact (emitBranch_shaped (emitClauses_shaped hs clauses)).bind fun _ hvars _ hrest =>
        EmitShaped.call .cond (.cons (hc.mono hvars) (.cons (hbody.mono hvars) (.cons hrest .nil)))

end

end Formula

/-! ## Cells -/

section Cells

open EmitShaped

variable {cells : Nat → Prop} {vars : Shapes}

theorem emitFields_shaped {fields : List (String × Nat)} (hfields : ∀ p ∈ fields, cells p.2)
    {object : Code φ} (ho : object.Shaped cells [] vars .object) :
    Emits cells [] .object vars (emitFields .tree object fields) := by
  induction fields generalizing vars object with
  | nil => exact .pure fun _ hvars => ho.mono hvars
  | cons field fields ih =>
    obtain ⟨name, id⟩ := field
    obtain ⟨hid, hfields⟩ := List.forall_mem_cons.mp hfields
    exact (call .insert (.cons ho (.cons (.literal (.text name)) (.cons (.cell hid) .nil)))).bind
      fun _ _ _ ho => ih hfields ho

/-- **The code of a cell is shaped**: outside of its functions no parameter is bound. -/
theorem Cell.emitValue_shaped {fields : List (String × Nat)} {c : Cell}
    (hreferences : ∀ p ∈ c.references, cells p.2) (hfields : ∀ p ∈ fields, cells p.2) :
    Emits (φ := φ) cells [] .any vars (c.emitValue .tree fields) := by
  have hformula (vars : Shapes) (f : Formula) :
      Emits (φ := φ) cells c.params .any vars (f.emit .tree ⟨c.params, c.references⟩) :=
    Formula.emit_shaped (s := ⟨c.params, c.references⟩) hreferences f
  unfold emitValue
  dsimp only
  split
  · exact ((call .map .nil).bind fun _ _ _ ho => emitFields_shaped hfields ho).mono
      fun _ _ ho => .forget ho
  · split
    · exact .pure fun _ _ => .literal .none
    next f _ =>
      split
      next hparams =>
        rw [List.isEmpty_iff.mp hparams] at hformula ⊢
        exact hformula vars f
      next => exact (lambda c.params (hformula [] f)).mono fun _ _ hc => .forget hc

end Cells

end Cellbook
