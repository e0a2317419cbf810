import Mathlib.Data.List.Forall2
import Cellbook.Emission.OfNotebook

/-!
# Emission looks at nothing

To emit a formula is to put code together with the operations of a target, without looking at any of it,
and at no variable number but the next one. So what holds of the operations of two targets holds of what is
emitted into them: if they make related code of related code, then the code of every formula in one is
related to its code in the other (`emit_related`). The targets may be the same one, with different numbers
to begin with.

**Scopes.** Relations are between code in places where some variables are set, `Pairs` of them that stand
for each other in the two emissions. A statement adds a pair that is new on both sides, and the body of a
function begins with no pair at all, since it reads no variable from around it.
-/

namespace Cellbook

/-- Variables of two emissions that stand for each other. -/
abbrev Pairs := List (Nat × Nat)

variable {κ κ' : Type} {K : Pairs → κ → κ' → Prop}

/-- **Statements that set related code in pairs**, from the pairs that are set before on to those that are
set behind. -/
inductive BodyRelated (K : Pairs → κ → κ' → Prop) :
    Pairs → List (Nat × κ) → List (Nat × κ') → Pairs → Prop
  | nil {env : Pairs} : BodyRelated K env [] [] env
  | cons {env env' : Pairs} {x y : Nat} {c : κ} {d : κ'} {body : List (Nat × κ)}
      {body' : List (Nat × κ')} : K env c d → (∀ p ∈ env, p.1 ≠ x ∧ p.2 ≠ y) →
    BodyRelated K ((x, y) :: env) body body' env' →
    BodyRelated K env ((x, c) :: body) ((y, d) :: body') env'

theorem BodyRelated.append {env env' env'' : Pairs} {body₁ body₂ : List (Nat × κ)}
    {body₁' body₂' : List (Nat × κ')} (h : BodyRelated K env body₁ body₁' env')
    (h' : BodyRelated K env' body₂ body₂' env'') :
    BodyRelated K env (body₁ ++ body₂) (body₁' ++ body₂') env'' := by
  induction h with
  | nil => exact h'
  | cons hc hnew _ ih => exact .cons hc hnew (ih h')

/-- **Targets whose operations keep a relation** between code, as far as cells with a property go. -/
structure Target.Related (cells : Nat → Prop) (K : Pairs → κ → κ' → Prop) (t : Target κ)
    (t' : Target κ') : Prop where
  mono {env env' : Pairs} {c : κ} {d : κ'} : env ⊆ env' → K env c d → K env' c d
  var {env : Pairs} {x y : Nat} : (x, y) ∈ env → K env (t.var x) (t'.var y)
  param {env : Pairs} (name : String) : K env (t.param name) (t'.param name)
  cell {env : Pairs} {id : Nat} : cells id → K env (t.cell id) (t'.cell id)
  literal {env : Pairs} (v : Scalar) : K env (t.literal v) (t'.literal v)
  array {env : Pairs} {cs : List κ} {ds : List κ'} : List.Forall₂ (K env) cs ds →
    K env (t.array cs) (t'.array ds)
  call {env : Pairs} (b : Builtin) {cs : List κ} {ds : List κ'} : List.Forall₂ (K env) cs ds →
    K env (t.call b cs) (t'.call b ds)
  member {env : Pairs} {c : κ} {d : κ'} (attr : String) : K env c d →
    K env (t.member c attr) (t'.member d attr)
  lambda {env env' : Pairs} (params : List String) {body : List (Nat × κ)}
      {body' : List (Nat × κ')} {c : κ} {d : κ'} : BodyRelated K [] body body' env' → K env' c d →
    K env (t.lambda params body c) (t'.lambda params body' d)

/-! ## Emissions -/

/-- The variables in pairs have numbers below the next ones. -/
def Pairs.Below (env : Pairs) (n n' : Nat) : Prop := ∀ p ∈ env, p.1 < n ∧ p.2 < n'

/-- What two emissions give at two numbers, and the pairs that are set then. -/
structure EmitRelatedAt {α β : Type} (K : Pairs → κ → κ' → Prop) (A : Pairs → α → β → Prop)
    (env : Pairs) (n n' : Nat) (o : α × List (Nat × κ) × Nat) (o' : β × List (Nat × κ') × Nat)
    (env' : Pairs) : Prop where
  body : BodyRelated K env o.2.1 o'.2.1 env'
  subset : env ⊆ env'
  below : env'.Below o.2.2 o'.2.2
  next : n ≤ o.2.2
  next' : n' ≤ o'.2.2
  given : A env' o.1 o'.1

/-- **Related emissions**, wherever at least the pairs of `env` are set. -/
def EmitRelated {α β : Type} (K : Pairs → κ → κ' → Prop) (A : Pairs → α → β → Prop) (env : Pairs)
    (m : Emit κ α) (m' : Emit κ' β) : Prop :=
  ∀ ⦃env₁⦄, env ⊆ env₁ → ∀ ⦃n n'⦄, env₁.Below n n' →
    ∃ env', EmitRelatedAt K A env₁ n n' (m n) (m' n') env'

namespace EmitRelated

variable {α β γ δ : Type} {A : Pairs → α → β → Prop} {B : Pairs → γ → δ → Prop} {env : Pairs}

theorem pure {a : α} {b : β} (h : ∀ ⦃env'⦄, env ⊆ env' → A env' a b) :
    EmitRelated K A env (Pure.pure a) (Pure.pure b) := fun env₁ henv _ _ hbelow =>
  ⟨env₁, .nil, fun _ => id, hbelow, Nat.le_refl _, Nat.le_refl _, h henv⟩

theorem bind {m : Emit κ α} {m' : Emit κ' β} {f : α → Emit κ γ} {f' : β → Emit κ' δ}
    (h : EmitRelated K A env m m')
    (hf : ∀ ⦃env'⦄, env ⊆ env' → ∀ a b, A env' a b → EmitRelated K B env' (f a) (f' b)) :
    EmitRelated K B env (m >>= f) (m' >>= f') := by
  intro env₁ henv n n' hbelow
  obtain ⟨env₂, h₁⟩ := h henv hbelow
  obtain ⟨env₃, h₂⟩ := hf (fun _ hp => h₁.subset (henv hp)) _ _ h₁.given (fun _ => id) h₁.below
  exact ⟨env₃, h₁.body.append h₂.body, fun _ hp => h₂.subset (h₁.subset hp), h₂.below,
    Nat.le_trans h₁.next h₂.next, Nat.le_trans h₁.next' h₂.next', h₂.given⟩

section Targets

variable {cells : Nat → Prop} {t : Target κ} {t' : Target κ'} (ht : Target.Related cells K t t')

include ht

theorem declare {c : κ} {d : κ'} (h : K env c d) :
    EmitRelated K K env (Emit.declare t c) (Emit.declare t' d) := by
  intro env₁ henv n n' hbelow
  refine ⟨(n, n') :: env₁, ?_, List.subset_cons_self _ _, ?_, Nat.le_succ n, Nat.le_succ n',
    ht.var List.mem_cons_self⟩
  · refine .cons (ht.mono henv h) (fun p hp => ?_) .nil
    exact ⟨Nat.ne_of_lt (hbelow p hp).1, Nat.ne_of_lt (hbelow p hp).2⟩
  · intro p hp
    rcases List.mem_cons.mp hp with rfl | hp
    · exact ⟨Nat.lt_succ_self n, Nat.lt_succ_self n'⟩
    · exact ⟨Nat.lt_succ_of_lt (hbelow p hp).1, Nat.lt_succ_of_lt (hbelow p hp).2⟩

theorem call (b : Builtin) {cs : List κ} {ds : List κ'} (h : List.Forall₂ (K env) cs ds) :
    EmitRelated K K env (Emit.call t b cs) (Emit.call t' b ds) := declare ht (ht.call b h)

theorem lambda (params : List String) {m : Emit κ κ} {m' : Emit κ' κ'}
    (h : EmitRelated K K [] m m') :
    EmitRelated K K env (Emit.lambda t params m) (Emit.lambda t' params m') := by
  intro env₁ _ n n' hbelow
  have hnone : Pairs.Below [] n n' := fun _ hp => (List.not_mem_nil hp).elim
  obtain ⟨env₂, h₁⟩ := h (List.nil_subset []) hnone
  refine ⟨env₁, .nil, fun _ => id, fun p hp => ?_, h₁.next, h₁.next', ht.lambda params h₁.body h₁.given⟩
  exact ⟨Nat.lt_of_lt_of_le (hbelow p hp).1 h₁.next, Nat.lt_of_lt_of_le (hbelow p hp).2 h₁.next'⟩

end Targets

end EmitRelated

/-! ## Formulas -/

namespace Formula

open EmitRelated

variable {cells : Nat → Prop} {t : Target κ} {t' : Target κ'} (ht : Target.Related cells K t t')

include ht

theorem mono_all {env env' : Pairs} (h : env ⊆ env') {cs : List κ} {ds : List κ'}
    (hcs : List.Forall₂ (K env) cs ds) : List.Forall₂ (K env') cs ds :=
  hcs.imp fun _ _ hc => ht.mono h hc

theorem emitName_related {s : Scope} (hs : ∀ p ∈ s.cells, cells p.2) {env : Pairs} (name : String) :
    EmitRelated K K env (emitName t s name) (emitName t' s name) := by
  unfold emitName
  split
  · exact .pure fun _ _ => ht.param name
  · cases hlookup : s.cells.lookup name with
    | some id =>
      obtain ⟨before, after, hcells, -⟩ := List.lookup_eq_some_iff.mp hlookup
      exact .pure fun _ _ => ht.cell (hs (name, id) (by simp [hcells]))
    | none => exact .call ht _ (.cons (ht.literal _) .nil)

theorem emitBranch_related {env : Pairs} {m : Emit κ κ} {m' : Emit κ' κ'}
    (h : EmitRelated K K [] m m') : EmitRelated K K env (emitBranch t m) (emitBranch t' m') :=
  (lambda ht [] h).bind fun _ _ _ _ hc => declare ht hc

theorem emitRange_related {env : Pairs} {before after : List κ} {before' after' : List κ'}
    (hbefore : List.Forall₂ (K env) before before') (hafter : List.Forall₂ (K env) after after') :
    EmitRelated K K env (emitRange t before after) (emitRange t' before' after') :=
  .call ht _ (.cons (ht.array hbefore) (.cons (ht.array hafter) (.cons (ht.literal _) .nil)))

mutual

/-- **What is emitted for a formula into related targets is related.** -/
theorem emit_related {s : Scope} (hs : ∀ p ∈ s.cells, cells p.2) {env : Pairs} : (f : Formula) →
    EmitRelated K K env (f.emit t s) (f.emit t' s)
  | .literal _ v => .pure fun _ _ => ht.literal v
  | .identifier _ name => emitName_related ht hs name
  | .binary _ _ left right =>
    (emit_related hs left).bind fun _ _ _ _ hl =>
      (emit_related hs right).bind fun _ henv _ _ hr =>
        .call ht _ (.cons (ht.mono henv hl) (.cons hr .nil))
  | .unary _ _ operand =>
    (emit_related hs operand).bind fun _ _ _ _ hc => .call ht _ (.cons hc .nil)
  | .map _ entries =>
    (EmitRelated.call ht .map .nil).bind fun _ _ _ _ ho => emitEntries_related hs entries ho
  | .block _ parts => emitParts_related hs parts
  | .array _ elements none =>
    (emitAll_related hs elements).bind fun _ _ _ _ hcs => .call ht _ (.cons (ht.array hcs) .nil)
  | .array _ elements (some place) =>
    (emitAround_related hs elements place).bind fun _ _ _ _ hcs => emitRange_related ht hcs.1 hcs.2
  | .range _ first last =>
    (emitEnd_related hs first).bind fun _ _ _ _ hfirst =>
      (emitEnd_related hs last).bind fun _ henv _ _ hlast =>
        emitRange_related ht (mono_all ht henv hfirst) hlast
  | .index _ target key =>
    (emit_related hs target).bind fun _ _ _ _ htarget =>
      (emit_related hs key).bind fun _ henv _ _ hkey =>
        .call ht _ (.cons (ht.mono henv htarget) (.cons hkey .nil))
  | .call _ callee args =>
    (emit_related hs callee).bind fun _ _ _ _ hcallee =>
      (emitAll_related hs args).bind fun _ henv _ _ hargs =>
        .call ht _ (.cons (ht.mono henv hcallee) hargs)
  | .conditional _ clauses => emitClauses_related hs clauses
  | .member _ object attr =>
    (emit_related hs object).bind fun _ _ _ _ hc => declare ht (ht.member attr hc)

theorem emitAll_related {s : Scope} (hs : ∀ p ∈ s.cells, cells p.2) {env : Pairs} :
    (fs : List Formula) →
    EmitRelated K (fun env => List.Forall₂ (K env)) env (emitAll t s fs) (emitAll t' s fs)
  | [] => .pure fun _ _ => .nil
  | f :: fs =>
    (emit_related hs f).bind fun _ _ _ _ hc =>
      (emitAll_related hs fs).bind fun _ henv _ _ hcs =>
        .pure fun _ henv' => .cons (ht.mono henv' (ht.mono henv hc)) (mono_all ht henv' hcs)

theorem emitParts_related {s : Scope} (hs : ∀ p ∈ s.cells, cells p.2) {env : Pairs} :
    (fs : List Formula) → EmitRelated K K env (emitParts t s fs) (emitParts t' s fs)
  | [] => .pure fun _ _ => ht.literal .none
  | [f] => emit_related hs f
  | f :: g :: fs => (emit_related hs f).bind fun _ _ _ _ _ => emitParts_related hs (g :: fs)

theorem emitEnd_related {s : Scope} (hs : ∀ p ∈ s.cells, cells p.2) {env : Pairs} :
    (f? : Option Formula) →
    EmitRelated K (fun env => List.Forall₂ (K env)) env (emitEnd t s f?) (emitEnd t' s f?)
  | none => .pure fun _ _ => .nil
  | some f => (emit_related hs f).bind fun _ _ _ _ hc => .pure fun _ henv => .cons (ht.mono henv hc) .nil

theorem emitAround_related {s : Scope} (hs : ∀ p ∈ s.cells, cells p.2) {env : Pairs} :
    (fs : List Formula) → (place : Nat) →
    EmitRelated K (fun env p q => List.Forall₂ (K env) p.1 q.1 ∧ List.Forall₂ (K env) p.2 q.2) env
      (emitAround t s place fs) (emitAround t' s place fs)
  | [], _ => .pure fun _ _ => ⟨.nil, .nil⟩
  | .range _ first last :: fs, 0 =>
    (emitEnd_related hs first).bind fun _ _ _ _ hfirst =>
      (emitEnd_related hs last).bind fun _ henv _ _ hlast =>
        (emitAll_related hs fs).bind fun _ henv' _ _ hfs =>
          .pure fun _ henv'' =>
            ⟨mono_all ht henv'' (mono_all ht henv' (mono_all ht henv hfirst)),
              List.rel_append (mono_all ht henv'' (mono_all ht henv' hlast)) (mono_all ht henv'' hfs)⟩
  | .literal _ _ :: fs, 0 | .identifier _ _ :: fs, 0 | .binary _ _ _ _ :: fs, 0
  | .unary _ _ _ :: fs, 0 | .map _ _ :: fs, 0 | .block _ _ :: fs, 0 | .array _ _ _ :: fs, 0
  | .index _ _ _ :: fs, 0 | .call _ _ _ :: fs, 0 | .conditional _ _ :: fs, 0
  | .member _ _ _ :: fs, 0 =>
    (emitAll_related hs fs).bind fun _ _ _ _ hfs => .pure fun _ henv => ⟨.nil, mono_all ht henv hfs⟩
  | f :: fs, place + 1 =>
    (emit_related hs f).bind fun _ _ _ _ hc =>
      (emitAround_related hs fs place).bind fun _ henv _ _ hcs =>
        .pure fun _ henv' =>
          ⟨.cons (ht.mono henv' (ht.mono henv hc)) (mono_all ht henv' hcs.1), mono_all ht henv' hcs.2⟩

theorem emitEntries_related {s : Scope} (hs : ∀ p ∈ s.cells, cells p.2) {env : Pairs} :
    (entries : List Entry) → {object : κ} → {object' : κ'} → K env object object' →
    EmitRelated K K env (emitEntries t s object entries) (emitEntries t' s object' entries)
  | [], _, _, ho => .pure fun _ henv => ht.mono henv ho
  | .mk (.name key) value _ :: entries, _, _, ho =>
    (emit_related hs value).bind fun _ henv _ _ hv =>
      (EmitRelated.call ht .insert
        (.cons (ht.mono henv ho) (.cons (ht.literal _) (.cons hv .nil)))).bind
        fun _ _ _ _ ho => emitEntries_related hs entries ho
  | .mk (.computed key) value _ :: entries, _, _, ho =>
    (emit_related hs key).bind fun _ henv _ _ hk =>
      (emit_related hs value).bind fun _ henv' _ _ hv =>
        (EmitRelated.call ht .insert
          (.cons (ht.mono henv' (ht.mono henv ho)) (.cons (ht.mono henv' hk) (.cons hv .nil)))).bind
          fun _ _ _ _ ho => emitEntries_related hs entries ho
  | .mk (.signature name params _ guard) value _ :: entries, _, _, ho => by
    unfold emitEntries
    refine (lambda ht params (emit_related (s := s.bind params) hs value)).bind fun _ henv _ _ hc =>
      (declare ht hc).bind fun _ henv' _ _ hm =>
        (emitGuard_related (s := s.bind params) hs params guard hm).bind fun _ henv'' _ _ hm => ?_
    have ho := ht.mono henv'' (ht.mono henv' (ht.mono henv ho))
    cases name with
    | none =>
      exact (EmitRelated.call ht .define (.cons ho (.cons hm .nil))).bind
        fun _ _ _ _ ho => emitEntries_related hs entries ho
    | some name =>
      exact (EmitRelated.call ht .insert (.cons ho (.cons (ht.literal _) (.cons hm .nil)))).bind
        fun _ _ _ _ ho => emitEntries_related hs entries ho

theorem emitGuard_related {s : Scope} (hs : ∀ p ∈ s.cells, cells p.2) {env : Pairs}
    (params : List String) : (guard : Option Formula) → {method : κ} → {method' : κ'} →
    K env method method' →
    EmitRelated K K env (emitGuard t s params method guard) (emitGuard t' s params method' guard)
  | none, _, _, hm => .pure fun _ henv => ht.mono henv hm
  | some f, _, _, hm =>
    ((lambda ht params (emit_related hs f)).bind fun _ _ _ _ hc => declare ht hc).bind
      fun _ henv _ _ hg => EmitRelated.call ht .guard (.cons (ht.mono henv hm) (.cons hg .nil))

theorem emitClauses_related {s : Scope} (hs : ∀ p ∈ s.cells, cells p.2) {env : Pairs} :
    (clauses : List Clause) →
    EmitRelated K K env (emitClauses t s clauses) (emitClauses t' s clauses)
  | [] => .pure fun _ _ => ht.literal .none
  | .mk none body :: _ => emit_related hs body
  | .mk (some condition) body :: clauses => by
    unfold emitClauses
    refine (emit_related hs condition).bind fun _ _ _ _ hc =>
      (emitBranch_related ht (emit_related hs body)).bind fun _ henv _ _ hbody => ?_
    have hc := ht.mono henv hc
    dsimp only
    split
    · exact EmitRelated.call ht .cond (.cons hc (.cons hbody (.cons (ht.literal .none) .nil)))
    · exact (emitBranch_related ht (emitClauses_related hs clauses)).bind fun _ henv _ _ hrest =>
        EmitRelated.call ht .cond
          (.cons (ht.mono henv hc) (.cons (ht.mono henv hbody) (.cons hrest .nil)))

end

end Formula

/-! ## Cells -/

section Cells

variable {cells : Nat → Prop} {t : Target κ} {t' : Target κ'} (ht : Target.Related cells K t t')

include ht

theorem emitFields_related {env : Pairs} {fields : List (String × Nat)}
    (hfields : ∀ p ∈ fields, cells p.2) {object : κ} {object' : κ'} (ho : K env object object') :
    EmitRelated K K env (emitFields t object fields) (emitFields t' object' fields) := by
  induction fields generalizing env object object' with
  | nil => exact .pure fun _ henv => ht.mono henv ho
  | cons field fields ih =>
    obtain ⟨name, id⟩ := field
    obtain ⟨hid, hfields⟩ := List.forall_mem_cons.mp hfields
    exact (EmitRelated.call ht .insert
      (.cons ho (.cons (ht.literal _) (.cons (ht.cell hid) .nil)))).bind
      fun _ _ _ _ ho => ih hfields ho

/-- **What is emitted for a cell** reads the cells that its names mean, or the named cells in it. -/
theorem Cell.emitValue_related {fields : List (String × Nat)} {c : Cell}
    (hreferences : ∀ p ∈ c.references, cells p.2) (hfields : c.isContainer → ∀ p ∈ fields, cells p.2)
    {env : Pairs} : EmitRelated K K env (c.emitValue t fields) (c.emitValue t' fields) := by
  unfold emitValue
  dsimp only
  split
  · rename_i hcontainer
    exact (EmitRelated.call ht .map .nil).bind
      fun _ _ _ _ ho => emitFields_related ht (hfields hcontainer) ho
  · split
    · exact .pure fun _ _ => ht.literal .none
    · split
      · exact Formula.emit_related ht hreferences _
      · exact .lambda ht _ (Formula.emit_related ht hreferences _)

end Cells

end Cellbook
