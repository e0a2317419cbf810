import Mathlib.Data.List.Nodup
import Cellbook.Emission.Tree
import Cellbook.Proofs.Emission.Blocks

/-!
# Every variable is set once

In the program of a notebook no two statements set the same variable, in whatever cells and functions they stand.
What is read in the statements and the result of a cell or a function is set further up in the same one, so no
function has captures (`Notebook.program_assigned`).

**Numbers.** An emission takes the numbers of its variables one after the other, those in the bodies of functions
too: the variables that are set between two numbers are all the numbers between them (`Numbered`). Code that is put
together is plain, that is without functions in it, since a function is set to a variable at once. Only the code of a
cell with parameters is a function, and nothing is put together of that.
-/

namespace Cellbook

variable {φ : Type}

namespace Code

/-! ## Statements -/

/-- What statements read is set in `env` or by earlier ones. -/
def ScopedBody (env : List Nat) : Statements φ → Prop
  | [] => True
  | (x, c) :: rest => c.ownVars ⊆ env ∧ ScopedBody (env ++ [x]) rest

theorem ScopedBody.append {env : List Nat} {body body' : Statements φ} (h : ScopedBody env body)
    (h' : ScopedBody (env ++ body.map (·.1)) body') : ScopedBody env (body ++ body') := by
  induction body generalizing env with
  | nil => rwa [List.map_nil, List.append_nil] at h'
  | cons s body ih =>
    refine ⟨h.1, ih h.2 ?_⟩
    rw [List.append_assoc, List.singleton_append]
    exact h'

theorem ScopedBody.subset {env : List Nat} {front rest : Statements φ} {x : Nat} {c : Code φ}
    (h : ScopedBody env (front ++ (x, c) :: rest)) : c.ownVars ⊆ env ++ front.map (·.1) := by
  induction front generalizing env with
  | nil =>
    rw [List.map_nil, List.append_nil]
    exact h.1
  | cons s front ih =>
    have hsubset := ih h.2
    rwa [List.append_assoc, List.singleton_append] at hsubset

/-- The variables that statements set, and functions in them. -/
def setsAll (body : Statements φ) : List Nat := body.map (·.1) ++ (lambdasBody body).flatMap (·.block.sets)

theorem setsAll_append (body body' : Statements φ) :
    (setsAll (body ++ body')).Perm (setsAll body ++ setsAll body') := by
  unfold setsAll
  rw [List.map_append, lambdasBody_append, List.flatMap_append, List.append_assoc, List.append_assoc]
  exact (List.perm_append_comm_assoc _ _ _).append_left _

/-- **Code without functions**, that reads variables in `env`. -/
def Plain (env : List Nat) (c : Code φ) : Prop := c.lambdas = [] ∧ c.ownVars ⊆ env

theorem Plain.mono {env env' : List Nat} {c : Code φ} (h : c.Plain env) (henv : env ⊆ env') : c.Plain env' :=
  ⟨h.1, fun _ hv => henv (h.2 hv)⟩

def PlainAll (env : List Nat) (cs : List (Code φ)) : Prop := ∀ c ∈ cs, c.Plain env

theorem PlainAll.mono {env env' : List Nat} {cs : List (Code φ)} (h : PlainAll env cs) (henv : env ⊆ env') :
    PlainAll env' cs := fun c hc => (h c hc).mono henv

theorem PlainAll.cons {env : List Nat} {c : Code φ} {cs : List (Code φ)} (h : c.Plain env) (hs : PlainAll env cs) :
    PlainAll env (c :: cs) := List.forall_mem_cons.mpr ⟨h, hs⟩

theorem PlainAll.nil {env : List Nat} : PlainAll env ([] : List (Code φ)) := List.forall_mem_nil _

theorem PlainAll.all {env : List Nat} {cs : List (Code φ)} (h : PlainAll env cs) :
    lambdasAll cs = [] ∧ ownVarsAll cs ⊆ env := by
  induction cs with
  | nil => exact ⟨rfl, List.nil_subset _⟩
  | cons c cs ih =>
    obtain ⟨hc, hcs⟩ := List.forall_mem_cons.mp h
    refine ⟨?_, List.append_subset.mpr ⟨hc.2, (ih hcs).2⟩⟩
    rw [lambdasAll, hc.1, (ih hcs).1, List.append_nil]

theorem PlainAll.call {env : List Nat} {cs : List (Code φ)} (b : Builtin) (h : PlainAll env cs) :
    (Code.call b cs).Plain env := h.all

theorem PlainAll.array {env : List Nat} {cs : List (Code φ)} (h : PlainAll env cs) :
    (Code.array cs).Plain env := h.all

end Code

/-! ## Emissions -/

open Code

/-- Numbers are those from `n` up to `n'`, in any order. -/
def Numbered (n n' : Nat) (vs : List Nat) : Prop := ∃ k, n' = n + k ∧ vs.Perm (List.range' n k)

theorem Numbered.nil (n : Nat) : Numbered n n [] := ⟨0, rfl, .nil⟩

theorem Numbered.append {n m n' : Nat} {vs ws : List Nat} (h : Numbered n m vs) (h' : Numbered m n' ws) :
    Numbered n n' (vs ++ ws) := by
  obtain ⟨k, rfl, hvs⟩ := h
  obtain ⟨k', rfl, hws⟩ := h'
  refine ⟨k + k', Nat.add_assoc n k k', ?_⟩
  rw [← List.range'_append_1]
  exact hvs.append hws

theorem Numbered.perm {n n' : Nat} {vs ws : List Nat} (h : Numbered n n' vs) (hperm : ws.Perm vs) :
    Numbered n n' ws := by
  obtain ⟨k, hk, hvs⟩ := h
  exact ⟨k, hk, hperm.trans hvs⟩

theorem Numbered.nodup {n n' : Nat} {vs : List Nat} (h : Numbered n n' vs) : vs.Nodup := by
  obtain ⟨k, -, hvs⟩ := h
  exact hvs.nodup_iff.mpr List.nodup_range'

/-- What an emission gives at a number, where the variables in `env` are set. -/
structure EmitScopedAt {α : Type} (A : List Nat → α → Prop) (env : List Nat) (n : Nat)
    (o : α × Statements φ × Nat) : Prop where
  numbered : Numbered n o.2.2 (setsAll o.2.1)
  body : ScopedBody env o.2.1
  closed : ∀ l ∈ lambdasBody o.2.1, l.Closed
  given : A (env ++ o.2.1.map (·.1)) o.1

/-- **An emission that numbers its variables and reads them where they are set**, wherever at least those in `env`
are. -/
def EmitScoped {α : Type} (A : List Nat → α → Prop) (env : List Nat) (m : Emit (Code φ) α) : Prop :=
  ∀ ⦃env₁⦄, env ⊆ env₁ → ∀ n, EmitScopedAt A env₁ n (m n)

/-- The emission of plain code. -/
abbrev EmitsPlain (env : List Nat) (m : Emit (Code φ) (Code φ)) : Prop := EmitScoped Plain env m

namespace EmitScoped

variable {α β : Type} {A : List Nat → α → Prop} {B : List Nat → β → Prop} {env : List Nat}

theorem pure {a : α} (h : ∀ ⦃env'⦄, env ⊆ env' → A env' a) :
    EmitScoped A env (Pure.pure a : Emit (Code φ) α) := fun _ henv n =>
  ⟨.nil n, trivial, List.forall_mem_nil _, h (List.subset_append_of_subset_left _ henv)⟩

theorem bind {m : Emit (Code φ) α} {f : α → Emit (Code φ) β} (h : EmitScoped A env m)
    (hf : ∀ ⦃env'⦄, env ⊆ env' → ∀ a, A env' a → EmitScoped B env' (f a)) : EmitScoped B env (m >>= f) := by
  intro env₁ henv n
  have h₁ := h henv n
  have h₂ := hf (List.subset_append_of_subset_left _ henv) _ h₁.given (List.Subset.refl _) (m n).2.2
  rw [Emit.bind_apply]
  -- The functions of both stand behind the statements of both, so the numbers are the same in another order.
  refine ⟨(h₁.numbered.append h₂.numbered).perm (setsAll_append _ _), h₁.body.append h₂.body, ?_, ?_⟩
  · rw [lambdasBody_append]
    exact List.forall_mem_append.mpr ⟨h₁.closed, h₂.closed⟩
  · rw [List.map_append, ← List.append_assoc]
    exact h₂.given

theorem declare {c : Code φ} (h : c.Plain env) : EmitsPlain env (Emit.declare .tree c) := by
  intro env₁ henv n
  obtain ⟨hlambdas, hvars⟩ := h.mono henv
  have hnone : lambdasBody [(n, c)] = [] := (List.append_nil _).trans hlambdas
  refine ⟨⟨1, rfl, ?_⟩, ⟨hvars, trivial⟩, ?_, rfl, ?_⟩
  · show (setsAll [(n, c)]).Perm [n]
    rw [setsAll, hnone]
    exact .refl _
  · show ∀ l ∈ lambdasBody [(n, c)], l.Closed
    rw [hnone]
    exact List.forall_mem_nil _
  · exact fun _ hv => List.mem_append_right _ hv

theorem call (b : Builtin) {cs : List (Code φ)} (h : PlainAll env cs) : EmitsPlain env (Emit.call .tree b cs) :=
  declare (h.call b)

end EmitScoped

/-- **A block stands by itself**: it numbers its variables, with those of its functions, and reads them where they are
set. -/
structure Code.Block.Sound (n n' : Nat) (b : Block φ) : Prop where
  numbered : Numbered n n' (b.nested.flatMap (·.sets))
  reads_set : b.Scoped
  closed : ∀ l ∈ b.lambdas, l.Closed

theorem Code.Block.sets_nested (b : Block φ) :
    b.nested.flatMap (·.sets) = b.sets ++ b.lambdas.flatMap (·.block.sets) := by
  rw [nested, List.flatMap_cons, List.flatMap_map]

/-- The emission of a block that stands by itself. -/
def Emit.Sound (m : Emit (Code φ) (Code φ)) : Prop := ∀ n, Block.Sound n (m n).2.2 ⟨(m n).2.1, (m n).1⟩

/-- What is emitted where nothing is set is a block that stands by itself. -/
theorem EmitScoped.sound {m : Emit (Code φ) (Code φ)} (h : EmitsPlain [] m) : m.Sound := by
  intro n
  obtain ⟨hnumbered, hbody, hclosed, hplain, hresult⟩ := h (List.Subset.refl []) n
  have hlambdas : Block.lambdas ⟨(m n).2.1, (m n).1⟩ = lambdasBody (m n).2.1 := by
    rw [Block.lambdas, hplain, List.append_nil]
  refine ⟨?_, ⟨?_, hresult⟩, ?_⟩
  · rw [Block.sets_nested, hlambdas]
    exact hnumbered
  · intro front x c rest hsplit v hv
    replace hsplit : (m n).2.1 = front ++ (x, c) :: rest := hsplit
    rw [hsplit] at hbody
    exact hbody.subset hv
  · rwa [hlambdas]

/-- The function of a block. -/
def Code.Block.toLambda (params : List String) (b : Block φ) : Code φ :=
  .lambda params b.statements b.result (capturesOf b.statements b.result)

/-- The functions in the function of a block: that function, and those in the block. -/
theorem Code.Block.Sound.lambdas_toLambda {n n' : Nat} {b : Block φ} (h : b.Sound n n') (params : List String) :
    (b.toLambda params).lambdas = ⟨b, []⟩ :: b.lambdas := by
  show (⟨b, capturesOf b.statements b.result⟩ : Lambda φ) :: b.lambdas = _
  rw [capturesOf_eq_nil h.reads_set h.closed]

theorem Code.Block.Sound.closed_toLambda {n n' : Nat} {b : Block φ} (h : b.Sound n n') (params : List String) :
    ∀ l ∈ (b.toLambda params).lambdas, l.Closed := by
  rw [h.lambdas_toLambda]
  exact List.forall_mem_cons.mpr ⟨⟨h.reads_set, rfl⟩, h.closed⟩

/-- A block with a function as its result. -/
theorem Code.Block.Sound.result {n n' : Nat} {b : Block φ} (h : b.Sound n n') (params : List String) :
    Block.Sound n n' ⟨[], b.toLambda params⟩ := by
  refine ⟨?_, ⟨fun front x c rest hsplit => ?_, List.forall_mem_nil _⟩, h.closed_toLambda params⟩
  · have hlambdas : Block.lambdas ⟨[], b.toLambda params⟩ = ⟨b, []⟩ :: b.lambdas := h.lambdas_toLambda params
    rw [Block.sets_nested, hlambdas]
    have hnumbered := h.numbered
    rw [Block.sets_nested] at hnumbered
    exact hnumbered
  · exact absurd hsplit (by simp)

/-- A function is set to a variable. -/
theorem EmitScoped.lambda {env : List Nat} (params : List String) {m : Emit (Code φ) (Code φ)}
    (h : EmitsPlain [] m) : EmitsPlain env (Emit.lambda .tree params m >>= Emit.declare .tree) := by
  intro env₁ _ n
  have hblock := EmitScoped.sound h n
  have hemit : (Emit.lambda .tree params m >>= Emit.declare .tree) n = ((.var (m n).2.2 : Code φ),
      [((m n).2.2, Block.toLambda params ⟨(m n).2.1, (m n).1⟩)], (m n).2.2 + 1) := rfl
  rw [hemit]
  generalize (⟨(m n).2.1, (m n).1⟩ : Block φ) = b at hblock ⊢
  generalize (m n).2.2 = n' at hblock ⊢
  have hlambdas : lambdasBody [(n', b.toLambda params)] = ⟨b, []⟩ :: b.lambdas :=
    (List.append_nil _).trans (hblock.lambdas_toLambda params)
  have hone : Numbered n' (n' + 1) [n'] := ⟨1, rfl, .refl _⟩
  refine ⟨(hblock.numbered.append hone).perm ?_, ⟨List.nil_subset _, trivial⟩, ?_, rfl, ?_⟩
  · show (setsAll [(n', b.toLambda params)]).Perm _
    rw [setsAll, hlambdas, List.flatMap_cons, ← Block.sets_nested]
    exact List.perm_append_comm
  · show ∀ l ∈ lambdasBody [(n', b.toLambda params)], l.Closed
    rw [hlambdas, ← hblock.lambdas_toLambda params]
    exact hblock.closed_toLambda params
  · exact fun _ hv => List.mem_append_right _ hv

/-- A function is set to a variable, and something else follows. -/
theorem EmitScoped.lambda_bind {β : Type} {B : List Nat → β → Prop} {env : List Nat} (params : List String)
    {m : Emit (Code φ) (Code φ)} {f : Code φ → Emit (Code φ) β} (h : EmitsPlain [] m)
    (hf : ∀ ⦃env'⦄, env ⊆ env' → ∀ c, c.Plain env' → EmitScoped B env' (f c)) :
    EmitScoped B env (Emit.lambda .tree params m >>= fun c => Emit.declare .tree c >>= f) :=
  (EmitScoped.lambda params h).bind hf

/-! ## Formulas -/

namespace Formula

open EmitScoped

variable {s : Scope} {env : List Nat}

theorem plain_literal (v : Value φ) (env : List Nat) : (Code.literal v).Plain env := ⟨rfl, List.nil_subset _⟩

theorem emitName_scoped (name : String) : EmitsPlain (φ := φ) env (emitName .tree s name) := by
  unfold emitName
  split
  · exact .pure fun _ _ => ⟨rfl, List.nil_subset _⟩
  · split
    · exact .pure fun _ _ => ⟨rfl, List.nil_subset _⟩
    · exact EmitScoped.call _ (.cons (plain_literal _ _) .nil)

theorem emitBranch_scoped {m : Emit (Code φ) (Code φ)} (h : EmitsPlain [] m) :
    EmitsPlain env (emitBranch .tree m) := EmitScoped.lambda [] h

theorem emitRange_scoped {before after : List (Code φ)} (hbefore : PlainAll env before)
    (hafter : PlainAll env after) : EmitsPlain env (emitRange .tree before after) :=
  EmitScoped.call _ (.cons hbefore.array (.cons hafter.array (.cons (plain_literal _ _) .nil)))

mutual

/-- **The code of a formula** numbers its variables and reads them where they are set. -/
theorem emit_scoped {s : Scope} {env : List Nat} : (f : Formula) → EmitsPlain (φ := φ) env (f.emit .tree s)
  | .literal _ _ => .pure fun _ _ => plain_literal _ _
  | .identifier _ name => emitName_scoped name
  | .binary _ _ left right =>
    (emit_scoped left).bind fun _ _ _ hl => (emit_scoped right).bind fun _ henv _ hr =>
      EmitScoped.call _ (.cons (hl.mono henv) (.cons hr .nil))
  | .unary _ _ operand => (emit_scoped operand).bind fun _ _ _ hc => EmitScoped.call _ (.cons hc .nil)
  | .map _ entries => (EmitScoped.call .map .nil).bind fun _ _ _ ho => emitEntries_scoped entries ho
  | .block _ parts => emitParts_scoped parts
  | .array _ elements none =>
    (emitAll_scoped elements).bind fun _ _ _ hcs => EmitScoped.call _ (.cons hcs.array .nil)
  | .array _ elements (some place) =>
    (emitAround_scoped elements place).bind fun _ _ _ hcs => emitRange_scoped hcs.1 hcs.2
  | .range _ first last =>
    (emitEnd_scoped first).bind fun _ _ _ hfirst => (emitEnd_scoped last).bind fun _ henv _ hlast =>
      emitRange_scoped (hfirst.mono henv) hlast
  | .index _ target key =>
    (emit_scoped target).bind fun _ _ _ htarget => (emit_scoped key).bind fun _ henv _ hkey =>
      EmitScoped.call _ (.cons (htarget.mono henv) (.cons hkey .nil))
  | .call _ callee args =>
    (emit_scoped callee).bind fun _ _ _ hcallee => (emitAll_scoped args).bind fun _ henv _ hargs =>
      EmitScoped.call _ (.cons (hcallee.mono henv) hargs)
  | .conditional _ clauses => emitClauses_scoped clauses
  | .member _ object _ => (emit_scoped object).bind fun _ _ _ hc => declare hc

theorem emitAll_scoped {s : Scope} {env : List Nat} : (fs : List Formula) →
    EmitScoped (φ := φ) PlainAll env (emitAll .tree s fs)
  | [] => .pure fun _ _ => .nil
  | f :: fs =>
    (emit_scoped f).bind fun _ _ _ hc => (emitAll_scoped fs).bind fun _ henv _ hcs =>
      .pure fun _ henv' => .cons (hc.mono (List.Subset.trans henv henv')) (hcs.mono henv')

theorem emitParts_scoped {s : Scope} {env : List Nat} : (fs : List Formula) →
    EmitsPlain (φ := φ) env (emitParts .tree s fs)
  | [] => .pure fun _ _ => plain_literal _ _
  | [f] => emit_scoped f
  | f :: g :: fs => (emit_scoped f).bind fun _ _ _ _ => emitParts_scoped (g :: fs)

theorem emitEnd_scoped {s : Scope} {env : List Nat} : (f? : Option Formula) →
    EmitScoped (φ := φ) PlainAll env (emitEnd .tree s f?)
  | none => .pure fun _ _ => .nil
  | some f => (emit_scoped f).bind fun _ _ _ hc => .pure fun _ henv => .cons (hc.mono henv) .nil

theorem emitAround_scoped {s : Scope} {env : List Nat} : (fs : List Formula) → (place : Nat) →
    EmitScoped (φ := φ) (fun env p => PlainAll env p.1 ∧ PlainAll env p.2) env (emitAround .tree s place fs)
  | [], _ => .pure fun _ _ => ⟨.nil, .nil⟩
  | .range _ first last :: fs, 0 =>
    (emitEnd_scoped first).bind fun _ _ _ hfirst => (emitEnd_scoped last).bind fun _ henv _ hlast =>
      (emitAll_scoped fs).bind fun _ henv' _ hfs => .pure fun _ henv'' =>
        ⟨hfirst.mono (List.Subset.trans henv (List.Subset.trans henv' henv'')),
          List.forall_mem_append.mpr ⟨hlast.mono (List.Subset.trans henv' henv''), hfs.mono henv''⟩⟩
  | .literal _ _ :: fs, 0 | .identifier _ _ :: fs, 0 | .binary _ _ _ _ :: fs, 0
  | .unary _ _ _ :: fs, 0 | .map _ _ :: fs, 0 | .block _ _ :: fs, 0 | .array _ _ _ :: fs, 0
  | .index _ _ _ :: fs, 0 | .call _ _ _ :: fs, 0 | .conditional _ _ :: fs, 0
  | .member _ _ _ :: fs, 0 =>
    (emitAll_scoped fs).bind fun _ _ _ hfs => .pure fun _ henv => ⟨.nil, hfs.mono henv⟩
  | f :: fs, place + 1 =>
    (emit_scoped f).bind fun _ _ _ hc => (emitAround_scoped fs place).bind fun _ henv _ hcs =>
      .pure fun _ henv' => ⟨.cons (hc.mono (List.Subset.trans henv henv')) (hcs.1.mono henv'), hcs.2.mono henv'⟩

theorem emitEntries_scoped {s : Scope} {env : List Nat} : (entries : List Entry) → {object : Code φ} →
    object.Plain env → EmitsPlain env (emitEntries .tree s object entries)
  | [], _, ho => .pure fun _ henv => ho.mono henv
  | .mk (.name key) value _ :: entries, _, ho =>
    (emit_scoped value).bind fun _ henv _ hv =>
      (EmitScoped.call .insert (.cons (ho.mono henv) (.cons (plain_literal _ _) (.cons hv .nil)))).bind
        fun _ _ _ ho => emitEntries_scoped entries ho
  | .mk (.computed key) value _ :: entries, _, ho =>
    (emit_scoped key).bind fun _ henv _ hk => (emit_scoped value).bind fun _ henv' _ hv =>
      have ho := ho.mono (List.Subset.trans henv henv')
      (EmitScoped.call .insert (.cons ho (.cons (hk.mono henv') (.cons hv .nil)))).bind
        fun _ _ _ ho => emitEntries_scoped entries ho
  | .mk (.signature name params _ guard) value _ :: entries, _, ho => by
    unfold emitEntries
    refine lambda_bind params (emit_scoped value) fun _ henv _ hm =>
      (emitGuard_scoped params guard hm).bind fun _ henv' _ hm => ?_
    have ho := ho.mono (List.Subset.trans henv henv')
    cases name with
    | none =>
      exact (EmitScoped.call .define (.cons ho (.cons hm .nil))).bind fun _ _ _ ho => emitEntries_scoped entries ho
    | some name =>
      exact (EmitScoped.call .insert (.cons ho (.cons (plain_literal _ _) (.cons hm .nil)))).bind
        fun _ _ _ ho => emitEntries_scoped entries ho

theorem emitGuard_scoped {s : Scope} {env : List Nat} (params : List String) : (guard : Option Formula) →
    {method : Code φ} → method.Plain env → EmitsPlain env (emitGuard .tree s params method guard)
  | none, _, hm => .pure fun _ henv => hm.mono henv
  | some f, _, hm =>
    lambda_bind params (emit_scoped f) fun _ henv _ hg => EmitScoped.call _ (.cons (hm.mono henv) (.cons hg .nil))

theorem emitClauses_scoped {s : Scope} {env : List Nat} : (clauses : List Clause) →
    EmitsPlain (φ := φ) env (emitClauses .tree s clauses)
  | [] => .pure fun _ _ => plain_literal _ _
  | .mk none body :: _ => emit_scoped body
  | .mk (some condition) body :: clauses => by
    unfold emitClauses
    refine (emit_scoped condition).bind fun _ _ _ hc =>
      (emitBranch_scoped (emit_scoped body)).bind fun _ henv _ hbody => ?_
    have hc := hc.mono henv
    dsimp only
    split
    · exact EmitScoped.call _ (.cons hc (.cons hbody (.cons (plain_literal _ _) .nil)))
    · exact (emitBranch_scoped (emitClauses_scoped clauses)).bind fun _ henv _ hrest =>
        EmitScoped.call _ (.cons (hc.mono henv) (.cons (hbody.mono henv) (.cons hrest .nil)))

end

end Formula

/-! ## Programs -/

theorem emitFields_scoped {env : List Nat} (fields : List (String × Nat)) {object : Code φ} (ho : object.Plain env) :
    EmitsPlain env (emitFields .tree object fields) := by
  induction fields generalizing env object with
  | nil => exact .pure fun _ henv => ho.mono henv
  | cons field fields ih =>
    exact (EmitScoped.call .insert (.cons ho (.cons (Formula.plain_literal _ _)
      (.cons ⟨rfl, List.nil_subset _⟩ .nil)))).bind fun _ _ _ ho => ih ho

/-- **The code of a cell** stands by itself. -/
theorem Cell.emitValue_sound (fields : List (String × Nat)) (c : Cell) :
    Emit.Sound (φ := φ) (c.emitValue .tree fields) := by
  unfold emitValue
  dsimp only
  split
  · exact EmitScoped.sound ((EmitScoped.call .map .nil).bind fun _ _ _ ho => emitFields_scoped fields ho)
  · split
    · exact EmitScoped.sound (.pure fun _ _ => Formula.plain_literal _ _)
    next f _ =>
      split
      · exact EmitScoped.sound (Formula.emit_scoped f)
      · exact fun n => (EmitScoped.sound (Formula.emit_scoped f) n).result c.params

/-- The block of a cell that runs. -/
def CellCode.block? (c : CellCode φ) : Option (Block φ) :=
  match c.task with
  | .run body result _ => some ⟨body, result⟩
  | .report _ | .skip => none

namespace Program

/-- The blocks of a program, those of its cells and of its functions. -/
def blocks (p : Program φ) : List (Block φ) := (p.filterMap (·.block?)).flatMap (·.nested)

/-- The functions of a program. -/
def lambdas (p : Program φ) : List (Lambda φ) := (p.filterMap (·.block?)).flatMap (·.lambdas)

/-- **A program sets each variable once, and reads it where it is set.** -/
structure Assigned (p : Program φ) : Prop where
  /-- No two statements set the same variable. -/
  nodup : (p.blocks.flatMap (·.sets)).Nodup
  /-- What is read in a cell or a function is set further up in the same one. -/
  reads_set : ∀ b ∈ p.blocks, b.Scoped
  /-- The captures of a function are the variables that are free in it. -/
  captures_iff : ∀ l ∈ p.lambdas, ∀ v, v ∈ l.captures ↔ l.Free v
  /-- No function has captures. -/
  captures_nil : ∀ l ∈ p.lambdas, l.captures = []

end Program

/-- Cells stand by themselves, and number their variables one after the other. -/
structure Program.Sound (n n' : Nat) (p : Program φ) : Prop where
  numbered : Numbered n n' (p.blocks.flatMap (·.sets))
  closed : ∀ b ∈ p.filterMap (·.block?), b.Scoped ∧ ∀ l ∈ b.lambdas, l.Closed

namespace Program

theorem Sound.append {n m n' : Nat} {p q : Program φ} (h : p.Sound n m) (h' : q.Sound m n') :
    Sound n n' (p ++ q) := by
  refine ⟨?_, ?_⟩
  · rw [blocks, List.filterMap_append, List.flatMap_append, List.flatMap_append]
    exact h.numbered.append h'.numbered
  · rw [List.filterMap_append]
    exact List.forall_mem_append.mpr ⟨h.closed, h'.closed⟩

/-- Cells that do not run set nothing. -/
theorem Sound.of_none {p : Program φ} (h : ∀ c ∈ p, c.block? = none) (n : Nat) : Sound n n p := by
  have hblocks : p.filterMap (·.block?) = [] := List.filterMap_eq_nil_iff.mpr h
  refine ⟨?_, ?_⟩
  · rw [blocks, hblocks]
    exact .nil n
  · rw [hblocks]
    exact List.forall_mem_nil _

theorem Sound.of_some {c : CellCode φ} {b : Block φ} (hc : c.block? = some b) {n n' : Nat} (h : b.Sound n n') :
    Sound n n' [c] := by
  have hblocks : [c].filterMap (·.block?) = [b] := List.filterMap_cons_some hc
  refine ⟨?_, ?_⟩
  · rw [blocks, hblocks, List.flatMap_singleton]
    exact h.numbered
  · rw [hblocks]
    exact List.forall_mem_singleton.mpr ⟨h.reads_set, h.closed⟩

/-- What stands by itself sets each variable once, and reads it where it is set. -/
theorem Sound.assigned {n n' : Nat} {p : Program φ} (h : p.Sound n n') : p.Assigned := by
  -- A function inside of a function of the program is one of the program, so it is closed as well.
  have hclosed : ∀ l ∈ p.lambdas, l.Closed ∧ ∀ l' ∈ l.block.lambdas, l'.Closed := by
    intro l hl
    obtain ⟨b, hb, hl⟩ := List.mem_flatMap.mp hl
    have hall := (h.closed b hb).2
    exact ⟨hall l hl, fun l' hl' => hall l' (b.lambdas_subset hl hl')⟩
  refine ⟨h.numbered.nodup, ?_, ?_, fun l hl => (hclosed l hl).1.2⟩
  · intro b' hb'
    obtain ⟨b, hb, hb'⟩ := List.mem_flatMap.mp hb'
    exact (h.closed b hb).1.nested (h.closed b hb).2 b' hb'
  · intro l hl v
    obtain ⟨⟨hscoped, hcaptures⟩, hinner⟩ := hclosed l hl
    rw [hcaptures]
    refine ⟨(nomatch ·), fun ⟨⟨b, hb, hread⟩, hset⟩ => ?_⟩
    exact absurd ((hscoped.nested hinner b hb).mem_sets hread) (hset b hb)

end Program

namespace Notebook

theorem emitCell_sound (nb : Notebook) (c : Cell) (n : Nat) :
    Program.Sound n (nb.emitCell (κ := Code φ) .tree c n).2.2 [(nb.emitCell (κ := Code φ) .tree c n).1.toCode] := by
  have hvalue := c.emitValue_sound (φ := φ) (nb.fields c) n
  unfold emitCell
  cases c.content with
  | faulty fault => exact .of_none (List.forall_mem_singleton.mpr rfl) n
  | _ => exact .of_some rfl hvalue

theorem emitCells_sound (nb : Notebook) (cs : List Cell) (n : Nat) :
    Program.Sound n (nb.emitCells (κ := Code φ) .tree cs n).2.2
      ((nb.emitCells (κ := Code φ) .tree cs n).1.map (·.toCode)) := by
  induction cs generalizing n with
  | nil => exact .of_none (List.forall_mem_nil _) n
  | cons c cs ih => exact (nb.emitCell_sound c n).append (ih _)

theorem cyclicReports_sound (nb : Notebook) (n : Nat) :
    Program.Sound n n ((nb.cyclicReports (κ := Code φ)).map (·.toCode)) := by
  refine .of_none (fun c hc => ?_) n
  obtain ⟨e, he, rfl⟩ := List.mem_map.mp hc
  obtain ⟨id, -, he⟩ := List.mem_filterMap.mp he
  obtain ⟨c, -, he⟩ := Option.bind_eq_some_iff.mp he
  obtain ⟨fault, -, he⟩ := Option.bind_eq_some_iff.mp he
  cases he
  rfl

/-- **In the program of a notebook each variable is set once**, and read in the same cell or function only. -/
theorem program_assigned (nb : Notebook) : Program.Assigned (nb.program (φ := φ)) := by
  have hcells := nb.emitCells_sound (φ := φ) (nb.evalOrder.filterMap nb.cell?) 0
  have hprogram := hcells.append (nb.cyclicReports_sound _)
  rw [← List.map_append] at hprogram
  exact hprogram.assigned

end Notebook

end Cellbook
