import Cellbook.Code.Basic

/-!
# Blocks of code

The statements and the result of a cell or a function are a block, and in a block there are functions with blocks of
their own. A block is scoped if it reads no variable that it has not set before. Then a function of it needs nothing
from around it: it has no captures if those inside have none (`capturesOf_eq_nil`).
-/

namespace Cellbook

variable {φ : Type}

namespace Code

/-! ## Blocks and functions -/

/-- **A block**: the statements and the result of a cell or a function. -/
structure Block (φ : Type) where
  statements : Statements φ
  result : Code φ

/-- A function in code: its block and its captures. -/
structure Lambda (φ : Type) where
  block : Block φ
  captures : List Nat

mutual

/-- The functions in code, outer ones first. -/
def lambdas : Code φ → List (Lambda φ)
  | .var _ | .param _ | .cell _ | .literal _ => []
  | .array items => lambdasAll items
  | .call _ args => lambdasAll args
  | .member object _ => lambdas object
  | .lambda _ body result captures => ⟨⟨body, result⟩, captures⟩ :: (lambdasBody body ++ lambdas result)

def lambdasAll : List (Code φ) → List (Lambda φ)
  | [] => []
  | c :: cs => lambdas c ++ lambdasAll cs

def lambdasBody : Statements φ → List (Lambda φ)
  | [] => []
  | (_, c) :: rest => lambdas c ++ lambdasBody rest

end

mutual

/-- The variables that code reads outside of its functions. -/
def ownVars : Code φ → List Nat
  | .var n => [n]
  | .param _ | .cell _ | .literal _ | .lambda _ _ _ _ => []
  | .array items => ownVarsAll items
  | .call _ args => ownVarsAll args
  | .member object _ => ownVars object

def ownVarsAll : List (Code φ) → List Nat
  | [] => []
  | c :: cs => ownVars c ++ ownVarsAll cs

end

namespace Block

/-- The functions in a block. -/
def lambdas (b : Block φ) : List (Lambda φ) := lambdasBody b.statements ++ b.result.lambdas

/-- The block and those of the functions in it. -/
def nested (b : Block φ) : List (Block φ) := b :: b.lambdas.map (·.block)

/-- The variables that the statements of a block set. -/
def sets (b : Block φ) : List Nat := b.statements.map (·.1)

/-- The variables that the statements and the result of a block read. -/
def reads (b : Block φ) : List Nat := b.statements.flatMap (·.2.ownVars) ++ b.result.ownVars

/-- **What a block reads, it has set before.** -/
structure Scoped (b : Block φ) : Prop where
  statement : ∀ front x c rest, b.statements = front ++ (x, c) :: rest → ∀ v ∈ c.ownVars, v ∈ front.map (·.1)
  result : ∀ v ∈ b.result.ownVars, v ∈ b.sets

/-- The statements of a function are in a block of their own. -/
example : (nested ⟨[(1, .lambda [] [(0, .cell 3)] (.var 0) [])], .var 1⟩ : List (Block Empty)).map (·.sets) =
    [[1], [0]] := rfl

theorem Scoped.mem_sets {b : Block φ} (h : b.Scoped) {v : Nat} (hv : v ∈ b.reads) : v ∈ b.sets := by
  rcases List.mem_append.mp hv with hv | hv
  · obtain ⟨⟨x, c⟩, hstatement, hv⟩ := List.mem_flatMap.mp hv
    obtain ⟨front, rest, hsplit⟩ := List.append_of_mem hstatement
    have hfront := h.statement front x c rest hsplit v hv
    rw [sets, hsplit, List.map_append]
    exact List.mem_append_left _ hfront
  · exact h.result v hv

end Block

/-- A variable is free in a function: it is read there, or in a function inside, but none of them sets it. -/
def Lambda.Free (l : Lambda φ) (v : Nat) : Prop :=
  (∃ b ∈ l.block.nested, v ∈ b.reads) ∧ ∀ b ∈ l.block.nested, v ∉ b.sets

/-- A function reads nothing from around it. -/
def Lambda.Closed (l : Lambda φ) : Prop := l.block.Scoped ∧ l.captures = []

/-- In a block whose functions read nothing from around them, everything that is read is set in the same place. -/
theorem Block.Scoped.nested {b : Block φ} (h : b.Scoped) (hclosed : ∀ l ∈ b.lambdas, l.Closed) :
    ∀ b' ∈ b.nested, b'.Scoped := by
  refine List.forall_mem_cons.mpr ⟨h, fun b' hb' => ?_⟩
  obtain ⟨l, hl, rfl⟩ := List.mem_map.mp hb'
  exact (hclosed l hl).1

/-! ## Captures -/

mutual

/-- The functions in a function in code are in the code. -/
theorem lambdas_subset {l : Lambda φ} : (c : Code φ) → l ∈ c.lambdas → l.block.lambdas ⊆ c.lambdas
  | .var _, h | .param _, h | .cell _, h | .literal _, h => nomatch h
  | .array items, h => lambdasAll_subset items h
  | .call _ args, h => lambdasAll_subset args h
  | .member object _, h => lambdas_subset object h
  | .lambda _ body result _, h => by
    rw [lambdas] at h ⊢
    rcases List.mem_cons.mp h with rfl | h
    · exact List.subset_cons_self _ _
    rcases List.mem_append.mp h with h | h
    · exact List.subset_cons_of_subset _ (List.subset_append_of_subset_left _ (lambdasBody_subset body h))
    · exact List.subset_cons_of_subset _ (List.subset_append_of_subset_right _ (lambdas_subset result h))

theorem lambdasAll_subset {l : Lambda φ} : (cs : List (Code φ)) → l ∈ lambdasAll cs → l.block.lambdas ⊆ lambdasAll cs
  | c :: cs, h => by
    rcases List.mem_append.mp h with h | h
    · exact List.subset_append_of_subset_left _ (lambdas_subset c h)
    · exact List.subset_append_of_subset_right _ (lambdasAll_subset cs h)

theorem lambdasBody_subset {l : Lambda φ} : (body : Statements φ) → l ∈ lambdasBody body →
    l.block.lambdas ⊆ lambdasBody body
  | (_, c) :: rest, h => by
    rcases List.mem_append.mp h with h | h
    · exact List.subset_append_of_subset_left _ (lambdas_subset c h)
    · exact List.subset_append_of_subset_right _ (lambdasBody_subset rest h)

end

theorem Block.lambdas_subset {l : Lambda φ} (b : Block φ) (h : l ∈ b.lambdas) : l.block.lambdas ⊆ b.lambdas := by
  rcases List.mem_append.mp h with h | h
  · exact List.subset_append_of_subset_left _ (lambdasBody_subset _ h)
  · exact List.subset_append_of_subset_right _ (Code.lambdas_subset _ h)

mutual

/-- Where functions have no captures, code reads no other variables than outside of them. -/
theorem vars_eq_ownVars : (c : Code φ) → (∀ l ∈ c.lambdas, l.captures = []) → c.vars = c.ownVars
  | .var _, _ | .param _, _ | .cell _, _ | .literal _, _ => rfl
  | .array items, h => varsAll_eq_ownVarsAll items h
  | .call _ args, h => varsAll_eq_ownVarsAll args h
  | .member object _, h => vars_eq_ownVars object h
  | .lambda _ _ _ _, h => h _ List.mem_cons_self

theorem varsAll_eq_ownVarsAll : (cs : List (Code φ)) → (∀ l ∈ lambdasAll cs, l.captures = []) →
    varsAll cs = ownVarsAll cs
  | [], _ => rfl
  | c :: cs, h => by
    obtain ⟨hc, hcs⟩ := List.forall_mem_append.mp h
    rw [varsAll, ownVarsAll, vars_eq_ownVars c hc, varsAll_eq_ownVarsAll cs hcs]

end

theorem mem_lambdasBody {body : Statements φ} {l : Lambda φ} :
    l ∈ lambdasBody body ↔ ∃ s ∈ body, l ∈ s.2.lambdas := by
  induction body with
  | nil => simp [lambdasBody]
  | cons s body ih => simp [lambdasBody, ih]

theorem lambdasBody_append (body body' : Statements φ) :
    lambdasBody (body ++ body') = lambdasBody body ++ lambdasBody body' := by
  induction body with
  | nil => rfl
  | cons s body ih => rw [List.cons_append, lambdasBody, lambdasBody, ih, List.append_assoc]

/-- **A function has no captures** if it is scoped, and those inside have none. -/
theorem capturesOf_eq_nil {b : Block φ} (hscoped : b.Scoped) (hclosed : ∀ l ∈ b.lambdas, l.Closed) :
    capturesOf b.statements b.result = [] := by
  obtain ⟨hbody, hresult⟩ := List.forall_mem_append.mp hclosed
  refine List.eq_nil_iff_forall_not_mem.mpr fun v hv => ?_
  obtain ⟨hread, hset⟩ := List.mem_filter.mp (mem_ascending.mp hv)
  have hreads : v ∈ b.reads := by
    rcases List.mem_append.mp hread with hread | hread
    · obtain ⟨⟨x, c⟩, hs, hread⟩ := List.mem_flatMap.mp hread
      replace hread : v ∈ c.vars := hread
      rw [vars_eq_ownVars c fun l hl => (hbody l (mem_lambdasBody.mpr ⟨_, hs, hl⟩)).2] at hread
      exact List.mem_append_left _ (List.mem_flatMap.mpr ⟨_, hs, hread⟩)
    · rw [vars_eq_ownVars b.result fun l hl => (hresult l hl).2] at hread
      exact List.mem_append_right _ hread
  have hsets : v ∈ b.statements.map (·.1) := hscoped.mem_sets hreads
  rw [List.contains_iff_mem.mpr hsets] at hset
  cases hset

end Code

end Cellbook
