import Cellbook.Proofs.Machine.Ends

/-!
# Operands

Emitted code consists of calls whose arguments are no calls: they are variables, parameters, cells and
literals, or arrays of these. Such code has its value where it stands, whatever functions do, and to
evaluate it takes no identity. But it may have none, if a cell has failed; and as it is evaluated where it
is used and not where it was emitted, the variables that are set in between must not change what it reads.
-/

namespace Cellbook

open Run

namespace Code

mutual

/-- Whether code may be an argument of a call in emitted code. -/
def isOperand {φ : Type} : Code φ → Bool
  | .var _ | .param _ | .cell _ | .literal _ => true
  | .array items => areOperands items
  | .call _ _ | .member _ _ | .lambda _ _ _ _ => false

def areOperands {φ : Type} : List (Code φ) → Bool
  | [] => true
  | c :: cs => isOperand c && areOperands cs

end

theorem areOperands_append {φ : Type} (cs ds : List (Code φ)) :
    areOperands (cs ++ ds) = (areOperands cs && areOperands ds) := by
  induction cs with
  | nil => rfl
  | cons c cs ih => simp only [List.cons_append, areOperands, ih, Bool.and_assoc]

theorem varsAll_append {φ : Type} (cs ds : List (Code φ)) :
    varsAll (cs ++ ds) = varsAll cs ++ varsAll ds := by
  induction cs with
  | nil => rfl
  | cons c cs ih => simp only [List.cons_append, varsAll, ih, List.append_assoc]

end Code

namespace Frame

mutual

/-- What an operand is in a frame. -/
inductive Reads (frame : Frame) : Code Closure → Value Closure → Prop
  | var {n : Nat} {v : Value Closure} : frame.vars.lookup n = some v → Reads frame (.var n) v
  | param {name : String} {v : Value Closure} : frame.bound.lookup name = some v →
    Reads frame (.param name) v
  | cell {id : Nat} {v : Value Closure} : frame.readCell id = .ok v → Reads frame (.cell id) v
  | literal (v : Value Closure) : Reads frame (.literal v) v
  | array {cs : List (Code Closure)} {vs : List (Value Closure)} : ReadsAll frame cs vs →
    Reads frame (.array cs) (.stream vs)

inductive ReadsAll (frame : Frame) : List (Code Closure) → List (Value Closure) → Prop
  | nil : ReadsAll frame [] []
  | cons {c : Code Closure} {cs : List (Code Closure)} {v : Value Closure}
      {vs : List (Value Closure)} : Reads frame c v → ReadsAll frame cs vs →
    ReadsAll frame (c :: cs) (v :: vs)

end

@[simp] theorem reads_var_iff {frame : Frame} {n : Nat} {v : Value Closure} :
    frame.Reads (.var n) v ↔ frame.vars.lookup n = some v := by
  constructor
  · intro h
    cases h with
    | var h => exact h
  · exact .var

@[simp] theorem reads_param_iff {frame : Frame} {name : String} {v : Value Closure} :
    frame.Reads (.param name) v ↔ frame.bound.lookup name = some v := by
  constructor
  · intro h
    cases h with
    | param h => exact h
  · exact .param

@[simp] theorem reads_cell_iff {frame : Frame} {id : Nat} {v : Value Closure} :
    frame.Reads (.cell id) v ↔ frame.readCell id = .ok v := by
  constructor
  · intro h
    cases h with
    | cell h => exact h
  · exact .cell

@[simp] theorem reads_literal_iff {frame : Frame} {v w : Value Closure} :
    frame.Reads (.literal v) w ↔ w = v := by
  constructor
  · rintro ⟨⟩
    rfl
  · rintro rfl
    exact .literal w

@[simp] theorem reads_array_iff {frame : Frame} {cs : List (Code Closure)} {v : Value Closure} :
    frame.Reads (.array cs) v ↔ ∃ vs, frame.ReadsAll cs vs ∧ v = .stream vs := by
  constructor
  · intro h
    cases h with
    | array h => exact ⟨_, h, rfl⟩
  · rintro ⟨vs, h, rfl⟩
    exact .array h

@[simp] theorem readsAll_nil_iff {frame : Frame} {vs : List (Value Closure)} :
    frame.ReadsAll [] vs ↔ vs = [] := by
  constructor
  · rintro ⟨⟩
    rfl
  · rintro rfl
    exact .nil

@[simp] theorem readsAll_cons_iff {frame : Frame} {c : Code Closure} {cs : List (Code Closure)}
    {vs : List (Value Closure)} :
    frame.ReadsAll (c :: cs) vs ↔ ∃ w ws, (frame.Reads c w ∧ frame.ReadsAll cs ws) ∧ vs = w :: ws := by
  constructor
  · intro h
    cases h with
    | cons h hs => exact ⟨_, _, ⟨h, hs⟩, rfl⟩
  · rintro ⟨w, ws, ⟨h, hs⟩, rfl⟩
    exact .cons h hs

theorem readsAll_append_iff {frame : Frame} {cs ds : List (Code Closure)}
    {vs : List (Value Closure)} :
    frame.ReadsAll (cs ++ ds) vs ↔
      ∃ us ws, (frame.ReadsAll cs us ∧ frame.ReadsAll ds ws) ∧ vs = us ++ ws := by
  induction cs generalizing vs with
  | nil => simp
  | cons c cs ih =>
    rw [List.cons_append, readsAll_cons_iff]
    constructor
    · rintro ⟨v, _, ⟨hv, hvs⟩, rfl⟩
      obtain ⟨us, ws, ⟨hus, hws⟩, rfl⟩ := ih.mp hvs
      exact ⟨v :: us, ws, ⟨.cons hv hus, hws⟩, rfl⟩
    · rintro ⟨_, ws, ⟨hus, hws⟩, rfl⟩
      cases hus with
      | cons hv hus => exact ⟨_, _, ⟨hv, ih.mpr ⟨_, ws, ⟨hus, hws⟩, rfl⟩⟩, rfl⟩

mutual

theorem Reads.unique {frame : Frame} : {c : Code Closure} → {v w : Value Closure} →
    frame.Reads c v → frame.Reads c w → v = w
  | _, _, _, .var hv, .var hw => Option.some.inj (hv.symm.trans hw)
  | _, _, _, .param hv, .param hw => Option.some.inj (hv.symm.trans hw)
  | _, _, _, .cell hv, .cell hw => Except.ok.inj (hv.symm.trans hw)
  | _, _, _, .literal _, .literal _ => rfl
  | _, _, _, .array hvs, .array hws => congrArg Value.stream (ReadsAll.unique hvs hws)

theorem ReadsAll.unique {frame : Frame} : {cs : List (Code Closure)} →
    {vs ws : List (Value Closure)} → frame.ReadsAll cs vs → frame.ReadsAll cs ws → vs = ws
  | _, _, _, .nil, .nil => rfl
  | _, _, _, .cons hv hvs, .cons hw hws => by rw [hv.unique hw, hvs.unique hws]

end

/-! ## Variables set later -/

/-- The frame with other variables. -/
def withVars (frame : Frame) (vars : List (Nat × Value Closure)) : Frame := { frame with vars }

/-- Variables that are the same below a number. -/
def AgreeBelow (n : Nat) (vars vars' : List (Nat × Value Closure)) : Prop :=
  ∀ x < n, vars.lookup x = vars'.lookup x

theorem AgreeBelow.symm {n : Nat} {vars vars' : List (Nat × Value Closure)}
    (h : AgreeBelow n vars vars') : AgreeBelow n vars' vars := fun x hx => (h x hx).symm

mutual

/-- What reads only variables below a number is the same where these are. -/
theorem Reads.of_agree {frame : Frame} {n : Nat} {vars vars' : List (Nat × Value Closure)}
    (h : AgreeBelow n vars vars') : {c : Code Closure} → {v : Value Closure} →
    (∀ x ∈ c.vars, x < n) → (frame.withVars vars).Reads c v → (frame.withVars vars').Reads c v
  | _, _, hc, .var hv => .var ((h _ (hc _ List.mem_cons_self)).symm.trans hv)
  | _, _, _, .param hv => .param hv
  | _, _, _, .cell hv => .cell hv
  | _, _, _, .literal v => .literal v
  | _, _, hc, .array hvs => .array (ReadsAll.of_agree h hc hvs)

theorem ReadsAll.of_agree {frame : Frame} {n : Nat} {vars vars' : List (Nat × Value Closure)}
    (h : AgreeBelow n vars vars') : {cs : List (Code Closure)} → {vs : List (Value Closure)} →
    (∀ x ∈ Code.varsAll cs, x < n) → (frame.withVars vars).ReadsAll cs vs →
    (frame.withVars vars').ReadsAll cs vs
  | _, _, _, .nil => .nil
  | _, _, hcs, .cons hv hvs =>
    .cons (hv.of_agree h fun x hx => hcs x (List.mem_append_left _ hx))
      (hvs.of_agree h fun x hx => hcs x (List.mem_append_right _ hx))

end

/-! ## Evaluation -/

section Evaluation

variable {invoke : Closure → List (Value Closure) → Run (Value Closure)} {frame : Frame}

mutual

/-- **The evaluation of an operand** ends with what it is, and takes no identity. -/
theorem eval_operand_iff : {c : Code Closure} → c.isOperand → {v : Value Closure} →
    {i j : Identity} → (frame.eval invoke c i = .ok (v, j) ↔ frame.Reads c v ∧ j = i)
  | .var n, _, v, i, j => by
    rw [reads_var_iff, eval]
    cases frame.vars.lookup n with
    | none => simp [fail_ne_ok]
    | some w => rw [pure_eq_ok_iff, Option.some.injEq, eq_comm]
  | .param name, _, v, i, j => by
    rw [reads_param_iff, eval]
    cases frame.bound.lookup name with
    | none => simp [fail_ne_ok]
    | some w => rw [pure_eq_ok_iff, Option.some.injEq, eq_comm]
  | .cell id, _, v, i, j => by
    rw [reads_cell_iff, eval]
    exact ofExcept_eq_ok_iff
  | .literal w, _, v, i, j => by
    rw [reads_literal_iff, eval, pure_eq_ok_iff]
  | .array cs, h, v, i, j => by
    rw [reads_array_iff, eval, bind_eq_ok_iff]
    constructor
    · rintro ⟨vs, k, hvs, hv⟩
      obtain ⟨hreads, rfl⟩ := (evalAll_operands_iff h).mp hvs
      obtain ⟨rfl, rfl⟩ := pure_eq_ok_iff.mp hv
      exact ⟨⟨vs, hreads, rfl⟩, rfl⟩
    · rintro ⟨⟨vs, hvs, rfl⟩, rfl⟩
      exact ⟨vs, _, (evalAll_operands_iff h).mpr ⟨hvs, rfl⟩, rfl⟩

theorem evalAll_operands_iff : {cs : List (Code Closure)} → Code.areOperands cs →
    {vs : List (Value Closure)} → {i j : Identity} →
    (frame.evalAll invoke cs i = .ok (vs, j) ↔ frame.ReadsAll cs vs ∧ j = i)
  | [], _, vs, i, j => by
    rw [readsAll_nil_iff, evalAll, pure_eq_ok_iff]
  | c :: cs, h, vs, i, j => by
    obtain ⟨hc, hcs⟩ := Bool.and_eq_true_iff.mp h
    rw [readsAll_cons_iff, evalAll, bind_eq_ok_iff]
    constructor
    · rintro ⟨w, k, hw, hrest⟩
      obtain ⟨ws, l, hws, hvs⟩ := bind_eq_ok_iff.mp hrest
      obtain ⟨hreads, rfl⟩ := (eval_operand_iff hc).mp hw
      obtain ⟨hreadsAll, rfl⟩ := (evalAll_operands_iff hcs).mp hws
      obtain ⟨rfl, rfl⟩ := pure_eq_ok_iff.mp hvs
      exact ⟨⟨w, ws, ⟨hreads, hreadsAll⟩, rfl⟩, rfl⟩
    · rintro ⟨⟨w, ws, ⟨hw, hws⟩, rfl⟩, rfl⟩
      refine ⟨w, _, (eval_operand_iff hc).mpr ⟨hw, rfl⟩, bind_eq_ok_iff.mpr ⟨ws, _, ?_, rfl⟩⟩
      exact (evalAll_operands_iff hcs).mpr ⟨hws, rfl⟩

end

end Evaluation

/-! ## Statements -/

section Statements

variable {invoke : Closure → List (Value Closure) → Run (Value Closure)}

theorem exec_append (frame : Frame) (body body' : Statements Closure) :
    frame.exec invoke (body ++ body') = frame.exec invoke body >>= fun f => f.exec invoke body' := by
  induction body generalizing frame with
  | nil => rw [List.nil_append, exec, pure_bind]
  | cons statement body ih =>
    obtain ⟨n, c⟩ := statement
    simp only [List.cons_append, exec, ih, bind_assoc]

/-- Statements change variables only, and of these only those that they set. -/
theorem exec_withVars {frame frame' : Frame} {n : Nat} {body : Statements Closure}
    (hbody : ∀ p ∈ body, n ≤ p.1) {i j : Identity}
    (h : frame.exec invoke body i = .ok (frame', j)) :
    ∃ vars, frame' = frame.withVars vars ∧ AgreeBelow n frame.vars vars := by
  induction body generalizing frame i with
  | nil =>
    obtain ⟨rfl, -⟩ := pure_eq_ok_iff.mp h
    exact ⟨_, rfl, fun x _ => rfl⟩
  | cons statement body ih =>
    obtain ⟨x, c⟩ := statement
    obtain ⟨v, k, -, hrest⟩ := bind_eq_ok_iff.mp h
    obtain ⟨hx, hbody⟩ := List.forall_mem_cons.mp hbody
    obtain ⟨vars, hframe, hagree⟩ := ih hbody hrest
    refine ⟨vars, hframe, fun y hy => ?_⟩
    rw [← hagree y hy, List.lookup_cons]
    have : (y == x) = false := beq_false_of_ne (by have := Nat.lt_of_lt_of_le hy hx; omega)
    simp [this]

end Statements

end Frame

end Cellbook
