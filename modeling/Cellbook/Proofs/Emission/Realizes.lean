import Cellbook.Emission.Tree
import Cellbook.Proofs.Formula.Value
import Cellbook.Proofs.Machine.Operands

/-!
# What emitted code does

An emission realizes a run if executing the statements that it emits, and then reading what it gives, has
the results of that run. What it gives may be the code of a value or of several, or the code of a function;
how these are read is a `Reading`. The order of events is not the same: the run is over when the statements
are executed, but operands among what is emitted are read later, where they are used. That makes no
difference as long as they are used at all, since they read variables that no later statement sets.

The rules go along the construction of emissions: one after the other (`Realizes.prod`), a call of what was
emitted (`Realizes.call`), a function that is called later or never (`Realizes.branch`), and something whose
value is dropped (`Realizes.seq`). The last one is for emissions that end with a call only, since a dropped
operand leaves nothing that could fail (`SetsLast`).
-/

namespace Cellbook

open Run Cellbook.Frame

instance {κ : Type} : LawfulMonad (Emit κ) :=
  LawfulMonad.mk' (Emit κ)
    (fun m => by
      funext n
      show ((m n).1, (m n).2.1 ++ [], (m n).2.2) = m n
      rw [List.append_nil])
    (fun a f => by
      funext n
      simp [Emit.bind_apply, Emit.pure_apply])
    (fun m f g => by
      funext n
      simp [Emit.bind_apply])

/-- The variables of a frame. -/
abbrev Vars := List (Nat × Value Closure)

/-- **How something that was emitted is read** as a thing of type `β`, once the variables below a number
are set. -/
structure Reading (α β : Type) where
  settled : Nat → α → Prop
  means : Vars → α → β → Prop
  mono {n m : Nat} {a : α} : n ≤ m → settled n a → settled m a
  stable {n : Nat} {a : α} {w : β} {vars vars' : Vars} : settled n a → AgreeBelow n vars vars' →
    means vars a w → means vars' a w

namespace Reading

variable {α β γ δ : Type}

/-- Nothing. -/
def unit : Reading Unit Unit where
  settled _ _ := True
  means _ _ _ := True
  mono _ _ := trivial
  stable _ _ _ := trivial

def prod (R : Reading α β) (S : Reading γ δ) : Reading (α × γ) (β × δ) where
  settled n a := R.settled n a.1 ∧ S.settled n a.2
  means vars a w := R.means vars a.1 w.1 ∧ S.means vars a.2 w.2
  mono h ha := ⟨R.mono h ha.1, S.mono h ha.2⟩
  stable ha h hw := ⟨R.stable ha.1 h hw.1, S.stable ha.2 h hw.2⟩

/-- An operand and its value. -/
def code (frame : Frame) : Reading (Code Closure) (Value Closure) where
  settled n c := c.isOperand ∧ ∀ x ∈ c.vars, x < n
  means vars c v := (frame.withVars vars).Reads c v
  mono h hc := ⟨hc.1, fun x hx => Nat.lt_of_lt_of_le (hc.2 x hx) h⟩
  stable hc h hv := hv.of_agree h hc.2

def codes (frame : Frame) : Reading (List (Code Closure)) (List (Value Closure)) where
  settled n cs := Code.areOperands cs ∧ ∀ x ∈ Code.varsAll cs, x < n
  means vars cs vs := (frame.withVars vars).ReadsAll cs vs
  mono h hc := ⟨hc.1, fun x hx => Nat.lt_of_lt_of_le (hc.2 x hx) h⟩
  stable hc h hv := hv.of_agree h hc.2

/-- The branch of a condition: an operand whose value, if it is chosen, does what that run does. -/
def branch (frame : Frame) (r : Nat → Run (Value Closure)) : Reading (Code Closure) Unit where
  settled n c := c.isOperand ∧ ∀ x ∈ c.vars, x < n
  means vars c _ := ∃ v, (frame.withVars vars).Reads c v ∧ ∀ i w j,
    Ends (fun d => Builtin.branch (Closure.invoke d) (some v)) i w j ↔ Ends r i w j
  mono h hc := ⟨hc.1, fun x hx => Nat.lt_of_lt_of_le (hc.2 x hx) h⟩
  stable hc h := fun ⟨v, hv, hr⟩ => ⟨v, hv.of_agree h hc.2, hr⟩

end Reading

variable {frame : Frame} {α β γ δ : Type}

/-- Executing statements from some variables on ends with others. -/
def Executes (frame : Frame) (body : Statements Closure) (vars : Vars) (i : Identity) (vars' : Vars)
    (j : Identity) : Prop :=
  Ends (fun d => (frame.withVars vars).exec (Closure.invoke d) body) i (frame.withVars vars') j

/-- **An emission realizes a run** in a frame. -/
structure Realizes (frame : Frame) (m : Emit (Code Closure) α) (R : Reading α β)
    (r : Nat → Run β) : Prop where
  steady : Steady r
  next n : n ≤ (m n).2.2
  within n : ∀ p ∈ (m n).2.1, n ≤ p.1 ∧ p.1 < (m n).2.2
  settled n : R.settled (m n).2.2 (m n).1
  ends_iff n (vars : Vars) (i : Identity) (w : β) (j : Identity) :
    Ends r i w j ↔ ∃ vars', Executes frame (m n).2.1 vars i vars' j ∧ R.means vars' (m n).1 w

section Executes

variable {body body' : Statements Closure} {vars vars' : Vars} {i j k : Identity}

theorem executes_nil_iff : Executes frame [] vars i vars' j ↔ vars' = vars ∧ j = i := by
  rw [Executes]
  simp only [exec]
  rw [ends_pure_iff]
  simp [withVars]

theorem executes_append_iff :
    Executes frame (body ++ body') vars i vars' k ↔
      ∃ vars'' j, Executes frame body vars i vars'' j ∧ Executes frame body' vars'' j vars' k := by
  rw [Executes]
  simp only [exec_append]
  rw [ends_bind_iff (steady_exec _ body) fun f => steady_exec f body']
  constructor
  · rintro ⟨f, j, hf, hrest⟩
    obtain ⟨d, hd⟩ := hf
    obtain ⟨vars'', rfl, -⟩ := exec_withVars (fun _ _ => Nat.zero_le _) hd
    exact ⟨vars'', j, ⟨d, hd⟩, hrest⟩
  · rintro ⟨vars'', j, hf, hrest⟩
    exact ⟨_, j, hf, hrest⟩

theorem executes_single_iff {n : Nat} {c : Code Closure} :
    Executes frame [(n, c)] vars i vars' j ↔
      ∃ v, Ends (fun d => (frame.withVars vars).eval (Closure.invoke d) c) i v j ∧
        vars' = (n, v) :: vars := by
  rw [Executes]
  simp only [exec]
  rw [ends_bind_pure_iff (steady_eval _ c)]
  constructor
  · rintro ⟨v, hv, hvars⟩
    exact ⟨v, hv, congrArg Frame.vars hvars⟩
  · rintro ⟨v, hv, rfl⟩
    exact ⟨v, hv, rfl⟩

theorem Executes.agree {n : Nat} (h : Executes frame body vars i vars' j)
    (hbody : ∀ p ∈ body, n ≤ p.1) : AgreeBelow n vars vars' := by
  obtain ⟨d, hd⟩ := h
  obtain ⟨vars'', hvars, hagree⟩ := exec_withVars hbody hd
  obtain rfl : vars' = vars'' := congrArg Frame.vars hvars
  exact hagree

end Executes

/-- Statements that set the variables from one number to the next, and on to a third one. -/
theorem within_append {body body' : Statements Closure} {n m k : Nat} (hnm : n ≤ m) (hmk : m ≤ k)
    (h : ∀ p ∈ body, n ≤ p.1 ∧ p.1 < m) (h' : ∀ p ∈ body', m ≤ p.1 ∧ p.1 < k) :
    ∀ p ∈ body ++ body', n ≤ p.1 ∧ p.1 < k := by
  intro p hp
  rcases List.mem_append.mp hp with hp | hp
  · exact ⟨(h p hp).1, Nat.lt_of_lt_of_le (h p hp).2 hmk⟩
  · exact ⟨Nat.le_trans hnm (h' p hp).1, (h' p hp).2⟩

namespace Realizes

variable {m : Emit (Code Closure) α} {m' : Emit (Code Closure) γ} {R : Reading α β}
  {S : Reading γ δ} {r : Nat → Run β} {r' : Nat → Run δ}

/-- What is emitted without statements. -/
theorem pure {a : α} {x : Except EvalFault β} (hsettled : ∀ n, R.settled n a)
    (hmeans : ∀ vars w, R.means vars a w ↔ x = .ok w) :
    Realizes frame (Pure.pure a) R fun _ => ofExcept x where
  steady := .const _
  next _ := Nat.le_refl _
  within _ _ h := (List.not_mem_nil h).elim
  settled := hsettled
  ends_iff n vars i w j := by
    rw [ends_ofExcept_iff, Emit.pure_apply]
    simp only [executes_nil_iff]
    constructor
    · rintro ⟨hx, rfl⟩
      exact ⟨vars, ⟨rfl, rfl⟩, (hmeans vars w).mpr hx⟩
    · rintro ⟨_, ⟨rfl, rfl⟩, hw⟩
      exact ⟨(hmeans _ w).mp hw, rfl⟩

/-- **One emission after the other.** -/
theorem prod (h : Realizes frame m R r) (h' : Realizes frame m' S r') :
    Realizes frame (do let a ← m; let b ← m'; return (a, b)) (R.prod S)
      (fun d => do let v ← r d; let w ← r' d; return (v, w)) where
  steady := h.steady.bind fun v => h'.steady.bind_pure fun w => (v, w)
  next n := Nat.le_trans (h.next n) (h'.next _)
  within n := by
    simp only [Emit.bind_apply, Emit.pure_apply, List.append_nil]
    exact within_append (h.next n) (h'.next _) (h.within n) (h'.within _)
  settled n := ⟨R.mono (h'.next _) (h.settled n), h'.settled _⟩
  ends_iff n vars i vw k := by
    obtain ⟨v, w⟩ := vw
    simp only [Emit.bind_apply, Emit.pure_apply, List.append_nil, executes_append_iff]
    rw [ends_bind_iff h.steady fun v => h'.steady.bind_pure fun w => (v, w)]
    simp only [ends_bind_pure_iff h'.steady]
    constructor
    · rintro ⟨_, j, hv, _, hw, ⟨rfl, rfl⟩⟩
      obtain ⟨vars', hexec, hmeans⟩ := (h.ends_iff n vars i v j).mp hv
      obtain ⟨vars'', hexec', hmeans'⟩ := (h'.ends_iff _ vars' j w k).mp hw
      have hagree := hexec'.agree fun p hp => (h'.within _ p hp).1
      exact ⟨vars'', ⟨vars', j, hexec, hexec'⟩, R.stable (h.settled n) hagree hmeans, hmeans'⟩
    · rintro ⟨vars'', ⟨vars', j, hexec, hexec'⟩, hmeans, hmeans'⟩
      have hagree := hexec'.agree fun p hp => (h'.within _ p hp).1
      refine ⟨v, j, (h.ends_iff n vars i v j).mpr ⟨vars', hexec, ?_⟩, w, ?_, rfl⟩
      · exact R.stable (h.settled n) hagree.symm hmeans
      · exact (h'.ends_iff _ vars' j w k).mpr ⟨vars'', hexec', hmeans'⟩

/-- What was emitted, put together in another way. -/
theorem map (h : Realizes frame m R r) {S : Reading γ δ} {g : α → γ} {k : β → δ}
    (hsettled : ∀ n a, R.settled n a → S.settled n (g a))
    (hmeans : ∀ vars a w', S.means vars (g a) w' ↔ ∃ w, R.means vars a w ∧ w' = k w) :
    Realizes frame (do return g (← m)) S (fun d => do return k (← r d)) where
  steady := h.steady.bind_pure k
  next n := h.next n
  within n := by
    simp only [Emit.bind_apply, Emit.pure_apply, List.append_nil]
    exact h.within n
  settled n := hsettled _ _ (h.settled n)
  ends_iff n vars i w' j := by
    simp only [Emit.bind_apply, Emit.pure_apply, List.append_nil, hmeans]
    rw [ends_bind_pure_iff h.steady]
    constructor
    · rintro ⟨w, hw, rfl⟩
      obtain ⟨vars', hexec, hmeans⟩ := (h.ends_iff n vars i w j).mp hw
      exact ⟨vars', hexec, w, hmeans, rfl⟩
    · rintro ⟨vars', hexec, w, hmeans, rfl⟩
      exact ⟨w, (h.ends_iff n vars i w j).mpr ⟨vars', hexec, hmeans⟩, rfl⟩

/-- **A variable is set** to code that takes what was emitted. -/
theorem declare (h : Realizes frame m R r) (code : α → Code Closure)
    (run : Nat → β → Run (Value Closure)) (hrun : ∀ w, Steady fun d => run d w)
    (heval : ∀ n vars₀ i₀ vars i, Executes frame (m n).2.1 vars₀ i₀ vars i → ∀ v j,
      Ends (fun d => (frame.withVars vars).eval (Closure.invoke d) (code (m n).1)) i v j ↔
        ∃ w, R.means vars (m n).1 w ∧ Ends (fun d => run d w) i v j) :
    Realizes frame (do Emit.declare .tree (code (← m))) (.code frame) (fun d => r d >>= run d) where
  steady := h.steady.bind hrun
  next n := Nat.le_succ_of_le (h.next n)
  within n := by
    refine within_append (h.next n) (Nat.le_succ _) (h.within n) fun p hp => ?_
    obtain rfl := List.mem_singleton.mp hp
    exact ⟨Nat.le_refl _, Nat.lt_succ_self _⟩
  settled n := ⟨rfl, fun x hx => List.mem_singleton.mp hx ▸ Nat.lt_succ_self _⟩
  ends_iff n vars i v k := by
    simp only [Emit.bind_apply, Emit.declare, executes_append_iff, executes_single_iff]
    rw [ends_bind_iff h.steady hrun]
    constructor
    · rintro ⟨w, j, hw, hv⟩
      obtain ⟨vars', hexec, hmeans⟩ := (h.ends_iff n vars i w j).mp hw
      refine ⟨_, ⟨vars', j, hexec, v, ?_, rfl⟩, .var List.lookup_cons_self⟩
      exact (heval n _ _ _ _ hexec v k).mpr ⟨w, hmeans, hv⟩
    · rintro ⟨_, ⟨vars', j, hexec, v', hv, rfl⟩, hreads⟩
      obtain rfl : v' = v := by simpa [Reading.code, Target.tree, withVars] using hreads
      obtain ⟨w, hmeans, hv⟩ := (heval n _ _ _ _ hexec v' k).mp hv
      exact ⟨w, j, (h.ends_iff n vars i w j).mpr ⟨vars', hexec, hmeans⟩, hv⟩

/-- **A call** of a built-in function with what was emitted as its arguments. -/
theorem call (h : Realizes frame m R r) (b : Builtin) (args : α → List (Code Closure))
    (vals : β → List (Value Closure))
    (hoperands : ∀ n a, R.settled n a → Code.areOperands (args a))
    (hreads : ∀ vars a vs, (frame.withVars vars).ReadsAll (args a) vs ↔
      ∃ w, R.means vars a w ∧ vs = vals w) :
    Realizes frame (do Emit.call .tree b (args (← m))) (.code frame)
      (fun d => do b.apply (Closure.invoke d) frame.settings (vals (← r d))) := by
  refine h.declare (fun a => .call b (args a))
    (fun d w => b.apply (Closure.invoke d) frame.settings (vals w))
    (fun w => Builtin.steady_apply frame.settings b (vals w)) fun n _ _ vars i _ v k => ?_
  have hargs := hoperands _ _ (h.settled n)
  simp only [Frame.eval]
  refine (ends_bind_iff (steady_evalAll _ _)
    fun vs => Builtin.steady_apply frame.settings b vs).trans ?_
  constructor
  · rintro ⟨vs, j, ⟨d, hd⟩, hv⟩
    obtain ⟨hvs, rfl⟩ := (evalAll_operands_iff hargs).mp hd
    obtain ⟨w, hw, rfl⟩ := (hreads vars _ vs).mp hvs
    exact ⟨w, hw, hv⟩
  · rintro ⟨w, hw, hv⟩
    refine ⟨vals w, i, ⟨0, ?_⟩, hv⟩
    exact (evalAll_operands_iff hargs).mpr ⟨(hreads vars _ _).mpr ⟨w, hw, rfl⟩, rfl⟩

/-- **Executing the statements and evaluating what was emitted** has the results of the run, whatever
variables are there before. -/
theorem ends_run_iff {m : Emit (Code Closure) (Code Closure)} {r : Nat → Run (Value Closure)}
    (h : Realizes frame m (.code frame) r) (n : Nat) (vars : Vars) {i j : Identity}
    {v : Value Closure} :
    Ends (fun d => (frame.withVars vars).run (Closure.invoke d) (m n).2.1 (m n).1) i v j ↔
      Ends r i v j := by
  rw [h.ends_iff n vars]
  refine (ends_bind_iff (steady_exec _ _) fun f => steady_eval f (m n).1).trans ?_
  constructor
  · rintro ⟨f, k, ⟨d, hd⟩, e, he⟩
    obtain ⟨vars', rfl, -⟩ := exec_withVars (fun _ _ => Nat.zero_le _) hd
    obtain ⟨hreads, rfl⟩ := (eval_operand_iff (h.settled n).1).mp he
    exact ⟨vars', ⟨d, hd⟩, hreads⟩
  · rintro ⟨vars', hexec, hreads⟩
    exact ⟨_, j, hexec, 0, (eval_operand_iff (h.settled n).1).mpr ⟨hreads, rfl⟩⟩

end Realizes

/-! ## Functions -/

theorem ends_lambda_iff {params : List String} {body : Statements Closure} {result : Code Closure}
    {captures : List Nat} {i j : Identity} {v : Value Closure} :
    Ends (fun d => frame.eval (Closure.invoke d) (.lambda params body result captures)) i v j ↔
      v = .function (frame.close i params body result captures) ∧ j = i.next := by
  constructor
  · rintro ⟨d, hd⟩
    cases hd
    exact ⟨rfl, rfl⟩
  · rintro ⟨rfl, rfl⟩
    exact ⟨0, rfl⟩

/-- A function without parameters that was made in a frame, chosen as a branch, does what was emitted in
it. -/
theorem Realizes.ends_branch_iff {m : Emit (Code Closure) (Code Closure)}
    {r : Nat → Run (Value Closure)} (h : Realizes frame m (.code frame) r) (n : Nat) (vars : Vars)
    (identity : Identity) (captures : List Nat) (i : Identity) (v : Value Closure) (j : Identity) :
    let f := (frame.withVars vars).close identity [] (m n).2.1 (m n).1 captures
    Ends (fun d => Builtin.branch (Closure.invoke d) (some (.function f))) i v j ↔ Ends r i v j :=
  (Closure.ends_invoke_iff rfl).trans (h.ends_run_iff n _)

/-- **The branch of a condition** takes an identity, and does later what is emitted in it. -/
theorem Realizes.branch {m : Emit (Code Closure) (Code Closure)} {r : Nat → Run (Value Closure)}
    (h : Realizes frame m (.code frame) r) :
    Realizes frame (Formula.emitBranch .tree m) (.branch frame r)
      (fun _ => Run.skipIdentities 1) where
  steady := .const _
  next n := Nat.le_succ_of_le (h.next n)
  within n p hp := by
    obtain rfl := List.mem_singleton.mp hp
    exact ⟨h.next n, Nat.lt_succ_self _⟩
  settled n := ⟨rfl, fun x hx => List.mem_singleton.mp hx ▸ Nat.lt_succ_self _⟩
  ends_iff n vars i u j := by
    have hskip : Ends (fun _ => Run.skipIdentities 1) i u j ↔ j = i.next := by
      constructor
      · rintro ⟨d, hd⟩
        cases hd
        rfl
      · rintro rfl
        exact ⟨0, rfl⟩
    rw [hskip]
    refine Iff.trans ?_ (exists_congr fun _ => and_congr_left fun _ => executes_single_iff.symm)
    constructor
    · rintro rfl
      exact ⟨_, ⟨_, ends_lambda_iff.mpr ⟨rfl, rfl⟩, rfl⟩, _, .var List.lookup_cons_self,
        h.ends_branch_iff n vars i _⟩
    · rintro ⟨_, ⟨_, hv, -⟩, -⟩
      exact (ends_lambda_iff.mp hv).2

/-! ## What can be read for sure -/

/-- Once the statements are executed, what was emitted can be read: nothing of it can still fail. -/
def Sure (frame : Frame) (m : Emit (Code Closure) α) (R : Reading α β) : Prop :=
  ∀ n vars i vars' j, Executes frame (m n).2.1 vars i vars' j → ∃ w, R.means vars' (m n).1 w

theorem Realizes.sure_branch {m : Emit (Code Closure) (Code Closure)} {r : Nat → Run (Value Closure)}
    (h : Realizes frame m (.code frame) r) :
    Sure frame (Formula.emitBranch .tree m) (.branch frame r) := by
  intro n vars i vars' j hexec
  obtain ⟨v, hv, rfl⟩ := executes_single_iff.mp hexec
  obtain ⟨rfl, -⟩ := ends_lambda_iff.mp hv
  exact ⟨(), _, .var List.lookup_cons_self, h.ends_branch_iff n vars i _⟩

theorem Sure.prod {m : Emit (Code Closure) α} {m' : Emit (Code Closure) γ} {R : Reading α β}
    {S : Reading γ δ} {r : Nat → Run β} {r' : Nat → Run δ} (h : Realizes frame m R r)
    (hsure : Sure frame m R) (h' : Realizes frame m' S r') (hsure' : Sure frame m' S) :
    Sure frame (do let a ← m; let b ← m'; return (a, b)) (R.prod S) := by
  intro n vars i vars'' k hexec
  simp only [Emit.bind_apply, Emit.pure_apply, List.append_nil, executes_append_iff] at hexec
  obtain ⟨vars', j, hexec, hexec'⟩ := hexec
  obtain ⟨v, hv⟩ := hsure n vars i vars' j hexec
  obtain ⟨w, hw⟩ := hsure' _ vars' j vars'' k hexec'
  exact ⟨(v, w), R.stable (h.settled n) (hexec'.agree fun p hp => (h'.within _ p hp).1) hv, hw⟩

/-- The call that chooses one of two branches. -/
theorem ends_cond_iff {vars : Vars} {c t f : Code Closure} {rt rf : Nat → Run (Value Closure)}
    (hoperands : Code.areOperands [c, t, f]) (ht : (Reading.branch frame rt).means vars t ())
    (hf : (Reading.branch frame rf).means vars f ()) {i j : Identity} {v : Value Closure} :
    Ends (fun d => (frame.withVars vars).eval (Closure.invoke d) (.call .cond [c, t, f])) i v j ↔
      ∃ w, (frame.withVars vars).Reads c w ∧ Ends (fun d => if w.truthy then rt d else rf d) i v j := by
  obtain ⟨vt, hvt, ht⟩ := ht
  obtain ⟨vf, hvf, hf⟩ := hf
  have hchoice (w : Value Closure) :
      Ends (fun d => Builtin.cond.apply (Closure.invoke d) frame.settings [w, vt, vf]) i v j ↔
        Ends (fun d => if w.truthy then rt d else rf d) i v j := by
    simp only [Builtin.apply]
    cases w.truthy with
    | true => exact ht i v j
    | false => exact hf i v j
  simp only [Frame.eval]
  refine (ends_bind_iff (steady_evalAll _ _)
    fun vs => Builtin.steady_apply frame.settings .cond vs).trans ?_
  constructor
  · rintro ⟨vs, k, ⟨d, hd⟩, hv⟩
    obtain ⟨hvs, rfl⟩ := (evalAll_operands_iff hoperands).mp hd
    cases hvs with | cons hw hvs =>
    cases hvs with | cons ht' hvs =>
    cases hvs with | cons hf' hvs =>
    cases hvs
    obtain rfl := ht'.unique hvt
    obtain rfl := hf'.unique hvf
    exact ⟨_, hw, (hchoice _).mp hv⟩
  · rintro ⟨w, hw, hv⟩
    refine ⟨[w, vt, vf], i, ⟨0, ?_⟩, (hchoice w).mpr hv⟩
    exact (evalAll_operands_iff hoperands).mpr ⟨.cons hw (.cons hvt (.cons hvf .nil)), rfl⟩

/-- **A choice between two branches.** Which functions they are is known when the choice is made, since
nothing is left to fail in making them. -/
theorem Realizes.cond {m : Emit (Code Closure) (Code Closure)}
    {mb : Emit (Code Closure) (Code Closure × Code Closure)} {r rt rf : Nat → Run (Value Closure)}
    {k : Nat → Run (Unit × Unit)} (h : Realizes frame m (.code frame) r)
    (hb : Realizes frame mb (.prod (.branch frame rt) (.branch frame rf)) k)
    (hsure : Sure frame mb (.prod (.branch frame rt) (.branch frame rf))) (hrt : Steady rt)
    (hrf : Steady rf) :
    Realizes frame (do let c ← m; let b ← mb; Emit.call .tree .cond [c, b.1, b.2]) (.code frame)
      (fun d => do
        let v ← r d
        let _ ← k d
        if v.truthy then rt d else rf d) := by
  have := (h.prod hb).declare (fun p => .call .cond [p.1, p.2.1, p.2.2])
    (fun d w => if w.1.truthy then rt d else rf d)
    (fun w => by
      cases w.1.truthy with
      | true => exact hrt
      | false => exact hrf)
    fun n vars₀ i₀ vars i hexec v j => ?_
  · simp only [bind_assoc, pure_bind] at this
    exact this
  · obtain ⟨hc, ht, hf⟩ := (h.prod hb).settled n
    simp only [Emit.bind_apply, Emit.pure_apply, List.append_nil, executes_append_iff] at hexec
    obtain ⟨_, _, -, hexec⟩ := hexec
    obtain ⟨_, hmeanst, hmeansf⟩ := hsure _ _ _ _ _ hexec
    have hoperands : Code.areOperands [(m n).1, (mb (m n).2.2).1.1, (mb (m n).2.2).1.2] :=
      Bool.and_eq_true_iff.mpr ⟨hc.1, Bool.and_eq_true_iff.mpr
        ⟨ht.1, Bool.and_eq_true_iff.mpr ⟨hf.1, rfl⟩⟩⟩
    refine (ends_cond_iff hoperands hmeanst hmeansf).trans ?_
    constructor
    · rintro ⟨w, hw, hv⟩
      exact ⟨(w, (), ()), ⟨hw, hmeanst, hmeansf⟩, hv⟩
    · rintro ⟨w, ⟨hw, -⟩, hv⟩
      exact ⟨w.1, hw, hv⟩

/-! ## Values that are dropped -/

/-- An emission that ends with a call: what it gives is the variable set last. -/
def SetsLast (m : Emit (Code Closure) (Code Closure)) : Prop :=
  ∀ n, ∃ body x c, (m n).2.1 = body ++ [(x, c)] ∧ (m n).1 = .var x

theorem setsLast_call (b : Builtin) (args : List (Code Closure)) :
    SetsLast (Emit.call .tree b args) := fun _ => ⟨[], _, _, rfl, rfl⟩

theorem SetsLast.bind {m : Emit (Code Closure) α} {f : α → Emit (Code Closure) (Code Closure)}
    (h : ∀ a, SetsLast (f a)) : SetsLast (m >>= f) := by
  intro n
  obtain ⟨body, x, c, hbody, hx⟩ := h (m n).1 (m n).2.2
  refine ⟨(m n).2.1 ++ body, x, c, ?_, hx⟩
  rw [Emit.bind_apply, hbody, List.append_assoc]

/-- The variable that was set last has a value. -/
theorem SetsLast.sure {m : Emit (Code Closure) (Code Closure)} (h : SetsLast m) :
    Sure frame m (.code frame) := by
  intro n vars i vars' j hexec
  obtain ⟨body, x, c, hbody, hx⟩ := h n
  rw [hbody, executes_append_iff] at hexec
  obtain ⟨vars'', k, -, hexec⟩ := hexec
  obtain ⟨v, -, rfl⟩ := executes_single_iff.mp hexec
  exact ⟨v, hx ▸ .var List.lookup_cons_self⟩

/-- **An emission whose value is dropped**, with another one behind it. -/
theorem Realizes.seq {m : Emit (Code Closure) (Code Closure)} {m' : Emit (Code Closure) γ}
    {S : Reading γ δ} {r : Nat → Run (Value Closure)} {r' : Nat → Run δ}
    (h : Realizes frame m (.code frame) r) (hsure : Sure frame m (.code frame))
    (h' : Realizes frame m' S r') :
    Realizes frame (do let _ ← m; m') S (fun d => do let _ ← r d; r' d) where
  steady := h.steady.bind fun _ => h'.steady
  next n := Nat.le_trans (h.next n) (h'.next _)
  within n := within_append (h.next n) (h'.next _) (h.within n) (h'.within _)
  settled n := h'.settled _
  ends_iff n vars i w k := by
    simp only [Emit.bind_apply, executes_append_iff]
    rw [ends_bind_iff h.steady fun _ => h'.steady]
    constructor
    · rintro ⟨v, j, hv, hw⟩
      obtain ⟨vars', hexec, -⟩ := (h.ends_iff n vars i v j).mp hv
      obtain ⟨vars'', hexec', hmeans⟩ := (h'.ends_iff _ vars' j w k).mp hw
      exact ⟨vars'', ⟨vars', j, hexec, hexec'⟩, hmeans⟩
    · rintro ⟨vars'', ⟨vars', j, hexec, hexec'⟩, hmeans⟩
      obtain ⟨v, hv⟩ := hsure n vars i vars' j hexec
      exact ⟨v, j, (h.ends_iff n vars i v j).mpr ⟨vars', hexec, hv⟩,
        (h'.ends_iff _ vars' j w k).mpr ⟨vars'', hexec', hmeans⟩⟩

end Cellbook
