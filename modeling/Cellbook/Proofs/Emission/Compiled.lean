import Cellbook.Proofs.Emission.Realizes
import Cellbook.Proofs.Formula.WellFormed

/-!
# Code does what its formula says

The code of a formula and the formula itself end with the same values (`compiled_ends_iff`): executing the
statements and then evaluating the result of what is emitted for a formula without signatures ends with a
value exactly if the formula has that value, for whatever the parameters and the cells are, whatever
variables were set before, and wherever the numbers of the new ones begin. It also hands out the same
identities.

**The induction** is over the formula, with one statement for each function that emits: what it emits
realizes the function that evaluates the same part (`emit_realizes` and those with it). Emission and
evaluation go through a formula in the same order, so each case is put together from the rules of
`Realizes`. Where code is less strict than evaluation, the shape of formulas made from trees is needed:
of a part of a block that is dropped only calls remain, and so each part must end with one.
-/

namespace Cellbook

open Run Cellbook.Frame

namespace Formula

variable {cell : Nat} {frame : Frame} {s : Scope}

/-! ## Operands -/

theorem realizes_literal (v : Value Closure) :
    Realizes frame (pure (.literal v)) (.code frame) fun _ => pure v :=
  .pure (x := .ok v) (fun n => ⟨rfl, fun x hx => (List.not_mem_nil hx).elim⟩) fun vars w => by
    rw [Except.ok.injEq, eq_comm]
    exact reads_literal_iff

theorem realizes_nil : Realizes frame (pure []) (.codes frame) fun _ => pure [] :=
  .pure (x := .ok []) (fun n => ⟨rfl, fun x hx => (List.not_mem_nil hx).elim⟩) fun vars w => by
    rw [Except.ok.injEq, eq_comm]
    exact readsAll_nil_iff

theorem realizes_unit : Realizes frame (pure ()) .unit fun _ => pure () :=
  .pure (x := .ok ()) (fun n => trivial) fun vars w => by simp [Reading.unit]

/-- An operand in front of others. -/
theorem realizes_cons {m : Emit (Code Closure) (Code Closure)}
    {m' : Emit (Code Closure) (List (Code Closure))} {r : Nat → Run (Value Closure)}
    {r' : Nat → Run (List (Value Closure))} (h : Realizes frame m (.code frame) r)
    (h' : Realizes frame m' (.codes frame) r') :
    Realizes frame (do let c ← m; let cs ← m'; return c :: cs) (.codes frame)
      (fun d => do let v ← r d; let vs ← r' d; return v :: vs) := by
  have := (h.prod h').map (S := .codes frame) (g := fun p => p.1 :: p.2) (k := fun w => w.1 :: w.2)
    (fun n p hp => ⟨by simp [Code.areOperands, hp.1.1, hp.2.1], ?_⟩) fun vars p vs => ?_
  · simpa only [bind_assoc, pure_bind] using this
  · intro x hx
    rcases List.mem_append.mp hx with hx | hx
    · exact hp.1.2 x hx
    · exact hp.2.2 x hx
  · simp [Reading.codes, Reading.code, Reading.prod]

/-- Operands in front of others. -/
theorem realizes_append {m m' : Emit (Code Closure) (List (Code Closure))}
    {r r' : Nat → Run (List (Value Closure))} (h : Realizes frame m (.codes frame) r)
    (h' : Realizes frame m' (.codes frame) r') :
    Realizes frame (do let cs ← m; let ds ← m'; return cs ++ ds) (.codes frame)
      (fun d => do let vs ← r d; let ws ← r' d; return vs ++ ws) := by
  have := (h.prod h').map (S := .codes frame) (g := fun p => p.1 ++ p.2) (k := fun w => w.1 ++ w.2)
    (fun n p hp => ⟨by simp [Code.areOperands_append, hp.1.1, hp.2.1], ?_⟩) fun vars p vs => ?_
  · simpa only [bind_assoc, pure_bind] using this
  · intro x hx
    rw [Code.varsAll_append] at hx
    rcases List.mem_append.mp hx with hx | hx
    · exact hp.1.2 x hx
    · exact hp.2.2 x hx
  · refine readsAll_append_iff.trans ?_
    simp [Reading.codes, Reading.prod]

theorem emitName_realizes (name : String) :
    Realizes frame (emitName .tree s name) (.code frame)
      (fun _ => ofExcept (frame.valueOfName s name)) := by
  unfold emitName Frame.valueOfName
  split
  · refine .pure (fun n => ⟨rfl, fun x hx => (List.not_mem_nil hx).elim⟩) fun vars v => ?_
    show (frame.withVars vars).Reads (.param name) v ↔ _
    rw [reads_param_iff, withVars]
    cases frame.bound.lookup name with
    | none => simp
    | some w => simp
  · cases s.cells.lookup name with
    | some id =>
      refine .pure (fun n => ⟨rfl, fun x hx => (List.not_mem_nil hx).elim⟩) fun vars v => ?_
      exact reads_cell_iff
    | none =>
      exact realizes_unit.call .unresolved (fun _ => [.literal (.text name)])
        (fun _ => [.text name]) (fun _ _ _ => rfl) fun vars _ vs => by simp [Reading.unit]

/-- The numbers of a range with what was emitted before and behind it. -/
theorem realizes_range {m : Emit (Code Closure) (List (Code Closure) × List (Code Closure))}
    {r : Nat → Run (List (Value Closure) × List (Value Closure))}
    (h : Realizes frame m (.prod (.codes frame) (.codes frame)) r) :
    Realizes frame (do let (before, after) ← m; emitRange .tree before after) (.code frame)
      (fun d => do let (before, after) ← r d; generated (Closure.invoke d) frame before after) :=
  h.call .generate (fun p => [.array p.1, .array p.2, .literal (.boolean true)])
    (fun w => [.stream w.1, .stream w.2, .boolean true])
    (fun n p hp => by simp [Code.areOperands, Code.isOperand, hp.1.1, hp.2.1])
    fun vars p vs => by
      simp only [Reading.prod, Reading.codes, readsAll_cons_iff, readsAll_nil_iff, reads_array_iff,
        reads_literal_iff]
      constructor
      · rintro ⟨_, _, ⟨⟨before, hbefore, rfl⟩, _, _, ⟨⟨after, hafter, rfl⟩, _, _, ⟨rfl, rfl⟩, rfl⟩,
          rfl⟩, rfl⟩
        exact ⟨(before, after), ⟨hbefore, hafter⟩, rfl⟩
      · rintro ⟨⟨before, after⟩, ⟨hbefore, hafter⟩, rfl⟩
        exact ⟨_, _, ⟨⟨before, hbefore, rfl⟩, _, _, ⟨⟨after, hafter, rfl⟩, _, _, ⟨rfl, rfl⟩, rfl⟩,
          rfl⟩, rfl⟩

theorem realizes_member (attr : String) {m : Emit (Code Closure) (Code Closure)}
    {r : Nat → Run (Value Closure)} (h : Realizes frame m (.code frame) r) :
    Realizes frame (do Emit.declare .tree (.member (← m) attr)) (.code frame)
      (fun d => do Run.ofExcept (Value.member (← r d) attr)) := by
  refine h.declare (fun c => .member c attr) (fun _ v => ofExcept (Value.member v attr))
    (fun v => .const _) fun n _ _ vars i _ v j => ?_
  have hc := (h.settled n).1
  simp only [Frame.eval]
  refine (ends_bind_iff (f := fun _ v => ofExcept (Value.member v attr)) (steady_eval _ _)
    fun v => .const _).trans ?_
  constructor
  · rintro ⟨w, k, ⟨d, hd⟩, hv⟩
    obtain ⟨hw, rfl⟩ := (eval_operand_iff hc).mp hd
    exact ⟨w, hw, hv⟩
  · rintro ⟨w, hw, hv⟩
    exact ⟨w, i, ⟨0, (eval_operand_iff hc).mpr ⟨hw, rfl⟩⟩, hv⟩

/-- Elements with a range at a place. -/
inductive AroundWellFormed (cell : Nat) : List Formula → Nat → Prop
  | here {r : Origin} {first last : Option Formula} {after : List Formula} :
    (∀ f ∈ first, WellFormed cell f) → (∀ f ∈ last, WellFormed cell f) →
      (∀ f ∈ after, WellFormed cell f) → AroundWellFormed cell (.range r first last :: after) 0
  | later {f : Formula} {fs : List Formula} {place : Nat} : WellFormed cell f →
    AroundWellFormed cell fs place → AroundWellFormed cell (f :: fs) (place + 1)

theorem AroundWellFormed.of_range {r : Origin} {first last : Option Formula}
    {before after : List Formula} (hbefore : ∀ f ∈ before, WellFormed cell f)
    (hfirst : ∀ f ∈ first, WellFormed cell f) (hlast : ∀ f ∈ last, WellFormed cell f)
    (hafter : ∀ f ∈ after, WellFormed cell f) :
    AroundWellFormed cell (before ++ .range r first last :: after) before.length := by
  induction before with
  | nil => exact .here hfirst hlast hafter
  | cons f before ih =>
    obtain ⟨hf, hbefore⟩ := List.forall_mem_cons.mp hbefore
    exact .later hf (ih hbefore)

/-- An element in front of those around a range. -/
theorem realizes_cons_around {m : Emit (Code Closure) (Code Closure)}
    {m' : Emit (Code Closure) (List (Code Closure) × List (Code Closure))}
    {r : Nat → Run (Value Closure)} {r' : Nat → Run (List (Value Closure) × List (Value Closure))}
    (h : Realizes frame m (.code frame) r)
    (h' : Realizes frame m' (.prod (.codes frame) (.codes frame)) r') :
    Realizes frame (do let c ← m; let (before, after) ← m'; return (c :: before, after))
      (.prod (.codes frame) (.codes frame))
      (fun d => do let v ← r d; let (before, after) ← r' d; return (v :: before, after)) := by
  have := (h.prod h').map (S := .prod (.codes frame) (.codes frame))
    (g := fun p => (p.1 :: p.2.1, p.2.2)) (k := fun w => (w.1 :: w.2.1, w.2.2))
    (fun n p hp => ⟨⟨by simp [Code.areOperands, hp.1.1, hp.2.1.1], ?_⟩, hp.2.2⟩) fun vars p vs => ?_
  · simp only [bind_assoc, pure_bind] at this
    exact this
  · intro x hx
    rcases List.mem_append.mp hx with hx | hx
    · exact hp.1.2 x hx
    · exact hp.2.1.2 x hx
  · constructor
    · rintro ⟨hbefore, hafter⟩
      obtain ⟨v, ws, ⟨hv, hws⟩, hvs⟩ := readsAll_cons_iff.mp hbefore
      exact ⟨(v, ws, vs.2), ⟨hv, hws, hafter⟩, Prod.ext hvs rfl⟩
    · rintro ⟨w, ⟨hv, hws, hafter⟩, rfl⟩
      exact ⟨.cons hv hws, hafter⟩

theorem valueAround_cons {invoke : Closure → List (Value Closure) → Run (Value Closure)} {f : Formula}
    {fs : List Formula} (h : WellFormed cell f) :
    valueAround invoke frame s (f :: fs) = (do
      let v ← value invoke frame s f
      let (before, after) ← valueAround invoke frame s fs
      return (v :: before, after)) := by
  cases h <;> rfl

/-- The branch for when a condition does not hold: the clauses behind it, if there are any. -/
theorem realizes_otherwise {clauses : List Clause}
    (h : Realizes frame (emitClauses .tree s clauses) (.code frame)
      fun d => valueChosen (Closure.invoke d) frame s clauses) :
    let m : Emit (Code Closure) (Code Closure) :=
      if clauses.isEmpty then pure (.literal .none) else emitBranch .tree (emitClauses .tree s clauses)
    let R := Reading.branch frame fun d => valueChosen (Closure.invoke d) frame s clauses
    Realizes frame m R (fun _ => Run.skipIdentities (if clauses.isEmpty then 0 else 1)) ∧
      Sure frame m R := by
  cases clauses with
  | nil =>
    have hnone (vars : Vars) : (Reading.branch frame
        fun d => valueChosen (Closure.invoke d) frame s []).means vars (.literal .none) () :=
      ⟨.none, .literal _, fun i v j => Iff.rfl⟩
    refine ⟨.pure (x := .ok ()) (fun n => ⟨rfl, fun x hx => (List.not_mem_nil hx).elim⟩)
      fun vars _ => ⟨fun _ => rfl, fun _ => hnone vars⟩, fun n vars i vars' j _ => ⟨(), hnone vars'⟩⟩
  | cons c cs => exact ⟨h.branch, h.sure_branch⟩

/-- The code of entries ends with a call. -/
theorem setsLast_emitEntries {entries : List Entry} (h : entries ≠ []) (object : Code Closure) :
    SetsLast (emitEntries .tree s object entries) := by
  induction entries generalizing object with
  | nil => exact absurd rfl h
  | cons entry entries ih =>
    have hrest (b : Builtin) (args : List (Code Closure)) :
        SetsLast (do emitEntries .tree s (← Emit.call .tree b args) entries) := by
      cases entries with
      | nil =>
        simp only [emitEntries, bind_pure]
        exact setsLast_call b args
      | cons next entries => exact .bind fun object => ih (List.cons_ne_nil _ _) object
    obtain ⟨key, value', o⟩ := entry
    cases key with
    | name key => exact .bind fun _ => hrest _ _
    | computed key => exact .bind fun _ => .bind fun _ => hrest _ _
    | signature name params o guard =>
      refine .bind fun _ => .bind fun _ => .bind fun _ => ?_
      cases name with
      | none => exact hrest _ _
      | some name => exact hrest _ _

/-- The code of a condition and what depends on it ends with the choice. -/
theorem setsLast_emitClauses (condition body : Formula) (clauses : List Clause) :
    SetsLast (emitClauses .tree s (.mk (some condition) body :: clauses)) := by
  unfold emitClauses
  refine .bind fun _ => .bind fun _ => ?_
  dsimp only
  split
  · exact setsLast_call _ _
  · exact .bind fun _ => setsLast_call _ _

/-- The code of a part of a block ends with a call. -/
theorem setsLast_of_isPart {f : Formula} (h : WellFormed cell f) (hpart : f.isPart) :
    SetsLast (f.emit .tree s) := by
  cases h with
  | @map _ entries =>
    have hne : entries ≠ [] := by
      rintro rfl
      cases hpart
    exact .bind fun object => setsLast_emitEntries hne object
  | conditional _ htested =>
    cases htested with
    | @one c hc =>
      match c, hc with
      | .mk (some condition) body, _ => exact setsLast_emitClauses condition body _
    | @many c d cs hc =>
      match c, hc with
      | .mk (some condition) body, _ => exact setsLast_emitClauses condition body _
  | _ => cases hpart

/-! ## Formulas -/

mutual

/-- **The code of a formula realizes its value.** -/
theorem emit_realizes : (f : Formula) → f.plain → WellFormed cell f →
    Realizes frame (f.emit .tree s) (.code frame) fun d => f.value (Closure.invoke d) frame s
  | .literal _ v, _, _ => by
    unfold emit value
    exact realizes_literal v.toValue
  | .identifier _ name, _, _ => by
    unfold emit value
    exact emitName_realizes name
  | .binary _ op left right, hp, h => by
    obtain ⟨hl, hr⟩ : WellFormed cell left ∧ WellFormed cell right := by
      cases h with | binary _ hl hr => exact ⟨hl, hr⟩
    obtain ⟨hpl, hpr⟩ := Bool.and_eq_true_iff.mp hp
    have := ((emit_realizes left hpl hl).prod (emit_realizes right hpr hr)).call (.binary op)
      (fun p => [p.1, p.2]) (fun w => [w.1, w.2])
      (fun n p hp => by simp [Code.areOperands, hp.1.1, hp.2.1])
      fun vars p vs => by simp [Reading.prod, Reading.code]
    simp only [bind_assoc, pure_bind] at this
    exact this
  | .unary _ op operand, hp, h => by
    have h : WellFormed cell operand := by cases h with | unary _ h => exact h
    exact (emit_realizes operand hp h).call (.unary op) (fun c => [c]) (fun v => [v])
      (fun n c hc => by simp [Code.areOperands, hc.1]) fun vars c vs => by simp [Reading.code]
  | .map _ entries, hp, h => by
    have hall : ∀ e ∈ entries, EntryWellFormed cell e := by
      cases h with | map _ h => exact h
    have hempty : Realizes frame (Emit.call .tree .map []) (.code frame)
        fun _ => pure (Value.object [] []) :=
      realizes_unit.call .map (fun _ => []) (fun _ => []) (fun _ _ _ => rfl)
        fun vars _ vs => by simp [Reading.unit]
    exact emitEntries_realizes entries hp hall
      (r := fun _ => pure Object.empty) hempty
  | .block _ parts, hp, h => by
    cases h with
    | block _ _ hparts h => exact emitParts_realizes parts hp h hparts.isPart
  | .array _ elements none, hp, h => by
    have hall : ∀ f ∈ elements, WellFormed cell f := by
      cases h with | array _ h => exact h
    exact (emitAll_realizes elements hp hall).call .stream (fun cs => [.array cs])
      (fun vs => [.stream vs]) (fun n cs hcs => by simp [Code.areOperands, Code.isOperand, hcs.1])
      fun vars cs vs => by simp [Reading.codes]
  | .array _ elements (some place), hp, h => by
    have haround : AroundWellFormed cell elements place := by
      cases h with
      | arrayOfRange _ hr hb hf hl ha => exact .of_range hb hf hl ha
    exact realizes_range (emitAround_realizes elements place hp haround)
  | .range _ _ _, _, h => nomatch h
  | .index _ target key, hp, h => by
    obtain ⟨ht, hk⟩ : WellFormed cell target ∧ WellFormed cell key := by
      cases h with | index _ ht hk => exact ⟨ht, hk⟩
    obtain ⟨hpt, hpk⟩ := Bool.and_eq_true_iff.mp hp
    have := ((emit_realizes target hpt ht).prod (emit_realizes key hpk hk)).call .get
      (fun p => [p.1, p.2]) (fun w => [w.1, w.2])
      (fun n p hp => by simp [Code.areOperands, hp.1.1, hp.2.1])
      fun vars p vs => by simp [Reading.prod, Reading.code]
    simp only [bind_assoc, pure_bind] at this
    exact this
  | .call _ callee args, hp, h => by
    obtain ⟨hc, ha⟩ : WellFormed cell callee ∧ ∀ f ∈ args, WellFormed cell f := by
      cases h with | call _ hc ha => exact ⟨hc, ha⟩
    obtain ⟨hpc, hpa⟩ := Bool.and_eq_true_iff.mp hp
    have := (realizes_cons (emit_realizes callee hpc hc) (emitAll_realizes args hpa ha)).call .call
      id id (fun n cs hcs => hcs.1) fun vars cs vs => by
        simp [Reading.codes]
    simp only [bind_assoc, pure_bind] at this
    exact this
  | .conditional _ clauses, hp, h => by
    have hall : ∀ c ∈ clauses, ClauseWellFormed cell c := by
      cases h with | conditional _ _ h => exact h
    exact emitClauses_realizes clauses hp hall
  | .member _ object attr, hp, h => by
    have h : WellFormed cell object := by cases h with | member _ h => exact h
    exact realizes_member attr (emit_realizes object hp h)

theorem emitAll_realizes : (fs : List Formula) → plainAll fs → (∀ f ∈ fs, WellFormed cell f) →
    Realizes frame (emitAll .tree s fs) (.codes frame) fun d =>
      valueAll (Closure.invoke d) frame s fs
  | [], _, _ => realizes_nil
  | f :: fs, hp, h => by
    obtain ⟨hpf, hpfs⟩ := Bool.and_eq_true_iff.mp hp
    obtain ⟨hf, hfs⟩ := List.forall_mem_cons.mp h
    exact realizes_cons (emit_realizes f hpf hf) (emitAll_realizes fs hpfs hfs)

theorem emitEnd_realizes : (f? : Option Formula) → plainEnd f? → (∀ f ∈ f?, WellFormed cell f) →
    Realizes frame (emitEnd .tree s f?) (.codes frame) fun d =>
      valueEnd (Closure.invoke d) frame s f?
  | none, _, _ => realizes_nil
  | some f, hp, h => by
    have := realizes_cons (emit_realizes f hp (h f rfl)) realizes_nil
    simp only [pure_bind] at this
    exact this

/-- All parts but the last one are emitted for nothing but that they may fail. -/
theorem emitParts_realizes : (fs : List Formula) → plainAll fs → (∀ f ∈ fs, WellFormed cell f) →
    (∀ f ∈ fs, f.isPart) →
    Realizes frame (emitParts .tree s fs) (.code frame) fun d =>
      valueLast (Closure.invoke d) frame s fs
  | [], _, _, _ => realizes_literal .none
  | [f], hp, h, _ => by
    obtain ⟨hpf, -⟩ := Bool.and_eq_true_iff.mp hp
    exact emit_realizes f hpf (h f List.mem_cons_self)
  | f :: g :: fs, hp, h, hparts => by
    obtain ⟨hpf, hpfs⟩ := Bool.and_eq_true_iff.mp hp
    obtain ⟨hf, hfs⟩ := List.forall_mem_cons.mp h
    obtain ⟨hpart, hparts⟩ := List.forall_mem_cons.mp hparts
    exact (emit_realizes f hpf hf).seq (setsLast_of_isPart hf hpart).sure
      (emitParts_realizes (g :: fs) hpfs hfs hparts)

/-- The elements up to the first end of a range, and from its last end on. -/
theorem emitAround_realizes : (fs : List Formula) → (place : Nat) → plainAll fs →
    AroundWellFormed cell fs place →
    Realizes frame (emitAround .tree s place fs) (.prod (.codes frame) (.codes frame)) fun d =>
      valueAround (Closure.invoke d) frame s fs
  | f :: fs, 0, hp, h => by
    match f, hp, h with
    | .range _ first last, hp, .here hfirst hlast hafter =>
      obtain ⟨hpf, hpfs⟩ := Bool.and_eq_true_iff.mp hp
      obtain ⟨hpfirst, hplast⟩ := Bool.and_eq_true_iff.mp hpf
      have := (emitEnd_realizes first hpfirst hfirst).prod (realizes_append
        (emitEnd_realizes last hplast hlast) (emitAll_realizes fs hpfs hafter))
      simp only [bind_assoc, pure_bind] at this
      exact this
  | f :: fs, place + 1, hp, h => by
    obtain ⟨hpf, hpfs⟩ := Bool.and_eq_true_iff.mp hp
    obtain ⟨hf, hfs⟩ : WellFormed cell f ∧ AroundWellFormed cell fs place := by
      cases h with | later hf hfs => exact ⟨hf, hfs⟩
    have := realizes_cons_around (emit_realizes f hpf hf) (emitAround_realizes fs place hpfs hfs)
    simp only [valueAround_cons hf]
    exact this

theorem emitEntries_realizes : (entries : List Entry) → plainEntries entries →
    (∀ e ∈ entries, EntryWellFormed cell e) → {m : Emit (Code Closure) (Code Closure)} →
    {r : Nat → Run (Object Closure)} →
    Realizes frame m (.code frame) (fun d => do return (← r d).toValue) →
    Realizes frame (do emitEntries .tree s (← m) entries) (.code frame) fun d => do
      let o ← r d
      return (← valueEntries (Closure.invoke d) frame s o entries).toValue
  | [], _, _, m, r, h => by
    simp only [emitEntries, valueEntries, bind_pure, pure_bind]
    exact h
  | .mk (.name key) value' _ :: entries, hp, hall, m, r, h => by
    obtain ⟨hpv, hpes⟩ := Bool.and_eq_true_iff.mp hp
    obtain ⟨he, hes⟩ := List.forall_mem_cons.mp hall
    have hv : WellFormed cell value' := by cases he with | mk _ _ hv => exact hv
    have hinsert := (h.prod (emit_realizes value' hpv hv)).call .insert
      (fun p => [p.1, .literal (.text key), p.2]) (fun w => [w.1, .text key, w.2])
      (fun n p hp => by simp [Code.areOperands, Code.isOperand, hp.1.1, hp.2.1])
      fun vars p vs => by simp [Reading.prod, Reading.code]
    simp only [bind_assoc, pure_bind] at hinsert
    have := emitEntries_realizes entries hpes hes (m := _) (r := fun d => do
      let o ← r d
      let v ← value (Closure.invoke d) frame s value'
      return o.insert (.text key) v) (by
        simp only [bind_assoc, pure_bind]
        exact hinsert)
    simp only [bind_assoc, pure_bind] at this
    simp only [emitEntries, valueEntries, bind_assoc]
    exact this
  | .mk (.computed key) value' _ :: entries, hp, hall, m, r, h => by
    obtain ⟨hpkv, hpes⟩ := Bool.and_eq_true_iff.mp hp
    obtain ⟨hpk, hpv⟩ := Bool.and_eq_true_iff.mp hpkv
    obtain ⟨he, hes⟩ := List.forall_mem_cons.mp hall
    obtain ⟨hk, hv⟩ : WellFormed cell key ∧ WellFormed cell value' := by
      cases he with | mk _ hk hv => cases hk with | computed hk => exact ⟨hk, hv⟩
    have hinsert := (h.prod ((emit_realizes key hpk hk).prod (emit_realizes value' hpv hv))).call
      .insert (fun p => [p.1, p.2.1, p.2.2]) (fun w => [w.1, w.2.1, w.2.2])
      (fun n p hp => by simp [Code.areOperands, hp.1.1, hp.2.1.1, hp.2.2.1])
      fun vars p vs => by simp [Reading.prod, Reading.code]
    simp only [bind_assoc, pure_bind] at hinsert
    have := emitEntries_realizes entries hpes hes (m := _) (r := fun d => do
      let o ← r d
      let k ← value (Closure.invoke d) frame s key
      let v ← value (Closure.invoke d) frame s value'
      return o.insert k v) (by
        simp only [bind_assoc, pure_bind]
        exact hinsert)
    simp only [bind_assoc, pure_bind] at this
    simp only [emitEntries, valueEntries, bind_assoc]
    exact this

theorem emitClauses_realizes : (clauses : List Clause) → plainClauses clauses →
    (∀ c ∈ clauses, ClauseWellFormed cell c) →
    Realizes frame (emitClauses .tree s clauses) (.code frame) fun d =>
      valueChosen (Closure.invoke d) frame s clauses
  | [], _, _ => realizes_literal .none
  | .mk none body :: clauses, hp, hall => by
    obtain ⟨hpb, -⟩ := Bool.and_eq_true_iff.mp hp
    have hb : WellFormed cell body := by
      cases hall _ List.mem_cons_self with | mk _ hb => exact hb
    exact emit_realizes body hpb hb
  | .mk (some condition) body :: clauses, hp, hall => by
    obtain ⟨hpc, hpcs⟩ := Bool.and_eq_true_iff.mp hp
    obtain ⟨hpc, hpb⟩ := Bool.and_eq_true_iff.mp hpc
    obtain ⟨hc, hcs⟩ := List.forall_mem_cons.mp hall
    obtain ⟨hcond, hb⟩ : WellFormed cell condition ∧ WellFormed cell body := by
      cases hc with | mk hc hb => exact ⟨hc _ rfl, hb⟩
    have hbody := emit_realizes body hpb hb
    have hrest := emitClauses_realizes clauses hpcs hcs
    obtain ⟨hother, hsure⟩ := realizes_otherwise hrest
    have := (emit_realizes condition hpc hcond).cond (hbody.branch.prod hother)
      (.prod hbody.branch hbody.sure_branch hother hsure) hbody.steady hrest.steady
    simp only [bind_assoc, pure_bind] at this
    cases clauses with
    | nil => exact this
    | cons c cs => exact this

end

/-- **Compilation preserves meaning.** The code of a formula without signatures, run in a frame with calls
nested deep enough, ends with a value exactly if the formula has that value there. -/
theorem compiled_ends_iff {n : Node} {f : Formula} (h : ofNode cell n = .ok f) (hplain : f.plain)
    (s : Scope) (frame : Frame) (first : Nat) (i j : Identity) (v : Value Closure) :
    (∃ depth, frame.run (Closure.invoke depth) (f.emit .tree s first).2.1 (f.emit .tree s first).1 i =
        .ok (v, j)) ↔
      ∃ depth, f.value (Closure.invoke depth) frame s i = .ok (v, j) :=
  (emit_realizes f hplain (ofNode_wellFormed n h)).ends_run_iff first frame.vars

/-- A choice by a parameter that is false ends with the body that has no condition. -/
theorem compiled_ends_iff_of_choice :
    let span : Span := ⟨0, 0⟩
    let word (s : String) : Node := .leaf Grammar.literalName .literal span (.scalar (.text s))
    let flag : Node := .leaf Grammar.identifierName .identifier span (.name "flag")
    let arm (key : Node) (s : String) : Node := .leaf ":" .entry span (.items [key, word s])
    let tree : Node := .leaf "," .entries span (.items
      [arm ((Node.leaf "if" .ifHeader span).withLeft flag) "yes",
        arm (.leaf "else" .elseHeader span) "no"])
    let frame : Frame := ⟨[], [("flag", .boolean false)], [], ⟨10, 50⟩⟩
    let s : Scope := ⟨["flag"], []⟩
    ∃ f, ofNode 0 tree = .ok f ∧ f.plain ∧
      ∃ depth, frame.run (Closure.invoke depth) (f.emit .tree s 0).2.1 (f.emit .tree s 0).1 ⟨0, 0⟩ =
        .ok (.text "no", ⟨0, 2⟩) := by
  intro span word flag arm tree frame s
  refine ⟨_, rfl, rfl, ?_⟩
  exact (compiled_ends_iff (n := tree) rfl rfl s frame 0 ⟨0, 0⟩ ⟨0, 2⟩ (.text "no")).mpr ⟨0, rfl⟩

end Formula

end Cellbook
