import Cellbook.Proofs.Emission.Realizes
import Cellbook.Proofs.Emission.Shapes

/-!
# Calls of maps

An entry of a map with a signature and without a name is an overload. Calling the object that a map evaluates to
runs the first overload that takes the arguments (`Formula.call_map`): guards are asked in the order of the source,
only those of overloads with as many parameters as there are arguments, and no later ones than needed.

**What is where.** The object is built in a variable that is set anew for each entry. So what is shown of the
statements of each part is a postcondition (`Ensures`): what the variables hold that were set, and that those from
before still hold what they did. The methods of the object are then the overloads in order (`IsMethod`), and each
of them keeps the parameters and cells that were there, whoever calls it.
-/

namespace Cellbook

open Run Cellbook.Frame

/-! ## Overloads -/

/-- An entry with a signature and without a name. -/
structure Overload where
  params : List String
  guard : Option Formula
  body : Formula

def Entry.overload? : Entry → Option Overload
  | .mk (.signature none params _ guard) body _ => some ⟨params, guard, body⟩
  | _ => none

/-- The frame in which a function runs that was made in this one. -/
def Frame.enter (frame : Frame) (params : List String) (args : List (Value Closure)) : Frame :=
  { frame with bound := (params.zip args).reverse ++ frame.bound }

/-- **A run of the code of a formula** in a frame, wherever the numbers of its variables begin and whatever variables
are set before. -/
def Evaluates (depth : Nat) (frame : Frame) (s : Scope) (f : Formula) (r : Run (Value Closure)) : Prop :=
  ∃ (first : Nat) (vars : Vars),
    r = (frame.withVars vars).run (Closure.invoke depth) (f.emit .tree s first).2.1 (f.emit .tree s first).1

/-- **What a call does** if it follows the source: of the overloads in order, those with another number of parameters
are passed over, and the first one without a guard, or with a guard that holds, is run. If a guard has no value, then
neither has the call. -/
inductive Resolves (depth : Nat) (frame : Frame) (s : Scope) (args : List (Value Closure)) :
    List Overload → Run (Value Closure) → Prop
  | none : Resolves depth frame s args [] (.fail (.noMatchingSignature args.length))
  | otherCount {o : Overload} {os : List Overload} {rest : Run (Value Closure)} :
    args.length ≠ o.params.length → Resolves depth frame s args os rest → Resolves depth frame s args (o :: os) rest
  | unguarded {o : Overload} {os : List Overload} {body : Run (Value Closure)} :
    args.length = o.params.length → o.guard = .none →
    Evaluates depth (frame.enter o.params args) (s.bind o.params) o.body body →
    Resolves depth frame s args (o :: os) body
  | guarded {o : Overload} {os : List Overload} {f : Formula} {guard body rest : Run (Value Closure)} :
    args.length = o.params.length → o.guard = some f →
    Evaluates depth (frame.enter o.params args) (s.bind o.params) f guard →
    Evaluates depth (frame.enter o.params args) (s.bind o.params) o.body body →
    Resolves depth frame s args os rest →
    Resolves depth frame s args (o :: os) (do if (← guard).truthy then body else rest)

/-! ## Variables of a formula -/

theorem Code.ShapedBody.fresh {φ : Type} {cells : Nat → Prop} {names : List String} {vars vars' : Shapes}
    {body : Statements φ} (h : ShapedBody cells names vars body vars') : ∀ st ∈ body, ∀ p ∈ vars, p.1 ≠ st.1 := by
  induction body generalizing vars with
  | nil => exact List.forall_mem_nil _
  | cons st body ih =>
    cases h with
    | cons _ hnew hbody =>
      refine List.forall_mem_cons.mpr ⟨hnew, fun st' hst' p hp => ih hbody st' hst' p (List.mem_cons_of_mem _ hp)⟩

/-- What is emitted for a formula sets no variable below the next one. -/
theorem Formula.emit_above (s : Scope) (f : Formula) (n : Nat) :
    n ≤ (f.emit (Target.tree (φ := Closure)) s n).2.2 ∧
      ∀ st ∈ (f.emit (Target.tree (φ := Closure)) s n).2.1, n ≤ st.1 := by
  have hbelow : Shapes.Below ((List.range n).map fun x => (x, Shape.any)) n := by
    intro p hp
    obtain ⟨x, hx, rfl⟩ := List.mem_map.mp hp
    exact List.mem_range.mp hx
  have hshaped : Emits (φ := Closure) (fun _ => True) s.bound .any [] (f.emit .tree s) :=
    emit_shaped (fun _ _ => trivial) f
  obtain ⟨vars', h⟩ := hshaped (List.nil_subset _) hbelow
  refine ⟨h.next, fun st hst => Nat.le_of_not_lt fun hlt => ?_⟩
  exact h.body.fresh st hst (st.1, .any) (List.mem_map.mpr ⟨st.1, List.mem_range.mpr hlt, rfl⟩) rfl

/-! ## Postconditions -/

variable {frame : Frame} {s : Scope} {α β : Type}

/-- **What is so once the statements of an emission are executed**: the variables below the first one that is free
are what they were. -/
def Ensures (frame : Frame) (n : Nat) (vars : Vars) (m : Emit (Code Closure) α) (Q : Nat → Vars → α → Prop) : Prop :=
  ∀ depth i frame' j, (frame.withVars vars).exec (Closure.invoke depth) (m n).2.1 i = .ok (frame', j) →
    n ≤ (m n).2.2 ∧ ∃ vars', frame' = frame.withVars vars' ∧ AgreeBelow n vars vars' ∧ Q (m n).2.2 vars' (m n).1

namespace Ensures

variable {n : Nat} {vars : Vars} {m : Emit (Code Closure) α} {P : Nat → Vars → α → Prop} {Q : Nat → Vars → β → Prop}

theorem pure {a : α} (h : P n vars a) : Ensures frame n vars (Pure.pure a) P := by
  intro depth i frame' j hexec
  obtain ⟨rfl, -⟩ := pure_eq_ok_iff.mp hexec
  exact ⟨Nat.le_refl n, vars, rfl, fun _ _ => rfl, h⟩

theorem bind {f : α → Emit (Code Closure) β} (h : Ensures frame n vars m P)
    (hf : ∀ n' vars' a, n ≤ n' → AgreeBelow n vars vars' → P n' vars' a → Ensures frame n' vars' (f a) Q) :
    Ensures frame n vars (m >>= f) Q := by
  intro depth i frame'' k hexec
  rw [Emit.bind_apply, exec_append] at hexec
  obtain ⟨frame', j, hexec, hrest⟩ := bind_eq_ok_iff.mp hexec
  obtain ⟨hle, vars', rfl, hagree, hP⟩ := h depth i frame' j hexec
  obtain ⟨hle', vars'', rfl, hagree', hQ⟩ := hf _ vars' _ hle hagree hP depth j frame'' k hrest
  refine ⟨Nat.le_trans hle hle', vars'', rfl, fun x hx => ?_, hQ⟩
  exact (hagree x hx).trans (hagree' x (Nat.lt_of_lt_of_le hx hle))

theorem mono {P' : Nat → Vars → α → Prop} (h : Ensures frame n vars m P)
    (himp : ∀ n vars a, P n vars a → P' n vars a) : Ensures frame n vars m P' := by
  intro depth i frame' j hexec
  obtain ⟨hle, vars', rfl, hagree, hP⟩ := h depth i frame' j hexec
  exact ⟨hle, vars', rfl, hagree, himp _ _ _ hP⟩

theorem declare {c : Code Closure} {Q : Nat → Vars → Code Closure → Prop}
    (h : ∀ depth i v j, (frame.withVars vars).eval (Closure.invoke depth) c i = .ok (v, j) →
      Q (n + 1) ((n, v) :: vars) (.var n)) : Ensures frame n vars (Emit.declare .tree c) Q := by
  intro depth i frame' j hexec
  obtain ⟨v, k, hv, hrest⟩ := bind_eq_ok_iff.mp hexec
  obtain ⟨rfl, -⟩ := pure_eq_ok_iff.mp hrest
  refine ⟨Nat.le_succ n, (n, v) :: vars, rfl, fun x hx => ?_, h depth i v k hv⟩
  rw [List.lookup_cons, beq_false_of_ne (Nat.ne_of_lt hx)]

/-- A function is emitted without statements. -/
theorem lambda {params : List String} {f : Formula} {s : Scope} {Q : Nat → Vars → Code Closure → Prop}
    (h : ∀ n' captures, n ≤ n' → Q n' vars (.lambda params (f.emit .tree s n).2.1 (f.emit .tree s n).1 captures)) :
    Ensures frame n vars (Emit.lambda .tree params (f.emit .tree s)) Q := by
  intro depth i frame' j hexec
  obtain ⟨rfl, -⟩ := pure_eq_ok_iff.mp hexec
  have hle := (Formula.emit_above s f n).1
  exact ⟨hle, vars, rfl, fun _ _ => rfl, h _ _ hle⟩

/-- A formula leaves the variables that are set before it. -/
theorem formula (s : Scope) (f : Formula) : Ensures frame n vars (f.emit .tree s) fun _ _ _ => True := by
  intro depth i frame' j hexec
  obtain ⟨hle, habove⟩ := Formula.emit_above s f n
  obtain ⟨vars', rfl, hagree⟩ := exec_withVars habove hexec
  exact ⟨hle, vars', rfl, hagree, trivial⟩

end Ensures

/-! ## Methods -/

/-- A variable below a number, and its value. -/
def Holds (n : Nat) (vars : Vars) (c : Code Closure) (v : Value Closure) : Prop :=
  ∃ x < n, c = .var x ∧ vars.lookup x = some v

section Holds

variable {n n' : Nat} {vars vars' : Vars} {c : Code Closure} {v : Value Closure}

theorem Holds.of_agree (h : Holds n vars c v) (hle : n ≤ n') (hagree : AgreeBelow n vars vars') :
    Holds n' vars' c v := by
  obtain ⟨x, hx, rfl, hv⟩ := h
  exact ⟨x, Nat.lt_of_lt_of_le hx hle, rfl, (hagree x hx).symm.trans hv⟩

theorem Holds.last (n : Nat) (vars : Vars) (v : Value Closure) : Holds (n + 1) ((n, v) :: vars) (.var n) v :=
  ⟨n, Nat.lt_succ_self n, rfl, List.lookup_cons_self⟩

theorem Holds.eval_eq (h : Holds n vars c v) (invoke : Closure → List (Value Closure) → Run (Value Closure)) :
    (frame.withVars vars).eval invoke c = pure v := by
  obtain ⟨x, -, rfl, hv⟩ := h
  simp only [Frame.eval, Frame.withVars, hv]

end Holds

/-- A call that has a value leaves it in a variable. -/
theorem Ensures.call {n : Nat} {vars : Vars} {b : Builtin} {cs : List (Code Closure)} {v : Value Closure}
    (h : ∀ depth, (frame.withVars vars).eval (Closure.invoke depth) (.call b cs) = Pure.pure v) :
    Ensures frame n vars (Emit.call .tree b cs) fun n' vars' c => Holds n' vars' c v := by
  refine .declare fun depth i w j hw => ?_
  rw [show Target.tree.call b cs = .call b cs from rfl, h depth] at hw
  obtain ⟨rfl, -⟩ := pure_eq_ok_iff.mp hw
  exact .last n vars _

/-- A closure that runs the code of a formula with parameters of its own, and otherwise what was there when it was
made. -/
inductive Runs (frame : Frame) (s : Scope) (params : List String) (f : Formula) : Closure → Prop
  | mk (identity : Identity) (first : Nat) (vars : Vars) :
    Runs frame s params f (.mk identity params (f.emit .tree (s.bind params) first).2.1
      (f.emit .tree (s.bind params) first).1 vars frame.bound frame.cells frame.settings)

/-- **The method that an overload becomes.** -/
structure IsMethod (frame : Frame) (s : Scope) (o : Overload) (m : Function Closure) : Prop where
  params_eq : m.params = o.params
  body : Runs frame s o.params o.body m.body
  guard : Option.Rel (Runs frame s o.params) o.guard m.guard

/-- **A function that is emitted** keeps the parameters and cells that are there. -/
theorem function_ensures (params : List String) (f : Formula) {n : Nat} {vars : Vars} :
    Ensures frame n vars (do Emit.declare .tree (← Emit.lambda .tree params (f.emit .tree (s.bind params))))
      fun n' vars' c => ∃ body, Holds n' vars' c (.function ⟨params, body, none⟩) ∧ Runs frame s params f body := by
  refine .bind (.lambda (Q := fun _ vars' c => vars' = vars ∧ ∃ captures,
    c = .lambda params (f.emit .tree (s.bind params) n).2.1 (f.emit .tree (s.bind params) n).1 captures)
    fun _ captures _ => ⟨rfl, captures, rfl⟩) ?_
  rintro n' _ _ - - ⟨rfl, captures, rfl⟩
  refine .declare fun depth i v j hv => ?_
  cases hv
  exact ⟨_, .last n' _ _, .mk ..⟩

theorem method_ensures (params : List String) (guard : Option Formula) (body : Formula) {n : Nat} {vars : Vars} :
    Ensures frame n vars
      (do
        let method ← Emit.declare .tree (← Emit.lambda .tree params (body.emit .tree (s.bind params)))
        Formula.emitGuard .tree (s.bind params) params method guard)
      fun n' vars' c => ∃ m, Holds n' vars' c (.function m) ∧ IsMethod frame s ⟨params, guard, body⟩ m := by
  rw [← bind_assoc]
  refine (function_ensures params body).bind ?_
  rintro n₁ vars₁ c - - ⟨closure, hc, hruns⟩
  cases guard with
  | none => exact .pure ⟨_, hc, rfl, hruns, .none⟩
  | some f =>
    unfold Formula.emitGuard
    rw [← bind_assoc]
    refine (function_ensures params f).bind ?_
    rintro n₂ vars₂ d hle hagree ⟨guard, hd, hguard⟩
    have hcall (depth : Nat) : (frame.withVars vars₂).eval (Closure.invoke depth) (.call .guard [c, d]) =
        pure (.function ⟨params, closure, some guard⟩) := by
      simp only [Frame.eval, Frame.evalAll, (hc.of_agree hle hagree).eval_eq, hd.eval_eq, pure_bind]
      rfl
    exact (Ensures.call hcall).mono fun _ _ _ hm => ⟨_, hm, rfl, hruns, .some hguard⟩

/-! ## Objects -/

/-- An object with these methods is in a variable. -/
def HoldsObject (n : Nat) (vars : Vars) (c : Code Closure) (methods : List (Function Closure)) : Prop :=
  ∃ entries, Holds n vars c (.object entries methods)

theorem HoldsObject.of_agree {n n' : Nat} {vars vars' : Vars} {c : Code Closure} {methods : List (Function Closure)}
    (h : HoldsObject n vars c methods) (hle : n ≤ n') (hagree : AgreeBelow n vars vars') :
    HoldsObject n' vars' c methods := by
  obtain ⟨entries, hc⟩ := h
  exact ⟨entries, hc.of_agree hle hagree⟩

/-- An entry leaves the methods as they are. -/
theorem insert_ensures {n : Nat} {vars : Vars} {object : Code Closure} {methods : List (Function Closure)}
    (h : HoldsObject n vars object methods) (key value : Code Closure) :
    Ensures frame n vars (Emit.call .tree .insert [object, key, value])
      fun n' vars' c => HoldsObject n' vars' c methods := by
  obtain ⟨entries, hobject⟩ := h
  refine .declare fun depth i v j hv => ?_
  have happly : (frame.withVars vars).eval (Closure.invoke depth) (.call .insert [object, key, value]) = do
      let k ← (frame.withVars vars).eval (Closure.invoke depth) key
      let v ← (frame.withVars vars).eval (Closure.invoke depth) value
      return (Object.insert ⟨entries, methods⟩ k v).toValue := by
    simp only [Frame.eval, Frame.evalAll, hobject.eval_eq, pure_bind, bind_assoc]
    rfl
  rw [show Target.tree.call .insert [object, key, value] = .call .insert [object, key, value] from rfl, happly] at hv
  obtain ⟨k, _, -, hv⟩ := bind_eq_ok_iff.mp hv
  obtain ⟨w, _, -, hv⟩ := bind_eq_ok_iff.mp hv
  obtain ⟨rfl, -⟩ := pure_eq_ok_iff.mp hv
  exact ⟨_, .last ..⟩

/-- A method goes behind the others. -/
theorem define_ensures {n : Nat} {vars : Vars} {object method : Code Closure} {methods : List (Function Closure)}
    {m : Function Closure} (h : HoldsObject n vars object methods) (hm : Holds n vars method (.function m)) :
    Ensures frame n vars (Emit.call .tree .define [object, method])
      fun n' vars' c => HoldsObject n' vars' c (methods ++ [m]) := by
  obtain ⟨entries, hobject⟩ := h
  have hcall (depth : Nat) : (frame.withVars vars).eval (Closure.invoke depth) (.call .define [object, method]) =
      pure (.object entries (methods ++ [m])) := by
    simp only [Frame.eval, Frame.evalAll, hobject.eval_eq, hm.eval_eq, pure_bind]
    rfl
  exact (Ensures.call hcall).mono fun _ _ _ h => ⟨entries, h⟩

/-- The code of an entry with a signature: the method first, and then the call that takes it. -/
theorem Formula.emitEntries_signature {κ : Type} (t : Target κ) (s : Scope) (object : κ) (name : Option String)
    (params : List String) (guard : Option Formula) (value : Formula) (o o' : Origin) (entries : List Entry) :
    emitEntries t s object (.mk (.signature name params o guard) value o' :: entries) =
      (do
        let method ← Emit.declare t (← Emit.lambda t params (emit t (s.bind params) value))
        emitGuard t (s.bind params) params method guard) >>= fun method =>
      (match name with
        | some name => Emit.call t .insert [object, t.literal (.text name), method]
        | none => Emit.call t .define [object, method]) >>= fun object => emitEntries t s object entries := by
  simp only [emitEntries, bind_assoc]
  cases name <;> rfl

/-- **The methods of a map are its overloads in order**, behind those that were there. -/
theorem emitEntries_ensures : (entries : List Entry) → {n : Nat} → {vars : Vars} → {object : Code Closure} →
    {methods : List (Function Closure)} → HoldsObject n vars object methods →
    Ensures frame n vars (Formula.emitEntries .tree s object entries) fun n' vars' c =>
      ∃ more, HoldsObject n' vars' c (methods ++ more) ∧
        List.Forall₂ (IsMethod frame s) (entries.filterMap Entry.overload?) more
  | [], _, _, _, methods, h => .pure ⟨[], by rwa [List.append_nil], .nil⟩
  | .mk (.name key) value _ :: entries, n, vars, object, methods, h =>
    (Ensures.formula s value).bind fun _ _ _ hle hagree _ =>
      (insert_ensures (h.of_agree hle hagree) _ _).bind fun _ _ _ _ _ h => emitEntries_ensures entries h
  | .mk (.computed key) value _ :: entries, n, vars, object, methods, h =>
    (Ensures.formula s key).bind fun _ _ _ hle hagree _ => (Ensures.formula s value).bind fun _ _ _ hle' hagree' _ =>
      (insert_ensures ((h.of_agree hle hagree).of_agree hle' hagree') _ _).bind
        fun _ _ _ _ _ h => emitEntries_ensures entries h
  | .mk (.signature name params _ guard) value _ :: entries, n, vars, object, methods, h => by
    rw [Formula.emitEntries_signature]
    refine (method_ensures params guard value).bind ?_
    rintro n₁ vars₁ method hle hagree ⟨m, hm, hismethod⟩
    have h := h.of_agree hle hagree
    cases name with
    | some name => exact (insert_ensures h _ _).bind fun _ _ _ _ _ h => emitEntries_ensures entries h
    | none =>
      refine (define_ensures h hm).bind fun n₂ vars₂ object₂ _ _ h => ?_
      refine (emitEntries_ensures entries h).mono ?_
      rintro _ _ _ ⟨more, h, hmore⟩
      refine ⟨m :: more, ?_, .cons hismethod hmore⟩
      rwa [List.append_assoc] at h

/-! ## Calls -/

section Calls

variable {depth : Nat} {args : List (Value Closure)}

/-- Calling a closure evaluates its formula. -/
theorem Runs.evaluates {params : List String} {f : Formula} {c : Closure} (h : Runs frame s params f c)
    (hcount : args.length = params.length) :
    Evaluates depth (frame.enter params args) (s.bind params) f (Closure.invoke (depth + 1) c args) := by
  obtain ⟨identity, first, vars⟩ := h
  refine ⟨first, vars, ?_⟩
  rw [Closure.invoke, if_neg (not_not_intro hcount)]
  rfl

/-- **Calling the first method that takes the arguments** is what a call does if it follows the source. -/
theorem callFirst_resolves {overloads : List Overload} {methods : List (Function Closure)}
    (h : List.Forall₂ (IsMethod frame s) overloads methods) :
    Resolves depth frame s args overloads (Value.callFirst (Closure.invoke (depth + 1)) args methods) := by
  induction h with
  | nil => exact .none
  | @cons o m os ms hm _ ih =>
    obtain ⟨params, guard, body⟩ := o
    obtain ⟨params', closure, closure'⟩ := m
    obtain ⟨hparams, hbody, hguard⟩ := hm
    obtain rfl : params = params' := hparams.symm
    unfold Value.callFirst Value.accepts Function.arity
    by_cases hcount : args.length = params.length
    · rw [if_neg (not_not_intro hcount)]
      cases hguard with
      | none =>
        simp only [pure_bind, if_true]
        exact .unguarded hcount rfl (hbody.evaluates hcount)
      | some hguard =>
        simp only [bind_assoc, pure_bind]
        exact .guarded hcount rfl (hguard.evaluates hcount) (hbody.evaluates hcount) ih
    · simp only [if_pos hcount, pure_bind, Bool.false_eq_true, if_false]
      exact .otherCount hcount ih

/-! ## Names -/

/-- **The value of a name** is what it means in the frame. -/
theorem evaluates_identifier_iff {o : Origin} {name : String} {r : Run (Value Closure)} :
    Evaluates depth frame s (.identifier o name) r ↔ r = ofExcept (frame.valueOfName s name) := by
  have hrun (first : Nat) (vars : Vars) :
      (frame.withVars vars).run (Closure.invoke depth) (Formula.emitName .tree s name first).2.1
        (Formula.emitName .tree s name first).1 = ofExcept (frame.valueOfName s name) := by
    unfold Formula.emitName Frame.valueOfName
    split
    · show (frame.withVars vars).eval (Closure.invoke depth) (.param name) = _
      simp only [Frame.eval, Frame.withVars]
      cases frame.bound.lookup name <;> rfl
    · cases s.cells.lookup name <;> rfl
  constructor
  · rintro ⟨first, vars, rfl⟩
    exact hrun first vars
  · rintro rfl
    exact ⟨0, [], (hrun 0 []).symm⟩

/-- A parameter denotes its argument, the last one if several have its name. -/
theorem lookup_enter {params : List String} {k : Nat} {name : String} {a : Value Closure}
    (hname : params[k]? = some name) (hlast : ∀ l, k < l → params[l]? ≠ some name) (ha : args[k]? = some a) :
    (frame.enter params args).bound.lookup name = some a := by
  have hk : (params.zip args)[k]? = some (name, a) := List.getElem?_zip_eq_some.mpr ⟨hname, ha⟩
  obtain ⟨hlt, hget⟩ := List.getElem?_eq_some_iff.mp hk
  have hsplit : params.zip args = (params.zip args).take k ++ (name, a) :: (params.zip args).drop (k + 1) := by
    rw [← hget, ← List.drop_eq_getElem_cons hlt, List.take_append_drop]
  refine List.lookup_eq_some_iff.mpr ⟨((params.zip args).drop (k + 1)).reverse,
    ((params.zip args).take k).reverse ++ frame.bound, ?_, fun p hp => ?_⟩
  · show (params.zip args).reverse ++ frame.bound = _
    conv_lhs => rw [hsplit]
    simp
  · obtain ⟨l, hl⟩ := List.mem_iff_getElem?.mp (List.mem_reverse.mp hp)
    rw [List.getElem?_drop] at hl
    have := hlast (k + 1 + l) (by omega)
    rw [(List.getElem?_zip_eq_some.mp hl).1] at this
    exact bne_iff_ne.mpr fun h => this (congrArg some h.symm)

/-- Other names are not touched. -/
theorem lookup_enter_of_not_mem {params : List String} {name : String} (h : name ∉ params) :
    (frame.enter params args).bound.lookup name = frame.bound.lookup name := by
  have hnone : ((params.zip args).reverse).lookup name = none := by
    refine List.lookup_eq_none_iff.mpr fun p hp => bne_iff_ne.mpr fun heq => h ?_
    exact heq ▸ (List.of_mem_zip (List.mem_reverse.mp hp)).1
  show ((params.zip args).reverse ++ frame.bound).lookup name = _
  rw [List.lookup_append, hnone, Option.none_or]

end Calls

/-! ## Maps -/

/-- **The object of a map** has the overloads for methods. -/
theorem map_ensures (o : Origin) (entries : List Entry) {n : Nat} {vars : Vars} :
    Ensures frame n vars ((Formula.map o entries).emit .tree s) fun n' vars' c =>
      ∃ methods, HoldsObject n' vars' c methods ∧
        List.Forall₂ (IsMethod frame s) (entries.filterMap Entry.overload?) methods := by
  have hempty : Ensures frame n vars (Emit.call .tree .map []) fun n' vars' c => HoldsObject n' vars' c [] :=
    (Ensures.call fun _ => rfl).mono fun _ _ _ h => ⟨[], h⟩
  unfold Formula.emit
  refine hempty.bind fun n' vars' object _ _ h => ?_
  refine (emitEntries_ensures entries h).mono ?_
  rintro _ _ _ ⟨methods, h, hmethods⟩
  exact ⟨methods, h, hmethods⟩

/-- **Calling what a map evaluates to** follows the source, wherever the call happens: with these arguments it does
what its overloads say, evaluated in the frame in which the map was. Inside them a parameter denotes its argument, the
last one if several have its name, whatever else has that name, and other names mean what they mean there. -/
theorem Formula.call_map {depth first : Nat} {o : Origin} {entries : List Entry} {i j : Identity} {v : Value Closure}
    (h : frame.run (Closure.invoke depth) ((Formula.map o entries).emit .tree s first).2.1
      ((Formula.map o entries).emit .tree s first).1 i = .ok (v, j)) (depth' : Nat) (args : List (Value Closure)) :
    (∀ settings, Resolves depth' frame s args (entries.filterMap Entry.overload?)
        (Builtin.call.apply (Closure.invoke (depth' + 1)) settings (v :: args))) ∧
      ∀ (params : List String) (o : Origin) (name : String) (r : Run (Value Closure)),
        Evaluates depth' (frame.enter params args) (s.bind params) (.identifier o name) r →
          (∀ k a, params[k]? = some name → (∀ l : Nat, k < l → params[l]? ≠ some name) → args[k]? = some a →
            r = pure a) ∧
          (name ∉ params → Evaluates depth' frame s (.identifier o name) r) := by
  constructor
  · intro settings
    obtain ⟨frame', k, hexec, heval⟩ := bind_eq_ok_iff.mp h
    have hmap : Ensures frame first frame.vars ((Formula.map o entries).emit .tree s) _ := map_ensures o entries
    obtain ⟨-, vars, rfl, -, methods, ⟨es, hobject⟩, hmethods⟩ := hmap depth i frame' k hexec
    rw [hobject.eval_eq] at heval
    obtain ⟨rfl, -⟩ := pure_eq_ok_iff.mp heval
    exact callFirst_resolves hmethods
  · intro params o name r hr
    rw [evaluates_identifier_iff] at hr
    subst hr
    refine ⟨fun k a hname hlast ha => ?_, fun hnot => evaluates_identifier_iff.mpr ?_⟩
    · have hbound : (s.bind params).bound.contains name :=
        List.contains_iff_mem.mpr (List.mem_append_right _ (List.mem_of_getElem? hname))
      rw [valueOfName, if_pos hbound, lookup_enter hname hlast ha]
      rfl
    · have hbound : (s.bind params).bound.contains name = s.bound.contains name := by
        rw [Bool.eq_iff_iff]
        simp [Scope.bind, hnot]
      unfold valueOfName
      rw [hbound, lookup_enter_of_not_mem hnot]
      rfl

/-- A map that takes what is true as it is, refuses everything else with a text, and has an entry besides. -/
theorem Formula.call_map_of_guarded :
    let o : Origin := ⟨1, ⟨0, 0⟩⟩
    let entries : List Entry := [.mk (.signature none ["a"] o (some (.identifier o "a"))) (.identifier o "a") o,
      .mk (.name "size") (.literal o (.boolean true)) o, .mk (.signature none ["b"] o none) (.identifier o "rate") o]
    let frame : Frame := ⟨[], [("rate", .text "low")], [], ⟨50, 100⟩⟩
    let s : Scope := ⟨["rate"], []⟩
    ∃ v j, frame.run (Closure.invoke 0) ((Formula.map o entries).emit .tree s 0).2.1
        ((Formula.map o entries).emit .tree s 0).1 ⟨1, 0⟩ = .ok (v, j) ∧
      ∀ settings, Resolves 5 frame s [.boolean false] (entries.filterMap Entry.overload?)
        (Builtin.call.apply (Closure.invoke 6) settings [v, .boolean false]) := by
  intro o entries frame s
  obtain ⟨v, j, hrun⟩ : ∃ v j, frame.run (Closure.invoke 0) ((Formula.map o entries).emit .tree s 0).2.1
    ((Formula.map o entries).emit .tree s 0).1 ⟨1, 0⟩ = .ok (v, j) := ⟨_, _, rfl⟩
  exact ⟨v, j, hrun, (Formula.call_map hrun 5 [.boolean false]).1⟩

end Cellbook
