import Cellbook.Proofs.Machine.Depth

/-!
# What runs end with

What some code does is a run for each depth of calls. `Ends` is the question that does not mention the
depth: whether the run ends at some depth, and with which result. It can be answered step by step
(`ends_bind_iff`) for runs that are `Steady`, and the runs of code are.
-/

namespace Cellbook

namespace Run

variable {α β : Type}

theorem bind_eq_ok_iff {r : Run α} {f : α → Run β} {i k : Identity} {b : β} :
    (r >>= f) i = .ok (b, k) ↔ ∃ a j, r i = .ok (a, j) ∧ f a j = .ok (b, k) := by
  show (r i >>= fun p => f p.1 p.2) = .ok (b, k) ↔ _
  cases r i with
  | error e =>
    constructor
    · exact fun h => nomatch h
    · exact fun ⟨_, _, h, _⟩ => nomatch h
  | ok p =>
    constructor
    · exact fun h => ⟨p.1, p.2, rfl, h⟩
    · rintro ⟨a, j, h, hf⟩
      cases h
      exact hf

theorem pure_eq_ok_iff {a b : α} {i j : Identity} :
    (pure a : Run α) i = .ok (b, j) ↔ b = a ∧ j = i := by
  constructor
  · intro h
    cases h
    exact ⟨rfl, rfl⟩
  · rintro ⟨rfl, rfl⟩
    rfl

theorem fail_ne_ok {cause : EvalCause} {notes : List EvalNote} {i : Identity} {end' : α × Identity} :
    (Run.fail cause notes : Run α) i ≠ .ok end' := fun h => nomatch h

theorem ofExcept_eq_ok_iff {x : Except EvalFault α} {i j : Identity} {a : α} :
    ofExcept x i = .ok (a, j) ↔ x = .ok a ∧ j = i := by
  cases x with
  | error e =>
    constructor
    · exact fun h => nomatch h
    · exact fun h => nomatch h.1
  | ok b =>
    show (pure b : Run α) i = .ok (a, j) ↔ _
    rw [pure_eq_ok_iff, Except.ok.injEq, eq_comm (a := a)]

/-- Runs for each depth of which the deeper ones refine the others. -/
def Steady (r : Nat → Run α) : Prop := ∀ ⦃d d'⦄, d ≤ d' → Refines Eq (r d) (r d')

theorem Steady.const (r : Run α) : Steady fun _ => r := fun _ _ _ => .refl

theorem Steady.bind {r : Nat → Run α} {f : Nat → α → Run β} (hr : Steady r)
    (hf : ∀ a, Steady fun d => f d a) : Steady fun d => r d >>= f d :=
  fun _ _ h => (hr h).bind fun a _ hab => hab ▸ hf a h

/-- **At some depth the run ends with that result**, having begun with one identity and leaving another
one as the next. -/
def Ends (r : Nat → Run α) (i : Identity) (a : α) (j : Identity) : Prop := ∃ d, r d i = .ok (a, j)

theorem ends_const_iff {r : Run α} {i j : Identity} {a : α} :
    Ends (fun _ => r) i a j ↔ r i = .ok (a, j) := ⟨fun ⟨_, h⟩ => h, fun h => ⟨0, h⟩⟩

theorem ends_pure_iff {i j : Identity} {a b : α} :
    Ends (fun _ => (pure a : Run α)) i b j ↔ b = a ∧ j = i := by
  rw [ends_const_iff, pure_eq_ok_iff]

theorem ends_ofExcept_iff {x : Except EvalFault α} {i j : Identity} {a : α} :
    Ends (fun _ => ofExcept x) i a j ↔ x = .ok a ∧ j = i := by
  rw [ends_const_iff, ofExcept_eq_ok_iff]

/-- **Ends go by steps.** -/
theorem ends_bind_iff {r : Nat → Run α} {f : Nat → α → Run β} (hr : Steady r)
    (hf : ∀ a, Steady fun d => f d a) {i k : Identity} {b : β} :
    Ends (fun d => r d >>= f d) i b k ↔ ∃ a j, Ends r i a j ∧ Ends (fun d => f d a) j b k := by
  constructor
  · rintro ⟨d, h⟩
    obtain ⟨a, j, hra, hfa⟩ := bind_eq_ok_iff.mp h
    exact ⟨a, j, ⟨d, hra⟩, d, hfa⟩
  · rintro ⟨a, j, ⟨d, hra⟩, e, hfa⟩
    refine ⟨max d e, bind_eq_ok_iff.mpr ⟨a, j, ?_, ?_⟩⟩
    · exact (hr (Nat.le_max_left d e)).eq_ok hra
    · exact (hf a (Nat.le_max_right d e)).eq_ok hfa

theorem Steady.bind_pure {r : Nat → Run α} (hr : Steady r) (g : α → β) :
    Steady fun d => r d >>= fun a => pure (g a) := hr.bind fun _ => .const _

theorem ends_bind_pure_iff {r : Nat → Run α} (hr : Steady r) {g : α → β} {i j : Identity} {b : β} :
    Ends (fun d => r d >>= fun a => pure (g a)) i b j ↔ ∃ a, Ends r i a j ∧ b = g a := by
  refine (ends_bind_iff (f := fun _ a => pure (g a)) hr fun _ => .const _).trans ?_
  constructor
  · rintro ⟨a, k, ha, hb⟩
    obtain ⟨rfl, rfl⟩ := ends_pure_iff.mp hb
    exact ⟨a, ha, rfl⟩
  · rintro ⟨a, ha, rfl⟩
    exact ⟨a, j, ha, ends_pure_iff.mpr ⟨rfl, rfl⟩⟩

end Run

open Run

/-! ## The runs of code -/

namespace Frame

theorem steady_eval (frame : Frame) (code : Code Closure) :
    Steady fun d => frame.eval (Closure.invoke d) code :=
  fun _ _ h => eval_mono (fun c args => Closure.invoke_mono h c args) frame code

theorem steady_evalAll (frame : Frame) (codes : List (Code Closure)) :
    Steady fun d => frame.evalAll (Closure.invoke d) codes :=
  fun _ _ h => evalAll_mono (fun c args => Closure.invoke_mono h c args) frame codes

theorem steady_exec (frame : Frame) (body : Statements Closure) :
    Steady fun d => frame.exec (Closure.invoke d) body :=
  fun _ _ h => exec_mono (fun c args => Closure.invoke_mono h c args) frame body

end Frame

theorem Builtin.steady_apply (settings : Settings) (b : Builtin) (args : List (Value Closure)) :
    Steady fun d => b.apply (Closure.invoke d) settings args := fun _ _ h =>
  (apply_refines keepsEquality_eq
    (Frame.invokeRefines_of_refines fun c args => Closure.invoke_mono h c args) settings b
    (Value.ItemsRelated.rfl args)).mono fun _ _ => Value.Related.eq

/-- A call with as many arguments as there are parameters ends as the body does in a frame of its own. -/
theorem Closure.ends_invoke_iff {identity : Identity} {params : List String}
    {body : Statements Closure} {result : Code Closure} {vars : List (Nat × Value Closure)}
    {bound : List (String × Value Closure)} {cells : List (Nat × Slot Closure)} {settings : Settings}
    {args : List (Value Closure)} (h : args.length = params.length) {i j : Identity}
    {v : Value Closure} :
    let c := mk identity params body result vars bound cells settings
    Ends (fun d => invoke d c args) i v j ↔
      Ends (fun d => (c.frame args).run (invoke d) body result) i v j := by
  constructor
  · rintro ⟨d, hd⟩
    cases d with
    | zero => cases hd
    | succ d =>
      simp only [invoke, if_neg (not_not_intro h)] at hd
      exact ⟨d, hd⟩
  · rintro ⟨d, hd⟩
    refine ⟨d + 1, ?_⟩
    simp only [invoke, if_neg (not_not_intro h)]
    exact hd

end Cellbook
