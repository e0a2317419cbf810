import Cellbook.Proofs.Machine.Depth
import Cellbook.Proofs.Machine.Sound

/-!
# Calls without functions among the arguments

Names lead from a function only to cells that were evaluated before the one in which it was made, so no
function finds itself by a name. It can find itself among its arguments. A call is plain if no argument is a
function or holds one, and a machine that stops at every other call (`Closure.invokePlain`) nests calls no
deeper than functions are nested in the code (`Closure.plainCalls_level`).

**Levels.** Let `S` be the closures that the cells before hold, callable at the depth `K`. In the run of a cell
the code of a closure reads these, and it makes closures that are nested in it, once less deep. Its parameters
hold none. So the closures that the cell makes, if they are nested `d` deep, are callable at the depth `K + d`.
-/

namespace Cellbook

open Run

/-! ## Values without functions -/

namespace Value

variable {φ : Type}

mutual

/-- Whether a value is a function or holds one. -/
def holdsFunction : Value φ → Bool
  | .none | .boolean _ | .number _ | .text _ => false
  | .stream items => itemsHoldFunction items
  | .object entries methods => entriesHoldFunction entries || !methods.isEmpty
  | .function _ => true

def itemsHoldFunction : List (Value φ) → Bool
  | [] => false
  | v :: vs => holdsFunction v || itemsHoldFunction vs

def entriesHoldFunction : List (Value φ × Value φ) → Bool
  | [] => false
  | (k, v) :: es => holdsFunction k || holdsFunction v || entriesHoldFunction es

end

mutual

/-- **What holds no function** fits whatever is required of functions. -/
theorem fits_of_plain {B : Nat → φ → Prop} : (v : Value φ) → v.holdsFunction = false → v.Fits B
  | .none, _ => .none
  | .boolean b, _ => .boolean b
  | .number x, _ => .number x
  | .text s, _ => .text s
  | .stream items, h => .stream (itemsFit_of_plain items h)
  | .object entries methods, h => by
    obtain ⟨hentries, hmethods⟩ := Bool.or_eq_false_iff.mp h
    have hfit : ∀ e ∈ entries, e.1.Fits B ∧ e.2.Fits B := entriesFit_of_plain entries hentries
    obtain rfl : methods = [] := by simpa using hmethods
    exact .object (fun e he => (hfit e he).1) (fun e he => (hfit e he).2) (List.forall_mem_nil _)
  | .function _, h => nomatch h

theorem itemsFit_of_plain {B : Nat → φ → Prop} :
    (items : List (Value φ)) → itemsHoldFunction items = false → ∀ v ∈ items, v.Fits B
  | [], _ => List.forall_mem_nil _
  | v :: vs, h => by
    obtain ⟨hv, hvs⟩ := Bool.or_eq_false_iff.mp h
    exact List.forall_mem_cons.mpr ⟨fits_of_plain v hv, itemsFit_of_plain vs hvs⟩

theorem entriesFit_of_plain {B : Nat → φ → Prop} : (entries : List (Value φ × Value φ)) →
    entriesHoldFunction entries = false → ∀ e ∈ entries, e.1.Fits B ∧ e.2.Fits B
  | [], _ => List.forall_mem_nil _
  | (k, v) :: es, h => by
    obtain ⟨hentry, hes⟩ := Bool.or_eq_false_iff.mp h
    obtain ⟨hk, hv⟩ := Bool.or_eq_false_iff.mp hentry
    exact List.forall_mem_cons.mpr ⟨⟨fits_of_plain k hk, fits_of_plain v hv⟩, entriesFit_of_plain es hes⟩

end

/-- Whether some argument of a call is a function or holds one. -/
def anyHoldsFunction (args : List (Value φ)) : Bool := args.any (·.holdsFunction)

theorem allFit_of_plain {B : Nat → φ → Prop} {args : List (Value φ)}
    (h : anyHoldsFunction args = false) : ∀ v ∈ args, v.Fits B := fun v hv =>
  fits_of_plain v (Bool.eq_false_iff.mpr fun hholds => List.any_eq_false.mp h v hv hholds)

end Value

/-! ## The machine that stops -/

namespace Closure

/-- Runs the body of a closure, with calls made by `invoke`. -/
def enter (invoke : Closure → List (Value Closure) → Run (Value Closure)) (closure : Closure)
    (args : List (Value Closure)) : Run (Value Closure) :=
  match closure with
  | .mk _ params body result _ _ _ _ =>
    if args.length ≠ params.length then
      .fail (.argumentCount "function" params.length args.length)
    else (closure.frame args).run invoke body result

/-- **Calls a closure**, but ends by `stop` where some argument holds a function. -/
def invokePlain (stop : Halt) : (depth : Nat) → Closure → List (Value Closure) → Run (Value Closure)
  | 0, _, args => if Value.anyHoldsFunction args then throw stop else throw .tooDeep
  | depth + 1, closure, args =>
    if Value.anyHoldsFunction args then throw stop else closure.enter (invokePlain stop depth) args

theorem enter_refines {invoke invoke' : Closure → List (Value Closure) → Run (Value Closure)}
    (h : ∀ c args, Refines Eq (invoke c args) (invoke' c args)) (c : Closure)
    (args : List (Value Closure)) : Refines Eq (c.enter invoke args) (c.enter invoke' args) := by
  obtain ⟨_, params, body, result, _, _, _, _⟩ := c
  unfold enter
  dsimp only
  split
  · exact .refl
  · exact Frame.run_refines h _ body result

/-- Where it stops as too deep, it may be told to stop in another way. -/
theorem invokePlain_refines (stop : Halt) (depth : Nat) (c : Closure) (args : List (Value Closure)) :
    Refines Eq (invokePlain .tooDeep depth c args) (invokePlain stop depth c args) := by
  induction depth generalizing c args with
  | zero =>
    unfold invokePlain
    rw [ite_self]
    exact .tooDeep _
  | succ depth ih =>
    unfold invokePlain
    split
    · exact .tooDeep _
    · exact enter_refines ih c args

/-- Where it does not stop, it does what the machine does. -/
theorem invokePlain_refines_invoke (depth : Nat) (c : Closure) (args : List (Value Closure)) :
    Refines Eq (invokePlain .tooDeep depth c args) (invoke depth c args) := by
  induction depth generalizing c args with
  | zero =>
    unfold invokePlain
    rw [ite_self]
    exact .tooDeep _
  | succ depth ih =>
    unfold invokePlain
    split
    · exact .tooDeep _
    · exact enter_refines ih c args

end Closure

/-- **Runs a program**, but ends the evaluation of a cell by `stop` where a function is called with an argument
that is a function or holds one. -/
def Program.runPlain (stop : Halt) (p : Program Closure) (depth : Nat) (settings : Settings) :
    Option (List Outcome) :=
  Machine.start.runFromBy (Closure.invokePlain stop depth) settings p

/-- A program runs the same, however it would be stopped, if it has outcomes where it would be too deep. -/
theorem Program.runPlain_eq_run {p : Program Closure} {depth : Nat} {settings : Settings}
    (h : (p.runPlain .tooDeep depth settings).isSome) (stop : Halt) :
    p.runPlain stop depth settings = p.run depth settings := by
  obtain ⟨outcomes, hrun⟩ := Option.isSome_iff_exists.mp h
  unfold run
  rw [← Machine.runFromBy_invoke]
  calc p.runPlain stop depth settings
      = some outcomes :=
        Machine.runFromBy_refines (Closure.invokePlain_refines stop depth) settings _ p hrun
    _ = _ := (Machine.runFromBy_refines (Closure.invokePlain_refines_invoke depth) settings _ p hrun).symm

/-! ## Levels -/

namespace Closure

/-- **A closure made in a frame** whose cells hold closures with the property `S` and whose parameters hold
none; in its own code functions are nested less deep than `depth`. -/
inductive Made (S : Nat → Closure → Prop) (depth : Nat) : Nat → Closure → Prop
  | mk {identity : Identity} {params : List String} {settings : Settings} {cells : Nat → Prop}
      {names : List String} {body : Statements Closure} {result : Code Closure} {shapes : Shapes}
      {vars : List (Nat × Value Closure)} {bound : List (String × Value Closure)}
      {slots : List (Nat × Slot Closure)} :
    (∀ name ∈ names, name ∈ bound.map (·.1)) → (∀ p ∈ bound, p.2.Fits fun _ _ => False) →
    (∀ id, cells id → id ∈ slots.map (·.1)) →
    (∀ p ∈ slots, ∀ v, p.2.outcome = .ok v → v.Fits S) →
    Code.ShapedBody cells (names ++ params) [] body shapes →
    Code.Shaped cells (names ++ params) shapes result .any →
    max (Code.nestingBody body) result.nesting < depth →
    Made S depth params.length (.mk identity params body result vars bound slots settings)

/-- What a cell holds in whose run functions are nested `depth` deep: what the cells before it hold, and what
it makes. -/
def Level (S : Nat → Closure → Prop) (depth : Nat) (count : Nat) (c : Closure) : Prop :=
  S count c ∨ Made S depth count c

variable {S : Nat → Closure → Prop} {depth : Nat}

theorem Level.of_held {count : Nat} {c : Closure} (h : S count c) : Level S depth count c := .inl h

theorem Level.succ {count : Nat} {c : Closure} (h : Level S depth count c) :
    Level S (depth + 1) count c := by
  rcases h with h | h
  · exact .inl h
  · cases h with
    | mk hnames hbound hcells hslots hbody hresult hnesting =>
      exact .inr (.mk hnames hbound hcells hslots hbody hresult (Nat.lt_succ_of_lt hnesting))

/-- A frame in which only the cells hold functions. -/
theorem Level.offers {frame : Frame} {cells : Nat → Prop} {names : List String}
    (hnames : ∀ name ∈ names, name ∈ frame.bound.map (·.1))
    (hbound : ∀ p ∈ frame.bound, p.2.Fits fun _ _ => False)
    (hcells : ∀ id, cells id → id ∈ frame.cells.map (·.1))
    (hslots : ∀ p ∈ frame.cells, ∀ v, p.2.outcome = .ok v → v.Fits S) :
    frame.Offers (Level S depth) depth cells names where
  closes _ _ _ _ _ _ hbody hresult hnesting :=
    .inr (.mk hnames hbound hcells hslots hbody hresult hnesting)
  names := hnames
  bound p hp := (hbound p hp).mono fun _ _ => False.elim
  cells := hcells
  slots p hp v hv := (hslots p hp v hv).mono fun _ _ => .of_held

/-- **Closures that are callable at a depth**, and at every greater one, with arguments that hold no
function: the call ends with a value that holds such closures only, or with a fault. -/
def Callable (fault : EvalFault) (S : Nat → Closure → Prop) (depth : Nat) : Prop :=
  ∀ n, depth ≤ n → ∀ c args, S args.length c → Value.anyHoldsFunction args = false →
    Safe (EvalFault.Regular Closure) False (Value.Fits S) (invokePlain (.fault fault) n c args)
      (invokePlain (.fault fault) n c args)

variable {fault : EvalFault} (hfault : fault.Regular Closure)

include hfault

/-- With other arguments the call is stopped. -/
theorem Callable.invokeSafe (h : Callable fault S depth) {n : Nat} (hn : depth ≤ n) :
    Value.InvokeSafe S False (invokePlain (.fault fault) n) (invokePlain (.fault fault) n) := by
  intro c args hc hargs
  cases hholds : Value.anyHoldsFunction args with
  | false => exact h n hn c args hc hholds
  | true =>
    have hstop : invokePlain (.fault fault) n c args = throw (.fault fault) := by
      cases n <;> exact if_pos hholds
    rw [hstop]
    exact .fault hfault

/-- Shaped code runs to an end in a frame in which only the cells hold functions. -/
theorem Callable.run {more : Nat} (h : Callable fault (Level S more) depth) {n : Nat} (hn : depth ≤ n)
    {frame : Frame} {cells : Nat → Prop} {names : List String} {shapes : Shapes}
    {body : Statements Closure} {result : Code Closure}
    (hnames : ∀ name ∈ names, name ∈ frame.bound.map (·.1))
    (hbound : ∀ p ∈ frame.bound, p.2.Fits fun _ _ => False)
    (hcells : ∀ id, cells id → id ∈ frame.cells.map (·.1))
    (hslots : ∀ p ∈ frame.cells, ∀ v, p.2.outcome = .ok v → v.Fits S)
    (hbody : Code.ShapedBody cells names [] body shapes) (hresult : result.Shaped cells names shapes .any)
    (hnesting : max (Code.nestingBody body) result.nesting ≤ more) :
    Safe (EvalFault.Regular Closure) False (Value.Fits (Level S more))
      (frame.run (invokePlain (.fault fault) n) body result)
      (frame.run (invokePlain (.fault fault) n) body result) := by
  have hoffers : frame.Offers (Level S more) more cells names :=
    Level.offers hnames hbound hcells hslots
  have hrun := Frame.run_safe Alarm.halt (h.invokeSafe hfault hn) hoffers hbody hresult hnesting
  rwa [Watched.run_halt] at hrun

/-- **The closures of one more cell** are callable at a depth that is greater by how deep its functions are
nested. -/
theorem Callable.level (h : Callable fault S depth) (more : Nat) :
    Callable fault (Level S more) (depth + more) := by
  induction more with
  | zero =>
    intro n hn c args hc hargs
    generalize hcount : args.length = count at hc
    rcases hc with hc | hc
    · exact (h n hn c args (hcount ▸ hc) hargs).mono fun _ hv => hv.mono fun _ _ => .of_held
    · cases hc with
      | mk _ _ _ _ _ _ hnesting => exact absurd hnesting (Nat.not_lt_zero _)
  | succ more ih =>
    intro n hn c args hc hargs
    generalize hcount : args.length = count at hc
    rcases hc with hc | hc
    · have hdepth : depth ≤ n := by omega
      exact (h n hdepth c args (hcount ▸ hc) hargs).mono fun _ hv => hv.mono fun _ _ => .of_held
    cases hc with
    | mk hnames hbound hcells hslots hbody hresult hnesting =>
      obtain ⟨n, rfl⟩ : ∃ m, n = m + 1 := ⟨n - 1, by omega⟩
      have hdepth : depth + more ≤ n := by omega
      unfold invokePlain enter
      dsimp only
      rw [if_neg (by simp [hargs]), if_neg (not_not_intro hcount)]
      -- the functions that the body makes are nested once less deep
      refine Safe.mono (ih.run hfault hdepth ?_ ?_ hcells hslots hbody hresult
        (Nat.le_of_lt_succ hnesting)) fun _ hv => hv.mono fun _ _ => .succ
      · exact Frame.names_bind hcount hnames
      · exact Frame.fits_bind (Value.allFit_of_plain hargs) hbound

end Closure

end Cellbook
