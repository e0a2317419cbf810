import Cellbook.Proofs.Machine.Watched
import Cellbook.Proofs.Value.Fits

/-!
# The shapes of arguments

Some arguments of built-in functions are never chosen by who writes a formula, but by the form that the
formula has: what an entry is put into, which function gets a guard, what is done if a condition holds. For
these a built-in function requires a shape, and its own result has one (`Builtin.Signature`). Arguments of
the right shapes are not refused, and with values that fit and calls that are safe the built-in function is
safe (`Builtin.watched_apply_safe`).
-/

namespace Cellbook

/-- **A shape**: what is known of a value by where it comes from. -/
inductive Shape where
  | any
  | stream
  | object
  | text
  /-- A function of that many parameters. -/
  | function (arity : Nat)
  /-- What may be done by a condition: nothing, or a function without parameters. -/
  | branch

variable {φ : Type} {B : Nat → φ → Prop} {deep : Prop}

/-- The values that have a shape. -/
inductive Shape.Holds : Shape → Value φ → Prop
  | any (v : Value φ) : Holds .any v
  | stream (items : List (Value φ)) : Holds .stream (.stream items)
  | object (entries : List (Value φ × Value φ)) (methods : List (Function φ)) :
    Holds .object (.object entries methods)
  | text (s : String) : Holds .text (.text s)
  | function {f : Function φ} {arity : Nat} : f.arity = arity → Holds (.function arity) (.function f)
  | noBranch : Holds .branch .none
  | branch {f : Function φ} : f.arity = 0 → Holds .branch (.function f)

/-- **A value that fits and has a shape.** -/
structure Value.Shaped (B : Nat → φ → Prop) (σ : Shape) (v : Value φ) : Prop where
  fits : v.Fits B
  shape : σ.Holds v

/-- **What a built-in function requires** of its arguments, and the shape of its result. -/
inductive Builtin.Signature : Builtin → List Shape → Shape → Prop
  | binary (op : BinaryOp) : Signature (.binary op) [.any, .any] .any
  | unary (op : UnaryOp) : Signature (.unary op) [.any] .any
  | stream : Signature .stream [.stream] .any
  | generate : Signature .generate [.stream, .stream, .any] .any
  | map : Signature .map [] .object
  | insert : Signature .insert [.object, .any, .any] .object
  | define (arity : Nat) : Signature .define [.object, .function arity] .object
  | guard (arity : Nat) : Signature .guard [.function arity, .function arity] (.function arity)
  | call (count : Nat) : Signature .call (.any :: List.replicate count .any) .any
  | attr : Signature .attr [.any, .text] .any
  | get : Signature .get [.any, .any] .any
  | cond : Signature .cond [.any, .branch, .branch] .any
  | unresolved : Signature .unresolved [.text] .any

theorem Value.Fits.shaped {v : Value φ} (h : v.Fits B) : v.Shaped B .any := ⟨h, .any v⟩

namespace Builtin

theorem expectBranch_eq_none {v : Value φ} (h : Shape.branch.Holds v) : expectBranch v = none := by
  cases h <;> rfl

/-- **Arguments of the right shapes are not refused.** -/
theorem refusal?_eq_none {b : Builtin} {shapes : List Shape} {σ : Shape} (hb : b.Signature shapes σ)
    {args : List (Value φ)} (hargs : List.Forall₂ Shape.Holds shapes args) : b.refusal? args = none := by
  cases hb with
  | binary op | get => rcases hargs with _ | ⟨_, _ | ⟨_, _ | _⟩⟩; rfl
  | unary op => rcases hargs with _ | ⟨_, _ | _⟩; rfl
  | map => rcases hargs with _ | _; rfl
  | call count => rcases hargs with _ | _; rfl
  | generate => rcases hargs with _ | ⟨_, _ | ⟨_, _ | ⟨_, _ | _⟩⟩⟩; rfl
  | stream =>
    rcases hargs with _ | ⟨hitems, _ | _⟩
    cases hitems
    rfl
  | insert =>
    rcases hargs with _ | ⟨hobject, _ | ⟨_, _ | ⟨_, _ | _⟩⟩⟩
    cases hobject
    rfl
  | define arity =>
    rcases hargs with _ | ⟨hobject, _ | ⟨hf, _ | _⟩⟩
    cases hobject
    cases hf
    rfl
  | guard arity =>
    rcases hargs with _ | ⟨hf, _ | ⟨hg, _ | _⟩⟩
    cases hf
    cases hg
    rfl
  | attr =>
    rcases hargs with _ | ⟨_, _ | ⟨hname, _ | _⟩⟩
    cases hname
    rfl
  | cond =>
    rcases hargs with _ | ⟨_, _ | ⟨htrue, _ | ⟨hfalse, _ | _⟩⟩⟩
    show expectBranch (if _ then _ else _) = none
    split
    · exact expectBranch_eq_none htrue
    · exact expectBranch_eq_none hfalse
  | unresolved =>
    rcases hargs with _ | ⟨hname, _ | _⟩
    cases hname
    rfl

/-! ## Safety -/

/-- Arguments of no certain shape fit. -/
theorem fits_of_any {count : Nat} {args : List (Value φ)}
    (h : List.Forall₂ (Value.Shaped B) (List.replicate count .any) args) : ∀ v ∈ args, v.Fits B := by
  induction args generalizing count with
  | nil => exact List.forall_mem_nil _
  | cons v args ih =>
    cases count with
    | zero => cases h
    | succ count =>
      rw [List.replicate_succ] at h
      rcases h with _ | ⟨hv, hargs⟩
      exact List.forall_mem_cons.mpr ⟨hv.fits, ih hargs⟩

theorem numbers_ends {items : List (Value φ)} :
    EndsIn (EvalFault.Regular φ) (fun _ => True) (numbers .generate (.stream items)) := by
  unfold numbers
  dsimp only
  induction items with
  | nil => exact .ok trivial
  | cons item items ih =>
    rw [List.mapM_cons]
    refine EndsIn.bind (P := fun _ => True) ?_ fun _ _ => ih.bind fun _ _ => .ok trivial
    cases item with
    | number x => exact .ok trivial
    | _ => exact .error (.bound nofun)

theorem generate_ends (settings : Settings) (before after : List Decimal) (inclusive : Bool) :
    EndsIn (EvalFault.Regular φ) (fun _ => True) (Value.generate settings before after inclusive) := by
  unfold Value.generate
  split
  · exact .error (.plain rfl)
  · dsimp only
    split
    · exact .error (.plain rfl)
    · split
      · exact .error (.plain rfl)
      · split
        · exact .error (.plain rfl)
        · exact .ok trivial

section Apply

open Run

variable [BEq φ] {other invoke : φ → List (Value φ) → Run (Value φ)}
  (hinv : Value.InvokeSafe B deep other invoke) (settings : Settings)

include hinv

omit [BEq φ] in
theorem branch_safe {v : Value φ} (h : v.Shaped B .branch) :
    Safe (EvalFault.Regular φ) deep (Value.Fits B) (branch other (some v)) (branch invoke (some v)) := by
  obtain ⟨hfits, hshape⟩ := h
  cases hshape with
  | noBranch => exact .pure .none
  | branch harity =>
    cases hfits with
    | function hf =>
      have hbody := hf.body
      rw [harity] at hbody
      exact hinv hbody (List.forall_mem_nil _)

/-- **A built-in function is safe** on arguments that it requires. -/
theorem apply_safe {b : Builtin} {shapes : List Shape} {σ : Shape} (hb : b.Signature shapes σ)
    {args : List (Value φ)} (hargs : List.Forall₂ (Value.Shaped B) shapes args) :
    Safe (EvalFault.Regular φ) deep (Value.Shaped B σ) (b.apply other settings args)
      (b.apply invoke settings args) := by
  cases hb with
  | binary op =>
    rcases hargs with _ | ⟨_, _ | ⟨_, _ | _⟩⟩
    exact .ofExcept ((Value.binary_comes settings op _ _).mono fun _ h => h.shaped)
  | unary op =>
    rcases hargs with _ | ⟨_, _ | _⟩
    exact .ofExcept ((Value.unary_comes op _).mono fun _ h => h.shaped)
  | stream =>
    rcases hargs with _ | ⟨⟨hitems, hshape⟩, _ | _⟩
    cases hshape
    exact .pure hitems.shaped
  | generate =>
    rcases hargs with _ | ⟨⟨_, hbefore⟩, _ | ⟨⟨_, hafter⟩, _ | ⟨_, _ | _⟩⟩⟩
    cases hbefore
    cases hafter
    refine (Safe.ofExcept numbers_ends).bind fun _ _ => (Safe.ofExcept numbers_ends).bind fun _ _ =>
      (Safe.ofExcept (generate_ends settings _ _ _)).bind fun xs _ => .pure (Value.Fits.shaped (.stream ?_))
    intro v hv
    obtain ⟨x, -, rfl⟩ := List.mem_map.mp hv
    exact .number x
  | map =>
    rcases hargs with _ | _
    exact .pure ⟨.object (by simp) (by simp) (by simp), .object [] []⟩
  | insert =>
    rcases hargs with _ | ⟨⟨hobject, hshape⟩, _ | ⟨hkey, _ | ⟨hvalue, _ | _⟩⟩⟩
    cases hshape
    exact .pure ⟨hobject.insert hkey.fits hvalue.fits, .object _ _⟩
  | define arity =>
    rcases hargs with _ | ⟨⟨hobject, hshape⟩, _ | ⟨⟨hf, hshape'⟩, _ | _⟩⟩
    cases hshape
    cases hshape'
    exact .pure ⟨hobject.define hf, .object _ _⟩
  | guard arity =>
    rcases hargs with _ | ⟨⟨hf, hshape⟩, _ | ⟨⟨hg, hshape'⟩, _ | _⟩⟩
    cases hshape with | function harity =>
    cases hshape' with | function harity' =>
    cases hf with | function hf =>
    cases hg with | function hg =>
    exact .pure ⟨.function (hf.withGuard hg (harity'.trans harity.symm)), .function harity⟩
  | call count =>
    rcases hargs with _ | ⟨hcallee, hargs⟩
    exact (Value.call_safe hinv (fits_of_any hargs) hcallee.fits).mono fun _ h => h.shaped
  | attr =>
    rcases hargs with _ | ⟨htarget, _ | ⟨⟨_, hshape⟩, _ | _⟩⟩
    cases hshape
    exact .ofExcept ((htarget.fits.member _).mono fun _ h => h.shaped)
  | get =>
    rcases hargs with _ | ⟨htarget, _ | ⟨hkey, _ | _⟩⟩
    exact (Value.index_safe hinv htarget.fits hkey.fits).mono fun _ h => h.shaped
  | cond =>
    rcases hargs with _ | ⟨_, _ | ⟨htrue, _ | ⟨hfalse, _ | _⟩⟩⟩
    refine (branch_safe hinv ?_).mono fun _ h => h.shaped
    split
    · exact htrue
    · exact hfalse
  | unresolved =>
    rcases hargs with _ | ⟨⟨_, hshape⟩, _ | _⟩
    cases hshape
    exact .fail (.plain rfl)

/-- On these arguments it does not trip the watched machine. -/
theorem watched_apply_safe (trip : Alarm → Halt) {b : Builtin} {shapes : List Shape} {σ : Shape}
    (hb : b.Signature shapes σ) {args : List (Value φ)}
    (hargs : List.Forall₂ (Value.Shaped B) shapes args) :
    Safe (EvalFault.Regular φ) deep (Value.Shaped B σ) (Watched.apply trip other settings b args)
      (b.apply invoke settings args) := by
  unfold Watched.apply
  rw [refusal?_eq_none hb (hargs.imp fun _ _ h => h.shape)]
  exact apply_safe hinv settings hb hargs

end Apply

end Builtin

end Cellbook
