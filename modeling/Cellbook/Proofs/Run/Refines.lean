import Mathlib.Data.List.Forall2
import Cellbook.Proofs.Results
import Cellbook.Run

/-!
# Runs that refine each other

A run refines another one if it ends in the same way wherever the other one ends at all: with the same
fault, or with a related result and the same next identity. Where the other one was too deep, anything may
happen. So a run with more depth refines the run with less, and two runs of code that differs in nothing
that matters refine each other.

The relation goes through everything that runs are made of, so it is shown of a long run by going along
its steps.
-/

namespace Cellbook

namespace Run

variable {α β γ δ : Type} {R : α → β → Prop} {S : γ → δ → Prop}

/-- The end of a run and an end that refines it. -/
inductive EndRefines (R : α → β → Prop) :
    Except Halt (α × Identity) → Except Halt (β × Identity) → Prop
  | tooDeep (e : Except Halt (β × Identity)) : EndRefines R (.error .tooDeep) e
  | fault (f : EvalFault) : EndRefines R (.error (.fault f)) (.error (.fault f))
  | value {a : α} {b : β} (i : Identity) : R a b → EndRefines R (.ok (a, i)) (.ok (b, i))

/-- **One run refines another**, whatever identity they begin with. -/
def Refines (R : α → β → Prop) (r : Run α) (r' : Run β) : Prop := ∀ i, EndRefines R (r i) (r' i)

theorem Refines.pure {a : α} {b : β} (h : R a b) :
    Refines R (Pure.pure a : Run α) (Pure.pure b : Run β) := fun i => .value i h

theorem Refines.fail (cause : EvalCause) (notes : List EvalNote) :
    Refines R (Run.fail cause notes : Run α) (Run.fail cause notes : Run β) := fun _ => .fault _

theorem Refines.fault (f : EvalFault) :
    Refines R (throw (.fault f) : Run α) (throw (.fault f) : Run β) := fun _ => .fault f

theorem Refines.tooDeep (r : Run β) : Refines R (throw .tooDeep : Run α) r := fun i => .tooDeep (r i)

theorem Refines.refl {r : Run α} : Refines Eq r r := by
  intro i
  match r i with
  | .ok (a, j) => exact .value j (Eq.refl a)
  | .error (.fault f) => exact .fault f
  | .error .tooDeep => exact .tooDeep _

theorem Refines.bind {r : Run α} {r' : Run β} {f : α → Run γ} {f' : β → Run δ}
    (h : Refines R r r') (hf : ∀ a b, R a b → Refines S (f a) (f' b)) :
    Refines S (r >>= f) (r' >>= f') := by
  intro i
  show EndRefines S (r i >>= fun p => f p.1 p.2) (r' i >>= fun p => f' p.1 p.2)
  have hi := h i
  generalize r i = e at hi ⊢
  generalize r' i = e' at hi ⊢
  cases hi with
  | tooDeep e => exact .tooDeep _
  | fault f => exact .fault f
  | value j hab => exact hf _ _ hab j

theorem Refines.ofExcept {x : Except EvalFault α} {y : Except EvalFault β} (h : Agree R x y) :
    Refines R (Run.ofExcept x) (Run.ofExcept y) := by
  cases h with
  | ok hab => exact .pure hab
  | error e => exact .fault e

theorem Refines.newIdentity : Refines Eq Run.newIdentity Run.newIdentity := fun _ => .value _ rfl

theorem Refines.mono {R' : α → β → Prop} {r : Run α} {r' : Run β} (h : Refines R r r')
    (hR : ∀ a b, R a b → R' a b) : Refines R' r r' := by
  intro i
  have hi := h i
  generalize r i = e at hi ⊢
  generalize r' i = e' at hi ⊢
  cases hi with
  | tooDeep e => exact .tooDeep _
  | fault f => exact .fault f
  | value j hab => exact .value j (hR _ _ hab)

/-- Of a run that ends with a result, every refinement ends with a related one. -/
theorem Refines.ok {r : Run α} {r' : Run β} (h : Refines R r r') {i j : Identity} {a : α}
    (hr : r i = .ok (a, j)) : ∃ b, r' i = .ok (b, j) ∧ R a b := by
  have := h i
  rw [hr] at this
  cases hr' : r' i with
  | error e => rw [hr'] at this; cases this
  | ok p =>
    rw [hr'] at this
    cases this with
    | value _ hab => exact ⟨_, rfl, hab⟩

/-- Equal results stay when a run is refined. -/
theorem Refines.eq_ok {r r' : Run α} (h : Refines Eq r r') {i j : Identity} {a : α}
    (hr : r i = .ok (a, j)) : r' i = .ok (a, j) := by
  obtain ⟨b, hb, rfl⟩ := h.ok hr
  exact hb

theorem Refines.filterAuxM {p : α → Run Bool} {q : β → Run Bool}
    (hp : ∀ a b, R a b → Refines Eq (p a) (q b)) {xs : List α} {ys : List β}
    (h : List.Forall₂ R xs ys) :
    ∀ {done : List α} {done' : List β}, List.Forall₂ R done done' →
      Refines (List.Forall₂ R) (List.filterAuxM p xs done) (List.filterAuxM q ys done') := by
  induction h with
  | nil => exact fun hdone => .pure hdone
  | cons hab _ ih =>
    intro done done' hdone
    refine (hp _ _ hab).bind fun b b' hb => ?_
    subst hb
    cases b with
    | false => exact ih hdone
    | true => exact ih (.cons hab hdone)

theorem Refines.filterM {p : α → Run Bool} {q : β → Run Bool}
    (hp : ∀ a b, R a b → Refines Eq (p a) (q b)) {xs : List α} {ys : List β}
    (h : List.Forall₂ R xs ys) : Refines (List.Forall₂ R) (xs.filterM p) (ys.filterM q) :=
  (filterAuxM hp h .nil).bind fun _ _ hab => .pure (List.rel_reverse hab)

end Run

end Cellbook
