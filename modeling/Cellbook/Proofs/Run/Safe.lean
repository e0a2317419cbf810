import Cellbook.Proofs.Results
import Cellbook.Run

/-!
# Safe runs

A safe run is told by two things: a second run, which might do something else in places that the first one
never comes to, does just the same; and the first one ends as it should, with a result that has a property
or with a fault that has another one (`EndsIn`). Whether it may also be too deep is said with it.

What runs are made of keeps safety, so it is shown of a long run by going along its steps. What is known of
the result of one step is there for the next one.
-/

namespace Cellbook

/-- A fault with a property, and what is too deep if that may be. -/
def Halt.Within (F : EvalFault → Prop) (deep : Prop) : Halt → Prop
  | .fault f => F f
  | .tooDeep => deep

namespace Run

variable {α β : Type} {F : EvalFault → Prop} {deep : Prop} {P P' : α → Prop} {Q : β → Prop}

/-- **A safe run**: whatever the next identity, the second run does the same, and the run ends as it
should. -/
def Safe (F : EvalFault → Prop) (deep : Prop) (P : α → Prop) (other r : Run α) : Prop :=
  ∀ i, other i = r i ∧ EndsIn (Halt.Within F deep) (fun p => P p.1) (r i)

theorem Safe.pure {a : α} (h : P a) : Safe F deep P (Pure.pure a) (Pure.pure a) := fun _ => ⟨rfl, .ok h⟩

theorem Safe.fault {f : EvalFault} (h : F f) : Safe F deep P (throw (.fault f)) (throw (.fault f)) :=
  fun _ => ⟨rfl, .error h⟩

theorem Safe.fail {cause : EvalCause} {notes : List EvalNote} (h : F ⟨cause, notes⟩) :
    Safe F deep P (Run.fail cause notes) (Run.fail cause notes) := .fault h

theorem Safe.tooDeep (h : deep) : Safe F deep P (throw .tooDeep) (throw .tooDeep) := fun _ => ⟨rfl, .error h⟩

theorem Safe.newIdentity : Safe F deep (fun _ => True) Run.newIdentity Run.newIdentity :=
  fun _ => ⟨rfl, .ok trivial⟩

theorem Safe.ofExcept {x : Except EvalFault α} (h : EndsIn F P x) :
    Safe F deep P (Run.ofExcept x) (Run.ofExcept x) := by
  cases h with
  | ok ha => exact .pure ha
  | error he => exact .fault he

/-- **One safe run after the other.** -/
theorem Safe.bind {other r : Run α} {f' f : α → Run β} (h : Safe F deep P other r)
    (hf : ∀ a, P a → Safe F deep Q (f' a) (f a)) : Safe F deep Q (other >>= f') (r >>= f) := by
  intro i
  show (other i >>= fun p => f' p.1 p.2) = (r i >>= fun p => f p.1 p.2) ∧
    EndsIn (Halt.Within F deep) (fun p => Q p.1) (r i >>= fun p => f p.1 p.2)
  obtain ⟨hsame, hends⟩ := h i
  rw [hsame]
  generalize r i = e at hends ⊢
  cases hends with
  | ok ha => exact hf _ ha _
  | error he => exact ⟨rfl, .error he⟩

theorem Safe.mono {other r : Run α} (h : Safe F deep P other r) (hP : ∀ a, P a → P' a) : Safe F deep P' other r :=
  fun i => ⟨(h i).1, (h i).2.mono fun _ => hP _⟩

/-- What a safe filter keeps are elements of the list. -/
theorem Safe.filterAuxM {p' p : α → Run Bool} {done : List α} (hdone : ∀ a ∈ done, P a) :
    {xs : List α} → (∀ a ∈ xs, P a) → (∀ a ∈ xs, Safe F deep (fun _ => True) (p' a) (p a)) →
    Safe F deep (fun ys => ∀ a ∈ ys, P a) (List.filterAuxM p' xs done) (List.filterAuxM p xs done)
  | [], _, _ => .pure hdone
  | x :: xs, hxs, hp => by
    obtain ⟨hx, hxs⟩ := List.forall_mem_cons.mp hxs
    obtain ⟨hpx, hp⟩ := List.forall_mem_cons.mp hp
    refine hpx.bind fun b _ => ?_
    cases b with
    | false => exact filterAuxM hdone hxs hp
    | true => exact filterAuxM (List.forall_mem_cons.mpr ⟨hx, hdone⟩) hxs hp

theorem Safe.filterM {p' p : α → Run Bool} {xs : List α} (hxs : ∀ a ∈ xs, P a)
    (hp : ∀ a ∈ xs, Safe F deep (fun _ => True) (p' a) (p a)) :
    Safe F deep (fun ys => ∀ a ∈ ys, P a) (xs.filterM p') (xs.filterM p) :=
  (filterAuxM (by simp) hxs hp).bind fun _ h => .pure fun a ha => h a (List.mem_reverse.mp ha)

end Run

end Cellbook
