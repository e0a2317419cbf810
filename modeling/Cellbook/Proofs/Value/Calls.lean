import Cellbook.Code.Builtin
import Cellbook.Proofs.Value.Operators

/-!
# Calls of related values

What a call, an index or a built-in function does with functions is left to `invoke`. If related bodies
called with related arguments run alike (`InvokeRefines`), then so does all that is built from such calls,
up to the built-in functions of compiled code (`Builtin.apply_refines`).
-/

namespace Cellbook

open Run

variable {φ ψ : Type} {R : φ → ψ → Prop}

/-- Calls of related bodies with related arguments refine each other. -/
def InvokeRefines (R : φ → ψ → Prop) (invoke : φ → List (Value φ) → Run (Value φ))
    (invoke' : ψ → List (Value ψ) → Run (Value ψ)) : Prop :=
  ∀ ⦃c : φ⦄ ⦃c' : ψ⦄ ⦃args : List (Value φ)⦄ ⦃args' : List (Value ψ)⦄, R c c' →
    Value.ItemsRelated R args args' →
      Refines (Value.Related R) (invoke c args) (invoke' c' args')

namespace Value

/-! ## Members and elements -/

theorem member_agree {v : Value φ} {w : Value ψ} (h : Related R v w) (name : String) :
    Agree (Related R) (member v name) (member w name) := by
  cases h with
  | @object es fs ms ns he hm =>
    unfold member
    have hfield := he.field? ms ns name
    dsimp only
    generalize Object.field? ⟨es, ms⟩ name = a at hfield ⊢
    generalize Object.field? ⟨fs, ns⟩ name = b at hfield ⊢
    cases hfield with
    | none => exact .error _
    | some hv => exact .ok hv
  | _ => exact .error _

theorem elementAt_agree {α β : Type} {S : α → β → Prop} {xs : List α} {ys : List β}
    (h : List.Forall₂ S xs ys) (index : Int) : Agree S (elementAt xs index) (elementAt ys index) := by
  unfold elementAt
  rw [h.length_eq]
  dsimp only
  generalize (if index < 0 then (ys.length : Int) + index else index) = position
  by_cases hneg : position < 0
  · simp only [if_pos hneg]
    exact .error _
  · simp only [if_neg hneg]
    have hget : Option.Rel S xs[position.toNat]? ys[position.toNat]? := by
      generalize position.toNat = n
      induction h generalizing n with
      | nil => exact .none
      | cons hab _ ih =>
        cases n with
        | zero => exact .some hab
        | succ n => exact ih n
    generalize xs[position.toNat]? = a at hget ⊢
    generalize ys[position.toNat]? = b at hget ⊢
    cases hget with
    | none => exact .error _
    | some hab => exact .ok hab

theorem keepMarked_related {xs marks : List (Value φ)} {ys marks' : List (Value ψ)}
    (h : ItemsRelated R xs ys) (hmarks : ItemsRelated R marks marks') :
    ItemsRelated R (keepMarked xs marks) (keepMarked ys marks') := by
  induction xs generalizing ys marks marks' with
  | nil => cases h with | nil => exact .nil
  | cons x xs ih =>
    cases h with
    | cons hx hs =>
      cases hmarks with
      | nil => exact .nil
      | cons hm hms =>
        have htail := ih hs hms
        unfold keepMarked at htail ⊢
        rw [List.zip_cons_cons, List.zip_cons_cons, List.filterMap_cons, List.filterMap_cons]
        dsimp only
        rw [hm.truthy_eq]
        split
        · next hnone => split at hnone <;> simp_all
        · next hsome => split at hsome <;> simp_all [ItemsRelated.cons]

/-! ## Calls -/

section Calls

variable {invoke : φ → List (Value φ) → Run (Value φ)} {invoke' : ψ → List (Value ψ) → Run (Value ψ)}

theorem accepts_refines (hinv : InvokeRefines R invoke invoke') {f : Function φ} {g : Function ψ}
    (hf : Function.Related R f g) {args : List (Value φ)} {args' : List (Value ψ)}
    (hargs : ItemsRelated R args args') :
    Refines Eq (accepts invoke f args) (accepts invoke' g args') := by
  unfold accepts Function.arity
  rw [hargs.length_eq, hf.params]
  split
  · exact .pure rfl
  · have hguard := hf.guard
    generalize f.guard = a at hguard ⊢
    generalize g.guard = b at hguard ⊢
    cases hguard with
    | none => exact .pure rfl
    | some hb => exact (hinv hb hargs).bind fun _ _ hv => .pure hv.truthy_eq

theorem callFirst_refines (hinv : InvokeRefines R invoke invoke') {args : List (Value φ)}
    {args' : List (Value ψ)} (hargs : ItemsRelated R args args') {ms : List (Function φ)}
    {ns : List (Function ψ)} (h : List.Forall₂ (Function.Related R) ms ns) :
    Refines (Related R) (callFirst invoke args ms) (callFirst invoke' args' ns) := by
  induction h with
  | nil =>
    rw [callFirst, callFirst, hargs.length_eq]
    exact .fail _ _
  | cons hf _ ih =>
    rw [callFirst, callFirst]
    refine (accepts_refines hinv hf hargs).bind fun b b' hb => ?_
    subst hb
    cases b with
    | false => exact ih
    | true => exact hinv hf.body hargs

theorem call_refines (hinv : InvokeRefines R invoke invoke') {v : Value φ} {w : Value ψ}
    (hv : Related R v w) {args : List (Value φ)} {args' : List (Value ψ)}
    (hargs : ItemsRelated R args args') :
    Refines (Related R) (call invoke v args) (call invoke' w args') := by
  cases hv with
  | object he hm => exact callFirst_refines hinv hargs hm
  | function hf =>
    unfold call Function.arity
    dsimp only
    rw [hargs.length_eq, hf.params, hf.toText_eq]
    split
    · exact .fail _ _
    · refine (accepts_refines hinv hf hargs).bind fun b b' hb => ?_
      subst hb
      cases b with
      | false => exact .fail _ _
      | true => exact hinv hf.body hargs
  | _ => exact .fail _ _

theorem filter_refines (hinv : InvokeRefines R invoke invoke') {v : Value φ} {w : Value ψ}
    (hv : Related R v w) {xs : List (Value φ)} {ys : List (Value ψ)} (h : ItemsRelated R xs ys) :
    Refines (Related R)
      (do return .stream (← xs.filterM fun item => return (← call invoke v [item]).truthy))
      (do return .stream (← ys.filterM fun item => return (← call invoke' w [item]).truthy)) := by
  refine (Refines.filterM (fun a b hab => ?_) (itemsRelated_iff.mp h)).bind fun _ _ hs =>
    .pure (.stream (itemsRelated_iff.mpr hs))
  exact (call_refines hinv hv (.cons hab .nil)).bind fun _ _ hr => .pure hr.truthy_eq

theorem toIndex_refines (x : Decimal) :
    Refines Eq (Run.ofExcept (toIndex x)) (Run.ofExcept (toIndex x)) := by
  refine .ofExcept ?_
  cases toIndex x with
  | ok i => exact .ok rfl
  | error e => exact .error e

theorem index_refines [BEq φ] [BEq ψ] (hR : KeepsEquality R) (hinv : InvokeRefines R invoke invoke')
    {v k : Value φ} {w l : Value ψ} (hv : Related R v w) (hk : Related R k l) :
    Refines (Related R) (index invoke v k) (index invoke' w l) := by
  cases hv with
  | stream hs =>
    cases hk with
    | number x =>
      exact (toIndex_refines x).bind fun i _ hi => hi ▸
        .ofExcept (elementAt_agree (itemsRelated_iff.mp hs) i)
    | stream hm =>
      unfold index
      dsimp only
      rw [hs.length_eq, hm.length_eq]
      split
      · exact .fail _ _
      · exact .pure (.stream (keepMarked_related hs hm))
    | object he hm => exact filter_refines hinv (.object he hm) hs
    | function hf => exact filter_refines hinv (.function hf) hs
    | _ => exact .fail _ _
  | @object es fs ms ns he hm =>
    unfold index
    dsimp only
    have hget := he.get? hR ms ns hk
    rw [hk.toText_eq]
    generalize Object.get? ⟨es, ms⟩ k = a at hget ⊢
    generalize Object.get? ⟨fs, ns⟩ l = b at hget ⊢
    cases hget with
    | none => exact .fail _ _
    | some hv => exact .pure hv
  | text s =>
    cases hk with
    | number x =>
      refine (toIndex_refines x).bind fun i _ hi => hi ▸ ?_
      refine (Refines.ofExcept (R := Eq) ?_).bind fun c _ hc => hc ▸ .pure (.text _)
      cases elementAt s.toList i with
      | ok c => exact .ok rfl
      | error e => exact .error e
    | _ => exact .fail _ _
  | _ => cases hk <;> exact .fail _ _

end Calls

end Value

/-! ## Built-in functions -/

namespace Builtin

open Value

variable {invoke : φ → List (Value φ) → Run (Value φ)} {invoke' : ψ → List (Value ψ) → Run (Value ψ)}

theorem numbers_eq (b : Builtin) {v : Value φ} {w : Value ψ} (h : Related R v w) :
    numbers b v = numbers b w := by
  cases h with
  | stream hs =>
    unfold numbers
    dsimp only
    rename_i xs ys
    induction xs generalizing ys with
    | nil => cases hs with | nil => rfl
    | cons x xs ih =>
      cases hs with
      | cons hx hs =>
        rw [List.mapM_cons, List.mapM_cons, ih hs]
        cases hx <;> rfl
  | _ => rfl

theorem numbers_refines (b : Builtin) {v : Value φ} {w : Value ψ} (h : Related R v w) :
    Refines Eq (Run.ofExcept (numbers b v)) (Run.ofExcept (numbers b w)) := by
  rw [numbers_eq b h]
  refine .ofExcept ?_
  cases numbers b w with
  | ok xs => exact .ok rfl
  | error e => exact .error e

theorem branch_refines (hinv : InvokeRefines R invoke invoke') {a : Option (Value φ)}
    {b : Option (Value ψ)} (h : Option.Rel (Related R) a b) :
    Refines (Related R) (branch invoke a) (branch invoke' b) := by
  cases h with
  | none => exact .pure .none
  | some hv =>
    cases hv with
    | none => exact .pure .none
    | function hf => exact hinv hf.body .nil
    | _ => exact .fault _

/-- Whether a call with that many arguments is one that a built-in function takes. -/
def takes : Builtin → Nat → Bool
  | .call, n => 1 ≤ n
  | .cond, n => n = 2 || n = 3
  | b, n => n = b.argumentCount

/-- A call with another number of arguments fails with it, whatever the arguments are. -/
theorem apply_of_not_takes [BEq φ] (settings : Settings) (b : Builtin) {args : List (Value φ)}
    (h : b.takes args.length = false) :
    apply invoke settings b args =
      Run.fail (.argumentCount b.name b.argumentCount args.length) := by
  unfold apply
  split <;> first | rfl | simp [takes, argumentCount] at h

theorem numberItems_related (xs : List Decimal) :
    ItemsRelated R (xs.map .number) (xs.map .number) := by
  induction xs with
  | nil => exact .nil
  | cons x xs ih => exact .cons (.number x) ih

section Apply

variable [BEq φ] [BEq ψ]

theorem generate_refines (settings : Settings) {v₁ v₂ v₃ : Value φ} {w₁ w₂ w₃ : Value ψ}
    (h₁ : Related R v₁ w₁) (h₂ : Related R v₂ w₂) (h₃ : Related R v₃ w₃) :
    Refines (Related R) (apply invoke settings .generate [v₁, v₂, v₃])
      (apply invoke' settings .generate [w₁, w₂, w₃]) := by
  rw [apply, apply]
  refine (numbers_refines .generate h₁).bind fun before _ hb => hb ▸ ?_
  refine (numbers_refines .generate h₂).bind fun after _ ha => ha ▸ ?_
  rw [h₃.truthy_eq]
  refine (Refines.ofExcept (R := Eq) ?_).bind fun xs _ hxs => hxs ▸
    .pure (.stream (numberItems_related xs))
  cases Value.generate settings before after w₃.truthy with
  | ok xs => exact .ok rfl
  | error e => exact .error e

omit [BEq φ] [BEq ψ] in
theorem one_related {args : List (Value φ)} {args' : List (Value ψ)} (h : ItemsRelated R args args')
    (hlen : args.length = 1) : ∃ x x', Related R x x' ∧ args = [x] ∧ args' = [x'] := by
  obtain ⟨x, rfl⟩ := List.length_eq_one_iff.mp hlen
  cases h with
  | cons hx h => cases h with | nil => exact ⟨x, _, hx, rfl, rfl⟩

omit [BEq φ] [BEq ψ] in
theorem two_related {args : List (Value φ)} {args' : List (Value ψ)} (h : ItemsRelated R args args')
    (hlen : args.length = 2) :
    ∃ x x' y y', Related R x x' ∧ Related R y y' ∧ args = [x, y] ∧ args' = [x', y'] := by
  cases h with
  | nil => simp at hlen
  | cons hx h =>
    obtain ⟨y, y', hy, rfl, rfl⟩ := one_related h (by simpa using hlen)
    exact ⟨_, _, y, y', hx, hy, rfl, rfl⟩

omit [BEq φ] [BEq ψ] in
theorem three_related {args : List (Value φ)} {args' : List (Value ψ)}
    (h : ItemsRelated R args args') (hlen : args.length = 3) :
    ∃ x x' y y' z z', Related R x x' ∧ Related R y y' ∧ Related R z z' ∧ args = [x, y, z] ∧
      args' = [x', y', z'] := by
  cases h with
  | nil => simp at hlen
  | cons hx h =>
    obtain ⟨y, y', z, z', hy, hz, rfl, rfl⟩ := two_related h (by simpa using hlen)
    exact ⟨_, _, y, y', z, z', hx, hy, hz, rfl, rfl⟩

theorem cond_refines (hinv : InvokeRefines R invoke invoke') (settings : Settings)
    {args : List (Value φ)} {args' : List (Value ψ)} (h : ItemsRelated R args args')
    (hlen : args.length = 2 ∨ args.length = 3) :
    Refines (Related R) (apply invoke settings .cond args) (apply invoke' settings .cond args') := by
  rcases hlen with hlen | hlen
  · obtain ⟨c, c', t, t', hc, ht, rfl, rfl⟩ := two_related h hlen
    rw [apply, apply, hc.truthy_eq]
    cases c'.truthy with
    | true => exact branch_refines hinv (.some ht)
    | false => exact branch_refines hinv .none
  · obtain ⟨c, c', t, t', f, f', hc, ht, hf, rfl, rfl⟩ := three_related h hlen
    rw [apply, apply, hc.truthy_eq]
    cases c'.truthy with
    | true => exact branch_refines hinv (.some ht)
    | false => exact branch_refines hinv (.some hf)

/-- **A built-in function on related arguments**: what it does refines, if calls do. A call with another
number of arguments fails with their number. -/
theorem apply_refines (hR : KeepsEquality R) (hinv : InvokeRefines R invoke invoke')
    (settings : Settings) (b : Builtin) {args : List (Value φ)} {args' : List (Value ψ)}
    (h : ItemsRelated R args args') :
    Refines (Related R) (apply invoke settings b args) (apply invoke' settings b args') := by
  cases htakes : b.takes args.length with
  | false =>
    rw [apply_of_not_takes settings b htakes, apply_of_not_takes settings b (h.length_eq ▸ htakes),
      h.length_eq]
    exact .fail _ _
  | true =>
  cases b with
  | binary op =>
    obtain ⟨x, x', y, y', hx, hy, rfl, rfl⟩ := two_related h (of_decide_eq_true htakes)
    exact .ofExcept (binary_agree hR settings op hx hy)
  | unary op =>
    obtain ⟨x, x', hx, rfl, rfl⟩ := one_related h (of_decide_eq_true htakes)
    exact .ofExcept (unary_agree op hx)
  | stream =>
    obtain ⟨x, x', hx, rfl, rfl⟩ := one_related h (of_decide_eq_true htakes)
    cases hx with
    | stream hs => exact .pure (.stream hs)
    | _ => exact .fault _
  | generate =>
    obtain ⟨x, x', y, y', z, z', hx, hy, hz, rfl, rfl⟩ := three_related h (of_decide_eq_true htakes)
    exact generate_refines settings hx hy hz
  | map =>
    obtain rfl := List.length_eq_zero_iff.mp (of_decide_eq_true htakes)
    cases h with
    | nil => exact .pure (.object .nil .nil)
  | insert =>
    obtain ⟨o, o', k, k', v, v', ho, hk, hv, rfl, rfl⟩ := three_related h (of_decide_eq_true htakes)
    cases ho with
    | object he hm => exact .pure (.object (he.insertEntry hR hk hv) hm)
    | _ => exact .fault _
  | define =>
    obtain ⟨o, o', f, f', ho, hf, rfl, rfl⟩ := two_related h (of_decide_eq_true htakes)
    cases ho with
    | object he hm =>
      cases hf with
      | function hf => exact .pure (.object he (List.rel_append hm (.cons hf .nil)))
      | _ => exact .fault _
    | _ => exact .fault _
  | guard =>
    obtain ⟨f, f', g, g', hf, hg, rfl, rfl⟩ := two_related h (of_decide_eq_true htakes)
    cases hf with
    | function hf =>
      cases hg with
      | function hg => exact .pure (.function (hf.withGuard hg))
      | _ => exact .fault _
    | _ => exact .fault _
  | call =>
    cases h with
    | nil => cases htakes
    | cons hv hargs => exact call_refines hinv hv hargs
  | attr =>
    obtain ⟨v, v', n, n', hv, hn, rfl, rfl⟩ := two_related h (of_decide_eq_true htakes)
    cases hn with
    | text name => exact .ofExcept (member_agree hv name)
    | _ => exact .fault _
  | get =>
    obtain ⟨v, v', k, k', hv, hk, rfl, rfl⟩ := two_related h (of_decide_eq_true htakes)
    exact index_refines hR hinv hv hk
  | cond =>
    refine cond_refines hinv settings h ?_
    simpa only [takes, Bool.or_eq_true, decide_eq_true_eq] using htakes
  | unresolved =>
    obtain ⟨n, n', hn, rfl, rfl⟩ := one_related h (of_decide_eq_true htakes)
    cases hn with
    | text name => exact .fail _ _
    | _ => exact .fault _

end Apply

end Builtin

end Cellbook
