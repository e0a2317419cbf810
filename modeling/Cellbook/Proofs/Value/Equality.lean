import Mathlib.Logic.Basic
import Cellbook.Machine.Closure
import Cellbook.Proofs.Decimal.Value

/-!
# Equality of values

Numbers are compared by what they denote, functions by their bodies, and streams and objects part for part. If the
equality of function bodies is an equivalence then so is that of values, however deep they are nested; that of the
functions that there are when formulas run is one, since it compares identities.
-/

namespace Cellbook

instance : EquivBEq Decimal where
  rfl := Decimal.beq_iff_toRat_eq.mpr rfl
  symm h := Decimal.beq_iff_toRat_eq.mpr (Decimal.beq_iff_toRat_eq.mp h).symm
  trans h h' := Decimal.beq_iff_toRat_eq.mpr ((Decimal.beq_iff_toRat_eq.mp h).trans (Decimal.beq_iff_toRat_eq.mp h'))

/-- Functions are equal if they have the same identity. -/
instance : EquivBEq Closure where
  rfl := ReflBEq.rfl (α := Identity)
  symm h := BEq.symm (α := Identity) h
  trans h h' := BEq.trans (α := Identity) h h'

namespace Value

variable {φ : Type} [BEq φ]

/-! ## Reflexivity -/

theorem methods_beq_self [ReflBEq φ] (ms : List (Function φ)) : (ms == ms) = true := by
  induction ms with
  | nil => rfl
  | cons f ms ih =>
    have hbody : (f == f) = true := beq_self_eq_true f.body
    rw [List.cons_beq_cons, hbody, ih, Bool.and_self]

mutual

theorem equal_self [ReflBEq φ] (x : Value φ) : equal x x = true :=
  match x with
  | .none => rfl
  | .boolean b => beq_self_eq_true b
  | .number a => beq_self_eq_true a
  | .text s => beq_self_eq_true s
  | .stream xs => equalItems_self xs
  | .object es ms => by rw [equal, equalEntries_self es, methods_beq_self, Bool.and_self]
  | .function f => beq_self_eq_true f.body

theorem equalItems_self [ReflBEq φ] (xs : List (Value φ)) : equalItems xs xs = true :=
  match xs with
  | [] => rfl
  | x :: xs => by rw [equalItems, equal_self x, equalItems_self xs, Bool.and_self]

theorem equalEntries_self [ReflBEq φ] (es : List (Value φ × Value φ)) : equalEntries es es = true :=
  match es with
  | [] => rfl
  | (k, v) :: es => by rw [equalEntries, equal_self k, equal_self v, equalEntries_self es, Bool.and_self, Bool.and_self]

end

/-! ## Symmetry -/

theorem methods_beq_comm [PartialEquivBEq φ] (ms ns : List (Function φ)) : (ms == ns) = (ns == ms) := by
  induction ms generalizing ns with
  | nil => cases ns <;> rfl
  | cons f ms ih =>
    cases ns with
    | nil => rfl
    | cons g ns =>
      have hbodies : (f == g) = (g == f) := BEq.comm (a := f.body) (b := g.body)
      rw [List.cons_beq_cons, List.cons_beq_cons, hbodies, ih]

mutual

theorem equal_comm [PartialEquivBEq φ] (x y : Value φ) : equal x y = equal y x :=
  match x with
  | .none => by cases y <;> rfl
  | .boolean a => by cases y with | boolean b => exact BEq.comm | _ => rfl
  | .number a => by cases y with | number b => exact BEq.comm (a := a) (b := b) | _ => rfl
  | .text s => by cases y with | text t => exact BEq.comm | _ => rfl
  | .stream xs => by cases y with | stream ys => exact equalItems_comm xs ys | _ => rfl
  | .object es ms => by
    cases y with
    | object fs ns => rw [equal, equal, equalEntries_comm es fs, methods_beq_comm]
    | _ => rfl
  | .function f => by cases y with | function g => exact BEq.comm (a := f.body) (b := g.body) | _ => rfl

theorem equalItems_comm [PartialEquivBEq φ] (xs ys : List (Value φ)) : equalItems xs ys = equalItems ys xs :=
  match xs with
  | [] => by cases ys <;> rfl
  | x :: xs => by
    cases ys with
    | nil => rfl
    | cons y ys => rw [equalItems, equalItems, equal_comm x y, equalItems_comm xs ys]

theorem equalEntries_comm [PartialEquivBEq φ] (es fs : List (Value φ × Value φ)) :
    equalEntries es fs = equalEntries fs es :=
  match es with
  | [] => by cases fs <;> rfl
  | (k, v) :: es => by
    cases fs with
    | nil => rfl
    | cons f fs =>
      rw [equalEntries, equalEntries, equal_comm k f.1, equal_comm v f.2, equalEntries_comm es fs]

end

/-- **Equality of values is symmetric**, if that of function bodies is. -/
theorem value_beq_comm [PartialEquivBEq φ] (x y : Value φ) : (x == y) = (y == x) := equal_comm x y

/-! ## Transitivity -/

theorem methods_beq_trans [PartialEquivBEq φ] {ms ns ls : List (Function φ)} (h : (ms == ns) = true)
    (h' : (ns == ls) = true) : (ms == ls) = true := by
  induction ms generalizing ns ls with
  | nil =>
    cases ns with
    | nil => exact h'
    | cons g ns => cases h
  | cons f ms ih =>
    cases ns with
    | nil => cases h
    | cons g ns =>
      cases ls with
      | nil => cases h'
      | cons k ls =>
        rw [List.cons_beq_cons, Bool.and_eq_true] at h h' ⊢
        exact ⟨BEq.trans (a := f.body) h.1 h'.1, ih h.2 h'.2⟩

mutual

theorem equal_trans [PartialEquivBEq φ] {x y z : Value φ} (h : equal x y = true) (h' : equal y z = true) :
    equal x z = true :=
  match x with
  | .none => by cases y with | none => exact h' | _ => cases h
  | .boolean a => by
    cases y with
    | boolean b => cases z with | boolean c => exact BEq.trans (a := a) h h' | _ => cases h'
    | _ => cases h
  | .number a => by
    cases y with
    | number b => cases z with | number c => exact BEq.trans (a := a) h h' | _ => cases h'
    | _ => cases h
  | .text s => by
    cases y with
    | text t => cases z with | text u => exact BEq.trans (a := s) h h' | _ => cases h'
    | _ => cases h
  | .stream xs => by
    cases y with
    | stream ys => cases z with | stream zs => exact equalItems_trans h h' | _ => cases h'
    | _ => cases h
  | .object es ms => by
    cases y with
    | object fs ns =>
      cases z with
      | object gs ls =>
        rw [equal, Bool.and_eq_true] at h h' ⊢
        exact ⟨equalEntries_trans h.1 h'.1, methods_beq_trans h.2 h'.2⟩
      | _ => cases h'
    | _ => cases h
  | .function f => by
    cases y with
    | function g => cases z with | function k => exact BEq.trans (a := f.body) h h' | _ => cases h'
    | _ => cases h

theorem equalItems_trans [PartialEquivBEq φ] {xs ys zs : List (Value φ)} (h : equalItems xs ys = true)
    (h' : equalItems ys zs = true) : equalItems xs zs = true :=
  match xs with
  | [] => by cases ys with | nil => exact h' | cons y ys => cases h
  | x :: xs => by
    cases ys with
    | nil => cases h
    | cons y ys =>
      cases zs with
      | nil => cases h'
      | cons z zs =>
        rw [equalItems, Bool.and_eq_true] at h h' ⊢
        exact ⟨equal_trans h.1 h'.1, equalItems_trans h.2 h'.2⟩

theorem equalEntries_trans [PartialEquivBEq φ] {es fs gs : List (Value φ × Value φ)}
    (h : equalEntries es fs = true) (h' : equalEntries fs gs = true) : equalEntries es gs = true :=
  match es with
  | [] => by cases fs with | nil => exact h' | cons f fs => cases h
  | (k, v) :: es => by
    cases fs with
    | nil => cases h
    | cons f fs =>
      cases gs with
      | nil => cases h'
      | cons g gs =>
        rw [equalEntries, Bool.and_eq_true, Bool.and_eq_true] at h h' ⊢
        exact ⟨⟨equal_trans h.1.1 h'.1.1, equal_trans h.1.2 h'.1.2⟩, equalEntries_trans h.2 h'.2⟩

end

/-- **Equality of values is an equivalence**, if that of function bodies is. -/
instance [EquivBEq φ] : EquivBEq (Value φ) where
  rfl := equal_self _
  symm h := (equal_comm _ _).trans h
  trans h h' := equal_trans h h'

end Value

end Cellbook
