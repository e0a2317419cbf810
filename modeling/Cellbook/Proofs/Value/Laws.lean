import Mathlib.Data.List.Zip
import Cellbook.Proofs.Decimal.Order
import Cellbook.Proofs.Value.Broadcast
import Cellbook.Proofs.Value.Equality
import Cellbook.Proofs.Value.Operators

/-!
# Laws of operators

What holds of truth, equality and comparison on single values holds on streams of any depth, since broadcasting does
the same to both sides of an equation: it commutes with what is done to every single value (`broadcast_lift`) and with
the exchange of the operands (`broadcast_swap`). The two sides may come to different faults, so that results are
compared where there is one.
-/

namespace Cellbook.Value

variable {φ : Type}

/-! ## Results without faults -/

section Results

variable {α β ε : Type}

theorem toOption_map (f : α → β) (r : Except ε α) : (f <$> r).toOption = f <$> r.toOption := by cases r <;> rfl

theorem toOption_bind (r : Except ε α) (f : α → Except ε β) :
    (r >>= f).toOption = r.toOption >>= fun a => (f a).toOption := by cases r <;> rfl

theorem toOption_mapM (f : α → Except ε β) (xs : List α) :
    (xs.mapM f).toOption = xs.mapM fun x => (f x).toOption := by
  induction xs with
  | nil => rfl
  | cons x xs ih =>
    simp only [List.mapM_cons, toOption_bind, ih]
    rfl

theorem mapM_congr_mem {f g : α → Option β} {xs : List α} (h : ∀ x ∈ xs, f x = g x) : xs.mapM f = xs.mapM g := by
  induction xs with
  | nil => rfl
  | cons x xs ih =>
    rw [List.forall_mem_cons] at h
    rw [List.mapM_cons, List.mapM_cons, h.1, ih h.2]

theorem mapM_map_result (h : β → β) (g : α → Option β) (xs : List α) :
    xs.mapM (fun x => h <$> g x) = List.map h <$> xs.mapM g := by
  induction xs with
  | nil => rfl
  | cons x xs ih =>
    rw [List.mapM_cons, List.mapM_cons, ih]
    cases g x <;> cases xs.mapM g <;> rfl

variable {meets : Kind → Bool} {refuse : Value φ → Value φ → EvalFault}
  {f : Value φ → Value φ → Except EvalFault (Value φ)}

theorem toOption_broadcast_left {y : Value φ} (hy : y.isStream = false) (xs : List (Value φ)) :
    (broadcast meets refuse f (.stream xs) y).toOption =
      if meets y.kind then .stream <$> xs.mapM fun x => (broadcast meets refuse f x y).toOption else none := by
  rw [broadcast_left hy]
  split
  · rw [toOption_map, toOption_mapM]
  · rfl

theorem toOption_broadcast_right {x : Value φ} (hx : x.isStream = false) (ys : List (Value φ)) :
    (broadcast meets refuse f x (.stream ys)).toOption =
      if meets x.kind then .stream <$> ys.mapM fun y => (broadcast meets refuse f x y).toOption else none := by
  rw [broadcast_right hx]
  split
  · rw [toOption_map, toOption_mapM]
  · rfl

theorem toOption_broadcast_streams (xs ys : List (Value φ)) :
    (broadcast meets refuse f (.stream xs) (.stream ys)).toOption =
      if xs.length = ys.length then .stream <$> (xs.zip ys).mapM fun p => (broadcast meets refuse f p.1 p.2).toOption
      else none := by
  rw [broadcast_streams]
  split
  · rw [toOption_map, toOption_mapM]
  · rfl

end Results

/-! ## Lifting -/

/-- **What acts on single values**, and on streams through their elements. -/
structure ActsInside (u : Value φ → Value φ) : Prop where
  stream : ∀ xs, u (.stream xs) = .stream (xs.map u)
  single : ∀ x, x.isStream = false → (u x).isStream = false

theorem actsInside_id : ActsInside (id : Value φ → Value φ) where
  stream xs := congrArg Value.stream (List.map_id xs).symm
  single _ h := h

section Lifting

variable {meets meets' : Kind → Bool} {refuse refuse' : Value φ → Value φ → EvalFault}
  {f g : Value φ → Value φ → Except EvalFault (Value φ)} {u h : Value φ → Value φ}

theorem ActsInside.map_stream (hh : ActsInside h) {α β : Type} {v : α → β} {p : β → Option (Value φ)}
    {q : α → Option (Value φ)} {xs : List α} (hpq : ∀ x ∈ xs, p (v x) = h <$> q x) :
    .stream <$> (xs.map v).mapM p = h <$> .stream <$> xs.mapM q := by
  rw [List.mapM_map, mapM_congr_mem (f := p ∘ v) hpq, mapM_map_result]
  cases xs.mapM q with
  | none => rfl
  | some zs => exact congrArg some (hh.stream zs).symm

/-- **An equation between single values lifts to streams**: `f` after `u` on both operands is `g` and then `h`. -/
theorem broadcast_lift (hu : ActsInside u) (hh : ActsInside h)
    (hmeets : ∀ y, y.isStream = false → meets (u y).kind = meets' y.kind)
    (hfg : ∀ x y, x.isStream = false → y.isStream = false → (f (u x) (u y)).toOption = h <$> (g x y).toOption)
    (x y : Value φ) :
    (broadcast meets refuse f (u x) (u y)).toOption = h <$> (broadcast meets' refuse' g x y).toOption := by
  induction x, y using pair_induction with
  | singles x y hx hy =>
    rw [broadcast_singles (hu.single x hx) (hu.single y hy), broadcast_singles hx hy]
    exact hfg x y hx hy
  | left xs y hy ih =>
    rw [hu.stream, toOption_broadcast_left (hu.single y hy), toOption_broadcast_left hy, hmeets y hy]
    split
    · exact hh.map_stream ih
    · rfl
  | right x ys hx ih =>
    rw [hu.stream, toOption_broadcast_right (hu.single x hx), toOption_broadcast_right hx, hmeets x hx]
    split
    · exact hh.map_stream ih
    · rfl
  | both xs ys ih =>
    rw [hu.stream, hu.stream, toOption_broadcast_streams, toOption_broadcast_streams, List.length_map, List.length_map,
      List.zip_map]
    split
    · exact hh.map_stream fun p hp => ih p.1 (List.of_mem_zip hp).1 p.2 (List.of_mem_zip hp).2
    · rfl

/-- **An exchange of single values lifts to streams**. -/
theorem broadcast_swap
    (hfg : ∀ x y, x.isStream = false → y.isStream = false → (f x y).toOption = (g y x).toOption) (x y : Value φ) :
    (broadcast meets refuse f x y).toOption = (broadcast meets refuse' g y x).toOption := by
  induction x, y using pair_induction with
  | singles x y hx hy =>
    rw [broadcast_singles hx hy, broadcast_singles hy hx]
    exact hfg x y hx hy
  | left xs y hy ih =>
    rw [toOption_broadcast_left hy, toOption_broadcast_right hy, mapM_congr_mem ih]
  | right x ys hx ih =>
    rw [toOption_broadcast_right hx, toOption_broadcast_left hx, mapM_congr_mem ih]
  | both xs ys ih =>
    -- The pairs of the one side are those of the other one, each with its elements exchanged.
    simp only [toOption_broadcast_streams, eq_comm (a := xs.length)]
    rw [← List.zip_swap xs ys, List.mapM_map,
      mapM_congr_mem fun p hp => ih p.1 (List.of_mem_zip hp).1 p.2 (List.of_mem_zip hp).2]
    rfl

end Lifting

/-! ## Negation -/

mutual

/-- The negation of a value, in a stream of each element. -/
def negated : Value φ → Value φ
  | .stream items => .stream (negatedItems items)
  | v => .boolean (!v.truthy)

def negatedItems : List (Value φ) → List (Value φ)
  | [] => []
  | v :: vs => negated v :: negatedItems vs

end

theorem negatedItems_eq_map (vs : List (Value φ)) : negatedItems vs = vs.map negated := by
  induction vs with
  | nil => rfl
  | cons v vs ih => rw [negatedItems, ih, List.map_cons]

theorem negated_single {v : Value φ} (h : v.isStream = false) : negated v = .boolean (!v.truthy) := by
  cases v with
  | stream vs => cases h
  | _ => rfl

theorem actsInside_negated : ActsInside (negated : Value φ → Value φ) where
  stream vs := by rw [negated, negatedItems_eq_map]
  single v h := by rw [negated_single h]; rfl

mutual

theorem unary_not (v : Value φ) : unary .not v = .ok (negated v) :=
  match v with
  | .stream vs => by rw [unary, mapSingles, mapItems_not vs, negated]; rfl
  | .none => rfl
  | .boolean _ => rfl
  | .number _ => rfl
  | .text _ => rfl
  | .object _ _ => rfl
  | .function _ => rfl

theorem mapItems_not (vs : List (Value φ)) {done : List (Value φ)} :
    mapItems (applySingle .not) vs done = .ok (done.reverse ++ negatedItems vs) :=
  match vs with
  | [] => by rw [mapItems, negatedItems, List.append_nil]; rfl
  | v :: vs => by
    have hv : mapSingles (applySingle .not) v = .ok (negated v) := unary_not v
    simp [mapItems, hv, mapItems_not vs, negatedItems, bind, Except.bind]

end

theorem toOption_not (r : Except EvalFault (Value φ)) : (r >>= unary .not).toOption = negated <$> r.toOption := by
  cases r with
  | error fault => rfl
  | ok v => exact congrArg Except.toOption (unary_not v)

/-! ## Comparison -/

/-- How two values stand to each other, if they are two numbers or two texts. -/
def order? : Value φ → Value φ → Option Ordering
  | .number x, .number y => some (compare x y)
  | .text s, .text t => some (compare s t)
  | _, _ => none

theorem order?_swap (x y : Value φ) : order? x y = (order? y x).map Ordering.swap := by
  cases x <;> cases y <;> first | rfl | exact congrArg some Std.OrientedOrd.eq_swap

theorem order?_eq_none {x y : Value φ} (hnumbers : ¬(x.kind = .number ∧ y.kind = .number))
    (htexts : ¬(x.kind = .text ∧ y.kind = .text)) : order? x y = none := by
  unfold order?
  split
  · exact absurd ⟨rfl, rfl⟩ hnumbers
  · exact absurd ⟨rfl, rfl⟩ htexts
  · rfl

/-- A comparison of two values says of their order what the operator says. -/
theorem toOption_applySingles (settings : Settings) {op : BinaryOp} {holds : Ordering → Bool}
    (h : holds? op = fun order => some (holds order)) (x y : Value φ) :
    (applySingles settings op x y).toOption = (order? x y).map fun order => .boolean (holds order) := by
  have hadd : op ≠ .add := by
    rintro rfl
    cases congrFun h .eq
  by_cases hnumbers : x.kind = .number ∧ y.kind = .number
  · obtain ⟨a, rfl⟩ := exists_number hnumbers.1
    obtain ⟨b, rfl⟩ := exists_number hnumbers.2
    have harithmetic : arithmetic? settings op a b = none := by
      cases op <;> first | rfl | cases congrFun h .eq
    simp only [applySingles, applyNumbers, harithmetic, h, order?, Except.toOption, Option.map_some]
  by_cases htexts : x.kind = .text ∧ y.kind = .text
  · obtain ⟨a, rfl⟩ := exists_text htexts.1
    obtain ⟨b, rfl⟩ := exists_text htexts.2
    simp only [applySingles_texts settings hadd, h, order?, Except.toOption, Option.map_some]
  · rw [applySingles_refuse settings hadd hnumbers htexts, order?_eq_none hnumbers htexts]
    rfl

/-! ## The laws -/

section Lifted

variable {meets meets' : Kind → Bool} {refuse refuse' : Value φ → Value φ → EvalFault} {f g : Value φ → Value φ → Bool}
  {u : Value φ → Value φ}

/-- An operator that says on single values the opposite of another one is its negation on streams as well. -/
theorem broadcast_negated (hu : ActsInside u) (hmeets : ∀ k, meets k = true) (hmeets' : ∀ k, meets' k = true)
    (hfg : ∀ x y, x.isStream = false → y.isStream = false → f (u x) (u y) = !(g x y)) (x y : Value φ) :
    (broadcast meets refuse (fun x y => .ok (.boolean (f x y))) (u x) (u y)).toOption =
      negated <$> (broadcast meets' refuse' (fun x y => .ok (.boolean (g x y))) x y).toOption := by
  refine broadcast_lift hu actsInside_negated (fun _ _ => (hmeets _).trans (hmeets' _).symm) (fun x y hx hy => ?_) x y
  rw [hfg x y hx hy]
  rfl

/-- **De Morgan's laws**, for operators on the truth of their operands. -/
theorem broadcast_truth_negated {p q : Bool → Bool → Bool} (hmeets : ∀ k, meets k = true)
    (hmeets' : ∀ k, meets' k = true) (hpq : ∀ a b, q (!a) (!b) = !(p a b)) (x y : Value φ) :
    (broadcast meets refuse (fun x y => .ok (.boolean (q x.truthy y.truthy))) (negated x) (negated y)).toOption =
      negated <$> (broadcast meets' refuse' (fun x y => .ok (.boolean (p x.truthy y.truthy))) x y).toOption := by
  refine broadcast_negated actsInside_negated hmeets hmeets' (fun x y hx hy => ?_) x y
  rw [negated_single hx, negated_single hy]
  exact hpq x.truthy y.truthy

theorem broadcast_comm (hf : ∀ x y, f x y = f y x) (x y : Value φ) :
    (broadcast meets refuse (fun x y => .ok (.boolean (f x y))) x y).toOption =
      (broadcast meets refuse (fun x y => .ok (.boolean (f x y))) y x).toOption := by
  refine broadcast_swap (fun x y _ _ => ?_) x y
  rw [hf x y]

/-- A comparison is another one with its operands exchanged, if it says of each order what that says of its reverse. -/
theorem comparison_swap (settings : Settings) {op op' : BinaryOp} {holds holds' : Ordering → Bool}
    (h : holds? op = fun order => some (holds order)) (h' : holds? op' = fun order => some (holds' order))
    (hswap : ∀ order, holds order.swap = holds' order) (x y : Value φ) :
    (applySingles settings op x y).toOption = (applySingles settings op' y x).toOption := by
  rw [toOption_applySingles settings h, toOption_applySingles settings h', order?_swap, Option.map_map]
  exact congrArg (Option.map · (order? y x)) (funext fun order => congrArg Value.boolean (hswap order))

end Lifted

section Laws

variable [BEq φ]

omit [BEq φ] in
/-- **Two results are the same**: one is a value just if the other one is, and then it is the same value. -/
def SameResult (r s : Except EvalFault (Value φ)) : Prop := ∀ v, r = .ok v ↔ s = .ok v

omit [BEq φ] in
theorem sameResult_of_toOption {r s : Except EvalFault (Value φ)} (h : r.toOption = s.toOption) : SameResult r s := by
  intro v
  cases r <;> cases s <;> simp_all [Except.toOption]

/-- **The laws of operators**, on two values of any kind. -/
structure OperatorLaws (settings : Settings) (a b : Value φ) : Prop where
  ne_eq_not : SameResult (binary settings .ne a b) (do unary .not (← binary settings .eq a b))
  notIn_eq_not : SameResult (binary settings .notIn a b) (do unary .not (← binary settings .isIn a b))
  not_and : SameResult (do unary .not (← binary settings .and a b))
    (do binary settings .or (← unary .not a) (← unary .not b))
  not_or : SameResult (do unary .not (← binary settings .or a b))
    (do binary settings .and (← unary .not a) (← unary .not b))
  ge_eq_not_lt : SameResult (binary settings .ge a b) (do unary .not (← binary settings .lt a b))
  gt_eq_lt : SameResult (binary settings .gt a b) (binary settings .lt b a)
  le_eq_ge : SameResult (binary settings .le a b) (binary settings .ge b a)
  and_comm : SameResult (binary settings .and a b) (binary settings .and b a)
  or_comm : SameResult (binary settings .or a b) (binary settings .or b a)
  eq_comm : SameResult (binary settings .eq a b) (binary settings .eq b a)

theorem toOption_ge (settings : Settings) (a b : Value φ) :
    (binary settings .ge a b).toOption = negated <$> (binary settings .lt a b).toOption := by
  refine broadcast_lift actsInside_id actsInside_negated (fun _ _ => rfl) (fun x y _ _ => ?_) a b
  rw [id, id, toOption_applySingles settings rfl, toOption_applySingles settings rfl]
  cases order? x y <;> rfl

theorem operatorLaws_of_partialEquiv [PartialEquivBEq φ] (settings : Settings) (a b : Value φ) :
    OperatorLaws settings a b where
  ne_eq_not := by
    refine sameResult_of_toOption (Eq.trans ?_ (toOption_not _).symm)
    exact broadcast_negated actsInside_id (fun _ => rfl) (fun _ => rfl) (fun _ _ _ _ => rfl) a b
  notIn_eq_not := by
    refine sameResult_of_toOption (Eq.trans ?_ (toOption_not _).symm)
    rw [binary, binary]
    cases memberOf? a b <;> rfl
  not_and := by
    refine sameResult_of_toOption ((toOption_not _).trans ?_)
    rw [unary_not, unary_not]
    exact (broadcast_truth_negated (fun _ => rfl) (fun _ => rfl) (fun x y => (Bool.not_and x y).symm) a b).symm
  not_or := by
    refine sameResult_of_toOption ((toOption_not _).trans ?_)
    rw [unary_not, unary_not]
    exact (broadcast_truth_negated (fun _ => rfl) (fun _ => rfl) (fun x y => (Bool.not_or x y).symm) a b).symm
  ge_eq_not_lt := sameResult_of_toOption ((toOption_ge settings a b).trans (toOption_not _).symm)
  gt_eq_lt := by
    refine sameResult_of_toOption (broadcast_swap (fun x y _ _ => ?_) a b)
    exact comparison_swap settings rfl rfl (by decide) x y
  le_eq_ge := by
    refine sameResult_of_toOption (broadcast_swap (fun x y _ _ => ?_) a b)
    exact comparison_swap settings rfl rfl (by decide) x y
  and_comm := sameResult_of_toOption (broadcast_comm (fun _ _ => Bool.and_comm _ _) a b)
  or_comm := sameResult_of_toOption (broadcast_comm (fun _ _ => Bool.or_comm _ _) a b)
  eq_comm := sameResult_of_toOption (broadcast_comm value_beq_comm a b)

end Laws

/-- **The laws of operators** hold of all values that there are when formulas run. -/
theorem operatorLaws (settings : Settings) (a b : Value Closure) : OperatorLaws settings a b :=
  operatorLaws_of_partialEquiv settings a b

end Cellbook.Value
