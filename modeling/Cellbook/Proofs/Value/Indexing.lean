import Cellbook.Proofs.Decimal.Integer
import Cellbook.Value.Call

/-!
# Indexing and filtering

An index is a number, and it counts from the start of a stream or, if it is negative, from its end. Which numbers find
an element is said of the integers that they denote (`IndexLaws.fromStart`, `IndexLaws.fromEnd`); every other number
is refused, for being out of range or for being no index at all. A text has the same elements as the stream of its
characters, and to filter by what a callable value says is to filter by the marks that it gives
(`filterM_eq_keepMarked`).
-/

namespace Cellbook.Value

open Run

variable {φ α : Type}

/-! ## Elements -/

/-- Counted from either end, an index within the bounds finds the element there. -/
theorem elementAt_of_lt {items : List α} {p : Nat} (hp : p < items.length) {index : Int}
    (hindex : index = p ∨ index = p - items.length) : elementAt items index = .ok items[p] := by
  have hposition : (if index < 0 then (items.length + index : Int) else index) = p := by
    split <;> omega
  have hnonneg : ¬(p : Int) < 0 := by omega
  simp [elementAt, hposition, hnonneg, hp]

theorem elementAt_out_of_range {items : List α} {index : Int} (h : ¬(-items.length ≤ index ∧ index < items.length)) :
    elementAt items index = .error ⟨.indexOutOfRange index items.length, []⟩ := by
  unfold elementAt
  by_cases hneg : index < 0
  · have hbefore : items.length + index < 0 := by omega
    simp [hneg, hbefore]
  · have hbehind : items[index.toNat]? = none := List.getElem?_eq_none (by omega)
    simp [hneg, hbehind]

theorem elementAt_map {β : Type} (f : α → β) (items : List α) (index : Int) :
    elementAt (items.map f) index = f <$> elementAt items index := by
  unfold elementAt
  rw [List.length_map]
  generalize (if index < 0 then (items.length : Int) + index else index) = position
  by_cases hneg : position < 0
  · simp [hneg]
  · simp only [hneg, if_false, List.getElem?_map]
    cases items[position.toNat]? <;> rfl

theorem toIndex_of_int64 {x : Decimal} {k : Int} (hk : x.toRat = k) (hlow : -2 ^ 63 ≤ k) (hhigh : k < 2 ^ 63) :
    toIndex x = .ok k := by
  rw [toIndex, Decimal.toInt64?_eq_some_iff.mpr ⟨hk, hlow, hhigh⟩]

theorem toIndex_of_not_int64 {x : Decimal} (h : ∀ k : Int, x.toRat = k → ¬(-2 ^ 63 ≤ k ∧ k < 2 ^ 63)) :
    toIndex x = .error ⟨.argumentKind "__get__" "integer" .number, []⟩ := by
  rw [toIndex, Decimal.toInt64?_eq_none_iff.mpr h]

/-! ## Filters -/

/-- What follows a traversal may count on as many results as there are items. -/
theorem mapM_bind_congr {β γ : Type} {m : Type → Type} [Monad m] [LawfulMonad m] {f : α → m β} {items : List α}
    {g g' : List β → m γ} (h : ∀ results, results.length = items.length → g results = g' results) :
    items.mapM f >>= g = items.mapM f >>= g' := by
  induction items generalizing g g' with
  | nil => simpa using h [] rfl
  | cons item items ih =>
    simp only [List.mapM_cons, bind_assoc, pure_bind]
    exact bind_congr fun result => ih fun results hlength => h _ (by simp [hlength])

theorem filterAuxM_eq {m : Type → Type} [Monad m] [LawfulMonad m] (mark : α → m (Value φ)) (items kept : List α) :
    List.filterAuxM (fun item => return (← mark item).truthy) items kept = do
      let marks ← items.mapM mark
      return (keepMarked items marks).reverse ++ kept := by
  induction items generalizing kept with
  | nil => simp [List.filterAuxM, keepMarked]
  | cons item items ih =>
    simp only [List.filterAuxM, ih, List.mapM_cons, bind_assoc, pure_bind]
    refine bind_congr fun v => bind_congr fun marks => ?_
    cases hv : v.truthy <;> simp [keepMarked, hv]

/-- **To filter is to keep what is marked**: the marks are found in order, and all of them before any is used. -/
theorem filterM_eq_keepMarked {m : Type → Type} [Monad m] [LawfulMonad m] (mark : α → m (Value φ)) (items : List α) :
    items.filterM (fun item => return (← mark item).truthy) = do
      let marks ← items.mapM mark
      return keepMarked items marks := by
  simp only [List.filterM, filterAuxM_eq, bind_assoc, pure_bind, List.append_nil, List.reverse_reverse]

/-! ## Indexing -/

section Index

variable [BEq φ] {invoke : φ → List (Value φ) → Run (Value φ)}

theorem index_number_of_int64 {xs : List (Value φ)} {x : Decimal} {k : Int} (hk : x.toRat = k) (hlow : -2 ^ 63 ≤ k)
    (hhigh : k < 2 ^ 63) : index invoke (.stream xs) (.number x) = Run.ofExcept (elementAt xs k) := by
  show Run.ofExcept (toIndex x) >>= (fun k => Run.ofExcept (elementAt xs k)) = _
  rw [toIndex_of_int64 hk hlow hhigh]
  rfl

/-- The characters of a text, each as a text of its own. -/
def characters (s : String) : List (Value φ) := s.toList.map fun c => .text (String.singleton c)

omit [BEq φ] in
theorem elementAt_characters (s : String) (k : Int) :
    elementAt (characters s : List (Value φ)) k =
      (fun c => .text (String.singleton c)) <$> elementAt s.toList k := elementAt_map _ _ _

/-- A text is indexed like the stream of its characters. -/
theorem index_text (s : String) (x : Decimal) :
    index invoke (.text s) (.number x) = index invoke (.stream (characters s)) (.number x) := by
  refine bind_congr fun k => ?_
  rw [elementAt_characters]
  cases elementAt s.toList k <;> rfl

/-- A mask with a mark for each element keeps those that it marks. -/
theorem index_mask {xs marks : List (Value φ)} (h : marks.length = xs.length) :
    index invoke (.stream xs) (.stream marks) = pure (.stream (keepMarked xs marks)) := by
  rw [index, if_neg (by omega)]

/-- **What indexing finds**, whatever calls of functions do. An index is an integer of 64 bits, and counts from the
end if it is negative. -/
structure IndexLaws (invoke : φ → List (Value φ) → Run (Value φ)) : Prop where
  fromStart : ∀ (xs : List (Value φ)) (x : Decimal) (k : Nat) (h : k < xs.length), k < 2 ^ 63 →
    x.toRat = k → index invoke (.stream xs) (.number x) = pure xs[k]
  fromEnd : ∀ (xs : List (Value φ)) (x : Decimal) (k : Nat) (h : 0 < k ∧ k ≤ xs.length), k ≤ 2 ^ 63 →
    x.toRat = -k → index invoke (.stream xs) (.number x) = pure (xs[xs.length - k])
  outOfRange : ∀ (xs : List (Value φ)) (x : Decimal) (k : Int), x.toRat = k → -2 ^ 63 ≤ k → k < 2 ^ 63 →
    ¬(-xs.length ≤ k ∧ k < xs.length) →
      index invoke (.stream xs) (.number x) = Run.fail (.indexOutOfRange k xs.length)
  noIndex : ∀ (xs : List (Value φ)) (x : Decimal), (∀ k : Int, x.toRat = k → ¬(-2 ^ 63 ≤ k ∧ k < 2 ^ 63)) →
    index invoke (.stream xs) (.number x) = Run.fail (.argumentKind "__get__" "integer" .number)
  text : ∀ (s : String) (x : Decimal),
    index invoke (.text s) (.number x) = index invoke (.stream (characters s)) (.number x)
  mask : ∀ xs marks : List (Value φ), marks.length = xs.length →
    index invoke (.stream xs) (.stream marks) = pure (.stream (keepMarked xs marks))
  filter : ∀ (xs : List (Value φ)) (p : Value φ), p.kind = .function ∨ p.kind = .object →
    index invoke (.stream xs) p = do
      let marks ← xs.mapM fun x => call invoke p [x]
      index invoke (.stream xs) (.stream marks)

theorem index_callable {p : Value φ} (hp : p.kind = .function ∨ p.kind = .object) (xs : List (Value φ)) :
    index invoke (.stream xs) p = do
      let marks ← xs.mapM fun x => call invoke p [x]
      return .stream (keepMarked xs marks) := by
  have hfilter : index invoke (.stream xs) p = do
      return .stream (← xs.filterM fun x => return (← call invoke p [x]).truthy) := by
    cases p with
    | function f => rfl
    | object entries methods => rfl
    | _ => rcases hp with h | h <;> cases h
  rw [hfilter, filterM_eq_keepMarked (fun x => call invoke p [x]), bind_assoc]
  simp only [pure_bind]

theorem indexLaws (invoke : φ → List (Value φ) → Run (Value φ)) : IndexLaws invoke where
  fromStart xs x k h hbound hk := by
    rw [index_number_of_int64 (k := k) (by rw [hk, Int.cast_natCast]) (by omega) (by omega),
      elementAt_of_lt h (.inl rfl)]
    rfl
  fromEnd xs x k h hbound hk := by
    have hlt : xs.length - k < xs.length := by omega
    rw [index_number_of_int64 (k := -k) (by rw [hk, Int.cast_neg, Int.cast_natCast]) (by omega) (by omega),
      elementAt_of_lt hlt (.inr (by omega))]
    rfl
  outOfRange xs x k hk hlow hhigh h := by
    rw [index_number_of_int64 hk hlow hhigh, elementAt_out_of_range h]
    rfl
  noIndex xs x h := by
    show Run.ofExcept (toIndex x) >>= _ = _
    rw [toIndex_of_not_int64 h]
    rfl
  text := index_text
  mask _ _ := index_mask
  filter xs p hp := by
    rw [index_callable hp]
    exact mapM_bind_congr fun marks hmarks => (index_mask hmarks).symm

end Index

end Cellbook.Value
