import Mathlib.Data.List.Forall2
import Cellbook.Value.Apply

/-!
# Broadcasting element by element

Broadcasting goes through streams with accumulators and tells single values from streams as it goes. Said without
either, it is one equation for each pair of operands: two single values, a stream beside a single value on either
side, and two streams (`broadcast_streams` and its neighbours).
-/

namespace Cellbook.Value

variable {φ : Type}

/-! ## Streams and single values -/

theorem isStream_stream (xs : List (Value φ)) : (stream xs).isStream = true := rfl

theorem exists_stream {v : Value φ} (h : v.isStream = true) : ∃ xs, v = .stream xs := by
  cases v with
  | stream xs => exact ⟨xs, rfl⟩
  | _ => cases h

/-- **Induction over pairs of values**, as streams are broadcast: each element of a stream meets a single value, or
the elements of another stream. -/
theorem pair_induction {P : Value φ → Value φ → Prop}
    (singles : ∀ x y, x.isStream = false → y.isStream = false → P x y)
    (left : ∀ xs y, y.isStream = false → (∀ x ∈ xs, P x y) → P (.stream xs) y)
    (right : ∀ x ys, x.isStream = false → (∀ y ∈ ys, P x y) → P x (.stream ys))
    (both : ∀ xs ys, (∀ x ∈ xs, ∀ y ∈ ys, P x y) → P (.stream xs) (.stream ys)) (x y : Value φ) : P x y := by
  have hsmaller {v : Value φ} {vs : List (Value φ)} (h : v ∈ vs) : sizeOf v < sizeOf (Value.stream vs) := by
    have := List.sizeOf_lt_of_mem h
    rw [Value.stream.sizeOf_spec]
    omega
  induction hsize : sizeOf x + sizeOf y using Nat.strongRecOn generalizing x y with
  | _ n ih =>
    cases hx : x.isStream <;> cases hy : y.isStream
    case false.false => exact singles x y hx hy
    case true.false =>
      obtain ⟨xs, rfl⟩ := exists_stream hx
      refine left xs y hy fun x hmem => ih _ ?_ x y rfl
      have := hsmaller hmem
      omega
    case false.true =>
      obtain ⟨ys, rfl⟩ := exists_stream hy
      refine right x ys hx fun y hmem => ih _ ?_ x y rfl
      have := hsmaller hmem
      omega
    case true.true =>
      obtain ⟨xs, rfl⟩ := exists_stream hx
      obtain ⟨ys, rfl⟩ := exists_stream hy
      refine both xs ys fun x hmem y hmem' => ih _ ?_ x y rfl
      have := hsmaller hmem
      have := hsmaller hmem'
      omega

/-! ## The equations -/

section Equations

variable {g : Value φ → Except EvalFault (Value φ)}

theorem mapItems_eq (items done : List (Value φ)) :
    mapItems g items done = (done.reverse ++ ·) <$> items.mapM (mapSingles g) := by
  induction items generalizing done with
  | nil => simp [mapItems]
  | cons v vs ih => simp [mapItems, ih, List.mapM_cons]

theorem mapSingles_stream (xs : List (Value φ)) :
    mapSingles g (.stream xs) = .stream <$> xs.mapM (mapSingles g) := by
  simp [mapSingles, mapItems_eq]

theorem mapSingles_single {v : Value φ} (h : v.isStream = false) : mapSingles g v = g v := by
  cases v with
  | stream xs => cases h
  | _ => rfl

variable {meets : Kind → Bool} {refuse : Value φ → Value φ → EvalFault}
  {f : Value φ → Value φ → Except EvalFault (Value φ)}

theorem broadcast_single {x : Value φ} (hx : x.isStream = false) (y : Value φ) :
    broadcast meets refuse f x y =
      if y.isStream && !meets x.kind then .error (refuse x y) else mapSingles (f x) y := by
  cases x with
  | stream xs => cases hx
  | _ => rfl

theorem broadcast_stream_single {y : Value φ} (hy : y.isStream = false) (xs : List (Value φ)) :
    broadcast meets refuse f (.stream xs) y =
      if meets y.kind then mapSingles (f · y) (.stream xs) else .error (refuse (.stream xs) y) := by
  cases y with
  | stream ys => cases hy
  | _ => rfl

theorem broadcast_singles {x y : Value φ} (hx : x.isStream = false) (hy : y.isStream = false) :
    broadcast meets refuse f x y = f x y := by
  rw [broadcast_single hx, hy, Bool.false_and, if_neg Bool.false_ne_true, mapSingles_single hy]

theorem broadcastItems_eq (xs ys done : List (Value φ)) :
    broadcastItems meets refuse f xs ys done =
      (done.reverse ++ ·) <$> (xs.zip ys).mapM fun p => broadcast meets refuse f p.1 p.2 := by
  induction xs generalizing ys done with
  | nil => simp [broadcastItems]
  | cons x xs ih =>
    cases ys with
    | nil => simp [broadcastItems]
    | cons y ys => simp [broadcastItems, ih, List.mapM_cons]

/-- Two streams of the same length are broadcast pair by pair. -/
theorem broadcast_streams (xs ys : List (Value φ)) :
    broadcast meets refuse f (.stream xs) (.stream ys) =
      if xs.length = ys.length then .stream <$> (xs.zip ys).mapM fun p => broadcast meets refuse f p.1 p.2
      else .error ⟨.lengthMismatch xs.length ys.length, []⟩ := by
  simp only [broadcast, broadcastItems_eq]
  split
  · simp
  · rfl

/-- A single value that may meet streams is applied inside them. -/
theorem broadcast_eq_mapSingles_left {y : Value φ} (hy : y.isStream = false) (hmeets : meets y.kind = true)
    (x : Value φ) : broadcast meets refuse f x y = mapSingles (f · y) x := by
  cases hx : x.isStream
  · rw [broadcast_singles hx hy, mapSingles_single hx]
  · obtain ⟨xs, rfl⟩ := exists_stream hx
    rw [broadcast_stream_single hy, if_pos hmeets]

theorem broadcast_eq_mapSingles_right {x : Value φ} (hx : x.isStream = false) (hmeets : meets x.kind = true)
    (y : Value φ) : broadcast meets refuse f x y = mapSingles (f x) y := by
  rw [broadcast_single hx, hmeets, Bool.not_true, Bool.and_false, if_neg Bool.false_ne_true]

/-- A stream beside a single value is broadcast element by element. -/
theorem broadcast_left {y : Value φ} (hy : y.isStream = false) (xs : List (Value φ)) :
    broadcast meets refuse f (.stream xs) y =
      if meets y.kind then .stream <$> xs.mapM fun x => broadcast meets refuse f x y
      else .error (refuse (.stream xs) y) := by
  rw [broadcast_stream_single hy]
  split
  next hmeets => rw [mapSingles_stream, funext (broadcast_eq_mapSingles_left hy hmeets)]
  next => rfl

theorem broadcast_right {x : Value φ} (hx : x.isStream = false) (ys : List (Value φ)) :
    broadcast meets refuse f x (.stream ys) =
      if meets x.kind then .stream <$> ys.mapM fun y => broadcast meets refuse f x y
      else .error (refuse x (.stream ys)) := by
  cases hmeets : meets x.kind
  · rw [broadcast_single hx, isStream_stream, hmeets, Bool.not_false, Bool.and_self, if_pos rfl,
      if_neg Bool.false_ne_true]
  · rw [broadcast_eq_mapSingles_right hx hmeets, mapSingles_stream, if_pos rfl,
      funext (broadcast_eq_mapSingles_right hx hmeets)]

end Equations

end Cellbook.Value
