import Mathlib.Logic.Function.Iterate
import Cellbook.Proofs.Decimal.Exact
import Cellbook.Proofs.Decimal.Order
import Cellbook.Value.Range

/-!
# Ranges

A range is made by adding its step again and again. `Progression` is that loop with nothing but its two ways out,
the end of the range and the limit; it takes no more additions than the limit allows, whatever rounding makes of
them, and `progress` comes to the same. Where all numbers are multiples of one unit with some digits to spare no
sum is rounded, and the range has the numbers that it should have (`generate_exact`).
-/

namespace Cellbook.Value

open Decimal

/-! ## The loop -/

/-- **The loop that makes the numbers of a range**, `items` being there already: it is left with these when `current`
is past the end, without any when there is no room for `current`, and otherwise takes one more addition. -/
inductive Progression (limit : Nat) (inside : Decimal → Bool) (step : Decimal) :
    (items : List Decimal) → (current : Decimal) → (additions : Nat) → Option (List Decimal) → Prop
  | passed {items : List Decimal} {current : Decimal} (h : inside current = false) :
    Progression limit inside step items current 0 (some items)
  | full {items : List Decimal} {current : Decimal} (h : inside current = true) (hfull : limit ≤ items.length) :
    Progression limit inside step items current 0 none
  | next {items : List Decimal} {current : Decimal} {additions : Nat} {made : Option (List Decimal)}
    (h : inside current = true) (hroom : items.length < limit)
    (hnext : Progression limit inside step (items ++ [current]) (current.add step) additions made) :
    Progression limit inside step items current (additions + 1) made

section Loop

variable {limit : Nat} {inside : Decimal → Bool} {step : Decimal}

/-- **The loop ends**, with no more additions than there is room for numbers, and `progress` says with what. -/
theorem exists_progression {items done : List Decimal} {current : Decimal} {room : Nat}
    (hroom : room = limit - (items.length + done.length)) :
    ∃ additions ≤ room, Progression limit inside step (items ++ done.reverse) current additions
      ((progress inside step room current done).map (items ++ ·)) := by
  have hlength : (items ++ done.reverse).length = items.length + done.length := by simp
  induction room generalizing current done with
  | zero =>
    refine ⟨0, le_rfl, ?_⟩
    rw [progress]
    split
    next h => exact .full h (by omega)
    next h => exact .passed (Bool.eq_false_iff.mpr h)
  | succ room ih =>
    rw [progress]
    split
    next h =>
      have happend : items ++ done.reverse ++ [current] = items ++ (current :: done).reverse := by simp
      have hrest : room = limit - (items.length + (current :: done).length) := by rw [List.length_cons]; omega
      obtain ⟨additions, hle, hnext⟩ := @ih (current :: done) (current.add step) hrest (by simp)
      exact ⟨additions + 1, by omega, .next h (by omega) (by rwa [happend])⟩
    next h => exact ⟨0, Nat.zero_le _, .passed (Bool.eq_false_iff.mpr h)⟩

/-- The numbers that `progress` makes, if the first `count` of them are inside and the next one is not. -/
theorem progress_eq {count room : Nat} {current : Decimal} {done : List Decimal}
    (hinside : ∀ i < count, inside ((·.add step)^[i] current) = true)
    (hpassed : inside ((·.add step)^[count] current) = false) :
    progress inside step room current done =
      if count ≤ room then some (done.reverse ++ (List.range count).map fun i => (·.add step)^[i] current)
      else none := by
  induction room generalizing count current done with
  | zero =>
    cases count with
    | zero => simpa [progress] using hpassed
    | succ count => simpa [progress] using hinside 0 count.succ_pos
  | succ room ih =>
    cases count with
    | zero =>
      have hfirst : inside current = false := hpassed
      simp [progress, hfirst]
    | succ count =>
      have hfirst : inside current = true := hinside 0 count.succ_pos
      rw [progress, if_pos hfirst, ih (fun i hi => hinside (i + 1) (by omega)) hpassed]
      simp [List.range_succ_eq_map, Function.comp_def]

end Loop

/-- What is done when the loop has ended: the elements behind the end follow, if there is room for all. -/
def closeRange (limit : Nat) (tail : List Decimal) : Option (List Decimal) → Except EvalFault (List Decimal)
  | none => .error ⟨.streamTooLong limit, []⟩
  | some items =>
    if limit < items.length + tail.length then .error ⟨.streamTooLong limit, []⟩ else .ok (items ++ tail)

theorem generate_cons (settings : Settings) {before : List Decimal} {stop start step : Decimal} (tail : List Decimal)
    (inclusive : Bool) (hstart : before.getLast?.getD (.ofInt 0) = start)
    (hstep : rangeStep before.dropLast start stop = step) (hne : step.isZero = false) :
    generate settings before (stop :: tail) inclusive =
      closeRange settings.maxStreamLength tail
        ((progress (beforeEnd step stop inclusive) step (settings.maxStreamLength - before.dropLast.length) start []).map
          (before.dropLast ++ ·)) := by
  simp only [generate, hstart, hstep, hne, Bool.false_eq_true, if_false]
  cases progress (beforeEnd step stop inclusive) step (settings.maxStreamLength - before.dropLast.length) start [] with
  | none => rfl
  | some items => simp only [Option.map_some, closeRange, List.length_append]

/-- The limit inside the loop and the one behind it are one limit on the whole range. -/
theorem closeRange_limit (limit : Nat) (lead items tail : List Decimal) :
    closeRange limit tail ((if items.length ≤ limit - lead.length then some items else none).map (lead ++ ·)) =
      if lead.length + items.length + tail.length ≤ limit then .ok (lead ++ items ++ tail)
      else .error ⟨.streamTooLong limit, []⟩ := by
  by_cases hroom : items.length ≤ limit - lead.length
  · rw [if_pos hroom, Option.map_some, closeRange, List.length_append]
    split
    next h => rw [if_neg (by omega)]
    next h => rw [if_pos (by omega)]
  · rw [if_neg hroom, Option.map_none, closeRange, if_neg (by omega)]

theorem length_le_of_closeRange {limit : Nat} {tail : List Decimal} {made : Option (List Decimal)}
    {items : List Decimal} (h : closeRange limit tail made = .ok items) : items.length ≤ limit := by
  cases made with
  | none => cases h
  | some front =>
    rw [closeRange] at h
    split at h
    · cases h
    next hle =>
      cases h
      rw [List.length_append]
      exact not_lt.mp hle

/-! ## What a range should be -/

/-- A number of a range has not passed the end: it stands before it in the direction of the step, or at it if the
range includes its end. -/
def NotPassed (step stop : ℚ) (inclusive : Bool) (q : ℚ) : Prop :=
  if q = stop then inclusive = true else if step < 0 then stop < q else q < stop

instance (step stop : ℚ) (inclusive : Bool) (q : ℚ) : Decidable (NotPassed step stop inclusive q) :=
  inferInstanceAs (Decidable (if q = stop then inclusive = true else if step < 0 then stop < q else q < stop))

/-- The step of a range from `start`, with `lead` in front of it, to `stop`, without rounding. -/
def exactStep (lead : List Decimal) (start stop : ℚ) : ℚ :=
  match lead.getLast? with
  | some previous => start - previous.toRat
  | none => if stop < start then -1 else 1

/-- A failure with that code. -/
def FailsWith {α : Type} (code : String) (result : Except EvalFault α) : Prop :=
  ∃ fault, result = .error fault ∧ fault.code = code

/-- **What a range should come to**: the numbers in front of the start, the start and the steps from there as long
as they have not passed the end, and the numbers behind the end, if these are no more than `limit`. -/
def IsRange (limit : Nat) (before after : List Decimal) (inclusive : Bool)
    (result : Except EvalFault (List Decimal)) : Prop :=
  match after with
  | [] => FailsWith "UNBOUNDED_RANGE" result
  | stop :: tail =>
    let start := (before.getLast?.map toRat).getD 0
    let step := exactStep before.dropLast start stop.toRat
    if step = 0 then FailsWith "DOMAIN_ERROR" result
    else ∃ count : Nat,
      (∀ i < count, NotPassed step stop.toRat inclusive (start + i * step)) ∧
      ¬ NotPassed step stop.toRat inclusive (start + count * step) ∧
      if before.dropLast.length + count + tail.length ≤ limit then
        ∃ items, result = .ok (before.dropLast ++ items ++ tail) ∧
          items.map toRat = (List.range count).map fun i : Nat => start + i * step
      else FailsWith "STREAM_TOO_LONG" result

theorem beforeEnd_iff (step stop : Decimal) (inclusive : Bool) (x : Decimal) :
    beforeEnd step stop inclusive x = true ↔ NotPassed step.toRat stop.toRat inclusive x.toRat := by
  have hnegative : step.isNegative = true ↔ step.toRat < 0 := isNegative_iff
  simp only [beforeEnd, NotPassed, compare_eq_compare_toRat, beq_iff_eq, compare_eq_iff_eq, hnegative]
  split
  · rfl
  · split
    · exact beq_iff_eq.trans compare_gt_iff_gt
    · exact beq_iff_eq.trans compare_lt_iff_lt

/-! ## Exact steps -/

/-- Passing the end does not depend on the unit. -/
theorem notPassed_mul_iff {step stop q u : ℚ} (hu : 0 < u) {inclusive : Bool} :
    NotPassed (step * u) (stop * u) inclusive (q * u) ↔ NotPassed step stop inclusive q := by
  simp only [NotPassed, mul_left_inj' hu.ne', mul_neg_iff, hu, hu.not_gt, and_true, and_false, false_or,
    mul_lt_mul_iff_of_pos_right hu]

theorem notPassed_cast_iff {d b c : Int} {inclusive : Bool} :
    NotPassed d b inclusive c ↔ if c = b then inclusive = true else if d < 0 then b < c else c < b := by
  simp only [NotPassed, Int.cast_inj, Int.cast_lt_zero, Int.cast_lt]

/-- A number of a range stands between its start and its end. -/
theorem abs_le_of_notPassed {a b d : Int} {inclusive : Bool} {i : Nat}
    (h : NotPassed d b inclusive ((a + i * d : Int) : ℚ)) : |a + i * d| ≤ max |a| |b| := by
  have hback (hd : d < 0) : i * d ≤ 0 := mul_nonpos_of_nonneg_of_nonpos (Int.natCast_nonneg i) hd.le
  have hforth (hd : ¬ d < 0) : 0 ≤ i * d := mul_nonneg (Int.natCast_nonneg i) (not_lt.mp hd)
  rw [notPassed_cast_iff] at h
  rw [abs_le]
  have := neg_abs_le a
  have := le_abs_self a
  have := neg_abs_le b
  have := le_abs_self b
  generalize i * d = t at *
  split at h
  · omega
  · split at h
    next hd =>
      have := hback hd
      omega
    next hd =>
      have := hforth hd
      omega

/-- A step of at least one unit gets past the end. -/
theorem exists_passed (a b : Int) {d : Int} (hd : d ≠ 0) (inclusive : Bool) :
    ∃ n : Nat, ¬ NotPassed d b inclusive ((a + n * d : Int) : ℚ) := by
  refine ⟨(b - a).natAbs + 1, ?_⟩
  rw [notPassed_cast_iff]
  rcases lt_or_gt_of_ne hd with hd | hd
  · have hfar : ((b - a).natAbs + 1 : Nat) * d ≤ -((b - a).natAbs + 1 : Nat) := by nlinarith
    rw [if_neg (by omega), if_pos hd]
    omega
  · have hfar : (((b - a).natAbs + 1 : Nat) : Int) ≤ ((b - a).natAbs + 1 : Nat) * d := by nlinarith
    rw [if_neg (by omega), if_neg (by omega)]
    omega

/-- **The numbers of a range of multiples** are the exact steps from its start, and so is the first one that has
passed the end. -/
theorem iterate_isMultiple {j : Nat} {a b d : Int} {start step : Decimal} (hstart : IsMultiple j a start)
    (hstep : IsMultiple j d step) (ha : |a| < 10 ^ 49) (hb : |b| < 10 ^ 49) (hd : |d| < 2 * 10 ^ 49)
    {inclusive : Bool} {count : Nat} (h : ∀ i < count, NotPassed d b inclusive ((a + i * d : Int) : ℚ)) {i : Nat}
    (hi : i ≤ count) : IsMultiple j (a + i * d) ((·.add step)^[i] start) := by
  induction i with
  | zero => simpa using hstart
  | succ i ih =>
    have hsmall : |a + i * d| < 10 ^ 49 := (abs_le_of_notPassed (h i hi)).trans_lt (max_lt ha hb)
    have hnext : a + (i + 1 : Nat) * d = a + i * d + d := by
      push_cast
      ring
    rw [Function.iterate_succ_apply', hnext]
    refine (ih (by omega)).add hstep (by omega) (by omega) ?_
    have := abs_add_le (a + i * d) d
    omega

/-- The step of a range is exact. -/
theorem rangeStep_isMultiple {j : Nat} (hj : j ≤ 48) {lead : List Decimal} {start : Decimal} {a : Int}
    (hlead : ∀ x ∈ lead, ∃ c : Int, |c| < 10 ^ 49 ∧ IsMultiple j c x) (ha : |a| < 10 ^ 49)
    (hstart : IsMultiple j a start) (stop : Decimal) :
    ∃ d : Int, |d| < 2 * 10 ^ 49 ∧ IsMultiple j d (rangeStep lead start stop) ∧
      exactStep lead start.toRat stop.toRat = d * 10 ^ (-j : Int) := by
  have hone : (10 : Int) ^ j ≤ 10 ^ 48 := pow_le_pow_right₀ (by decide) hj
  have hpos : (0 : Int) < 10 ^ j := Int.pow_pos (by decide)
  unfold rangeStep exactStep
  cases hlast : lead.getLast? with
  | some previous =>
    obtain ⟨c, hc, hprevious⟩ := hlead previous (List.mem_of_getLast? hlast)
    have hle : |a + -c| ≤ |a| + |c| := by
      rw [← abs_neg c]
      exact abs_add_le ..
    refine ⟨a + -c, by omega, ?_, ?_⟩
    · exact hstart.add hprevious.neg (by omega) (by rw [abs_neg]; omega) (by omega)
    · dsimp only
      rw [hstart.toRat_eq, hprevious.toRat_eq]
      push_cast
      ring
  | none =>
    have hunits (n : Int) : (n : ℚ) = (n * 10 ^ j : Int) * 10 ^ (-j : Int) := by
      rw [← (isMultiple_ofInt j n).toRat_eq, toRat_ofInt]
    dsimp only
    rw [compare_eq_compare_toRat]
    split
    next hlt =>
      rw [if_pos (compare_lt_iff_lt.mp (beq_iff_eq.mp hlt))]
      exact ⟨-1 * 10 ^ j, by rw [abs_lt]; omega, isMultiple_ofInt j (-1), by rw [← hunits, Int.cast_neg, Int.cast_one]⟩
    next hge =>
      rw [if_neg fun hlt => hge (beq_iff_eq.mpr (compare_lt_iff_lt.mpr hlt))]
      exact ⟨1 * 10 ^ j, by rw [abs_lt]; omega, isMultiple_ofInt j 1, by rw [← hunits, Int.cast_one]⟩

/-- A range of multiples has so many numbers, and the steps to them are exact. -/
theorem exists_count {j : Nat} {a b d : Int} {start stop step : Decimal} (hstart : IsMultiple j a start)
    (hstop : IsMultiple j b stop) (hstep : IsMultiple j d step) (ha : |a| < 10 ^ 49) (hb : |b| < 10 ^ 49)
    (hd : |d| < 2 * 10 ^ 49) (hne : d ≠ 0) (inclusive : Bool) :
    ∃ count : Nat,
      (∀ i < count, NotPassed step.toRat stop.toRat inclusive (start.toRat + i * step.toRat)) ∧
      ¬ NotPassed step.toRat stop.toRat inclusive (start.toRat + count * step.toRat) ∧
      ∀ i ≤ count, ((·.add step)^[i] start).toRat = start.toRat + i * step.toRat := by
  have hunits (i : Nat) : start.toRat + i * step.toRat = (a + i * d : Int) * 10 ^ (-j : Int) := by
    rw [hstart.toRat_eq, hstep.toRat_eq]
    push_cast
    ring
  have hiff (i : Nat) : NotPassed step.toRat stop.toRat inclusive (start.toRat + i * step.toRat) ↔
      NotPassed d b inclusive ((a + i * d : Int) : ℚ) := by
    rw [hunits, hstop.toRat_eq, hstep.toRat_eq, notPassed_mul_iff (ten_zpow_pos _)]
  let hex := exists_passed a b hne inclusive
  have hinside (i : Nat) (hi : i < Nat.find hex) : NotPassed d b inclusive ((a + i * d : Int) : ℚ) :=
    not_not.mp (Nat.find_min hex hi)
  refine ⟨Nat.find hex, fun i hi => (hiff i).mpr (hinside i hi), fun h => Nat.find_spec hex ((hiff _).mp h),
    fun i hi => ?_⟩
  rw [hunits]
  exact (iterate_isMultiple hstart hstep ha hb hd hinside hi).toRat_eq

/-- The start of a range, which is zero if there is nothing in front of it. -/
theorem toRat_start (before : List Decimal) :
    (before.getLast?.map toRat).getD 0 = (before.getLast?.getD (.ofInt 0)).toRat := by
  cases before.getLast? with
  | none => simp [ofInt]
  | some x => rfl

theorem start_isMultiple {j : Nat} {before : List Decimal}
    (h : ∀ x ∈ before, ∃ c : Int, |c| < 10 ^ 49 ∧ IsMultiple j c x) :
    ∃ a : Int, |a| < 10 ^ 49 ∧ IsMultiple j a (before.getLast?.getD (.ofInt 0)) := by
  cases hlast : before.getLast? with
  | none => exact ⟨0 * 10 ^ j, by simp, isMultiple_ofInt j 0⟩
  | some x => exact h x (List.mem_of_getLast? hlast)

/-- The loop makes the numbers that have not passed the end, if there is room for them. -/
theorem progress_of_count {start stop step : Decimal} {inclusive : Bool} {count : Nat}
    (hinside : ∀ i < count, NotPassed step.toRat stop.toRat inclusive (start.toRat + i * step.toRat))
    (hpassed : ¬ NotPassed step.toRat stop.toRat inclusive (start.toRat + count * step.toRat))
    (hsteps : ∀ i ≤ count, ((·.add step)^[i] start).toRat = start.toRat + i * step.toRat) :
    ∃ items, items.map toRat = ((List.range count).map fun i : Nat => start.toRat + i * step.toRat) ∧ ∀ room,
      progress (beforeEnd step stop inclusive) step room start [] =
        if items.length ≤ room then some items else none := by
  refine ⟨(List.range count).map fun i => (·.add step)^[i] start, ?_, fun room => ?_⟩
  · rw [List.map_map]
    exact List.map_congr_left fun i hi => hsteps i (List.mem_range.mp hi).le
  · rw [List.length_map, List.length_range]
    refine progress_eq (fun i hi => ?_) (Bool.eq_false_iff.mpr fun h => hpassed ?_)
    · rw [beforeEnd_iff, hsteps i hi.le]
      exact hinside i hi
    · rwa [beforeEnd_iff, hsteps count le_rfl] at h

/-- **Ranges of multiples** come to what they should. -/
theorem generate_isRange (settings : Settings) {before after : List Decimal} {j : Nat} (hj : j ≤ 48)
    (h : ∀ x ∈ before ++ after, ∃ c : Int, |c| < 10 ^ 49 ∧ IsMultiple j c x) (inclusive : Bool) :
    IsRange settings.maxStreamLength before after inclusive (generate settings before after inclusive) := by
  cases after with
  | nil => exact ⟨_, rfl, rfl⟩
  | cons stop tail =>
    obtain ⟨b, hb, hstop⟩ := h stop (by simp)
    obtain ⟨a, ha, hstart⟩ := start_isMultiple fun x hx => h x (List.mem_append_left _ hx)
    have hlead : ∀ x ∈ before.dropLast, ∃ c : Int, |c| < 10 ^ 49 ∧ IsMultiple j c x := fun x hx =>
      h x (List.mem_append_left _ (List.dropLast_subset _ hx))
    obtain ⟨d, hd, hstep, hexact⟩ := rangeStep_isMultiple hj hlead ha hstart stop
    rw [IsRange]
    simp only [toRat_start, hexact, ← hstep.toRat_eq, toRat_eq_zero_iff]
    split
    next hzero => exact ⟨⟨.zeroStep, []⟩, by simp only [generate, hzero, if_true], rfl⟩
    next hzero =>
      have hne : d ≠ 0 := by
        rintro rfl
        exact hzero (toRat_eq_zero_iff.mp (by rw [hstep.toRat_eq, Int.cast_zero, zero_mul]))
      obtain ⟨count, hinside, hpassed, hsteps⟩ := exists_count hstart hstop hstep ha hb hd hne inclusive
      obtain ⟨items, hitems, hmade⟩ := progress_of_count hinside hpassed hsteps
      have hlength : items.length = count := by simpa using congrArg List.length hitems
      refine ⟨count, hinside, hpassed, ?_⟩
      rw [generate_cons settings tail inclusive rfl rfl (Bool.eq_false_iff.mpr hzero), hmade, closeRange_limit, hlength]
      split
      next => exact ⟨items, rfl, hitems⟩
      next => exact ⟨_, rfl, rfl⟩

/-- **A range ends**, whatever rounding makes of its steps: the loop takes no more additions than `limit`, and a
result has no more elements. -/
structure EndsWithin (limit : Nat) (before after : List Decimal) (inclusive : Bool)
    (result : Except EvalFault (List Decimal)) : Prop where
  length_le : ∀ items, result = .ok items → items.length ≤ limit
  exists_progression : ∀ stop tail, after = stop :: tail →
    let start := before.getLast?.getD (.ofInt 0)
    let step := rangeStep before.dropLast start stop
    step.isZero = false → ∃ additions ≤ limit, ∃ made,
      Progression limit (beforeEnd step stop inclusive) step before.dropLast start additions made ∧
        result = closeRange limit tail made

theorem generate_endsWithin (settings : Settings) (before after : List Decimal) (inclusive : Bool) :
    EndsWithin settings.maxStreamLength before after inclusive (generate settings before after inclusive) where
  length_le items h := by
    cases after with
    | nil => cases h
    | cons stop tail =>
      by_cases hzero : (rangeStep before.dropLast (before.getLast?.getD (.ofInt 0)) stop).isZero = true
      · simp only [generate, hzero, if_true] at h
        cases h
      · rw [generate_cons settings tail inclusive rfl rfl (Bool.eq_false_iff.mpr hzero)] at h
        exact length_le_of_closeRange h
  exists_progression := by
    rintro stop tail rfl start step hne
    obtain ⟨additions, hle, hprogression⟩ :=
      @exists_progression settings.maxStreamLength (beforeEnd step stop inclusive) step before.dropLast [] start _ rfl
    rw [List.reverse_nil, List.append_nil, List.length_nil, Nat.add_zero] at hprogression
    exact ⟨additions, hle.trans (Nat.sub_le ..), _, hprogression, generate_cons settings tail inclusive rfl rfl hne⟩

/-- **Ranges**: where all numbers are multiples of one unit down to `10 ^ -48` of at most 49 digits, a range comes to
what it should; and whatever the numbers are, it ends within the limit. -/
theorem generate_exact (settings : Settings) (before after : List Decimal) (inclusive : Bool) :
    (∀ j ≤ 48, (∀ x ∈ before ++ after, ∃ c : Int, |c| < 10 ^ 49 ∧ IsMultiple j c x) →
      IsRange settings.maxStreamLength before after inclusive (generate settings before after inclusive)) ∧
    EndsWithin settings.maxStreamLength before after inclusive (generate settings before after inclusive) :=
  ⟨fun _ hj h => generate_isRange settings hj h inclusive, generate_endsWithin settings before after inclusive⟩

/-- Steps that are lost in rounding reach the limit and not the end. -/
example : generate ⟨50, 3⟩ [⟨1, 60, 50, by decide⟩] [⟨2, 60, 50, by decide⟩] true = .error ⟨.streamTooLong 3, []⟩ := by
  decide +kernel

theorem generate_exact_of_quarters :
    (2 ≤ 48 ∧ ∀ x ∈ [⟨5, 0, 50, by decide⟩, ⟨25, -2, 50, by decide⟩] ++ [⟨-14, 0, 60, by decide⟩, ⟨7, 0, 50, by decide⟩],
      ∃ c : Int, |c| < 10 ^ 49 ∧ IsMultiple 2 c x) ∧
    IsRange 6 [⟨5, 0, 50, by decide⟩, ⟨25, -2, 50, by decide⟩] [⟨-14, 0, 60, by decide⟩, ⟨7, 0, 50, by decide⟩] true
      (generate ⟨50, 6⟩ [⟨5, 0, 50, by decide⟩, ⟨25, -2, 50, by decide⟩]
        [⟨-14, 0, 60, by decide⟩, ⟨7, 0, 50, by decide⟩] true) := by
  have hmultiples : ∀ x ∈ [(⟨5, 0, 50, by decide⟩ : Decimal), ⟨25, -2, 50, by decide⟩] ++
      [⟨-14, 0, 60, by decide⟩, ⟨7, 0, 50, by decide⟩], ∃ c : Int, |c| < 10 ^ 49 ∧ IsMultiple 2 c x := by
    simp only [List.cons_append, List.nil_append, List.forall_mem_cons, List.not_mem_nil, false_implies, implies_true,
      and_true]
    exact ⟨⟨500, by decide, by norm_num [toRat], by decide⟩, ⟨25, by decide, by norm_num [toRat], by decide⟩,
      ⟨-1400, by decide, by norm_num [toRat], by decide⟩, ⟨700, by decide, by norm_num [toRat], by decide⟩⟩
  exact ⟨⟨by decide, hmultiples⟩, (generate_exact ⟨50, 6⟩ _ _ true).1 2 (by decide) hmultiples⟩

end Cellbook.Value
