import Cellbook.Fault.Evaluation
import Cellbook.Settings

/-!
# Ranges

The numbers of a stream written with a range. The element before the range operator is where it
starts, or zero if there is none, and the element after it is where it ends. Two elements before it
give the step; otherwise it is one toward the end. The elements further out stay as they are.
-/

namespace Cellbook.Value

/-- The numbers from `current` on, by `step`, as long as `inside` holds; none if there are more of
them than there is room. The numbers so far stand in `done` in reverse. -/
def progress (inside : Decimal → Bool) (step : Decimal) :
    (room : Nat) → (current : Decimal) → (done : List Decimal) → Option (List Decimal)
  | 0, current, done => if inside current then none else some done.reverse
  | room + 1, current, done =>
    if inside current then progress inside step room (current.add step) (current :: done)
    else some done.reverse

/-- Whether a number has not passed the end of a range with that step. -/
def beforeEnd (step stop : Decimal) (inclusive : Bool) (x : Decimal) : Bool :=
  if compare x stop == .eq then inclusive
  else compare x stop == (if step.isNegative then .gt else .lt)

/-- The step of a range from `start`, with `lead` in front of it, to `stop`. -/
def rangeStep (lead : List Decimal) (start stop : Decimal) : Decimal :=
  match lead.getLast? with
  | some previous => start.sub previous
  | none => if compare stop start == .lt then .ofInt (-1) else .ofInt 1

/-- **The numbers of a stream with a range**, given the elements before and after the range
operator. -/
def generate (settings : Settings) (before after : List Decimal) (inclusive : Bool) :
    Except EvalFault (List Decimal) :=
  match after with
  | [] => .error ⟨.unboundedRange, []⟩
  | stop :: tail =>
    let start := before.getLast?.getD (.ofInt 0)
    let lead := before.dropLast
    let step := rangeStep lead start stop
    let limit := settings.maxStreamLength
    if step.isZero then .error ⟨.zeroStep, []⟩
    else
      match progress (beforeEnd step stop inclusive) step (limit - lead.length) start [] with
      | none => .error ⟨.streamTooLong limit, []⟩
      | some items =>
        if limit < lead.length + items.length + tail.length then
          .error ⟨.streamTooLong limit, []⟩
        else .ok (lead ++ items ++ tail)

end Cellbook.Value
