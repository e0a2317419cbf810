import Cellbook.Fault.Evaluation

/-!
# Broadcasting

How an operator on single values extends to streams: to a stream element by element, to a stream and
a single value with that value against each element, and to two streams of the same length pair by
pair. Streams inside streams are reached in the same way. The first fault in order is the fault of
the whole.
-/

namespace Cellbook.Value

variable {φ : Type}

def isStream : Value φ → Bool
  | .stream _ => true
  | _ => false

mutual

/-- Applies `f` to every value that is no stream, inside streams of any depth. -/
def mapSingles (f : Value φ → Except EvalFault (Value φ)) :
    Value φ → Except EvalFault (Value φ)
  | .stream items => return .stream (← mapItems f items [])
  | v => f v

/-- Applies `f` inside the items of a stream, `done` holding the results so far in reverse. -/
def mapItems (f : Value φ → Except EvalFault (Value φ)) :
    (items done : List (Value φ)) → Except EvalFault (List (Value φ))
  | [], done => return done.reverse
  | v :: vs, done => do mapItems f vs ((← mapSingles f v) :: done)

end

mutual

/-- Applies `f` to all pairs of single values that two values have in common. A single value meets a
stream only if `meets` allows its kind; otherwise the fault is `refuse` of the two. -/
def broadcast (meets : Kind → Bool) (refuse : Value φ → Value φ → EvalFault)
    (f : Value φ → Value φ → Except EvalFault (Value φ)) :
    Value φ → Value φ → Except EvalFault (Value φ)
  | .stream xs, y =>
    match y with
    | .stream ys =>
      if xs.length = ys.length then
        return .stream (← broadcastItems meets refuse f xs ys [])
      else throw ⟨.lengthMismatch xs.length ys.length, []⟩
    | y =>
      if meets y.kind then mapSingles (f · y) (.stream xs) else throw (refuse (.stream xs) y)
  | x, y =>
    if y.isStream && !meets x.kind then throw (refuse x y) else mapSingles (f x) y

/-- Broadcasts over the items of two streams, `done` holding the results so far in reverse. -/
def broadcastItems (meets : Kind → Bool) (refuse : Value φ → Value φ → EvalFault)
    (f : Value φ → Value φ → Except EvalFault (Value φ)) :
    (xs ys done : List (Value φ)) → Except EvalFault (List (Value φ))
  | x :: xs, y :: ys, done => do
    broadcastItems meets refuse f xs ys ((← broadcast meets refuse f x y) :: done)
  | _, _, done => return done.reverse

end

end Cellbook.Value
