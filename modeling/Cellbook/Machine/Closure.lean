import Cellbook.Code.Basic
import Cellbook.Run

/-!
# Closures

The body of a function at run time: its statements and result, together with everything from around
it that they may read. That is the values of its captures, the parameters that were bound where the
function was made, the cells that were visible there, and the settings. A closure needs nothing from
the place where it is called but its arguments.
-/

namespace Cellbook

/-- What a finished cell leaves for the cells that read it. -/
structure Slot (φ : Type) where
  label : String
  outcome : Except Diagnostic (Value φ)

/-- **A function body at run time.** -/
inductive Closure where
  | mk (identity : Identity) (params : List String) (body : List (Nat × Code Closure))
      (result : Code Closure) (vars : List (Nat × Value Closure))
      (bound : List (String × Value Closure)) (cells : List (Nat × Slot Closure))
      (settings : Settings)

namespace Closure

def identity : Closure → Identity
  | .mk i _ _ _ _ _ _ _ => i

/-- A closure is equal to itself and to no other one. -/
instance : BEq Closure := ⟨fun a b => a.identity == b.identity⟩

end Closure

end Cellbook
