import Cellbook.Code.Builtin

/-!
# Emitting code

Code is emitted into a target, which says how each form of code is spelt. To emit is to produce
something while setting variables: every call gets a variable of its own, numbered on through the
whole program, and the statements that set them come in the order in which the calls run.
-/

namespace Cellbook

/-- **A target**: how code is spelt in `κ`. -/
structure Target (κ : Type) where
  var : Nat → κ
  param : String → κ
  cell : Nat → κ
  literal : Scalar → κ
  array : List κ → κ
  call : Builtin → List κ → κ
  /-- The entry of an object under a name. -/
  member : κ → String → κ
  /-- A function of these parameters, that runs statements and then has a result. -/
  lambda : List String → List (Nat × κ) → κ → κ

/-- **Emission** of an `α`: from the first free variable to what is emitted, the statements that set
variables, and the first variable that is free then. -/
def Emit (κ α : Type) : Type := Nat → α × List (Nat × κ) × Nat

namespace Emit

variable {κ α β : Type}

instance : Monad (Emit κ) where
  pure a := fun n => (a, [], n)
  bind m f := fun n =>
    let (a, before, n) := m n
    let (b, after, n) := f a n
    (b, before ++ after, n)

/-- Sets the next variable. -/
def declare (t : Target κ) (code : κ) : Emit κ κ := fun n => (t.var n, [(n, code)], n + 1)

/-- Emits the call of a built-in function; its result is in a variable. -/
def call (t : Target κ) (builtin : Builtin) (args : List κ) : Emit κ κ :=
  declare t (t.call builtin args)

/-- Emits something on its own: its statements are part of what it gives, and the place where this
happens has none. -/
def enclosed (m : Emit κ α) : Emit κ (List (Nat × κ) × α) := fun n =>
  let (a, statements, n) := m n
  ((statements, a), [], n)

/-- The function whose result is what is emitted. -/
def lambda (t : Target κ) (params : List String) (body : Emit κ κ) : Emit κ κ := do
  let (statements, result) ← enclosed body
  return t.lambda params statements result

theorem pure_apply (a : α) (n : Nat) : (pure a : Emit κ α) n = (a, [], n) := rfl

theorem bind_apply (m : Emit κ α) (f : α → Emit κ β) (n : Nat) :
    (m >>= f) n =
      ((f (m n).1 (m n).2.2).1, (m n).2.1 ++ (f (m n).1 (m n).2.2).2.1,
        (f (m n).1 (m n).2.2).2.2) := rfl

end Emit

end Cellbook
