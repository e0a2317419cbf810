import Cellbook.Value.Basic

/-!
# Objects

An object is a table of entries in the order in which their keys first came, with a list of methods.
Inserting under a key that is there replaces the value in its place, so keys are different from each
other.
-/

namespace Cellbook

/-- The entries and methods of an object value. -/
structure Object (φ : Type) where
  entries : List (Value φ × Value φ)
  methods : List (Function φ)

namespace Object

variable {φ : Type}

def empty : Object φ := ⟨[], []⟩

def toValue (o : Object φ) : Value φ := .object o.entries o.methods

/-- The object that a value is. -/
def ofValue? : Value φ → Option (Object φ)
  | .object entries methods => some ⟨entries, methods⟩
  | _ => none

@[simp] theorem ofValue?_toValue (o : Object φ) : ofValue? o.toValue = some o := rfl

/-- Adds a method behind the others. -/
def define (o : Object φ) (f : Function φ) : Object φ := { o with methods := o.methods ++ [f] }

/-- The value of the first entry whose key is that text. -/
def field? (o : Object φ) (name : String) : Option (Value φ) :=
  (o.entries.find? fun (k, _) => match k with
    | .text s => s == name
    | _ => false).map (·.2)

section Keys

variable [BEq φ]

/-- Puts a value under a key: in place of the one there, or at the end. -/
def insertEntry (key value : Value φ) : List (Value φ × Value φ) → List (Value φ × Value φ)
  | [] => [(key, value)]
  | (k, v) :: rest =>
    if k == key then (k, value) :: rest else (k, v) :: insertEntry key value rest

def insert (o : Object φ) (key value : Value φ) : Object φ :=
  { o with entries := insertEntry key value o.entries }

/-- The value under a key. -/
def get? (o : Object φ) (key : Value φ) : Option (Value φ) :=
  (o.entries.find? fun (k, _) => k == key).map (·.2)

def containsKey (o : Object φ) (key : Value φ) : Bool := (o.get? key).isSome

end Keys

end Object

end Cellbook
