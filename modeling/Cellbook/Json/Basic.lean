/-!
# JSON values

A JSON value keeps what its text shows: the fields of an object in order, with repetitions, and
integers apart from other numbers. A string whose escapes name no characters (half a surrogate pair)
has no value of type `String`; it is kept as `unreadable`, as is an object with such a field name,
since a reader may skip over them.
-/

namespace Cellbook

/-- A JSON value as written. -/
inductive Json where
  | null
  | boolean (b : Bool)
  | integer (n : Int)
  /-- A number with a fraction or an exponent, or a negative zero. -/
  | inexact
  | string (s : String)
  /-- A string that holds half a surrogate pair, or an object with such a field name. -/
  | unreadable
  | array (items : List Json)
  | object (fields : List (String × Json))

namespace Json

instance : Inhabited Json := ⟨null⟩

/-- The value of the first field of that name. -/
def field? (name : String) : Json → Option Json
  | .object fields => fields.lookup name
  | _ => none

def string? : Json → Option String
  | .string s => some s
  | _ => none

def integer? : Json → Option Int
  | .integer n => some n
  | _ => none

def array? : Json → Option (List Json)
  | .array items => some items
  | _ => none

/-- An integer between zero and `limit`, `limit` excluded. -/
def natBelow? (limit : Nat) : Json → Option Nat
  | .integer n => if 0 ≤ n ∧ n < limit then some n.toNat else none
  | _ => none

end Json

end Cellbook
