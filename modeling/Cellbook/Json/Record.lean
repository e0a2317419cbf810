import Cellbook.Json.Basic

/-!
# Records in JSON

A record is written as an object of its fields, or as an array of them in a fixed order that may break
off early. In an object no field of the record may stand twice; other fields are ignored.
-/

namespace Cellbook.Json

/-- The fields that a value gives to a record whose fields are `names`. -/
def record? (names : List String) : Json → Option (List (String × Json))
  | .object fields =>
    if names.any fun name => 1 < fields.countP (·.1 == name) then none else some fields
  | .array items => if items.length ≤ names.length then some (names.zip items) else none
  | _ => none

/-- A text that may be null. -/
def nullableString? : Json → Option (Option String)
  | .null => some none
  | .string s => some (some s)
  | _ => none

/-- What `decode` makes of a field, or `default` if the field is not there. -/
def fieldOr {α : Type} (fields : List (String × Json)) (name : String) (default : α)
    (decode : Json → Option α) : Option α :=
  match fields.lookup name with
  | none => some default
  | some v => decode v

/-- What `decode` makes of the items of an array. -/
def listOf? {α : Type} (decode : Json → Option α) : Json → Option (List α)
  | .array items => items.mapM decode
  | _ => none

end Cellbook.Json
