import Cellbook.Json.Reader
import Cellbook.Json.Record
import Cellbook.Notebook.Basic

/-!
# Requests

A request holds the cells of a notebook, and is written in JSON. The number of a cell is a natural
below 2 ^ 64 and must be there; everything else may be left out. Cells may be nested, but the lists
and records of a request that is read from text are no more than 127 deep.
-/

namespace Cellbook

/-- **A request.** -/
structure Request where
  body : List CellSource

/-- The numbers that cells may have are below this one. -/
def idLimit : Nat := Nat.pow 2 64

/-- How deep the lists and records of a request that is read from text may be. -/
def nestingLimit : Nat := 127

/-- The cell that a value describes, its lists and records no more than `depth` deep. -/
def CellSource.ofJson? : (depth : Nat) → Json → Option CellSource
  | 0, _ => none
  | depth + 1, v => do
    let fields ← v.record? ["id", "name", "input", "body", "params"]
    let id ← (← fields.lookup "id").natBelow? idLimit
    let name ← Json.fieldOr fields "name" none Json.nullableString?
    let input ← Json.fieldOr fields "input" "" Json.string?
    let body ← Json.fieldOr fields "body" [] fun items =>
      match depth with
      | 0 => none
      | depth + 1 => Json.listOf? (ofJson? depth) items
    let params ← Json.fieldOr fields "params" [] fun items =>
      if depth = 0 then none else Json.listOf? Json.string? items
    return { id, name, input, body, params }

namespace Request

/-- The request that a value describes, its lists and records no more than `depth` deep. -/
def ofJson? : (depth : Nat) → Json → Option Request
  | 0, _ => none
  | depth + 1, v => do
    let fields ← v.record? ["body"]
    let body ← Json.fieldOr fields "body" [] fun items =>
      match depth with
      | 0 => none
      | depth + 1 => Json.listOf? (CellSource.ofJson? depth) items
    return { body }

/-- The request that a text describes. -/
def read (text : String) : Option Request := (Json.read text).bind (ofJson? nestingLimit)

/-- The notebook of a request. -/
def notebook (r : Request) : Notebook := .build .standard r.body

end Request

end Cellbook
