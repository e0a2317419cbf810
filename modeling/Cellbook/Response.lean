import Cellbook.Emission.Tree
import Cellbook.Json.Writer
import Cellbook.Machine.Basic
import Cellbook.Request
import Cellbook.Script.Basic

/-!
# Responses

What a request is answered with: the outcome of each cell, the order in which the cells were
evaluated, and the cells that could not be because of cycles. A response is written in JSON.
-/

namespace Cellbook

/-- **A response.** -/
structure Response where
  results : List Outcome
  evalOrder : List Nat
  cyclicCells : List Nat

/-- **Answers a request**, unless calls are nested deeper than `depth` in some cell. -/
def Request.evaluate (r : Request) (depth : Nat) (settings : Settings) : Option Response :=
  let nb := r.notebook
  (nb.program.run depth settings).map fun results => ⟨results, nb.evalOrder, nb.cyclicCells⟩

/-- The script of a request. -/
def Request.script (r : Request) : String := r.notebook.script

/-- The program of a request. -/
def Request.program (r : Request) : Program Closure := r.notebook.program

namespace Value

variable {φ : Type}

/-- A value with the name of its kind. -/
def tagged (kind : Kind) (v : Json) : Json :=
  .object [("type", .string kind.name), ("value", v)]

mutual

/-- A value in JSON. The fields of an object are named by the texts of its keys; its methods are left
out. -/
def toJson : Value φ → Json
  | .none => .object [("type", .string "none")]
  | .boolean b => tagged .boolean (.boolean b)
  | .number x => tagged .number (.string x.toText)
  | .text s => tagged .text (.string s)
  | .stream items => tagged .stream (.array (itemsToJson items))
  | .object entries _ => tagged .object (.object (entriesToJson entries))
  | .function f => tagged .function (.string f.toText)

def itemsToJson : List (Value φ) → List Json
  | [] => []
  | v :: vs => toJson v :: itemsToJson vs

def entriesToJson : List (Value φ × Value φ) → List (String × Json)
  | [] => []
  | (k, v) :: es => (k.toText, toJson v) :: entriesToJson es

end

end Value

/-- A diagnostic in JSON; notes are left out if there are none. -/
def Diagnostic.toJson : Diagnostic → Json
  | .source code message index =>
    .object [("kind", .string "SyntaxError"), ("code", .string code), ("message", .string message),
      ("index", .integer index)]
  | .evaluation code message notes =>
    .object <| [("kind", .string "RuntimeError"), ("code", .string code),
        ("message", .string message)] ++
      if notes.isEmpty then [] else [("notes", .array (notes.map .string))]

/-- An outcome in JSON: either the output or the error is null. -/
def Outcome.toJson (o : Outcome) : Json :=
  let (output, error) :=
    match o.result with
    | .ok v => (v.toJson, .null)
    | .error d => (.null, d.toJson)
  .object [("id", .integer o.id), ("output", output), ("error", error)]

/-- A response in JSON. -/
def Response.toJson (r : Response) : Json :=
  let numbers (ns : List Nat) : Json := .array (ns.map fun (n : Nat) => .integer n)
  .object [("results", .array (r.results.map (·.toJson))), ("eval_order", numbers r.evalOrder),
    ("cyclic_cells", numbers r.cyclicCells)]

end Cellbook
