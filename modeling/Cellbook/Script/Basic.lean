import Cellbook.Emission.OfNotebook
import Cellbook.Json.Writer
import Cellbook.Text.Lines

/-!
# Scripts

The JavaScript text of a notebook, for a host that provides the built-in functions and an object
`ctx` with `get(id)`, `set(id, value)` and `setError(id, message)`.

Variables are `u_0`, `u_1`, .., a parameter `x` is `p_x`, a text is quoted as in JSON, and a function
is an arrow function. Every cell runs in a `try` block of its own, so that its failure is recorded
and the next cell runs.
-/

namespace Cellbook

namespace Script

/-- The margin of what stands inside braces. -/
def margin : List Char := List.replicate 4 ' '

/-- Codes with commas between them. -/
def commas : List (List Char) → List Char
  | [] => []
  | [c] => c
  | c :: cs => c ++ ',' :: ' ' :: commas cs

/-- The characters of a variable. -/
def var (n : Nat) : List Char := "u_".toList ++ (toString n).toList

/-- The characters of a parameter. -/
def param (name : String) : List Char := "p_".toList ++ name.toList

def literal : Scalar → List Char
  | .none => "null".toList
  | .boolean b => (if b then "true" else "false").toList
  | .number x => x.toChars
  | .text s => Json.quote s

/-- A call of a built-in function. -/
def call (builtin : Builtin) (args : List (List Char)) : List Char :=
  builtin.name.toList ++ '(' :: commas args ++ [')']

/-- Statements inside braces. A code that takes several lines moves to the right as a whole. -/
def body (statements : List (Nat × List Char)) : List Char :=
  statements.flatMap fun (n, code) =>
    Text.indent margin ("var ".toList ++ var n ++ " = ".toList ++ code ++ [';'])

/-- An arrow function. -/
def lambda (params : List String) (statements : List (Nat × List Char)) (result : List Char) :
    List Char :=
  '(' :: '(' :: commas (params.map param) ++ ") => ".toList ++ '{' :: '\n' :: body statements ++
    margin ++ "return ".toList ++ result ++ ";\n".toList ++ ['}', ')']

end Script

/-- The target whose code is text. -/
def Target.script : Target (List Char) where
  var := Script.var
  param := Script.param
  cell id := "ctx.get(".toList ++ (toString id).toList ++ [')']
  literal := Script.literal
  array items := '[' :: Script.commas items ++ [']']
  call := Script.call
  member object attr := Script.call .attr [object, Json.quote attr]
  lambda := Script.lambda

namespace Script

/-- The text that runs a cell. -/
def runText (id : Nat) (statements : List (Nat × List Char)) (result : List Char) : List Char :=
  let id := (toString id).toList
  "try ".toList ++ '{' :: '\n' :: body statements ++
    margin ++ "ctx.set(".toList ++ id ++ ", ".toList ++ result ++ ");\n".toList ++
    '}' :: " catch (err) ".toList ++ '{' :: '\n' ::
    margin ++ "ctx.setError(".toList ++ id ++ ", err.message);\n".toList ++ ['}']

/-- The text that records a fault. -/
def reportText (id : Nat) (d : Diagnostic) : List Char :=
  "ctx.setError(".toList ++ (toString id).toList ++ ", ".toList ++ Json.quote d.toText ++
    ");".toList

/-- The text of a cell: a comment with its label, and what runs it. -/
def cellText (c : EmittedCell (List Char)) : List Char :=
  "// ".toList ++ c.label.toList ++ '\n' ::
    match c.task with
    | .report d => reportText c.id d
    | .run statements result => runText c.id statements result

end Script

/-- **The script of a notebook**: the texts of its cells, each with a line feed behind it. A notebook
without cells makes one empty line. -/
def Notebook.script (nb : Notebook) : String :=
  match nb.emit .script with
  | [] => "\n"
  | cells => String.ofList (cells.flatMap fun c => Script.cellText c ++ ['\n'])

end Cellbook
