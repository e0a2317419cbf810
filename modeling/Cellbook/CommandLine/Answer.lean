import Cellbook.Code.Listing
import Cellbook.CommandLine.Options
import Cellbook.Response
import Cellbook.Text.Blank
import Cellbook.Text.Lines

/-!
# Answers of the command line

What is written for the input of a command line: the answer to the one request that the input is, or,
line by line, the answer to each request. A line that is no request is answered with an error, in which
the reader of the line says why it is none. How that is worded is up to the reader, so it is a parameter:
`message` is what is said of a line.
-/

namespace Cellbook.CommandLine

/-- How deep function calls may be nested. -/
def callDepth : Nat := 50000

/-- Why there is no answer. -/
inductive Failure where
  | invalidRequest
  /-- Calls are nested deeper than `callDepth`. -/
  | tooDeep
deriving DecidableEq, Repr

/-- The answer to a request. -/
def answerRequest (o : Options) (r : Request) : Except Failure String :=
  match o.emission.getD .results with
  | .script => .ok r.script
  | .listing => .ok r.program.listing
  | .results =>
    match r.evaluate callDepth o.settings with
    | none => .error .tooDeep
    | some response => .ok (if o.pretty then response.toJson.layout else response.toJson.write)

/-- The answer to the text of a request, without the blanks at its end. -/
def answer (o : Options) (text : String) : Except Failure String :=
  match Request.read text with
  | none => .error .invalidRequest
  | some r => (answerRequest o r).map fun s => String.ofList (Text.trimEnd s.toList)

/-- The answer to a line that is no request. -/
def invalidLine (message : String → String) (line : String) : String :=
  (Json.object [("error", .string ("invalid request: " ++ message line))]).write

/-- The answer to a line. -/
def answerLine (message : String → String) (o : Options) (line : String) : Except Failure String :=
  match answer o line with
  | .error .invalidRequest => .ok (invalidLine message line)
  | answered => answered

/-- The lines of an input that are not blank, without the blanks at their ends. -/
def requestLines (input : String) : List String :=
  ((Text.lines input.toList).map Text.trim).filterMap fun line =>
    if line.isEmpty then none else some (String.ofList line)

/-- The answers to lines, one after the other, up to the first that fails, and that failure. -/
def answerLines (message : String → String) (o : Options) : List String → List String × Option Failure
  | [] => ([], none)
  | line :: lines =>
    match answerLine message o line with
    | .error failure => ([], some failure)
    | .ok text =>
      let (texts, failure) := answerLines message o lines
      (text :: texts, failure)

/-- **What is written for an input**: texts, each with a line feed behind it, and the failure that
ended the run, if any did. -/
def answers (message : String → String) (o : Options) (input : String) : List String × Option Failure :=
  if o.lines then answerLines message o (requestLines input)
  else
    match answer o input with
    | .ok text => ([text], none)
    | .error failure => ([], some failure)

/-- What is written about the program itself. -/
def versionText : String := "arevel 0.1.0"

def helpText : String :=
  "Evaluate or compile Arevel cells.\n\n" ++
  "Usage: arevel [--emit eval|js|tree] [--precision N] [--max-stream-len N] [--lines] " ++
  "[--pretty] [INPUT]"

end Cellbook.CommandLine
