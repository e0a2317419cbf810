import Cellbook.CommandLine.Answer

/-!
# The program

Reads the command line and the input, and writes the answers. The exit code is 2 for a command line
that cannot be read and 1 for a run that failed.
-/

open Cellbook.CommandLine

/-- The input that options name. -/
def readInput (o : Options) : IO String := do
  match o.input with
  | some path => IO.FS.readFile path
  | none => (← IO.getStdin).readToEnd

/-- What is said of a line that is no request. -/
def reason (_ : String) : String := "the line is no request"

def main (args : List String) : IO UInt32 := do
  match Command.ofWords args with
  | .refuse => return 2
  | .version => do
    IO.println versionText
    return 0
  | .help => do
    IO.println helpText
    return 0
  | .run o =>
    try
      let (texts, failure) := answers reason o (← readInput o)
      for text in texts do
        IO.println text
      return if failure.isSome then 1 else 0
    catch _ => return 1
