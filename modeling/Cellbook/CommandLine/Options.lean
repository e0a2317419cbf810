import Cellbook.Settings

/-!
# Command line options

What the words of a command line ask for. Words are read from left to right, and the first one that
cannot be read, or that asks for the version or for help, decides. An option stands alone or with its
value, which is the next word or follows an equals sign, and no option may be given twice. A word `--`
ends the options.
-/

namespace Cellbook.CommandLine

/-- What is written for a request. -/
inductive Emission where
  /-- The response. -/
  | results
  | script
  /-- The listing of the program. -/
  | listing
deriving DecidableEq, Repr

/-- What a command line asks for; what is not given is none. -/
structure Options where
  /-- The file with the request; without it the request is read from standard input. -/
  input : Option String := none
  emission : Option Emission := none
  precision : Option Nat := none
  maxStreamLength : Option Nat := none
  /-- Whether every line of the input is a request. -/
  lines : Bool := false
  /-- Whether responses are written over several lines. -/
  pretty : Bool := false
deriving DecidableEq, Repr

/-- What to do for a command line. -/
inductive Command where
  | run (options : Options)
  | version
  | help
  /-- The command line cannot be read. -/
  | refuse
deriving DecidableEq, Repr

namespace Options

/-- The settings that options ask for. -/
def settings (o : Options) : Settings :=
  let default : Settings := {}
  ⟨o.precision.getD default.precision, o.maxStreamLength.getD default.maxStreamLength⟩

end Options

/-! ## Values of options -/

/-- The number that decimal digits write, of which there must be one at least. -/
def digits? (cs : List Char) : Option Nat :=
  if cs.isEmpty || !cs.all (fun c => '0' ≤ c && c ≤ '9') then none
  else some (cs.foldl (fun n c => 10 * n + (c.toNat - '0'.toNat)) 0)

/-- A natural number between two bounds; a plus sign may stand in front. -/
def natural? (least greatest : Nat) (word : List Char) : Option Nat :=
  let unsigned :=
    match word with
    | '+' :: rest => rest
    | word => word
  (digits? unsigned).filter fun n => least ≤ n && n ≤ greatest

def emission? (word : List Char) : Option Emission :=
  if word = "eval".toList then some .results
  else if word = "js".toList then some .script
  else if word = "tree".toList then some .listing
  else none

/-- The greatest number of digits that may be asked for. -/
def greatestPrecision : Nat := Nat.pow 2 32 - 1

/-- The greatest length of a stream that may be asked for. -/
def greatestLength : Nat := Nat.pow 2 64 - 1

/-! ## Words -/

/-- The options that have a value. -/
inductive Setting where
  | emit | precision | maxStreamLength
deriving DecidableEq, Repr

def setting? (name : List Char) : Option Setting :=
  if name = "emit".toList then some .emit
  else if name = "precision".toList then some .precision
  else if name = "max-stream-len".toList then some .maxStreamLength
  else none

/-- The options with one more setting, if it can be read and is not there. -/
def Options.set (o : Options) (s : Setting) (value : List Char) : Option Options :=
  match s with
  | .emit => do
    let e ← emission? value
    if o.emission.isSome then none else some { o with emission := some e }
  | .precision => do
    let n ← natural? 1 greatestPrecision value
    if o.precision.isSome then none else some { o with precision := some n }
  | .maxStreamLength => do
    let n ← natural? 0 greatestLength value
    if o.maxStreamLength.isSome then none else some { o with maxStreamLength := some n }

/-- The options with the input file, if it has a name and there is none so far. -/
def Options.setInput (o : Options) (name : String) : Option Options :=
  if name.isEmpty || o.input.isSome then none else some { o with input := some name }

/-- Whether a word can be no value of an option, since it is an option itself. -/
def isOption : List Char → Bool
  | '-' :: _ :: _ => true
  | _ => false

/-- The words behind the end of the options. -/
def readInputs (o : Options) : List String → Command
  | [] => .run o
  | word :: words =>
    match o.setInput word with
    | some o => readInputs o words
    | none => .refuse

/-- Reads words from left to right. -/
def readWords (o : Options) : List String → Command
  | [] => .run o
  | word :: words =>
    match word.toList with
    | ['-', '-'] => readInputs o words
    | '-' :: '-' :: option =>
      let name := option.takeWhile (· ≠ '=')
      match option.dropWhile (· ≠ '=') with
      | _ :: value =>
        match (setting? name).bind (o.set · value) with
        | some o => readWords o words
        | none => .refuse
      | [] =>
        match setting? name with
        | some s =>
          match words with
          | value :: words =>
            if isOption value.toList then .refuse
            else
              match o.set s value.toList with
              | some o => readWords o words
              | none => .refuse
          | [] => .refuse
        | none =>
          if name = "lines".toList then
            if o.lines then .refuse else readWords { o with lines := true } words
          else if name = "pretty".toList then
            if o.pretty then .refuse else readWords { o with pretty := true } words
          else if name = "version".toList then .version
          else if name = "help".toList then .help
          else .refuse
    | '-' :: 'V' :: _ => .version
    | '-' :: 'h' :: _ => .help
    | '-' :: _ :: _ => .refuse
    | _ =>
      match o.setInput word with
      | some o => readWords o words
      | none => .refuse

/-- **What a command line asks for.** -/
def Command.ofWords (words : List String) : Command := readWords {} words

end Cellbook.CommandLine
