import Cellbook.Json.Basic

/-!
# Writing JSON

The text of a JSON value, either in one line without blanks or with one item a line and two blanks
for each level. A quotation mark, a backslash and the control characters below the space are
escaped, nothing else is; so neither form has a line break inside a string.
-/

namespace Cellbook.Json

/-- A hexadecimal digit in lower case. -/
def hexDigit (n : Nat) : Char := Nat.digitChar (n % 16)

/-- The characters that stand for `c` inside a string. -/
def escapeChar (c : Char) : List Char :=
  match c with
  | '"' => ['\\', '"']
  | '\\' => ['\\', '\\']
  | '\x08' => ['\\', 'b']
  | '\x0c' => ['\\', 'f']
  | '\n' => ['\\', 'n']
  | '\r' => ['\\', 'r']
  | '\t' => ['\\', 't']
  | c =>
    if c.toNat < 0x20 then ['\\', 'u', '0', '0', hexDigit (c.toNat / 16), hexDigit c.toNat] else [c]

/-- A string in quotation marks. -/
def quote (s : String) : List Char := '"' :: s.toList.flatMap escapeChar ++ ['"']

/-- The text of a string in quotation marks. -/
def quoted (s : String) : String := String.ofList (quote s)

mutual

/-- The value in one line. -/
def writeChars : Json → List Char
  | .null => "null".toList
  | .boolean b => (if b then "true" else "false").toList
  | .integer n => (toString n).toList
  | .inexact => "0.0".toList
  | .string s => quote s
  | .unreadable => "\"\"".toList
  | .array items => '[' :: writeItems items
  | .object fields => '{' :: writeFields fields

/-- The items of an array and its closing bracket. -/
def writeItems : List Json → List Char
  | [] => [']']
  | [v] => writeChars v ++ [']']
  | v :: vs => writeChars v ++ ',' :: writeItems vs

/-- The fields of an object and its closing brace. -/
def writeFields : List (String × Json) → List Char
  | [] => ['}']
  | [(k, v)] => quote k ++ ':' :: writeChars v ++ ['}']
  | (k, v) :: rest => quote k ++ ':' :: writeChars v ++ ',' :: writeFields rest

end

/-- A new line at a level of nesting. -/
def newLine (level : Nat) : List Char := '\n' :: List.replicate (2 * level) ' '

mutual

/-- The value over several lines; an empty array or object stays on its line. -/
def layoutChars (level : Nat) : Json → List Char
  | .array [] => ['[', ']']
  | .object [] => ['{', '}']
  | .array items => '[' :: layoutItems (level + 1) items
  | .object fields => '{' :: layoutFields (level + 1) fields
  | .null => "null".toList
  | .boolean b => (if b then "true" else "false").toList
  | .integer n => (toString n).toList
  | .inexact => "0.0".toList
  | .string s => quote s
  | .unreadable => "\"\"".toList

/-- The items of an array, each on a line of its own, and its closing bracket a level back. -/
def layoutItems (level : Nat) : List Json → List Char
  | [] => [']']
  | [v] => newLine level ++ layoutChars level v ++ newLine (level - 1) ++ [']']
  | v :: vs => newLine level ++ layoutChars level v ++ ',' :: layoutItems level vs

/-- The fields of an object, each on a line of its own, and its closing brace a level back. -/
def layoutFields (level : Nat) : List (String × Json) → List Char
  | [] => ['}']
  | [(k, v)] =>
    newLine level ++ quote k ++ ':' :: ' ' :: layoutChars level v ++ newLine (level - 1) ++ ['}']
  | (k, v) :: rest =>
    newLine level ++ quote k ++ ':' :: ' ' :: layoutChars level v ++ ',' :: layoutFields level rest

end

/-- The text of a value in one line. -/
def write (v : Json) : String := String.ofList (writeChars v)

/-- The text of a value over several lines. -/
def layout (v : Json) : String := String.ofList (layoutChars 0 v)

end Cellbook.Json
