import Cellbook.Json.Basic
import Cellbook.Text.Digit

/-!
# Reading JSON

A strict reader: the four blanks of JSON around every token, no comma too many, no control character
inside a string, no zero before a digit, and nothing after the value. The recursion is bounded by
the length of the text, since every nested call has at least one character less to read.
-/

namespace Cellbook.Json

open Text (isDigit digitsValue)

/-- The characters without the blanks in front. -/
def skipBlanks (cs : List Char) : List Char :=
  cs.dropWhile fun c => c == ' ' || c == '\t' || c == '\n' || c == '\r'

/-! ## Strings -/

def hexValue? (c : Char) : Option Nat :=
  if '0' ≤ c ∧ c ≤ '9' then some (c.toNat - 48)
  else if 'a' ≤ c ∧ c ≤ 'f' then some (c.toNat - 87)
  else if 'A' ≤ c ∧ c ≤ 'F' then some (c.toNat - 55)
  else none

/-- The number that four hexadecimal digits write. -/
def hexUnit? (a b c d : Char) : Option Nat := do
  return (((← hexValue? a) * 16 + (← hexValue? b)) * 16 + (← hexValue? c)) * 16 + (← hexValue? d)

def isHighSurrogate (n : Nat) : Bool := 0xD800 ≤ n && n < 0xDC00

def isLowSurrogate (n : Nat) : Bool := 0xDC00 ≤ n && n < 0xE000

/-- The character that an escape of one letter stands for. -/
def shortEscape? : Char → Option Char
  | '"' => some '"'
  | '\\' => some '\\'
  | '/' => some '/'
  | 'b' => some '\x08'
  | 'f' => some '\x0c'
  | 'n' => some '\n'
  | 'r' => some '\r'
  | 't' => some '\t'
  | _ => none

/-- The code units of a string up to its closing quotation mark, and what follows. -/
def readUnits : List Char → Option (List Nat × List Char)
  | '"' :: rest => some ([], rest)
  | '\\' :: 'u' :: a :: b :: c :: d :: rest => do
    let n ← hexUnit? a b c d
    return (← readUnits rest).map (n :: ·) id
  | '\\' :: c :: rest => do
    let c ← shortEscape? c
    return (← readUnits rest).map (c.toNat :: ·) id
  | c :: rest => do
    if c.toNat < 0x20 || c == '\\' then none
    return (← readUnits rest).map (c.toNat :: ·) id
  | [] => none

/-- The characters that code units stand for: a high surrogate joins the low one after it, and none
stands alone. -/
def joinUnits : List Nat → Option (List Char)
  | [] => some []
  | n :: rest =>
    if isHighSurrogate n then
      match rest with
      | m :: rest =>
        if isLowSurrogate m then
          (joinUnits rest).map (Char.ofNat (0x10000 + (n - 0xD800) * 0x400 + (m - 0xDC00)) :: ·)
        else none
      | [] => none
    else if isLowSurrogate n then none
    else (joinUnits rest).map (Char.ofNat n :: ·)

/-- The text of a string after its opening quotation mark, none if it is unreadable, and what
follows. -/
def readString (cs : List Char) : Option (Option String × List Char) :=
  (readUnits cs).map fun (units, rest) => ((joinUnits units).map String.ofList, rest)

/-! ## Numbers -/

/-- One digit or more, and what follows. -/
def readDigits (cs : List Char) : Option (List Char × List Char) :=
  if (cs.takeWhile isDigit).isEmpty then none
  else some (cs.takeWhile isDigit, cs.dropWhile isDigit)

/-- A fraction, if there is one: whether there is, and what follows. -/
def readFraction : List Char → Option (Bool × List Char)
  | '.' :: rest => (readDigits rest).map fun (_, r) => (true, r)
  | cs => some (false, cs)

/-- An exponent, if there is one: whether there is, and what follows. -/
def readExponent : List Char → Option (Bool × List Char)
  | c :: rest =>
    if c == 'e' || c == 'E' then
      let unsigned := match rest with
        | '+' :: r => r
        | '-' :: r => r
        | r => r
      (readDigits unsigned).map fun (_, r) => (true, r)
    else some (false, c :: rest)
  | [] => some (false, [])

/-- A number, its sign apart. -/
def readNumber (negative : Bool) (cs : List Char) : Option (Json × List Char) := do
  let (ds, rest) ← readDigits cs
  if ds.length ≠ 1 && ds.head? == some '0' then none
  let (fraction, rest) ← readFraction rest
  let (exponent, rest) ← readExponent rest
  let n := digitsValue ds
  if fraction || exponent || (negative && n == 0) then return (.inexact, rest)
  return (.integer (if negative then -n else n), rest)

/-! ## Values -/

/-- A string as a value. -/
def ofString? : Option String → Json
  | some s => .string s
  | none => .unreadable

/-- Fields as a value; a field without a readable name makes the object unreadable. -/
def ofFields? (fields : List (Option String × Json)) : Json :=
  match fields.mapM fun (name, v) => name.map (·, v) with
  | some fields => .object fields
  | none => .unreadable

mutual

/-- A value and what follows it. -/
def readValue : Nat → List Char → Option (Json × List Char)
  | 0, _ => none
  | fuel + 1, cs =>
    match skipBlanks cs with
    | 'n' :: 'u' :: 'l' :: 'l' :: rest => some (.null, rest)
    | 't' :: 'r' :: 'u' :: 'e' :: rest => some (.boolean true, rest)
    | 'f' :: 'a' :: 'l' :: 's' :: 'e' :: rest => some (.boolean false, rest)
    | '"' :: rest => (readString rest).map fun (s, r) => (ofString? s, r)
    | '[' :: rest =>
      match skipBlanks rest with
      | ']' :: rest => some (.array [], rest)
      | rest => (readItems fuel rest).map fun (vs, r) => (.array vs, r)
    | '{' :: rest =>
      match skipBlanks rest with
      | '}' :: rest => some (.object [], rest)
      | rest => (readFields fuel rest).map fun (fs, r) => (ofFields? fs, r)
    | '-' :: rest => readNumber true rest
    | rest => readNumber false rest

/-- One item or more, and the closing bracket. -/
def readItems : Nat → List Char → Option (List Json × List Char)
  | 0, _ => none
  | fuel + 1, cs => do
    let (v, rest) ← readValue fuel cs
    match skipBlanks rest with
    | ',' :: rest => return (← readItems fuel rest).map (v :: ·) id
    | ']' :: rest => return ([v], rest)
    | _ => none

/-- One field or more, and the closing brace. -/
def readFields : Nat → List Char → Option (List (Option String × Json) × List Char)
  | 0, _ => none
  | fuel + 1, cs => do
    let '"' :: rest := skipBlanks cs | none
    let (name, rest) ← readString rest
    let ':' :: rest := skipBlanks rest | none
    let (v, rest) ← readValue fuel rest
    match skipBlanks rest with
    | ',' :: rest => return (← readFields fuel rest).map ((name, v) :: ·) id
    | '}' :: rest => return ([(name, v)], rest)
    | _ => none

end

/-- The value that a text writes, if it writes one and no more. -/
def read (text : String) : Option Json := do
  let cs := text.toList
  let (v, rest) ← readValue (cs.length + 1) cs
  if (skipBlanks rest).isEmpty then some v else none

end Cellbook.Json
