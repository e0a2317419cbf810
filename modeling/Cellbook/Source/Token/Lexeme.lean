import Cellbook.Fault.Source
import Cellbook.Source.Grammar
import Cellbook.Source.Token
import Cellbook.Text.Lowercase

/-!
# Lexemes

How the next token is cut off the front of source text that begins with neither a blank nor a line
break. Everything here looks at the characters that follow and says how many of them belong to the
token; positions come in only to say where a fault is.

- A **number** has digits, a fraction with at least one digit, and an exponent. A dot before another
  dot is not its own. No letter may follow.
- A **text** stands in single or double quotation marks. Six escapes mean another character; after
  any other character the backslash stays.
- A **word** begins with a letter or an underscore. In lower case it may be a literal or an operator.
- A **mark** is one character, or two for `..` and `**`; some characters join to operators of any
  length.
-/

namespace Cellbook

open Text (isDigit)

/-- What is cut off: the number of characters, the kind of token, and how the token reads. -/
structure Lexeme where
  length : Nat
  kind : TokenKind
  text : List Char

namespace Lexeme

/-! ## Numbers -/

/-- What is wrong with the characters of a number: a fraction or exponent lacks its digits after so
many characters, or the whole is no number. -/
inductive NumberFlaw where
  | missingDigits (after : Nat)
  | notANumber

/-- The length of a fraction with its dot, after `before` characters. -/
def fractionLength (before : Nat) : List Char → Except NumberFlaw Nat
  | '.' :: rest =>
    if rest.head? = some '.' then .ok 0
    else
      match (rest.takeWhile isDigit).length with
      | 0 => .error (.missingDigits (before + 1))
      | n + 1 => .ok (n + 2)
  | _ => .ok 0

/-- The length of an exponent with its letter, after `before` characters. -/
def exponentLength (before : Nat) : List Char → Except NumberFlaw Nat
  | c :: rest =>
    if c = 'e' ∨ c = 'E' then
      let sign := match rest with
        | '+' :: _ | '-' :: _ => 1
        | _ => 0
      match ((rest.drop sign).takeWhile isDigit).length with
      | 0 => .error (.missingDigits (before + 1 + sign))
      | n + 1 => .ok (sign + n + 2)
    else .ok 0
  | [] => .ok 0

/-- Whether a character may stand in a word. -/
def isWordChar (c : Char) : Bool := Text.isAlphanumeric c || c == '_'

/-- The length of an unsigned number. -/
def numberLength (cs : List Char) : Except NumberFlaw Nat := do
  let whole := (cs.takeWhile isDigit).length
  let fraction ← fractionLength whole (cs.drop whole)
  if whole + fraction = 0 then throw .notANumber
  let mantissa := whole + fraction
  let exponent ← exponentLength mantissa (cs.drop mantissa)
  let length := mantissa + exponent
  if (cs.drop length).head?.any isWordChar then throw .notANumber
  return length

/-- A number with a sign of `sign` characters in front. -/
def number (sign : Nat) (cs : List Char) (start : Nat) : Except SourceFault Lexeme :=
  match numberLength (cs.drop sign) with
  | .error (.missingDigits after) => .error ⟨.invalidFloat, start + sign + after⟩
  | .error .notANumber => .error ⟨.invalidNumber, start⟩
  | .ok length =>
    let text := cs.take (sign + length)
    match Decimal.ofText (String.ofList text) with
    | .ok x => .ok ⟨sign + length, .literal (.number x), text⟩
    | .error _ => .error ⟨.invalidNumber, start⟩

/-! ## Texts -/

/-- The characters that an escape stands for. -/
def unescape : Char → List Char
  | '\\' => ['\\']
  | '\'' => ['\'']
  | '"' => ['"']
  | 'n' => ['\n']
  | 'r' => ['\r']
  | 't' => ['\t']
  | '0' => ['\x00']
  | c => ['\\', c]

/-- The value of a text up to the closing quotation mark, and the length with that mark. -/
def textBody? (mark : Char) : List Char → Option (List Char × Nat)
  | [] => none
  | ['\\'] => none
  | '\\' :: c :: rest => (textBody? mark rest).map fun (value, n) => (unescape c ++ value, n + 2)
  | c :: rest =>
    if c = mark then some ([], 1)
    else (textBody? mark rest).map fun (value, n) => (c :: value, n + 1)

/-- A text, the opening quotation mark first. -/
def quotedText (mark : Char) (cs : List Char) (start : Nat) : Except SourceFault Lexeme :=
  match textBody? mark (cs.drop 1) with
  | none => .error ⟨.unterminatedString, start⟩
  | some (value, n) =>
    .ok ⟨n + 1, .literal (.text (String.ofList value)), cs.take (n + 1)⟩

/-! ## Words and marks -/

/-- A word. Literals keep their spelling, operators read in lower case. -/
def word (g : Grammar) (cs : List Char) : Lexeme :=
  let text := cs.takeWhile isWordChar
  let lower := String.ofList (Text.toLower text)
  if lower = "true" then ⟨text.length, .literal (.boolean true), text⟩
  else if lower = "false" then ⟨text.length, .literal (.boolean false), text⟩
  else if lower = "none" then ⟨text.length, .literal .none, text⟩
  else if g.isOperator lower then ⟨text.length, .operator, lower.toList⟩
  else ⟨text.length, .identifier, text⟩

/-- The first `length` characters as a mark. -/
def mark (g : Grammar) (length : Nat) (cs : List Char) : Lexeme :=
  let text := cs.take length
  ⟨length, if g.isOperator (String.ofList text) then .operator else .delimiter, text⟩

/-- The characters that join to operators. -/
def isOperatorChar (c : Char) : Bool := "+<>=!&|^~?@#$".toList.contains c

/-- The characters that are marks by themselves. -/
def isMarkChar (c : Char) : Bool := "()[]\x7b\x7d,:;.*/%-".toList.contains c

/-- An operator of the characters that join. -/
def joined (g : Grammar) (cs : List Char) (start : Nat) : Except SourceFault Lexeme :=
  let text := cs.takeWhile isOperatorChar
  let spelling := String.ofList text
  if g.isOperator spelling then .ok ⟨text.length, .operator, text⟩
  else .error ⟨.unknownToken spelling, start⟩

/-- Whether an unsigned number begins here. -/
def startsNumber : List Char → Bool
  | '.' :: c :: _ => isDigit c
  | c :: _ => isDigit c
  | [] => false

/-- **The token at the front of source text**, which begins with `c`. A minus is the sign of a number
unless it stands after an operand. -/
def next (g : Grammar) (afterOperand : Bool) (c : Char) (cs : List Char) (start : Nat) :
    Except SourceFault Lexeme :=
  let source := c :: cs
  if c = '"' ∨ c = '\'' then quotedText c source start
  else if isDigit c then number 0 source start
  else if c = '.' then
    if cs.head? = some '.' then .ok (mark g 2 source)
    else if startsNumber source then number 0 source start
    else .ok (mark g 1 source)
  else if c = '-' then
    if !afterOperand && startsNumber cs then number 1 source start else .ok (mark g 1 source)
  else if c = '*' then .ok (mark g (if cs.head? = some '*' then 2 else 1) source)
  else if Text.isAlphabetic c || c == '_' then .ok (word g source)
  else if isOperatorChar c then joined g source start
  else if isMarkChar c then .ok (mark g 1 source)
  else .error ⟨.unknownToken (String.singleton c), start⟩

end Lexeme

end Cellbook
