import Cellbook.Text.Visible

/-!
# Quoted text

The form of a text inside a stream or an object: quotation marks around it, six characters escaped
by a letter, a digit or themselves, and every other one that does not show as itself written by its
code point, `\u{301}`.
-/

namespace Cellbook.Text

/-- The characters that stand for `c` in a quoted text. -/
def quoteChar (c : Char) : List Char :=
  match c with
  | '"' => ['\\', '"']
  | '\\' => ['\\', '\\']
  | '\n' => ['\\', 'n']
  | '\r' => ['\\', 'r']
  | '\t' => ['\\', 't']
  | '\x00' => ['\\', '0']
  | c => if isVisible c then [c] else ['\\', 'u', '{'] ++ Nat.toDigits 16 c.toNat ++ ['}']

/-- The characters of a text in quotation marks. -/
def quote (cs : List Char) : List Char := '"' :: cs.flatMap quoteChar ++ ['"']

/-- A text in quotation marks. -/
def quoted (s : String) : String := String.ofList (quote s.toList)

end Cellbook.Text
