import Cellbook.Source.Token.Lexeme
import Cellbook.Text.Blank

/-!
# From source text to tokens

A scanner stands at a place in the source and keeps the levels of indentation of the blocks that are
open, the innermost first, and the number of open brackets. Line breaks and indentation count only
outside brackets. Lines without anything on them are passed over.

Every step takes at least one character, so there are no more steps than characters.
-/

namespace Cellbook

/-- Where a scanner stands and what it has found, the last token first. -/
structure Scanner where
  rest : List Char
  position : Nat
  tokens : List Token
  indents : List Nat
  depth : Nat

namespace Scanner

/-- The width of a tab reaches to the next multiple of four. -/
def tabStop (width : Nat) : Nat := width + (4 - width % 4)

/-- Passes over blank lines and the indentation of the next one: the width of that indentation, the
number of characters passed over, and what follows. -/
def skipIndentation (width passed : Nat) : List Char → Nat × Nat × List Char
  | [] => (width, passed, [])
  | c :: rest =>
    if c = ' ' then skipIndentation (width + 1) (passed + 1) rest
    else if c = '\t' then skipIndentation (tabStop width) (passed + 1) rest
    else if c = '\n' ∨ c = '\r' then skipIndentation 0 (passed + 1) rest
    else (width, passed, c :: rest)

/-- Adds layout tokens, which take no characters. -/
def addLayout (s : Scanner) (kinds : List TokenKind) : Scanner :=
  let token (kind : TokenKind) : Token :=
    ⟨if kind = .newline then "\n" else "", kind, ⟨s.position, s.position⟩⟩
  { s with tokens := (kinds.map token).reverse ++ s.tokens }

/-- Opens or closes blocks for a line of that indentation. The first line of all sets the level of
the source and opens nothing. -/
def layOut (s : Scanner) (width : Nat) : Except SourceFault Scanner :=
  match s.indents with
  | [] => .ok { s with indents := [width] }
  | top :: _ =>
    if top < width then .ok ({ s with indents := width :: s.indents }.addLayout [.indent])
    else
      let closed := s.indents.takeWhile (width < ·)
      let left := s.indents.dropWhile (width < ·)
      if left.head? = some width then
        .ok ({ s with indents := left }.addLayout
          (List.replicate closed.length TokenKind.dedent ++ [TokenKind.newline]))
      else .error ⟨.invalidIndentation, s.position⟩

/-- Starts a line: nothing happens if no more text follows. -/
def startLine (s : Scanner) : Except SourceFault Scanner :=
  let (width, passed, rest) := skipIndentation 0 0 s.rest
  let s := { s with rest, position := s.position + passed }
  if rest.isEmpty then .ok s else s.layOut width

/-- Passes over characters. -/
def skip (s : Scanner) (n : Nat) : Scanner :=
  { s with rest := s.rest.drop n, position := s.position + n }

/-- The number of open brackets after a character at the head of a token. -/
def depthAfter (depth : Nat) (c : Char) : Nat :=
  if c = '(' ∨ c = '[' ∨ c = '{' then depth + 1
  else if c = ')' ∨ c = ']' ∨ c = '}' then depth - 1
  else depth

/-- Takes a token off the source, which begins with `c`. -/
def take (s : Scanner) (c : Char) (l : Lexeme) : Scanner :=
  let token : Token :=
    ⟨String.ofList l.text, l.kind, ⟨s.position, s.position + l.length⟩⟩
  { s.skip l.length with tokens := token :: s.tokens, depth := depthAfter s.depth c }

/-- Whether the last token ends an operand. -/
def afterOperand (s : Scanner) : Bool := s.tokens.head?.any (·.endsOperand)

/-- One step, at the character `c` with `cs` behind it. -/
def step (g : Grammar) (s : Scanner) (c : Char) (cs : List Char) : Except SourceFault Scanner :=
  if c = '\n' ∨ c = '\r' then
    if s.depth = 0 then (s.skip 1).startLine else .ok (s.skip 1)
  else if Text.isBlank c then .ok (s.skip 1)
  else do return s.take c (← Lexeme.next g s.afterOperand c cs s.position)

/-- Steps to the end of the source, but at most `steps` times. -/
def run (g : Grammar) : (steps : Nat) → Scanner → Except SourceFault Scanner
  | 0, s => .ok s
  | steps + 1, s =>
    match s.rest with
    | [] => .ok s
    | c :: cs => do run g steps (← s.step g c cs)

/-- Closes the blocks that are still open. -/
def close (s : Scanner) : Scanner := s.addLayout (List.replicate (s.indents.length - 1) .dedent)

end Scanner

/-- **The tokens of a source text.** -/
def Token.scan (g : Grammar) (source : String) : Except SourceFault (List Token) := do
  let cs := source.toList
  let s ← (Scanner.mk cs 0 [] [] 0).startLine
  return (← s.run g cs.length).close.tokens.reverse

end Cellbook
