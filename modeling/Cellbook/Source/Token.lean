import Cellbook.Scalar
import Cellbook.Source.Span

/-!
# Tokens

The words and marks of source text, and the three layout tokens that stand for its indentation: a
deeper line opens a block, a shallower one closes blocks, and a line that belongs to a block already
open begins with a separator.
-/

namespace Cellbook

/-- The kinds of tokens. A literal carries the value that it writes. -/
inductive TokenKind where
  | literal (v : Scalar)
  | delimiter
  | identifier
  | operator
  | indent
  | dedent
  | newline
deriving DecidableEq

/-- **A token**: what it reads, its kind, and where it stands. -/
structure Token where
  lexeme : String
  kind : TokenKind
  span : Span
deriving DecidableEq

namespace Token

/-- The text by which messages speak of a token. -/
def shown (t : Token) : String :=
  match t.kind with
  | .indent => "<indent>"
  | .dedent => "<dedent>"
  | .newline => "<newline>"
  | _ => t.lexeme

/-- Whether an expression may end with a token, so that a minus after it subtracts. -/
def endsOperand (t : Token) : Bool :=
  match t.kind with
  | .literal _ | .identifier => true
  | .delimiter => t.lexeme == ")" || t.lexeme == "]" || t.lexeme == "\x7d"
  | _ => false

end Token

end Cellbook
