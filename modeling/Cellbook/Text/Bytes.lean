/-!
# The bytes of a text

A text is kept as bytes, of which a character takes one to four. Its parts are cut out between byte indices.
-/

namespace Cellbook

namespace Text

/-- The byte indices of characters of which the first one is at `start`, and that of their end. -/
def byteIndices (start : Nat) : List Char → List Nat
  | [] => [start]
  | c :: cs => start :: byteIndices (start + c.utf8Size) cs

/-- The byte index of a character of a text; what lies beyond the end is at the end. -/
def byteIndex (s : String) (i : Nat) : Nat := (byteIndices 0 s.toList)[i]?.getD s.utf8ByteSize

/-- The part of a text between two byte indices, unless they cut a character in two. -/
def between? (s : String) (start stop : Nat) : Option String := String.fromUTF8? (s.toUTF8.extract start stop)

end Text

end Cellbook
