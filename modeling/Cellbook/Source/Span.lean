/-!
# Spans

Stretches of source text, counted in characters.
-/

namespace Cellbook

/-- The characters from `start` up to, but without, `stop`. -/
structure Span where
  start : Nat
  stop : Nat
deriving DecidableEq, Repr

/-- The smallest span that covers both. -/
def Span.join (a b : Span) : Span := ⟨min a.start b.start, max a.stop b.stop⟩

/-- The characters of a text in a span; what lies beyond its end is left out. -/
def Span.slice (s : Span) (cs : List Char) : List Char := (cs.take s.stop).drop s.start

end Cellbook
