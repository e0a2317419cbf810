/-!
# Lines

The lines of a text, and a text moved to the right line by line.
-/

namespace Cellbook.Text

/-- A line without the carriage return that may be at its end. -/
def dropReturn (line : List Char) : List Char :=
  if line.getLast? = some '\r' then line.dropLast else line

/-- The lines of a text that goes on behind `line`, the characters since the last line feed, the last
one first. -/
def linesFrom (line : List Char) : List Char → List (List Char)
  | [] => if line.isEmpty then [] else [line.reverse]
  | c :: cs =>
    if c = '\n' then dropReturn line.reverse :: linesFrom [] cs else linesFrom (c :: line) cs

/-- The lines of a text: each ends at a line feed or with the text, and there is no empty line behind
the last line feed. A carriage return in front of a line feed is part of the end of the line. -/
def lines (cs : List Char) : List (List Char) := linesFrom [] cs

/-- A text with `margin` in front of each line and a line feed behind it. -/
def indent (margin : List Char) (cs : List Char) : List Char :=
  (lines cs).flatMap fun line => margin ++ line ++ ['\n']

end Cellbook.Text
