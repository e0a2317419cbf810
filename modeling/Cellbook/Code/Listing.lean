import Cellbook.Code.Basic

/-!
# Program listings

The text of a program, for people: a line for each cell, its statements and its result, two blanks
for each level. Variables are written `v0`, parameters `$x` and cells `@1`.
-/

namespace Cellbook

/-- The blanks in front of a line at a level of nesting. -/
def indentation (level : Nat) : List Char := List.replicate (2 * level) ' '

namespace Code

variable {φ : Type}

mutual

/-- The characters of code whose lines stand at `level`. -/
def listing (level : Nat) : Code φ → List Char
  | .var n => 'v' :: (toString n).toList
  | .param name => '$' :: name.toList
  | .cell id => '@' :: (toString id).toList
  | .literal v => v.chars true
  | .array items => '[' :: listingAll level items ++ [']']
  | .call builtin args => builtin.name.toList ++ '(' :: listingAll level args ++ [')']
  | .member object attr => listing level object ++ '.' :: attr.toList
  | .lambda params body result _ =>
    "fn(".toList ++ (String.intercalate ", " (params.map ("$" ++ ·))).toList ++ ") ".toList ++
      '{' :: '\n' :: listingBody (level + 1) body ++ indentation (level + 1) ++ "return ".toList ++
      listing (level + 1) result ++ '\n' :: indentation level ++ ['}']

/-- Codes with commas between them. -/
def listingAll (level : Nat) : List (Code φ) → List Char
  | [] => []
  | [c] => listing level c
  | c :: cs => listing level c ++ ',' :: ' ' :: listingAll level cs

/-- Statements, a line each. -/
def listingBody (level : Nat) : Statements φ → List Char
  | [] => []
  | (n, c) :: rest =>
    indentation level ++ 'v' :: (toString n).toList ++ " = ".toList ++ listing level c ++
      '\n' :: listingBody level rest

end

end Code

namespace CellCode

variable {φ : Type}

/-- The lines of a cell. -/
def listing (c : CellCode φ) : List Char :=
  let heading := s!"cell @{c.id} {c.label}:".toList
  match c.task with
  | .report d => heading ++ s!" error {d.toText}\n".toList
  | .run body result _ =>
    heading ++ '\n' :: Code.listingBody 1 body ++ "  => ".toList ++ Code.listing 1 result ++ ['\n']
  | .skip => heading ++ " empty\n".toList

end CellCode

/-- **The text of a program.** -/
def Program.listing {φ : Type} (p : Program φ) : String :=
  String.ofList (p.flatMap (·.listing))

end Cellbook
