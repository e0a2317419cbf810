import Cellbook.Scalar

/-!
# Values

What a formula evaluates to. A value is a scalar, a stream of values, an object or a function.

What a function does is left open here: the type of function bodies is a parameter, `φ`, so that
everything about values that does not call a function can be said without saying how functions run.
Two functions are equal if their bodies are, in the sense that `φ` brings along.
-/

namespace Cellbook

/-- **A function**: the names of its parameters, its body, and the body of a guard that says which
arguments it takes. -/
structure Function (φ : Type) where
  params : List String
  body : φ
  guard : Option φ

/-- **A value** over function bodies `φ`. An object has entries, in the order in which their keys
first came, and methods, which are tried in order when the object is called. -/
inductive Value (φ : Type) where
  | protected none
  | boolean (b : Bool)
  | number (x : Decimal)
  | text (s : String)
  | stream (items : List (Value φ))
  | object (entries : List (Value φ × Value φ)) (methods : List (Function φ))
  | function (f : Function φ)

/-- The kinds of values. -/
inductive Kind where
  | protected none | boolean | number | text | stream | object | function
deriving DecidableEq, Repr

/-- The name of a kind in messages. -/
def Kind.name : Kind → String
  | .none => "none"
  | .boolean => "boolean"
  | .number => "number"
  | .text => "text"
  | .stream => "stream"
  | .object => "object"
  | .function => "function"

namespace Function

variable {φ : Type}

def arity (f : Function φ) : Nat := f.params.length

/-- The function that takes only what the body of `guard` accepts. -/
def withGuard (f guard : Function φ) : Function φ := { f with guard := some guard.body }

/-- Functions are equal if their bodies are; the guard plays no part. -/
instance [BEq φ] : BEq (Function φ) := ⟨fun f g => f.body == g.body⟩

/-- The text of a function: its parameters. -/
def toText (f : Function φ) : String := "<function(" ++ String.intercalate ", " f.params ++ ")>"

end Function

/-- The value that a scalar is. -/
def Scalar.toValue {φ : Type} : Scalar → Value φ
  | .none => .none
  | .boolean b => .boolean b
  | .number x => .number x
  | .text s => .text s

namespace Value

variable {φ : Type}

instance : Inhabited (Value φ) := ⟨.none⟩

def kind : Value φ → Kind
  | .none => .none
  | .boolean _ => .boolean
  | .number _ => .number
  | .text _ => .text
  | .stream _ => .stream
  | .object _ _ => .object
  | .function _ => .function

/-- The truth of a value: none, zero and whatever is empty are false. -/
def truthy : Value φ → Bool
  | .none => false
  | .boolean b => b
  | .number x => !x.isZero
  | .text s => !s.isEmpty
  | .stream items => !items.isEmpty
  | .object entries methods => !(entries.isEmpty && methods.isEmpty)
  | .function _ => true

/-! ## Equality -/

section Equality

variable [BEq φ]

mutual

/-- Equality of values: numbers by what they denote, streams and objects part for part in order. -/
def equal : Value φ → Value φ → Bool
  | .none, .none => true
  | .boolean a, .boolean b => a == b
  | .number x, .number y => x == y
  | .text s, .text t => s == t
  | .stream xs, .stream ys => equalItems xs ys
  | .object es ms, .object fs ns => equalEntries es fs && ms == ns
  | .function f, .function g => f == g
  | _, _ => false

def equalItems : List (Value φ) → List (Value φ) → Bool
  | [], [] => true
  | x :: xs, y :: ys => equal x y && equalItems xs ys
  | _, _ => false

def equalEntries : List (Value φ × Value φ) → List (Value φ × Value φ) → Bool
  | [], [] => true
  | (k, v) :: es, (l, w) :: fs => equal k l && equal v w && equalEntries es fs
  | _, _ => false

end

instance : BEq (Value φ) := ⟨equal⟩

end Equality

/-! ## Text -/

/-- The texts of an object's methods, each after a comma. -/
def methodsChars (methods : List (Function φ)) : List Char :=
  methods.flatMap fun f => ',' :: ' ' :: f.toText.toList

mutual

/-- The characters of a value; a text is quoted if `inner` says that it stands inside another. -/
def chars (inner : Bool) : Value φ → List Char
  | .none => "none".toList
  | .boolean b => (if b then "true" else "false").toList
  | .number x => x.toChars
  | .text s => if inner then Text.quote s.toList else s.toList
  | .stream items => '[' :: itemsChars items ++ [']']
  | .object entries methods =>
    -- methods follow entries behind a comma, and open the object if there are none
    let body := entriesChars entries ++ methodsChars methods
    '{' :: (if entries.isEmpty then body.drop 2 else body) ++ ['}']
  | .function f => f.toText.toList

/-- The items of a stream, with commas between them. -/
def itemsChars : List (Value φ) → List Char
  | [] => []
  | [v] => chars true v
  | v :: vs => chars true v ++ ',' :: ' ' :: itemsChars vs

/-- The entries of an object, with commas between them. -/
def entriesChars : List (Value φ × Value φ) → List Char
  | [] => []
  | [(k, v)] => chars true k ++ ':' :: ' ' :: chars true v
  | (k, v) :: es => chars true k ++ ':' :: ' ' :: chars true v ++ ',' :: ' ' :: entriesChars es

end

/-- The characters of a value that stands for itself. -/
def toChars (v : Value φ) : List Char := v.chars false

/-- The text of a value. -/
def toText (v : Value φ) : String := String.ofList v.toChars

end Value

end Cellbook
