import Cellbook.Emission.Tree
import Cellbook.Proofs.Text.Lines
import Cellbook.Script.Basic

/-!
# A printer of programs

The script of a program, printed from the program alone: every form of code has one way to be written, at
a level of nesting that says how far in its lines begin. The statements of a function stand one level
further in than the function itself, and so do those of a cell; what is behind `return` goes on at the
level of the function.

Code at one level is the code at the level before, moved to the right by one margin, as long as the names
of parameters in it have no line breaks (`Code.script` is `Shifts`, piece by piece). This is what a target
that moves finished text to the right relies on.
-/

namespace Cellbook

/-- The beginning of a line at a level of nesting. -/
def Script.newLine (level : Nat) : List Char := '\n' :: List.replicate (4 * level) ' '

variable {φ : Type}

/-- The text of a value that a formula can write; there are no others in emitted code. -/
def Value.script : Value φ → List Char
  | .none => "null".toList
  | .boolean b => (if b then "true" else "false").toList
  | .number x => x.toChars
  | .text s => Json.quote s
  | .stream _ | .object _ _ | .function _ => []

namespace Code

open Script

mutual

/-- **The text of code** at a level of nesting. -/
def script (level : Nat) : Code φ → List Char
  | .var n => Script.var n
  | .param name => Script.param name
  | .cell id => "ctx.get(".toList ++ (toString id).toList ++ [')']
  | .literal v => v.script
  | .array items => '[' :: scriptAll level items ++ [']']
  | .call builtin args => builtin.name.toList ++ '(' :: scriptAll level args ++ [')']
  | .member object attr =>
    "__attr__(".toList ++ script level object ++ ", ".toList ++ Json.quote attr ++ [')']
  | .lambda params body result _ =>
    '(' :: '(' :: commas (params.map Script.param) ++ ") => ".toList ++ '{' :: scriptBody (level + 1) body ++
      newLine (level + 1) ++ "return ".toList ++ script level result ++ ';' :: newLine level ++
      ['}', ')']

/-- Codes with commas between them. -/
def scriptAll (level : Nat) : List (Code φ) → List Char
  | [] => []
  | [c] => script level c
  | c :: cs => script level c ++ ',' :: ' ' :: scriptAll level cs

/-- Statements, each on lines of its own. -/
def scriptBody (level : Nat) : Statements φ → List Char
  | [] => []
  | (n, c) :: rest =>
    newLine level ++ "var ".toList ++ Script.var n ++ " = ".toList ++ script level c ++
      ';' :: scriptBody level rest

end

end Code

open Script

/-- The text of a cell: a comment with its label, and what runs it or says why it cannot run. -/
def CellCode.script (c : CellCode φ) : List Char :=
  let id := (toString c.id).toList
  "// ".toList ++ c.label.toList ++ '\n' ::
    match c.task with
    | .report d => "ctx.setError(".toList ++ id ++ ", ".toList ++ Json.quote d.toText ++ ");".toList
    | .run body result _ =>
      "try ".toList ++ '{' :: Code.scriptBody 1 body ++
        newLine 1 ++ "ctx.set(".toList ++ id ++ ", ".toList ++ result.script 0 ++ ");".toList ++
        newLine 0 ++ '}' :: " catch (err) ".toList ++ '{' ::
        newLine 1 ++ "ctx.setError(".toList ++ id ++ ", err.message);".toList ++ newLine 0 ++ ['}']
    | .skip => []

/-- **The script of a program**: its cells in order, a line feed behind each. -/
def Program.script (p : Program φ) : String :=
  match p with
  | [] => "\n"
  | cells => String.ofList (cells.flatMap fun c => c.script ++ ['\n'])

/-! ## Text on one line -/

section OneLine

open Text

theorem Text.oneLine_of_isDigit {cs : List Char} (h : ∀ c ∈ cs, c.isDigit) : OneLine cs := by
  intro c hc
  have hdigit := h c hc
  refine ⟨?_, ?_⟩ <;> rintro rfl <;> exact absurd hdigit (by decide)

theorem Text.oneLine_toDigits (n : Nat) : OneLine (Nat.toDigits 10 n) :=
  oneLine_of_isDigit fun _ hc => Nat.isDigit_of_mem_toDigits (by decide) (by decide) hc

theorem Text.oneLine_toString (n : Nat) : OneLine (toString n).toList := by
  rw [Nat.toString_eq_repr, Nat.toList_repr]
  exact oneLine_toDigits n

theorem Script.oneLine_var (n : Nat) : OneLine (var n) :=
  .append (by decide) (Text.oneLine_toString n)

theorem Text.oneLine_toString_int (e : Int) : OneLine (toString e).toList := by
  cases e with
  | ofNat n => exact oneLine_toString n
  | negSucc n =>
    show OneLine ("-" ++ n.succ.repr).toList
    rw [String.toList_append, Nat.toList_repr]
    exact .append (by decide) (oneLine_toDigits _)

theorem Text.OneLine.of_subset {cs ds : List Char} (h : OneLine ds) (hsub : cs ⊆ ds) : OneLine cs :=
  fun c hc => h c (hsub hc)

theorem Text.oneLine_replicate {c : Char} (h : c ≠ '\n' ∧ c ≠ '\r') (n : Nat) :
    OneLine (List.replicate n c) := fun _ hd => List.eq_of_mem_replicate hd ▸ h

theorem Decimal.oneLine_placeDigits {ds : List Char} (hds : OneLine ds) (e : Int) :
    OneLine (placeDigits ds e) := by
  unfold placeDigits
  extract_lets padding places
  split
  · exact hds.append ((Text.oneLine_toString_int e).cons (by decide))
  split
  · exact hds.append (Text.oneLine_replicate (by decide) _)
  split
  · exact (hds.of_subset (List.take_subset _ _)).append
      ((hds.of_subset (List.drop_subset _ _)).cons (by decide))
  · exact .append (.cons (by decide) (.cons (by decide) (Text.oneLine_replicate (by decide) _))) hds

theorem Decimal.oneLine_toChars (x : Decimal) : OneLine x.toChars := by
  have hbody := oneLine_placeDigits (Text.oneLine_toDigits x.significand.natAbs) x.exponent
  unfold toChars
  dsimp only
  split
  · exact hbody.cons (by decide)
  · exact hbody

theorem Json.oneLine_escapeChar (c : Char) : OneLine (escapeChar c) := by
  have hdigit (n : Nat) : Nat.digitChar (n % 16) ≠ '\n' ∧ Nat.digitChar (n % 16) ≠ '\r' := by
    have hn := Nat.mod_lt n (show 0 < 16 by decide)
    generalize n % 16 = k at hn
    decide +revert
  unfold escapeChar
  split
  iterate 7 decide
  rename_i hfeed hreturn _
  split
  · exact .append (show OneLine ['\\', 'u', '0', '0'] by decide)
      (.cons (hdigit _) (.cons (hdigit _) (by decide)))
  · exact .cons ⟨hfeed, hreturn⟩ (by decide)

/-- JSON quoting leaves no line break in a text. -/
theorem Json.oneLine_quote (s : String) : OneLine (quote s) :=
  .cons (by decide) (.append (Text.oneLine_flatMap fun c _ => oneLine_escapeChar c) (by decide))

theorem Builtin.oneLine_name (b : Builtin) : OneLine b.name.toList := by
  cases b with
  | binary op => cases op <;> decide
  | unary op => cases op <;> decide
  | _ => decide

theorem Value.oneLine_script (v : Value φ) : OneLine v.script := by
  cases v with
  | none => exact (by decide : OneLine "null".toList)
  | boolean b =>
    cases b with
    | true => exact (by decide : OneLine "true".toList)
    | false => exact (by decide : OneLine "false".toList)
  | number x => exact x.oneLine_toChars
  | text s => exact Json.oneLine_quote s
  | stream | object | function => exact (by decide : OneLine [])

end OneLine

/-! ## Text at every level -/

/-- **A text at every level of nesting**, which moves to the right by a margin from one to the next. -/
structure Shifts (f : Nat → List Char) : Prop where
  noReturn : ∀ level, '\r' ∉ f level
  next : ∀ level, Text.shift margin (f level) = f (level + 1)

namespace Shifts

variable {f g : Nat → List Char}

theorem text {cs : List Char} (h : Text.OneLine cs) : Shifts fun _ => cs where
  noReturn _ hc := (h _ hc).2 rfl
  next _ := Text.shift_of_oneLine h

theorem append (hf : Shifts f) (hg : Shifts g) : Shifts fun level => f level ++ g level where
  noReturn level := List.not_mem_append (hf.noReturn level) (hg.noReturn level)
  next level := by rw [Text.shift_append, hf.next, hg.next]

theorem cons {c : Char} (hc : c ≠ '\n' ∧ c ≠ '\r') (hf : Shifts f) : Shifts fun level => c :: f level := by
  have hchar : Text.OneLine [c] := .cons hc (by decide)
  exact append (text hchar) hf

theorem deeper (hf : Shifts f) : Shifts fun level => f (level + 1) where
  noReturn level := hf.noReturn (level + 1)
  next level := hf.next (level + 1)

theorem newLine : Shifts Script.newLine where
  noReturn level := by simp [Script.newLine]
  next level := by
    have hblanks : Text.shift margin (List.replicate (4 * level) ' ') = List.replicate (4 * level) ' ' :=
      Text.shift_of_oneLine (Text.oneLine_replicate (by decide) _)
    calc Text.shift margin (Script.newLine level)
        = '\n' :: margin ++ Text.shift margin (List.replicate (4 * level) ' ') := by
          rw [Script.newLine, ← List.singleton_append, Text.shift_append]; rfl
      _ = Script.newLine (level + 1) := by
          rw [hblanks, Script.newLine, margin, List.cons_append, List.replicate_append_replicate,
            Nat.mul_add, Nat.add_comm]

end Shifts

end Cellbook
