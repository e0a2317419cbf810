import Mathlib.Data.List.Forall2
import Cellbook.Proofs.Script.Printer

/-!
# Text that writes code

A target that writes text does not know how deep its text will stand: it moves what it has to the right
once more with every function around it. That this comes to the same as printing at the right level to
begin with is `Shifts`. So a text writes code if it is that code printed at the left margin, and the code
shifts as a whole. Each operation of the script target makes a text that writes what the same operation
of the tree target makes.

Parameters have names on one line, for what has a line break in a name does not shift. Only the parameters
that a cell is given from outside may have any characters, and they head a function that nothing moves
(`lambda_eq_script`).
-/

namespace Cellbook

open Script

variable {φ : Type}

/-- **A text that writes code**, at the left margin. -/
structure Writes (text : List Char) (c : Code φ) : Prop where
  eq_script : text = c.script 0
  shifts : Shifts fun level => c.script level

/-- Texts that write codes one by one. -/
abbrev WritesAll : List (List Char) → List (Code φ) → Prop := List.Forall₂ Writes

/-- Statements that set the same variables to what is written and to the code. -/
abbrev WritesBody : List (Nat × List Char) → Statements φ → Prop :=
  List.Forall₂ fun s t => s.1 = t.1 ∧ Writes s.2 t.2

/-! ## Operations -/

theorem WritesAll.commas_eq {texts : List (List Char)} {cs : List (Code φ)} (h : WritesAll texts cs) :
    commas texts = Code.scriptAll 0 cs := by
  induction h with
  | nil => rfl
  | @cons text c texts cs hc hcs ih =>
    cases hcs with
    | nil => exact hc.eq_script
    | @cons text' d texts cs hd hds =>
      calc commas (text :: text' :: texts)
          = text ++ ',' :: ' ' :: commas (text' :: texts) := rfl
        _ = c.script 0 ++ ',' :: ' ' :: Code.scriptAll 0 (d :: cs) := by rw [ih, hc.eq_script]
        _ = Code.scriptAll 0 (c :: d :: cs) := rfl

theorem WritesAll.shifts {texts : List (List Char)} {cs : List (Code φ)} (h : WritesAll texts cs) :
    Shifts fun level => Code.scriptAll level cs := by
  induction h with
  | nil => exact .text (by decide)
  | @cons text c texts cs hc hcs ih =>
    cases hcs with
    | nil => exact hc.shifts
    | @cons text' d texts cs hd hds =>
      show Shifts fun level => c.script level ++ ',' :: ' ' :: Code.scriptAll level (d :: cs)
      exact hc.shifts.append ((ih.cons (by decide)).cons (by decide))

/-- What a statement is written as, moves as a whole. -/
theorem Writes.shifts_statement {text : List Char} {c : Code φ} (h : Writes text c) (n : Nat) :
    Shifts fun level => "var ".toList ++ var n ++ " = ".toList ++ c.script level ++ [';'] := by
  have hhead : Text.OneLine ("var ".toList ++ var n ++ " = ".toList) :=
    .append (.append (by decide) (oneLine_var n)) (by decide)
  exact ((Shifts.text hhead).append h.shifts).append (.text (by decide))

/-- The statements of a target of text, behind a line feed, are statements printed one level in. -/
theorem WritesBody.body_eq {texts : List (Nat × List Char)} {statements : Statements φ}
    (h : WritesBody texts statements) :
    '\n' :: body texts = Code.scriptBody 1 statements ++ ['\n'] := by
  induction h with
  | nil => rfl
  | @cons s t texts statements hs _ ih =>
    obtain ⟨n, text⟩ := s
    obtain ⟨m, c⟩ := t
    obtain ⟨hn, hc⟩ := hs
    obtain rfl : n = m := hn
    have hline := hc.shifts_statement n
    have hend : ("var ".toList ++ var n ++ " = ".toList ++ c.script 0 ++ [';']).getLast? ≠ some '\n' := by
      rw [List.getLast?_concat]
      decide
    have hindent := Text.indent_eq_shift margin (hline.noReturn 0) hend (by simp)
    rw [hline.next 0] at hindent
    calc '\n' :: body ((n, text) :: texts)
        = '\n' :: Text.indent margin ("var ".toList ++ var n ++ " = ".toList ++ c.script 0 ++ [';']) ++
            body texts := by rw [← hc.eq_script]; rfl
      _ = newLine 1 ++ "var ".toList ++ var n ++ " = ".toList ++ c.script 1 ++ ';' ::
            ('\n' :: body texts) := by
          rw [hindent]
          simp [newLine, margin]
      _ = Code.scriptBody 1 ((n, c) :: statements) ++ ['\n'] := by
          rw [ih, Code.scriptBody]
          simp

theorem WritesBody.shifts {texts : List (Nat × List Char)} {statements : Statements φ}
    (h : WritesBody texts statements) : Shifts fun level => Code.scriptBody level statements := by
  induction h with
  | nil => exact .text (by decide)
  | @cons s t texts statements hs _ ih =>
    obtain ⟨n, c⟩ := t
    have hline := (Shifts.newLine.append (hs.2.shifts_statement n)).append ih
    have hscript : (fun level => newLine level ++
        ("var ".toList ++ var n ++ " = ".toList ++ c.script level ++ [';']) ++
          Code.scriptBody level statements) =
        fun level => Code.scriptBody level ((n, c) :: statements) := by
      funext level
      rw [Code.scriptBody]
      simp
    rwa [hscript] at hline

/-- A function is written as one, whatever the names of its parameters. -/
theorem lambda_eq_script (params : List String) {texts : List (Nat × List Char)}
    {statements : Statements φ} {text : List Char} {c : Code φ} (hbody : WritesBody texts statements)
    (hc : Writes text c) :
    Target.script.lambda params texts text = (Target.tree.lambda params statements c).script 0 := by
  have hbreak : newLine 1 = '\n' :: margin := rfl
  have hlast : ";\n".toList = ';' :: newLine 0 := rfl
  calc lambda params texts text
      = '(' :: '(' :: commas (params.map param) ++ ") => ".toList ++ '{' :: ('\n' :: body texts) ++
          margin ++ "return ".toList ++ text ++ ";\n".toList ++ ['}', ')'] := rfl
    _ = '(' :: '(' :: commas (params.map param) ++ ") => ".toList ++
          '{' :: Code.scriptBody 1 statements ++ newLine 1 ++ "return ".toList ++ c.script 0 ++
          ';' :: newLine 0 ++ ['}', ')'] := by
        rw [hbody.body_eq, hc.eq_script, hbreak, hlast]
        simp only [List.append_assoc, List.cons_append, List.nil_append]
    _ = (Code.lambda params statements c (Code.capturesOf statements c)).script 0 := rfl

/-- A name on one line. -/
def OneLineName (s : String) : Prop := Text.OneLine s.toList

theorem oneLine_commas_param {params : List String} (h : ∀ s ∈ params, OneLineName s) :
    Text.OneLine (commas (params.map param)) := by
  induction params with
  | nil => exact (by decide : Text.OneLine [])
  | cons s params ih =>
    obtain ⟨hs, hparams⟩ := List.forall_mem_cons.mp h
    have hparam : Text.OneLine (param s) := .append (by decide) hs
    cases params with
    | nil => exact hparam
    | cons => exact hparam.append (.cons (by decide) (.cons (by decide) (ih hparams)))

namespace Writes

theorem var (n : Nat) : Writes (Target.script.var n) (Target.tree (φ := φ).var n) where
  eq_script := rfl
  shifts := .text (oneLine_var n)

theorem param {name : String} (h : OneLineName name) :
    Writes (Target.script.param name) (Target.tree (φ := φ).param name) where
  eq_script := rfl
  shifts := by
    have hparam : Text.OneLine (Script.param name) := .append (by decide) h
    exact .text hparam

theorem cell (id : Nat) : Writes (Target.script.cell id) (Target.tree (φ := φ).cell id) where
  eq_script := rfl
  shifts := by
    have hcell : Text.OneLine ("ctx.get(".toList ++ (toString id).toList ++ [')']) :=
      .append (.append (by decide) (Text.oneLine_toString id)) (by decide)
    exact .text hcell

theorem literal (v : Scalar) : Writes (Target.script.literal v) (Target.tree (φ := φ).literal v) where
  eq_script := by cases v <;> rfl
  shifts := .text v.toValue.oneLine_script

theorem array {texts : List (List Char)} {cs : List (Code φ)} (h : WritesAll texts cs) :
    Writes (Target.script.array texts) (Target.tree.array cs) where
  eq_script := by
    show '[' :: commas texts ++ [']'] = '[' :: Code.scriptAll 0 cs ++ [']']
    rw [h.commas_eq]
  shifts := by
    show Shifts fun level => '[' :: Code.scriptAll level cs ++ [']']
    exact (h.shifts.cons (by decide)).append (.text (by decide))

theorem call (b : Builtin) {texts : List (List Char)} {cs : List (Code φ)} (h : WritesAll texts cs) :
    Writes (Target.script.call b texts) (Target.tree.call b cs) where
  eq_script := by
    show b.name.toList ++ '(' :: commas texts ++ [')'] =
      b.name.toList ++ '(' :: Code.scriptAll 0 cs ++ [')']
    rw [h.commas_eq]
  shifts := by
    show Shifts fun level => b.name.toList ++ '(' :: Code.scriptAll level cs ++ [')']
    exact ((Shifts.text b.oneLine_name).append (h.shifts.cons (by decide))).append (.text (by decide))

theorem member (attr : String) {text : List Char} {c : Code φ} (h : Writes text c) :
    Writes (Target.script.member text attr) (Target.tree.member c attr) where
  eq_script := by
    show "__attr__".toList ++ '(' :: (text ++ ',' :: ' ' :: Json.quote attr) ++ [')'] =
      "__attr__(".toList ++ c.script 0 ++ ", ".toList ++ Json.quote attr ++ [')']
    rw [h.eq_script]
    simp
  shifts := by
    show Shifts fun level =>
      "__attr__(".toList ++ c.script level ++ ", ".toList ++ Json.quote attr ++ [')']
    exact ((((Shifts.text (by decide)).append h.shifts).append (.text (by decide))).append
      (.text (Json.oneLine_quote attr))).append (.text (by decide))

theorem lambda {params : List String} (hparams : ∀ s ∈ params, OneLineName s)
    {texts : List (Nat × List Char)} {statements : Statements φ} {text : List Char} {c : Code φ}
    (hbody : WritesBody texts statements) (hc : Writes text c) :
    Writes (Target.script.lambda params texts text) (Target.tree.lambda params statements c) where
  eq_script := lambda_eq_script params hbody hc
  shifts := by
    have hhead : Text.OneLine ('(' :: '(' :: commas (params.map Script.param) ++ ") => ".toList) :=
      .append (.cons (by decide) (.cons (by decide) (oneLine_commas_param hparams))) (by decide)
    show Shifts fun level =>
      '(' :: '(' :: commas (params.map Script.param) ++ ") => ".toList ++
        '{' :: Code.scriptBody (level + 1) statements ++ newLine (level + 1) ++ "return ".toList ++
        c.script level ++ ';' :: newLine level ++ ['}', ')']
    exact ((((((Shifts.text hhead).append (hbody.shifts.deeper.cons (by decide))).append
      Shifts.newLine.deeper).append (.text (by decide))).append hc.shifts).append
      (Shifts.newLine.cons (by decide))).append (.text (by decide))

end Writes

end Cellbook
