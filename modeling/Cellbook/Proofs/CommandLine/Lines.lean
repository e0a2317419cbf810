import Mathlib.Data.List.Forall2
import Cellbook.CommandLine.Answer
import Cellbook.Proofs.Script.Printer

/-!
# Answers line by line

Where every line of the input is a request, every one of them has a text as its answer, in order, and a line that is
no request has an error as its answer. That each answer is one line as well is true of responses in one line, and of
nothing else (`answers_lines`): responses over several lines, scripts and listings go on over lines.

A response in one line has no line break in it since a string in JSON has none.
-/

namespace Cellbook

/-! ## Lines that are written -/

namespace Text

theorem linesFrom_append {line cs : List Char} (hline : '\r' ∉ line) (hcs : OneLine cs) (rest : List Char) :
    linesFrom line (cs ++ '\n' :: rest) = (line.reverse ++ cs) :: linesFrom [] rest := by
  induction cs generalizing line with
  | nil =>
    rw [List.nil_append, linesFrom, if_pos rfl, List.append_nil,
      dropReturn_eq_self fun h => hline (List.mem_reverse.mp h)]
  | cons c cs ih =>
    obtain ⟨hc, hcs⟩ := List.forall_mem_cons.mp hcs
    have hnext := ih (List.not_mem_cons_of_ne_of_not_mem hc.2.symm hline) hcs
    rw [List.cons_append, linesFrom, if_neg hc.1, hnext, List.reverse_cons, List.append_assoc, List.singleton_append]

/-- **The lines of lines** with a line feed behind each are those lines. -/
theorem lines_flatMap {ls : List (List Char)} (h : ∀ l ∈ ls, OneLine l) : lines (ls.flatMap (· ++ ['\n'])) = ls := by
  induction ls with
  | nil => rfl
  | cons l ls ih =>
    obtain ⟨hl, hls⟩ := List.forall_mem_cons.mp h
    rw [List.flatMap_cons, List.append_assoc, List.singleton_append, lines, linesFrom_append List.not_mem_nil hl]
    exact congrArg (l :: ·) (ih hls)

theorem trimEnd_subset (cs : List Char) : trimEnd cs ⊆ cs := fun _ hc =>
  List.mem_reverse.mp ((List.dropWhile_suffix _).mem (List.mem_reverse.mp hc))

end Text

namespace Json

open Text (OneLine)

mutual

/-- **JSON is written in one line.** -/
theorem oneLine_writeChars : (v : Json) → OneLine v.writeChars
  | .null => by decide
  | .boolean true => by decide
  | .boolean false => by decide
  | .integer n => Text.oneLine_toString_int n
  | .inexact => by decide
  | .string s => oneLine_quote s
  | .unreadable => by decide
  | .array items => (oneLine_writeItems items).cons (by decide)
  | .object fields => (oneLine_writeFields fields).cons (by decide)

theorem oneLine_writeItems : (vs : List Json) → OneLine (writeItems vs)
  | [] => by decide
  | [v] => (oneLine_writeChars v).append (by decide)
  | v :: w :: vs => (oneLine_writeChars v).append ((oneLine_writeItems (w :: vs)).cons (by decide))

theorem oneLine_writeFields : (fields : List (String × Json)) → OneLine (writeFields fields)
  | [] => by decide
  | [(k, v)] => ((oneLine_quote k).append ((oneLine_writeChars v).cons (by decide))).append (by decide)
  | (k, v) :: field :: fields =>
    ((oneLine_quote k).append ((oneLine_writeChars v).cons (by decide))).append
      ((oneLine_writeFields (field :: fields)).cons (by decide))

end

end Json

namespace CommandLine

open Text (OneLine)

variable {message : String → String} {o : Options} {line text : String}

/-- **A text answers a line**: as the request that the line is would be answered alone, or with an error if it is
none. -/
inductive Answers (message : String → String) (o : Options) (line : String) : String → Prop
  | request {r : Request} {s : String} (hr : Request.read line = some r) (hs : answerRequest o r = .ok s) :
    Answers message o line (String.ofList (Text.trimEnd s.toList))
  | invalid (hnone : Request.read line = none) : Answers message o line (invalidLine message line)

/-- What fails with a request is that its calls are nested too deep. -/
theorem answerRequest_error {r : Request} {f : Failure} (h : answerRequest o r = .error f) : f = .tooDeep := by
  unfold answerRequest at h
  split at h
  · cases h
  · cases h
  split at h
  · cases h
    rfl
  · cases h

theorem answers_of_answerLine (h : answerLine message o line = .ok text) : Answers message o line text := by
  unfold answerLine answer at h
  cases hr : Request.read line with
  | none =>
    rw [hr] at h
    cases h
    exact .invalid hr
  | some r =>
    rw [hr] at h
    cases hs : answerRequest o r with
    | error f =>
      obtain rfl := answerRequest_error hs
      simp only [hs] at h
      cases h
    | ok s =>
      simp only [hs] at h
      cases h
      exact .request hr hs

/-- **Every line has its answer**, in order, unless one of them fails. -/
theorem answerLines_forall₂ {lines : List String} (h : (answerLines message o lines).2 = none) :
    List.Forall₂ (Answers message o) lines (answerLines message o lines).1 := by
  induction lines with
  | nil => exact .nil
  | cons line lines ih =>
    unfold answerLines at h ⊢
    cases hline : answerLine message o line with
    | error f =>
      simp only [hline] at h
      cases h
    | ok text =>
      simp only [hline] at h ⊢
      exact .cons (answers_of_answerLine hline) (ih h)

/-- A response in one line stays in one line. -/
theorem Answers.oneLine (hemission : o.emission.getD .results = .results) (hpretty : o.pretty = false)
    (h : Answers message o line text) : OneLine text.toList := by
  cases h with
  | invalid =>
    rw [invalidLine, Json.write, String.toList_ofList]
    exact Json.oneLine_writeChars _
  | request hr hs =>
    unfold answerRequest at hs
    rw [hemission, hpretty] at hs
    dsimp only at hs
    split at hs
    · cases hs
    · cases hs
      rw [String.toList_ofList]
      refine OneLine.of_subset ?_ (Text.trimEnd_subset _)
      rw [if_neg Bool.false_ne_true, Json.write, String.toList_ofList]
      exact Json.oneLine_writeChars _

/-! ## Clients that read line by line -/

/-- What is written for an input. -/
def written (message : String → String) (o : Options) (input : String) : List Char :=
  (answers message o input).1.flatMap (·.toList ++ ['\n'])

theorem lines_written {input : String} (h : ∀ text ∈ (answers message o input).1, OneLine text.toList) :
    (Text.lines (written message o input)).map String.ofList = (answers message o input).1 := by
  have hwritten : written message o input = ((answers message o input).1.map String.toList).flatMap (· ++ ['\n']) := by
    rw [List.flatMap_map]
    rfl
  rw [hwritten, Text.lines_flatMap (List.forall_mem_map.mpr h), List.map_map]
  exact List.map_id'' (fun _ => String.ofList_toList) _

/-- **A client that reads line by line stays in step**: there is one line for every line of the input that is not
blank, and it is the answer to that line, unless the run fails. -/
def InStep (message : String → String) (o : Options) (input : String) : Prop :=
  (answers message o input).2 = none →
    List.Forall₂ (Answers message o) (requestLines input) ((Text.lines (written message o input)).map String.ofList)

/-- With every line a request, the texts that are written are the answers to the lines. -/
theorem answers_forall₂ (h : o.lines = true) {input : String} (hsuccess : (answers message o input).2 = none) :
    List.Forall₂ (Answers message o) (requestLines input) (answers message o input).1 := by
  have hanswers : answers message o input = answerLines message o (requestLines input) := if_pos h
  rw [hanswers] at hsuccess ⊢
  exact answerLines_forall₂ hsuccess

theorem inStep_of_results (h : o.lines = true) (hemission : o.emission.getD .results = .results)
    (hpretty : o.pretty = false) (input : String) : InStep message o input := by
  intro hsuccess
  have hall := answers_forall₂ h hsuccess
  have honeline : ∀ text ∈ (answers message o input).1, OneLine text.toList := by
    generalize (answers message o input).1 = texts, requestLines input = ls at hall
    induction hall with
    | nil => exact List.forall_mem_nil _
    | cons hanswer _ ih => exact List.forall_mem_cons.mpr ⟨hanswer.oneLine hemission hpretty, ih⟩
  rwa [lines_written honeline]

/-- The number of lines of an answer. -/
def lineCount (s : String) : Nat := (Text.lines (Text.trimEnd s.toList ++ ['\n'])).length

/-- A client that stays in step at an input of one line has one line as its answer. -/
theorem InStep.lineCount_eq_one {input : String} {r : Request} {s : String} (h : InStep message o input)
    (hlines : o.lines = true) (hinput : requestLines input = [input]) (hr : Request.read input = some r)
    (hs : answerRequest o r = .ok s) :
    lineCount s = 1 := by
  have hanswer : answerLine message o input = .ok (String.ofList (Text.trimEnd s.toList)) := by
    unfold answerLine answer
    rw [hr]
    simp only [hs]
    rfl
  have hanswers : answers message o input = ([String.ofList (Text.trimEnd s.toList)], none) := by
    unfold answers
    rw [if_pos hlines, hinput]
    simp only [answerLines, hanswer]
  have hlength := (h (by rw [hanswers])).length_eq
  rw [List.length_map, written, hanswers, hinput, List.flatMap_singleton, String.toList_ofList] at hlength
  exact hlength.symm

/-- The text of a request with one cell. -/
def oneCell : String := "\x7b\"body\":[\x7b\"id\":1\x7d]\x7d"

/-- The script and the listing of one cell go on over lines. -/
theorem lineCount_oneCell :
    (Request.read oneCell).map (fun r => (lineCount r.script, lineCount r.program.listing)) = some (6, 2) := by
  decide +kernel

/-- A response without results goes on over lines where responses may. -/
theorem answerRequest_none (hemission : o.emission.getD .results = .results) (hpretty : o.pretty = true) :
    answerRequest o ⟨[]⟩ = .ok (Response.toJson ⟨[], [], []⟩).layout := by
  unfold answerRequest
  rw [hemission, hpretty]
  rfl

/-- A client that stays in step for every input reads responses in one line. -/
theorem options_of_inStep (h : o.lines = true) (hstep : ∀ input, InStep message o input) :
    o.emission.getD .results = .results ∧ o.pretty = false := by
  obtain ⟨r, hr, hcount⟩ := Option.map_eq_some_iff.mp lineCount_oneCell
  obtain ⟨hscript, hlisting⟩ := Prod.mk.inj hcount
  have hone {s : String} (hs : answerRequest o r = .ok s) : lineCount s = 1 :=
    (hstep oneCell).lineCount_eq_one h (by decide +kernel) hr hs
  cases hemission : o.emission.getD .results with
  | script =>
    have hs : answerRequest o r = .ok r.script := by
      unfold answerRequest
      rw [hemission]
    exact absurd (hone hs) (hscript ▸ by decide)
  | listing =>
    have hs : answerRequest o r = .ok r.program.listing := by
      unfold answerRequest
      rw [hemission]
    exact absurd (hone hs) (hlisting ▸ by decide)
  | results =>
    refine ⟨rfl, Bool.eq_false_iff.mpr fun hpretty => ?_⟩
    have hone := (hstep "\x7b\x7d").lineCount_eq_one h (by decide +kernel) rfl (answerRequest_none hemission hpretty)
    exact absurd hone (by decide +kernel)

/-- **Answers line by line.** With every line a request, what is written is one answer to each, in order, and a line
that is no request stops nothing, whatever is said of it. The answers are one line each, so that a client that reads
line by line stays in step for every input, exactly if they are responses in one line. -/
theorem answers_lines (message : String → String) (h : o.lines = true) :
    (∀ input, (answers message o input).2 = none →
        List.Forall₂ (Answers message o) (requestLines input) (answers message o input).1) ∧
      ((∀ input, InStep message o input) ↔ o.emission.getD .results = .results ∧ o.pretty = false) :=
  ⟨fun _ => answers_forall₂ h, options_of_inStep h,
    fun ⟨hemission, hpretty⟩ => inStep_of_results h hemission hpretty⟩

theorem answers_lines_of_badLine :
    ({ precision := some 5, lines := true } : Options).lines = true ∧
      (Text.lines (written (fun _ => "expected ident at line 1 column 2") { precision := some 5, lines := true }
        "no request\n\n \x7b\x7d\r\n")).map String.ofList =
        [invalidLine (fun _ => "expected ident at line 1 column 2") "no request",
          "\x7b\"results\":[],\"eval_order\":[],\"cyclic_cells\":[]\x7d"] ∧
      InStep (fun _ => "expected ident at line 1 column 2") { precision := some 5, lines := true }
        "no request\n\n \x7b\x7d\r\n" :=
  ⟨rfl, by decide +kernel, (answers_lines _ rfl).2.mpr ⟨rfl, rfl⟩ _⟩

/-- A response over several lines is one answer, but no line. -/
theorem not_inStep_pretty :
    requestLines "\x7b\x7d" = ["\x7b\x7d"] ∧
      (answers (fun _ => "") { lines := true, pretty := true } "\x7b\x7d").2 = none ∧
      (Text.lines (written (fun _ => "") { lines := true, pretty := true } "\x7b\x7d")).length = 5 ∧
      ¬InStep (fun _ => "") { lines := true, pretty := true } "\x7b\x7d" := by
  refine ⟨by decide +kernel, by decide +kernel, by decide +kernel, fun h => ?_⟩
  have hone := h.lineCount_eq_one rfl (by decide +kernel) rfl (answerRequest_none rfl rfl)
  exact absurd hone (by decide +kernel)

end CommandLine

end Cellbook
