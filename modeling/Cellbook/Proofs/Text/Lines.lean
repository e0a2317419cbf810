import Cellbook.Text.Lines

/-!
# Text moved to the right

To move a text to the right line by line is, for a text without carriage returns that goes on behind its
last line feed, to put the margin in front of it and behind each of its line feeds (`indent_eq_shift`).
In this form the lines are gone, and what is moved may be put together from pieces: those on one line stay
as they are.
-/

namespace Cellbook.Text

/-- Characters that stand on one line, wherever they are put. -/
def OneLine (cs : List Char) : Prop := ∀ c ∈ cs, c ≠ '\n' ∧ c ≠ '\r'

instance (cs : List Char) : Decidable (OneLine cs) :=
  List.decidableBAll (fun c => c ≠ '\n' ∧ c ≠ '\r') cs

theorem OneLine.append {cs ds : List Char} (hc : OneLine cs) (hd : OneLine ds) : OneLine (cs ++ ds) :=
  List.forall_mem_append.mpr ⟨hc, hd⟩

theorem OneLine.cons {c : Char} {cs : List Char} (hc : c ≠ '\n' ∧ c ≠ '\r') (hcs : OneLine cs) :
    OneLine (c :: cs) := List.forall_mem_cons.mpr ⟨hc, hcs⟩

theorem oneLine_flatMap {α : Type} {f : α → List Char} {as : List α} (h : ∀ a ∈ as, OneLine (f a)) :
    OneLine (as.flatMap f) := by
  intro c hc
  obtain ⟨a, ha, hc⟩ := List.mem_flatMap.mp hc
  exact h a ha c hc

/-- A text with `margin` behind each of its line feeds. -/
def shift (margin cs : List Char) : List Char :=
  cs.flatMap fun c => if c = '\n' then '\n' :: margin else [c]

variable {margin : List Char}

@[simp] theorem shift_append (cs ds : List Char) :
    shift margin (cs ++ ds) = shift margin cs ++ shift margin ds := List.flatMap_append

theorem shift_of_oneLine {cs : List Char} (h : OneLine cs) : shift margin cs = cs := by
  induction cs with
  | nil => rfl
  | cons c cs ih =>
    obtain ⟨hc, hcs⟩ := List.forall_mem_cons.mp h
    have hshift : shift margin (c :: cs) = (if c = '\n' then '\n' :: margin else [c]) ++ shift margin cs :=
      List.flatMap_cons
    rw [hshift, if_neg hc.1, ih hcs, List.singleton_append]

theorem dropReturn_eq_self {line : List Char} (h : '\r' ∉ line) : dropReturn line = line := by
  unfold dropReturn
  exact if_neg fun hlast => h (List.mem_of_getLast? hlast)

/-- The lines from a place inside a line on, moved to the right. -/
theorem indent_linesFrom (margin : List Char) {cs : List Char} (line : List Char) (hline : '\r' ∉ line) (hcs : '\r' ∉ cs)
    (hend : cs.getLast? ≠ some '\n') (hne : line ≠ [] ∨ cs ≠ []) :
    ((linesFrom line cs).flatMap fun l => margin ++ l ++ ['\n']) =
      margin ++ line.reverse ++ shift margin cs ++ ['\n'] := by
  induction cs generalizing line with
  | nil =>
    have hline : line.isEmpty = false := by simpa using hne
    simp [linesFrom, hline, shift]
  | cons c cs ih =>
    have hc : '\r' ∉ cs := fun h => hcs (List.mem_cons_of_mem c h)
    have hend' : cs.getLast? ≠ some '\n' := by
      intro h
      rw [List.getLast?_cons, h] at hend
      exact hend rfl
    by_cases hbreak : c = '\n'
    · have hrest : cs ≠ [] := by
        rintro rfl
        exact hend (by rw [hbreak]; rfl)
      have hreturn : '\r' ∉ line.reverse := fun h => hline (List.mem_reverse.mp h)
      have hnext := ih [] List.not_mem_nil hc hend' (.inr hrest)
      rw [linesFrom, if_pos hbreak, List.flatMap_cons, hnext, dropReturn_eq_self hreturn]
      simp [shift, hbreak]
    · have hgo : '\r' ∉ c :: line := by
        intro h
        rcases List.mem_cons.mp h with h | h
        · exact hcs (List.mem_cons.mpr (.inl h))
        · exact hline h
      have hnext := ih (c :: line) hgo hc hend' (.inl (List.cons_ne_nil c line))
      rw [linesFrom, if_neg hbreak, hnext]
      simp [shift, hbreak]

/-- **A text moved to the right** line by line. -/
theorem indent_eq_shift (margin : List Char) {cs : List Char} (hreturn : '\r' ∉ cs) (hend : cs.getLast? ≠ some '\n')
    (hne : cs ≠ []) : indent margin cs = margin ++ shift margin cs ++ ['\n'] := by
  have := indent_linesFrom margin [] List.not_mem_nil hreturn hend (.inr hne)
  simpa [indent, lines] using this

end Cellbook.Text
