import Cellbook.Proofs.Source.Tiling

/-!
# Lexemes on their line

A lexeme is cut off from the line on which it begins: what stands behind the next line break has no part in it
(`Lexeme.next_line`). Only a text may go on over lines. And a lexeme of more than one character, if it is no text,
has neither brackets nor quotation marks in it (`Lexeme.next_inside`).
-/

namespace Cellbook

namespace Text

/-- The characters that end a line. -/
def isBreak (c : Char) : Bool := c == '\n' || c == '\r'

/-- The characters up to the next line break. -/
def line (cs : List Char) : List Char := cs.takeWhile (!isBreak ·)

variable {cs : List Char} {c : Char} {n : Nat}

theorem line_cons (hc : isBreak c = false) (cs : List Char) : line (c :: cs) = c :: line cs :=
  List.takeWhile_cons_of_pos (by rw [hc]; rfl)

theorem line_cons_break (hc : isBreak c) (cs : List Char) : line (c :: cs) = [] :=
  List.takeWhile_cons_of_neg (by rw [hc]; decide)

theorem isPrefix_line (cs : List Char) : line cs <+: cs := List.takeWhile_prefix _

theorem take_line (h : n ≤ (line cs).length) : (line cs).take n = cs.take n := by
  rw [List.prefix_iff_eq_take.mp (isPrefix_line cs), List.take_take, Nat.min_eq_left h]

theorem line_drop (h : n ≤ (line cs).length) : line (cs.drop n) = (line cs).drop n := by
  induction cs generalizing n with
  | nil => rw [List.drop_nil, show line [] = [] from rfl, List.drop_nil]
  | cons c cs ih =>
    cases n with
    | zero => rfl
    | succ n =>
      cases hc : isBreak c with
      | false =>
        rw [line_cons hc] at h ⊢
        exact ih (Nat.le_of_succ_le_succ h)
      | true =>
        rw [line_cons_break hc] at h
        cases h

/-- Characters of one line are found on it. -/
theorem takeWhile_line {p : Char → Bool} (hp : ∀ c, isBreak c → p c = false) :
    (line cs).takeWhile p = cs.takeWhile p := by
  rw [line, List.takeWhile_takeWhile]
  congr 1
  funext c
  cases hc : isBreak c with
  | false => simp
  | true => simp [hp c hc]

theorem head?_line (hc : isBreak c = false) : (line cs).head? = some c ↔ cs.head? = some c := by
  cases cs with
  | nil => rfl
  | cons d cs =>
    cases hd : isBreak d with
    | false => rw [line_cons hd, List.head?_cons, List.head?_cons]
    | true =>
      rw [line_cons_break hd, List.head?_cons]
      refine ⟨fun h => (nomatch h), fun h => ?_⟩
      cases h
      cases hc.symm.trans hd

theorem head?_any_line {p : Char → Bool} (hp : ∀ c, isBreak c → p c = false) (cs : List Char) :
    (line cs).head?.any p = cs.head?.any p := by
  rcases cs with - | ⟨c, cs⟩
  · rfl
  cases hc : isBreak c with
  | false => rw [line_cons hc, List.head?_cons, List.head?_cons]
  | true =>
    rw [line_cons_break hc, List.head?_cons, Option.any_some, hp c hc]
    rfl

/-- A line break in front ends the line, whatever follows. -/
theorem line_append {front : List Char} (h : ∃ c ∈ front, isBreak c) (cs : List Char) :
    line (front ++ cs) = line front := by
  induction front with
  | nil =>
    obtain ⟨c, hc, -⟩ := h
    cases hc
  | cons d front ih =>
    rw [List.cons_append]
    cases hd : isBreak d with
    | true => rw [line_cons_break hd, line_cons_break hd]
    | false =>
      rw [line_cons hd, line_cons hd, ih]
      obtain ⟨c, hc, hbreak⟩ := h
      rcases List.mem_cons.mp hc with rfl | hc
      · cases hd.symm.trans hbreak
      · exact ⟨c, hc, hbreak⟩

theorem line_length_lt (h : ∃ c ∈ cs, isBreak c) : (line cs).length < cs.length := by
  refine Nat.lt_of_le_of_ne (isPrefix_line cs).length_le fun hlength => ?_
  obtain ⟨c, hc, hbreak⟩ := h
  rw [← (isPrefix_line cs).eq_of_length hlength] at hc
  have hno := List.mem_takeWhile_imp hc
  rw [hbreak] at hno
  cases hno

/-- No line break is a character of a kind if these two are none. -/
theorem forall_isBreak {p : Char → Bool} (hp : p '\n' = false ∧ p '\r' = false) : ∀ c, isBreak c → p c = false := by
  intro c hc
  rcases Bool.or_eq_true_iff.mp hc with hc | hc
  · exact beq_iff_eq.mp hc ▸ hp.1
  · exact beq_iff_eq.mp hc ▸ hp.2

end Text

namespace Lexeme

open Text (line isBreak)

variable {g : Grammar} {afterOperand : Bool} {c : Char} {cs : List Char} {start before n : Nat} {l : Lexeme}

/-! ## Numbers -/

theorem takeWhile_isDigit_line (cs : List Char) : (line cs).takeWhile Text.isDigit = cs.takeWhile Text.isDigit :=
  Text.takeWhile_line (Text.forall_isBreak (by decide))

theorem fractionLength_line (before : Nat) (cs : List Char) :
    fractionLength before (line cs) = fractionLength before cs := by
  rcases cs with - | ⟨c, cs⟩
  · rfl
  by_cases hdot : c = '.'
  · subst hdot
    rw [Text.line_cons rfl, fractionLength, fractionLength, takeWhile_isDigit_line]
    simp only [Text.head?_line (c := '.') rfl]
  · have hnone (ds : List Char) : fractionLength before (c :: ds) = .ok 0 := by
      unfold fractionLength
      split
      next heq => exact absurd (List.cons.inj heq).1 hdot
      next => rfl
    rw [hnone]
    cases hc : isBreak c with
    | false => rw [Text.line_cons hc, hnone]
    | true => rw [Text.line_cons_break hc]; rfl

theorem signLength_line (cs : List Char) : signLength (line cs) = signLength cs := by
  rcases cs with - | ⟨c, cs⟩
  · rfl
  cases hc : isBreak c with
  | false =>
    rw [Text.line_cons hc]
    unfold signLength
    split <;> simp_all
  | true =>
    rw [Text.line_cons_break hc]
    rcases Bool.or_eq_true_iff.mp hc with hc | hc <;> rw [beq_iff_eq.mp hc] <;> rfl

theorem signLength_le (cs : List Char) : signLength cs ≤ cs.length := by
  have hlength := (take_signLength cs).2
  rw [List.length_take] at hlength
  omega

theorem exponentLength_line (before : Nat) (cs : List Char) :
    exponentLength before (line cs) = exponentLength before cs := by
  rcases cs with - | ⟨c, cs⟩
  · rfl
  by_cases he : c = 'e' ∨ c = 'E'
  · have hc : isBreak c = false := by
      rcases he with rfl | rfl <;> rfl
    have hsign : signLength cs ≤ (line cs).length := signLength_line cs ▸ signLength_le (line cs)
    rw [Text.line_cons hc, exponentLength_cons he, exponentLength_cons he, signLength_line, ← Text.line_drop hsign,
      takeWhile_isDigit_line]
  · have hnone (ds : List Char) : exponentLength before (c :: ds) = .ok 0 := if_neg he
    rw [hnone]
    cases hc : isBreak c with
    | false => rw [Text.line_cons hc, hnone]
    | true => rw [Text.line_cons_break hc]; rfl

theorem fractionLength_le (h : fractionLength before cs = .ok n) : n ≤ cs.length := by
  have hlength := (IsFraction.of_length h).2
  rw [List.length_take] at hlength
  omega

theorem exponentLength_le (h : exponentLength before cs = .ok n) : n ≤ cs.length := by
  have hlength := (IsExponent.of_length h).2
  rw [List.length_take] at hlength
  omega

theorem numberLength_le (h : numberLength cs = .ok n) : n ≤ cs.length := by
  obtain ⟨_, _, _, _, _, hlength⟩ := NumberParts.of_length h
  rw [List.length_take] at hlength
  omega

/-- A number ends on its line. -/
theorem numberLength_line (cs : List Char) : numberLength (line cs) = numberLength cs := by
  have hwhole : (cs.takeWhile Text.isDigit).length ≤ (line cs).length := by
    rw [← takeWhile_isDigit_line]
    exact (List.takeWhile_prefix _).length_le
  unfold numberLength
  rw [takeWhile_isDigit_line]
  generalize (cs.takeWhile Text.isDigit).length = whole at hwhole
  dsimp only
  rw [← Text.line_drop hwhole, fractionLength_line]
  cases hfraction : fractionLength whole (cs.drop whole) with
  | error flaw => rfl
  | ok fraction =>
  have hmantissa : whole + fraction ≤ (line cs).length := by
    have hle := fractionLength_le ((fractionLength_line _ _).trans hfraction)
    rw [Text.line_drop hwhole, List.length_drop] at hle
    omega
  simp only [bind, Except.bind]
  split
  · rfl
  rw [← Text.line_drop hmantissa, exponentLength_line]
  cases hexponent : exponentLength (whole + fraction) (cs.drop (whole + fraction)) with
  | error flaw => rfl
  | ok exponent =>
  have hlength : whole + fraction + exponent ≤ (line cs).length := by
    have hle := exponentLength_le ((exponentLength_line _ _).trans hexponent)
    rw [Text.line_drop hmantissa, List.length_drop] at hle
    omega
  dsimp only
  rw [← Text.line_drop hlength, Text.head?_any_line (Text.forall_isBreak (by decide))]

theorem number_line {sign : Nat} (hsign : sign ≤ (line cs).length) (start : Nat) :
    number sign (line cs) start = number sign cs start := by
  unfold number
  rw [← Text.line_drop hsign, numberLength_line]
  cases hnumber : numberLength (cs.drop sign) with
  | error flaw => cases flaw <;> rfl
  | ok length =>
  have hlength : sign + length ≤ (line cs).length := by
    have hle := numberLength_le ((numberLength_line _).trans hnumber)
    rw [Text.line_drop hsign, List.length_drop] at hle
    omega
  dsimp only
  rw [Text.take_line hlength]

/-! ## Words and marks -/

theorem word_line (g : Grammar) (cs : List Char) : word g (line cs) = word g cs := by
  have hwords : (line cs).takeWhile isWordChar = cs.takeWhile isWordChar :=
    Text.takeWhile_line (Text.forall_isBreak (by decide))
  unfold word
  rw [hwords]

theorem joined_line (g : Grammar) (cs : List Char) (start : Nat) : joined g (line cs) start = joined g cs start := by
  have hjoins : (line cs).takeWhile isOperatorChar = cs.takeWhile isOperatorChar :=
    Text.takeWhile_line (Text.forall_isBreak (by decide))
  unfold joined
  rw [hjoins]

theorem mark_line (g : Grammar) (h : n ≤ (line cs).length) : mark g n (line cs) = mark g n cs := by
  unfold mark
  rw [Text.take_line h]

theorem startsNumber_dot (cs : List Char) : startsNumber ('.' :: cs) = cs.head?.any Text.isDigit := by
  cases cs <;> rfl

theorem startsNumber_of_ne (hc : c ≠ '.') (cs : List Char) : startsNumber (c :: cs) = Text.isDigit c := by
  unfold startsNumber
  split
  next heq => exact absurd (List.cons.inj heq).1 hc
  next heq => rw [(List.cons.inj heq).1]
  next heq => cases heq

theorem startsNumber_line (cs : List Char) : startsNumber (line cs) = startsNumber cs := by
  have hdigit : ∀ d, isBreak d → Text.isDigit d = false := Text.forall_isBreak (by decide)
  rcases cs with - | ⟨c, cs⟩
  · rfl
  by_cases hdot : c = '.'
  · subst hdot
    rw [Text.line_cons rfl, startsNumber_dot, startsNumber_dot, Text.head?_any_line hdigit]
  · rw [startsNumber_of_ne hdot]
    cases hc : isBreak c with
    | false => rw [Text.line_cons hc, startsNumber_of_ne hdot]
    | true =>
      rw [Text.line_cons_break hc, hdigit c hc]
      rfl

/-- Two characters stand on one line if the second one does not end it. -/
theorem two_le_line (hc : isBreak c = false) {d : Char} (hd : isBreak d = false) (h : cs.head? = some d) :
    2 ≤ (line (c :: cs)).length := by
  obtain ⟨ds, rfl⟩ := List.head?_eq_some_iff.mp h
  rw [Text.line_cons hc, Text.line_cons hd]
  simp

/-- **A lexeme ends on the line on which it begins**, unless it is a text. -/
theorem next_line (hquote : ¬(c = '"' ∨ c = '\'')) (hc : isBreak c = false) (g : Grammar) (afterOperand : Bool)
    (cs : List Char) (start : Nat) : next g afterOperand c (line cs) start = next g afterOperand c cs start := by
  have hline : c :: line cs = line (c :: cs) := (Text.line_cons hc cs).symm
  have hpos : 1 ≤ (line (c :: cs)).length := by
    rw [← hline]
    exact Nat.succ_le_succ (Nat.zero_le _)
  unfold next
  dsimp only
  rw [if_neg hquote, if_neg hquote, hline, number_line (Nat.zero_le _), startsNumber_line, startsNumber_line,
    number_line hpos, mark_line g hpos, word_line, joined_line]
  simp only [Text.head?_line (c := '.') rfl, Text.head?_line (c := '*') rfl]
  by_cases hdots : cs.head? = some '.'
  · rw [mark_line g (two_le_line hc rfl hdots)]
    have hstars : cs.head? ≠ some '*' := by
      rw [hdots]
      decide
    rw [if_neg hstars, mark_line g hpos]
  · rw [if_neg hdots, if_neg hdots]
    by_cases hstars : cs.head? = some '*'
    · rw [if_pos hstars, mark_line g (two_le_line hc rfl hstars)]
    · rw [if_neg hstars, mark_line g hpos]

/-! ## Characters of a lexeme -/

/-- A character that neither quotes a text nor brackets. -/
def IsInner (c : Char) : Prop := c ∉ '"' :: '\'' :: brackets

theorem isInner_of {p : Char → Bool} (hp : ('"' :: '\'' :: brackets).all (!p ·)) (hc : p c) : IsInner c := by
  intro hmem
  have hno := List.all_eq_true.mp hp c hmem
  rw [hc] at hno
  cases hno

theorem isInner_mark {d : Char} (hd : d ∈ ['.', '*', '-', '+', 'e', 'E']) : IsInner d :=
  isInner_of (p := (['.', '*', '-', '+', 'e', 'E'].contains ·)) (by decide) (List.contains_iff_mem.mpr hd)

theorem Digits.isInner {ds : List Char} (h : Digits ds) : ∀ d ∈ ds, IsInner d :=
  fun d hd => isInner_of (by decide) (h.isDigit d hd)

theorem NumberParts.isInner {whole fraction exponent : List Char} (h : NumberParts whole fraction exponent) :
    ∀ d ∈ whole ++ (fraction ++ exponent), IsInner d := by
  have hfraction : ∀ d ∈ fraction, IsInner d := by
    cases h.isFraction with
    | none => exact List.forall_mem_nil _
    | digits hds => exact List.forall_mem_cons.mpr ⟨isInner_mark (by simp), hds.isInner⟩
  have hexponent : ∀ d ∈ exponent, IsInner d := by
    cases h.isExponent with
    | none => exact List.forall_mem_nil _
    | digits hc hsign hds =>
      refine List.forall_mem_cons.mpr ⟨isInner_mark (by rcases hc with rfl | rfl <;> simp), ?_⟩
      refine List.forall_mem_append.mpr ⟨fun d hd => isInner_mark ?_, hds.isInner⟩
      simp only [List.mem_cons, List.not_mem_nil, or_false] at hsign
      rcases hsign with rfl | rfl | rfl
      · cases hd
      · simp [List.mem_singleton.mp hd]
      · simp [List.mem_singleton.mp hd]
  refine List.forall_mem_append.mpr ⟨fun d hd => isInner_of (by decide) (h.isDigit d hd), ?_⟩
  exact List.forall_mem_append.mpr ⟨hfraction, hexponent⟩

theorem number_inside (front : List Char) (hfront : ∀ d ∈ front, IsInner d)
    (h : number front.length (front ++ cs) start = .ok l) : ∀ d ∈ (front ++ cs).take l.length, IsInner d := by
  unfold number at h
  rw [List.drop_left] at h
  split at h
  · cases h
  · cases h
  next n hn =>
  dsimp only at h
  split at h
  case h_2 => cases h
  case h_1 x hx =>
    cases h
    obtain ⟨whole, fraction, exponent, hparts, htake, -⟩ := NumberParts.of_length hn
    dsimp only
    rw [List.take_length_add_append, htake]
    exact List.forall_mem_append.mpr ⟨hfront, hparts.isInner⟩

/-- **What is inside a lexeme** of more than one character neither quotes nor brackets, unless it is a text. -/
theorem next_inside (hquote : ¬(c = '"' ∨ c = '\'')) (h : next g afterOperand c cs start = .ok l) :
    l.length = 1 ∨ ∀ d ∈ (c :: cs).take l.length, IsInner d := by
  have hdoubled {d : Char} (hd : d ∈ ['.', '*', '-']) : IsInner d :=
    isInner_mark (List.mem_append_left ['+', 'e', 'E'] hd)
  have hboth (hc : c ∈ ['.', '*', '-']) (hcs : cs.head? = some c) : ∀ d ∈ (c :: cs).take 2, IsInner d := by
    obtain ⟨ds, rfl⟩ := List.head?_eq_some_iff.mp hcs
    intro d hd
    have hd' : d = c := by simpa using hd
    exact hd' ▸ hdoubled hc
  unfold next at h
  dsimp only at h
  rw [if_neg hquote] at h
  split at h
  · exact .inr (number_inside [] (List.forall_mem_nil _) h)
  split at h
  next hdot =>
    subst hdot
    split at h
    next hdots =>
      cases h
      exact .inr (hboth (by simp) hdots)
    split at h
    · exact .inr (number_inside [] (List.forall_mem_nil _) h)
    · cases h
      exact .inl rfl
  split at h
  next hminus =>
    subst hminus
    split at h
    · exact .inr (number_inside ['-'] (List.forall_mem_singleton.mpr (hdoubled (by simp))) h)
    · cases h
      exact .inl rfl
  split at h
  next hstar =>
    subst hstar
    cases h
    by_cases hstars : cs.head? = some '*'
    · rw [if_pos hstars]
      exact .inr (hboth (by simp) hstars)
    · rw [if_neg hstars]
      exact .inl rfl
  split at h
  · cases h
    rw [(word_text g (c :: cs)).1, take_takeWhile]
    exact .inr fun d hd => isInner_of (by decide) (List.mem_takeWhile_imp hd)
  split at h
  · unfold joined at h
    dsimp only at h
    split at h
    · cases h
      dsimp only
      rw [take_takeWhile]
      exact .inr fun d hd => isInner_of (by decide) (List.mem_takeWhile_imp hd)
    · cases h
  split at h
  · cases h
    exact .inl rfl
  · cases h

end Lexeme

end Cellbook
