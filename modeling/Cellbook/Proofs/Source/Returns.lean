import Cellbook.Proofs.Source.BlankLines

/-!
# Carriage returns

A source means the same whether its lines end with a line feed or with a carriage return and a line feed, as long as
no text goes on over a line feed (`Token.scan_withReturns`). For a carriage return in front of a line feed ends a
line, and then the line feed ends one with nothing on it, which is passed over; inside brackets both are passed over;
and no lexeme comes to the end of its line unless it is a text.

**Two scanners**, one of them with the carriage returns ahead, do the same things at other places. Between two line
feeds they even do them at the same places, so it is only behind a line feed that one of them is put in the place of
a scanner that is alike.
-/

namespace Cellbook

namespace Text

variable {cs : List Char} {c : Char}

/-- A text with a carriage return in front of each line feed. -/
def withReturns (cs : List Char) : List Char := cs.flatMap fun c => if c = '\n' then ['\r', '\n'] else [c]

theorem withReturns_cons (hc : c ≠ '\n') (cs : List Char) : withReturns (c :: cs) = c :: withReturns cs := by
  rw [withReturns, List.flatMap_cons, if_neg hc]
  rfl

theorem withReturns_append (cs ds : List Char) : withReturns (cs ++ ds) = withReturns cs ++ withReturns ds :=
  List.flatMap_append

theorem withReturns_of_not_mem (h : '\n' ∉ cs) : withReturns cs = cs := by
  induction cs with
  | nil => rfl
  | cons c cs ih =>
    rw [List.mem_cons, not_or] at h
    rw [withReturns_cons (Ne.symm h.1), ih h.2]

/-- Characters in front of the first line feed stay as they are. -/
theorem withReturns_eq_take {n : Nat} (h : '\n' ∉ cs.take n) :
    withReturns cs = cs.take n ++ withReturns (cs.drop n) := by
  have happend := withReturns_append (cs.take n) (cs.drop n)
  rwa [List.take_append_drop, withReturns_of_not_mem h] at happend

theorem withReturns_eq_nil_iff : withReturns cs = [] ↔ cs = [] := by
  cases cs with
  | nil => exact ⟨fun _ => rfl, fun _ => rfl⟩
  | cons c cs =>
    by_cases hc : c = '\n'
    · rw [hc]
      exact ⟨(nomatch ·), (nomatch ·)⟩
    · rw [withReturns_cons hc]
      exact ⟨(nomatch ·), (nomatch ·)⟩

theorem line_withReturns (cs : List Char) : line (withReturns cs) = line cs := by
  induction cs with
  | nil => rfl
  | cons c cs ih =>
    by_cases hfeed : c = '\n'
    · rw [hfeed]
      rfl
    rw [withReturns_cons hfeed]
    cases hc : isBreak c with
    | true => rw [line_cons_break hc, line_cons_break hc]
    | false => rw [line_cons hc, line_cons hc, ih]

theorem lineFeed_not_mem_line (cs : List Char) : '\n' ∉ line cs := fun h => nomatch List.mem_takeWhile_imp h

end Text

open Text (isBreak withReturns)

namespace Scanner

variable {g : Grammar} {s s' : Scanner} {cs : List Char} {c : Char}

/-! ## Texts on their lines -/

/-- **No text goes on over a line feed**, be it closed or not: in front of every line feed no text is open. -/
def TextsOnLines (cs : List Char) : Prop :=
  ∀ i < cs.length, cs[i]? = some '\n' → (depthBehind none 0 (cs.take i)).isSome

instance (cs : List Char) : Decidable (TextsOnLines cs) :=
  inferInstanceAs (Decidable (∀ i < cs.length, cs[i]? = some '\n' → (depthBehind none 0 (cs.take i)).isSome))

/-- Whether a text is open does not depend on the brackets in front. -/
theorem isSome_depthBehind (mark : Option Char) (depth depth' : Nat) (cs : List Char) :
    (depthBehind mark depth cs).isSome = (depthBehind mark depth' cs).isSome := by
  fun_induction depthBehind mark depth cs generalizing depth' with
  | case1 => rfl
  | case2 depth c cs hquote ih => rw [ih depth', depthBehind, if_pos hquote]
  | case3 depth c cs hquote ih => rw [ih (depthAfter depth' c), depthBehind_cons hquote]
  | case4 => rfl
  | case5 => rfl
  | case6 depth mark c cs ih => rw [ih depth', depthBehind]
  | case7 depth c cs hlast hescape ih =>
    rw [depthBehind_text (Lexeme.ne_backslash hlast hescape), if_pos rfl, ih depth']
  | case8 depth mark c cs hlast hescape hmark ih =>
    rw [depthBehind_text (Lexeme.ne_backslash hlast hescape), if_neg hmark, ih depth']

/-- Texts stay on their lines behind characters that leave no text open. -/
theorem TextsOnLines.behind {front : List Char} (h : TextsOnLines (front ++ cs))
    (hfront : ∀ ds, (depthBehind none 0 (front ++ ds)).isSome = (depthBehind none 0 ds).isSome) : TextsOnLines cs := by
  intro i hi hfeed
  have hlength : front.length + i < (front ++ cs).length := by
    rw [List.length_append]
    exact Nat.add_lt_add_left hi _
  have hopen := h (front.length + i) hlength
  rw [List.getElem?_append_right (Nat.le_add_right _ _), Nat.add_sub_cancel_left, List.take_length_add_append,
    hfront] at hopen
  exact hopen hfeed

theorem TextsOnLines.behind_inner {front : List Char} (h : TextsOnLines (front ++ cs))
    (hfront : ∀ d ∈ front, Lexeme.IsInner d) : TextsOnLines cs :=
  h.behind fun ds => by rw [depthBehind_inner hfront]

/-- Texts stay on their lines behind a lexeme that is no text. -/
theorem TextsOnLines.behind_lexeme {afterOperand : Bool} {start : Nat} {l : Lexeme} (h : TextsOnLines (c :: cs))
    (hquote : ¬(c = '"' ∨ c = '\'')) (hl : Lexeme.next g afterOperand c cs start = .ok l) :
    TextsOnLines ((c :: cs).drop l.length) := by
  rw [← List.take_append_drop l.length (c :: cs)] at h
  rcases Lexeme.next_inside hquote hl with hone | hinner
  · rw [hone] at h ⊢
    refine h.behind fun ds => ?_
    show (depthBehind none 0 (c :: ds)).isSome = _
    rw [depthBehind_cons hquote]
    exact isSome_depthBehind none _ _ ds
  · exact h.behind_inner hinner

/-- Behind a text no text is open. -/
theorem depthBehind_behind_text {mark : Char} {value : List Char} {n : Nat}
    (h : Lexeme.textBody? mark cs = some (value, n)) (depth : Nat) (ds : List Char) :
    depthBehind (some mark) depth (cs.take n ++ ds) = depthBehind none depth ds := by
  fun_induction Lexeme.textBody? mark cs generalizing value n with
  | case1 => cases h
  | case2 => cases h
  | case3 c cs ih =>
    obtain ⟨⟨value', n'⟩, hbody, heq⟩ := Option.map_eq_some_iff.mp h
    cases heq
    rw [List.take_succ_cons, List.take_succ_cons, List.cons_append, List.cons_append, depthBehind, ih hbody]
  | case4 cs hlast hescape =>
    cases h
    rw [List.take_succ_cons, List.take_zero, List.cons_append,
      depthBehind_text (Lexeme.ne_backslash hlast hescape), if_pos rfl, List.nil_append]
  | case5 c cs hlast hescape hmark ih =>
    obtain ⟨⟨value', n'⟩, hbody, heq⟩ := Option.map_eq_some_iff.mp h
    cases heq
    rw [List.take_succ_cons, List.cons_append, depthBehind_text (Lexeme.ne_backslash hlast hescape),
      if_neg hmark, ih hbody]

/-- A text that begins in front of a line feed is closed there. -/
theorem TextsOnLines.closed {i : Nat} (h : TextsOnLines (c :: cs)) (hquote : c = '"' ∨ c = '\'')
    (hfeed : cs[i]? = some '\n') : ∃ value n, Lexeme.textBody? c cs = some (value, n) ∧ n ≤ i := by
  obtain ⟨hi, -⟩ := List.getElem?_eq_some_iff.mp hfeed
  have hopen := h (i + 1) (Nat.succ_lt_succ hi) hfeed
  rw [List.take_succ_cons, depthBehind, if_pos hquote] at hopen
  obtain ⟨depth', hbehind⟩ := Option.isSome_iff_exists.mp hopen
  obtain ⟨value, n, hbody, -⟩ := textBody?_of_depthBehind hbehind
  obtain ⟨hrecut, hlength⟩ := Lexeme.textBody?_recut hbody ((cs.take i).drop n ++ cs.drop i)
  rw [← List.append_assoc, List.take_append_drop, List.take_append_drop] at hrecut
  refine ⟨value, n, hrecut, ?_⟩
  rw [List.length_take, List.length_take] at hlength
  omega

/-- A text, if it is closed, has no line feed in it. -/
theorem TextsOnLines.not_mem_text {value : List Char} {n : Nat} (h : TextsOnLines (c :: cs))
    (hquote : c = '"' ∨ c = '\'') (hbody : Lexeme.textBody? c cs = some (value, n)) : '\n' ∉ cs.take n := by
  intro hmem
  obtain ⟨i, hi⟩ := List.mem_iff_getElem?.mp hmem
  have hin : i < n := by
    have hlength := (List.getElem?_eq_some_iff.mp hi).1
    rw [List.length_take] at hlength
    omega
  rw [List.getElem?_take_of_lt hin] at hi
  obtain ⟨value', n', hbody', hle⟩ := h.closed hquote hi
  cases hbody.symm.trans hbody'
  exact absurd hle (Nat.not_le.mpr hin)

theorem TextsOnLines.behind_text {value : List Char} {n : Nat} (h : TextsOnLines (c :: cs))
    (hquote : c = '"' ∨ c = '\'') (hbody : Lexeme.textBody? c cs = some (value, n)) : TextsOnLines (cs.drop n) := by
  rw [← List.take_append_drop n cs, ← List.cons_append] at h
  refine h.behind fun ds => ?_
  rw [List.cons_append, depthBehind, if_pos hquote, depthBehind_behind_text hbody]

/-- A text does not see carriage returns behind it, since it ends in front of the first line feed. -/
theorem quotedText_withReturns (hquote : c = '"' ∨ c = '\'') (h : TextsOnLines (c :: cs)) (start : Nat) :
    Lexeme.quotedText c (c :: withReturns cs) start = Lexeme.quotedText c (c :: cs) start ∧
      ∀ l, Lexeme.quotedText c (c :: cs) start = .ok l →
        '\n' ∉ (c :: cs).take l.length ∧ TextsOnLines ((c :: cs).drop l.length) := by
  have hfeed : c ≠ '\n' := by
    rintro rfl
    simp at hquote
  unfold Lexeme.quotedText
  rw [List.drop_succ_cons, List.drop_succ_cons, List.drop_zero, List.drop_zero]
  cases hbody : Lexeme.textBody? c cs with
  | none =>
    have hnone : '\n' ∉ cs := by
      intro hmem
      obtain ⟨i, hi⟩ := List.mem_iff_getElem?.mp hmem
      obtain ⟨value, n, hbody', -⟩ := h.closed hquote hi
      cases hbody.symm.trans hbody'
    rw [Text.withReturns_of_not_mem hnone, hbody]
    refine ⟨rfl, fun l hl => ?_⟩
    cases hl
  | some text =>
    obtain ⟨value, n⟩ := text
    have hmem := h.not_mem_text hquote hbody
    obtain ⟨hrecut, hlength⟩ := Lexeme.textBody?_recut hbody (withReturns (cs.drop n))
    rw [Text.withReturns_eq_take hmem, hrecut]
    dsimp only
    rw [List.take_succ_cons, List.take_succ_cons, List.take_left' hlength]
    refine ⟨rfl, fun l hl => ?_⟩
    cases hl
    rw [List.take_succ_cons, List.drop_succ_cons, List.mem_cons, not_or]
    exact ⟨⟨Ne.symm hfeed, hmem⟩, h.behind_text hquote hbody⟩

/-- **A lexeme does not see carriage returns** in front of line feeds, and it ends in front of the first line feed. -/
theorem next_withReturns (hc : Text.isBlank c = false) (h : TextsOnLines (c :: cs)) (g : Grammar)
    (afterOperand : Bool) (start : Nat) :
    Lexeme.next g afterOperand c (withReturns cs) start = Lexeme.next g afterOperand c cs start ∧
      ∀ l, Lexeme.next g afterOperand c cs start = .ok l →
        '\n' ∉ (c :: cs).take l.length ∧ TextsOnLines ((c :: cs).drop l.length) := by
  by_cases hquote : c = '"' ∨ c = '\''
  · have hnext (ds : List Char) : Lexeme.next g afterOperand c ds start = Lexeme.quotedText c (c :: ds) start :=
      if_pos hquote
    rw [hnext, hnext]
    exact quotedText_withReturns hquote h start
  · have hbreak : isBreak c = false := by
      cases hbreak : isBreak c with
      | false => rfl
      | true => rcases isBreak_iff.mp hbreak with rfl | rfl <;> cases hc
    have hline := Lexeme.next_line hquote hbreak g afterOperand
    refine ⟨by rw [← hline (withReturns cs), Text.line_withReturns, hline], fun l hl => ⟨?_, ?_⟩⟩
    · rw [← hline] at hl
      have hle := (Lexeme.next_taken hl).length_le
      rw [← Text.line_cons hbreak] at hle
      rw [← Text.take_line hle]
      exact fun hmem => Text.lineFeed_not_mem_line _ (List.mem_of_mem_take hmem)
    · exact h.behind_lexeme hquote hl

/-! ## Scanners with carriage returns ahead -/

/-- Indentation is as wide with carriage returns in its blank lines. -/
theorem skipIndentation_withReturns (width passed passed' : Nat) (cs : List Char) :
    ∃ n, skipIndentation width passed' (withReturns cs) =
      ((skipIndentation width passed cs).1, n, withReturns (skipIndentation width passed cs).2.2) := by
  fun_induction skipIndentation width passed cs generalizing passed' with
  | case1 => exact ⟨passed', rfl⟩
  | case2 width passed cs ih => exact ih (passed' + 1)
  | case3 width passed cs _ ih => exact ih (passed' + 1)
  | case4 width passed c cs _ _ hbreak ih =>
    rcases hbreak with rfl | rfl
    · exact ih (passed' + 1 + 1)
    · exact ih (passed' + 1)
  | case5 width passed c cs hspace htab hbreak =>
    refine ⟨passed', ?_⟩
    rw [Text.withReturns_cons fun hfeed => hbreak (.inl hfeed), skipIndentation, if_neg hspace, if_neg htab,
      if_neg hbreak]

/-- **The second scanner has carriage returns ahead** and is like the first one besides, and no text that is ahead
goes on over a line feed. -/
structure Returned (s s' : Scanner) : Prop where
  texts : TextsOnLines s.rest
  alike : Alike (s.on (withReturns s.rest)) s'

/-- Both scanners move on. -/
theorem Returned.move {rest rest' : List Char} (h : Returned s s') (htexts : TextsOnLines rest)
    (hrest : rest' = withReturns rest) (position position' : Nat) :
    Returned { s with rest, position } { s' with rest := rest', position := position' } :=
  ⟨htexts, hrest, h.alike.looks, h.alike.indents, h.alike.depth⟩

theorem Returned.layOut (h : Returned s s') (width : Nat) :
    AgreeApart (fun t t' => Returned t t' ∧ t.rest = s.rest) (s.layOut width) (s'.layOut width) := by
  have hindents : s'.indents = s.indents := h.alike.indents
  unfold Scanner.layOut
  rw [hindents]
  cases s.indents with
  | nil => exact .ok ⟨⟨h.texts, h.alike.withIndents [width]⟩, rfl⟩
  | cons top indents =>
    dsimp only
    split
    · exact .ok ⟨⟨h.texts, (h.alike.withIndents _).addLayout _⟩, rfl⟩
    split
    · exact .ok ⟨⟨h.texts, (h.alike.withIndents _).addLayout _⟩, rfl⟩
    · exact .error _

theorem Returned.startLine (h : Returned s s') :
    AgreeApart (fun t t' => Returned t t' ∧ t.rest.length ≤ s.rest.length) s.startLine s'.startLine := by
  obtain ⟨n, hreturns⟩ := skipIndentation_withReturns 0 0 0 s.rest
  have hrest : s'.rest = withReturns s.rest := h.alike.rest
  unfold Scanner.startLine
  rw [hrest, hreturns]
  cases hskip : skipIndentation 0 0 s.rest with
  | mk width line =>
  obtain ⟨passed, rest⟩ := line
  obtain ⟨front, hfront, -, hblank⟩ := skipIndentation_eq hskip
  have htexts : TextsOnLines rest :=
    (hfront ▸ h.texts).behind_inner fun c hc => Lexeme.isInner_of (by decide) (hblank c hc).isBlank
  have hlength : rest.length ≤ s.rest.length := by
    rw [hfront, List.length_append]
    exact Nat.le_add_left _ _
  have hmoved := h.move htexts rfl (s.position + passed) (s'.position + n)
  dsimp only
  by_cases hnil : rest = []
  · subst hnil
    exact .ok ⟨hmoved, hlength⟩
  · have hnil' : withReturns rest ≠ [] := mt Text.withReturns_eq_nil_iff.mp hnil
    rw [if_neg (mt List.isEmpty_iff.mp hnil), if_neg (mt List.isEmpty_iff.mp hnil')]
    exact (hmoved.layOut width).mono fun t t' ht => ⟨ht.1, ht.2 ▸ hlength⟩

theorem Returned.take {l : Lexeme} (h : Returned s s') (hrest : s.rest = c :: cs) (hle : l.length ≤ (c :: cs).length)
    (hfeed : '\n' ∉ (c :: cs).take l.length) (htexts : TextsOnLines ((c :: cs).drop l.length)) :
    Returned (s.take c l) (s'.take c l) := by
  have halike := h.alike.take c l
  have hdrop : (withReturns s.rest).drop l.length = withReturns (s.rest.drop l.length) := by
    rw [hrest, Text.withReturns_eq_take hfeed, List.drop_left' (by rw [List.length_take, Nat.min_eq_left hle])]
  refine ⟨?_, halike.rest.trans hdrop, halike.looks, halike.indents, halike.depth⟩
  show TextsOnLines (s.rest.drop l.length)
  rw [hrest]
  exact htexts

/-- The characters that take the place of a blank are blanks, and they end a line where it does. -/
theorem withReturns_blank (hc : Text.isBlank c) :
    (∀ d ∈ withReturns [c], Text.isBlank d ∧ (isBreak d → isBreak c)) ∧ (isBreak c → withReturns [c] ∈ endings) := by
  by_cases hfeed : c = '\n'
  · subst hfeed
    have hblanks : ∀ d ∈ ['\r', '\n'], Text.isBlank d ∧ (isBreak d → isBreak '\n') :=
      List.forall_mem_cons.mpr ⟨⟨rfl, fun _ => rfl⟩, List.forall_mem_singleton.mpr ⟨rfl, fun _ => rfl⟩⟩
    exact ⟨hblanks, fun _ => by simp [withReturns, endings]⟩
  · rw [Text.withReturns_cons hfeed]
    refine ⟨List.forall_mem_singleton.mpr ⟨hc, id⟩, fun hbreak => ?_⟩
    rw [(isBreak_iff.mp hbreak).resolve_left hfeed]
    decide

/-- Both scanners take the same lexeme, or fail for the same cause. -/
theorem Returned.step (h : Returned s s') (hrest : s.rest = c :: cs) (hc : Text.isBlank c = false) (g : Grammar) :
    AgreeApart (fun t t' => Returned t t' ∧ t.rest.length ≤ cs.length) (s.step g c cs)
      (s'.step g c (withReturns cs)) := by
  have hafter : s'.afterOperand = s.afterOperand := h.alike.afterOperand
  obtain ⟨hsame, hbehind⟩ := next_withReturns hc (hrest ▸ h.texts) g s.afterOperand s.position
  have hnext : causeOf (Lexeme.next g s.afterOperand c cs s.position) =
      causeOf (Lexeme.next g s'.afterOperand c (withReturns cs) s'.position) := by
    rw [hafter, ← hsame]
    exact Lexeme.next_apart _ _ _ _ _ _
  rw [step_lexeme hc, step_lexeme hc]
  obtain ⟨f, f', hf, hf', hcause⟩ | ⟨l, hl, hl'⟩ := cases_of_causeOf_eq hnext
  · rw [hf, hf']
    show Agree _ (.error f.cause) (.error f'.cause)
    rw [hcause]
    exact .error _
  · rw [hl, hl']
    obtain ⟨hline, htexts⟩ := hbehind l hl
    have htaken := Lexeme.next_taken hl
    refine .ok ⟨h.take hrest htaken.length_le hline htexts, ?_⟩
    show (s.rest.drop l.length).length ≤ cs.length
    have hpos := htaken.length_pos
    rw [List.length_drop, hrest, List.length_cons]
    omega

/-- Both scanners pass over a blank, the second one over two characters where it is a line feed. -/
theorem Returned.blank (h : Returned s s') (hrest : s.rest = c :: cs) (hc : Text.isBlank c) {g : Grammar}
    (hnext : ∀ t t', Returned t t' → t.rest.length ≤ cs.length → AgreeApart Alike (t.finish g) (t'.finish g)) :
    AgreeApart Alike (s.finish g) (s'.finish g) := by
  obtain ⟨hblanks, hends⟩ := withReturns_blank hc
  have hsplit : withReturns (c :: cs) = withReturns [c] ++ withReturns cs := Text.withReturns_append [c] cs
  have hrest' : s'.rest = withReturns s.rest := h.alike.rest
  rw [hrest, hsplit] at hrest'
  have htexts := h.texts
  rw [hrest, ← List.singleton_append] at htexts
  replace htexts := htexts.behind_inner (List.forall_mem_singleton.mpr (Lexeme.isInner_of (by decide) hc))
  have hmoved := h.move htexts rfl (s.position + 1) (s'.position + (withReturns [c]).length)
  have hfinish (s : Scanner) (rest : List Char) (hrest : s.rest = rest) : s.finish g = (s.on rest).finish g := by
    rw [← hrest]
    rfl
  rw [hfinish s ([c] ++ cs) hrest, hfinish s' _ hrest']
  by_cases hline : isBreak c ∧ s.depth = 0
  · obtain ⟨hbreak, hdepth⟩ := hline
    have hending : [c] ∈ endings := by
      rcases isBreak_iff.mp hbreak with rfl | rfl <;> decide
    rw [finish_ending hending hdepth, finish_ending (hends hbreak) (h.alike.depth.trans hdepth)]
    exact hmoved.startLine.bind fun t t' ht => hnext t t' ht.1 ht.2
  · have hpassed (d : Char) (hd : isBreak d → isBreak c) (hbreak : isBreak d) : s.depth ≠ 0 :=
      fun hdepth => hline ⟨hd hbreak, hdepth⟩
    rw [finish_blanks s (List.forall_mem_singleton.mpr ⟨hc, hpassed c id⟩), finish_blanks s' fun d hd =>
      ⟨(hblanks d hd).1, fun hbreak => h.alike.depth ▸ hpassed d (hblanks d hd).2 hbreak⟩]
    exact hnext _ _ hmoved (Nat.le_refl _)

/-- **Carriage returns change nothing but places** up to the end of the source. -/
theorem Returned.finish (h : Returned s s') (g : Grammar) : AgreeApart Alike (s.finish g) (s'.finish g) := by
  induction hn : s.rest.length using Nat.strongRecOn generalizing s s' with
  | _ n ih =>
  have hs' : s'.rest = withReturns s.rest := h.alike.rest
  cases hrest : s.rest with
  | nil =>
    rw [hrest] at hs'
    rw [finish_nil hrest, finish_nil hs']
    exact .ok ⟨hs'.trans hrest.symm, h.alike.looks, h.alike.indents, h.alike.depth⟩
  | cons c cs =>
  have hnext (t t' : Scanner) (ht : Returned t t') (hlength : t.rest.length ≤ cs.length) :
      AgreeApart Alike (t.finish g) (t'.finish g) := by
    refine ih t.rest.length ?_ ht rfl
    rw [← hn, hrest]
    exact Nat.lt_succ_of_le hlength
  cases hblank : Text.isBlank c with
  | true => exact h.blank hrest hblank hnext
  | false =>
    have hfeed : c ≠ '\n' := by
      rintro rfl
      cases hblank
    rw [hrest, Text.withReturns_cons hfeed] at hs'
    rw [finish_cons hrest, finish_cons hs']
    exact (h.step hrest hblank g).bind fun t t' ht => hnext t t' ht.1 ht.2

end Scanner

/-! ## Sources with carriage returns -/

namespace Token

/-- **How lines end does not matter**, as long as no text goes on over the end of a line: with a carriage return in
front of each line feed the source has the same tokens, or a fault for the same cause. -/
theorem scan_withReturns (g : Grammar) {source : List Char} (h : Scanner.TextsOnLines source) :
    looks (scan g (String.ofList (withReturns source))) = looks (scan g (String.ofList source)) := by
  rw [scan_eq, scan_eq, String.toList_ofList, String.toList_ofList]
  refine looks_found ?_
  have hstart : Scanner.Returned ⟨source, 0, [], [], 0⟩ ⟨withReturns source, 0, [], [], 0⟩ :=
    ⟨h, rfl, rfl, rfl, rfl⟩
  exact hstart.startLine.bind fun s s' hs => hs.1.finish g

/-- Blocks, a blank line, brackets and a text with an escape in front of the ends of lines. -/
theorem scan_withReturns_of_blocks :
    Scanner.TextsOnLines "a:\n  b: (1,\n'\\'é')\n\t\n  c: -2\n".toList ∧
      looks (scan .standard "a:\r\n  b: (1,\r\n'\\'é')\r\n\t\r\n  c: -2\r\n") =
        looks (scan .standard "a:\n  b: (1,\n'\\'é')\n\t\n  c: -2\n") := by
  have htexts : Scanner.TextsOnLines "a:\n  b: (1,\n'\\'é')\n\t\n  c: -2\n".toList := by decide +kernel
  have hreturns : withReturns "a:\n  b: (1,\n'\\'é')\n\t\n  c: -2\n".toList =
      "a:\r\n  b: (1,\r\n'\\'é')\r\n\t\r\n  c: -2\r\n".toList := by decide +kernel
  have hscan := scan_withReturns .standard htexts
  rw [hreturns, String.ofList_toList, String.ofList_toList] at hscan
  exact ⟨htexts, hscan⟩

end Token

end Cellbook
