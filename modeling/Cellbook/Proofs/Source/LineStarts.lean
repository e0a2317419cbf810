import Cellbook.Proofs.Source.LineEnds

/-!
# In front of a line

A line that begins outside texts and brackets is scanned on its own: the scanner comes to it in the same state,
or finds the same fault in front of it, whatever stands on the line and behind it (`Token.scan_front`).
For lexemes end with their line, and a text that is closed in front of the line is closed there.
-/

namespace Cellbook

open Text (isBreak)

/-- Characters end with a line break. -/
def Text.EndsLine (cs : List Char) : Prop := ∃ c ∈ cs.getLast?, isBreak c

open Text (EndsLine)

theorem Text.EndsLine.ne_nil {cs : List Char} (h : EndsLine cs) : cs ≠ [] := by
  rintro rfl
  obtain ⟨c, hc, -⟩ := h
  cases hc

theorem Text.EndsLine.exists_isBreak {cs : List Char} (h : EndsLine cs) : ∃ c ∈ cs, isBreak c := by
  obtain ⟨c, hc, hbreak⟩ := h
  exact ⟨c, List.mem_of_getLast? hc, hbreak⟩

theorem Text.EndsLine.drop {cs : List Char} {n : Nat} (h : EndsLine cs) (hn : n < cs.length) :
    EndsLine (cs.drop n) := by
  obtain ⟨c, hc, hbreak⟩ := h
  refine ⟨c, ?_, hbreak⟩
  rw [List.getLast?_drop, if_neg (Nat.not_le.mpr hn)]
  exact hc

theorem Text.EndsLine.append {cs : List Char} (h : EndsLine cs) (front : List Char) : EndsLine (front ++ cs) := by
  obtain ⟨c, hc, hbreak⟩ := h
  refine ⟨c, ?_, hbreak⟩
  rw [List.getLast?_append, Option.mem_def.mp hc]
  rfl

theorem Text.EndsLine.suffix {cs ds : List Char} (h : EndsLine cs) (hds : ds <:+ cs) (hne : ds ≠ []) : EndsLine ds := by
  rw [List.suffix_iff_eq_drop.mp hds]
  refine h.drop ?_
  have hpos := List.length_pos_iff.mpr hne
  have hle := hds.length_le
  omega

namespace Scanner

variable {g : Grammar} {s s' : Scanner} {cs : List Char}

/-! ## Runs without a number of steps -/

/-- **What a line adds**: nothing if it is the first one, and else the ends of blocks and a token for itself. -/
theorem layOut_eq_ok {width : Nat} (h : s.layOut width = .ok s') :
    ∃ indents kinds, s' = { s with indents }.addLayout kinds ∧ indents ≠ [] ∧
      (s.indents = [] ∧ kinds = [] ∧ indents.length = 1 ∨
        s.indents ≠ [] ∧ ∃ closed kind, kinds = List.replicate closed .dedent ++ [kind] ∧
          (kind = .indent ∧ closed = 0 ∧ indents.length = s.indents.length + 1 ∨
            kind = .newline ∧ s.indents.length = closed + indents.length)) := by
  unfold layOut at h
  split at h
  next hnone =>
    cases h
    exact ⟨[width], [], rfl, List.cons_ne_nil _ _, .inl ⟨hnone, rfl, rfl⟩⟩
  next top indents hindents =>
  have hsome : s.indents ≠ [] := by
    rw [hindents]
    exact List.cons_ne_nil _ _
  split at h
  · cases h
    exact ⟨_, _, rfl, List.cons_ne_nil _ _, .inr ⟨hsome, 0, .indent, rfl, .inl ⟨rfl, rfl, rfl⟩⟩⟩
  dsimp only at h
  split at h
  next hleft =>
    cases h
    refine ⟨_, _, rfl, fun hnil => ?_, .inr ⟨hsome, _, .newline, rfl, .inr ⟨rfl, ?_⟩⟩⟩
    · rw [hnil] at hleft
      cases hleft
    · rw [← List.length_append, List.takeWhile_append_dropWhile]
  next => cases h

theorem startLine_suffix (h : s.startLine = .ok s') : s'.rest <:+ s.rest := by
  have hsuffix := (skipIndentation_rest 0 0 s.rest).1
  unfold startLine at h
  dsimp only at h
  split at h
  · cases h
    exact hsuffix
  · obtain ⟨indents, kinds, rfl, -⟩ := layOut_eq_ok h
    exact hsuffix

/-- A step leaves less of the source. -/
theorem step_shorter {c : Char} (hrest : s.rest = c :: cs) (h : s.step g c cs = .ok s') :
    s'.rest.length < s.rest.length := by
  have hskip : (s.skip 1).rest.length < s.rest.length := by
    rw [skip, hrest]
    exact Nat.lt_succ_self _
  unfold step at h
  split at h
  · split at h
    · exact (startLine_suffix h).length_le.trans_lt hskip
    · cases h
      exact hskip
  split at h
  · cases h
    exact hskip
  · cases hnext : Lexeme.next g s.afterOperand c cs s.position with
    | error f =>
      rw [hnext] at h
      cases h
    | ok l =>
      rw [hnext] at h
      cases h
      have hpos := (Lexeme.next_taken hnext).length_pos
      show (s.rest.drop l.length).length < s.rest.length
      rw [hrest, List.length_drop, List.length_cons]
      omega

/-- A run with more steps than characters comes to the same end. -/
theorem run_of_le {steps : Nat} (h : s.rest.length ≤ steps) : s.run g steps = s.run g s.rest.length := by
  induction steps using Nat.strongRecOn generalizing s with
  | _ steps ih =>
  cases steps with
  | zero => rw [Nat.le_zero.mp h]
  | succ steps =>
    cases hrest : s.rest with
    | nil => rw [run, hrest, List.length_nil, run]
    | cons c cs =>
      rw [List.length_cons, run, run, hrest]
      dsimp only
      cases hstep : s.step g c cs with
      | error f => rfl
      | ok s' =>
        have hless := step_shorter hrest hstep
        rw [hrest, List.length_cons] at hless h
        show s'.run g steps = s'.run g cs.length
        rw [ih steps (Nat.lt_succ_self _) (by omega), ih cs.length (by omega) (by omega)]

/-- The scanner at the end of the source. -/
def finish (g : Grammar) (s : Scanner) : Except SourceFault Scanner := s.run g s.rest.length

theorem finish_cons {c : Char} (hrest : s.rest = c :: cs) :
    s.finish g = s.step g c cs >>= fun s' => s'.finish g := by
  unfold finish
  rw [hrest, List.length_cons, run, hrest]
  dsimp only
  cases hstep : s.step g c cs with
  | error f => rfl
  | ok s' =>
    have hless := step_shorter hrest hstep
    rw [hrest, List.length_cons] at hless
    exact run_of_le (Nat.le_of_lt_succ hless)

/-- The tokens of a scanner that is at the end, with the blocks closed. -/
def found (s : Scanner) : List Token := s.close.tokens.reverse

/-- The scanner at the end of the source, from the beginning of a line. -/
def finishLines (g : Grammar) (s : Scanner) : Except SourceFault Scanner := s.startLine >>= fun s' => s'.finish g

end Scanner

theorem Token.scan_eq (g : Grammar) (source : String) :
    Token.scan g source = Scanner.found <$> (Scanner.mk source.toList 0 [] [] 0).finishLines g := by
  unfold scan Scanner.finishLines
  dsimp only
  cases hline : (Scanner.mk source.toList 0 [] [] 0).startLine with
  | error f => rfl
  | ok s =>
    have hrun : s.run g source.toList.length = s.finish g :=
      Scanner.run_of_le (Scanner.startLine_suffix hline).length_le
    simp only [bind, Except.bind, hrun]
    cases s.finish g <;> rfl

namespace Scanner

/-! ## Brackets and texts -/

/-- **The brackets that are open behind characters**, where `depth` of them are open in front of these, and a text
that began with `mark` or none. Nothing if the characters end inside a text. -/
def depthBehind : (mark : Option Char) → (depth : Nat) → List Char → Option Nat
  | none, depth, [] => some depth
  | none, depth, c :: cs =>
    if c = '"' ∨ c = '\'' then depthBehind (some c) depth cs else depthBehind none (depthAfter depth c) cs
  | some _, _, [] => none
  | some _, _, ['\\'] => none
  | some mark, depth, '\\' :: _ :: cs => depthBehind (some mark) depth cs
  | some mark, depth, c :: cs =>
    if c = mark then depthBehind none depth cs else depthBehind (some mark) depth cs

variable {g : Grammar} {s s' : Scanner} {cs : List Char} {depth depth' : Nat} {c mark : Char}

theorem depthBehind_cons (hc : ¬(c = '"' ∨ c = '\'')) (depth : Nat) (cs : List Char) :
    depthBehind none depth (c :: cs) = depthBehind none (depthAfter depth c) cs := by
  rw [depthBehind, if_neg hc]

/-- Characters that neither quote nor bracket change nothing. -/
theorem depthBehind_inner {front : List Char} (h : ∀ c ∈ front, Lexeme.IsInner c) (depth : Nat) (cs : List Char) :
    depthBehind none depth (front ++ cs) = depthBehind none depth cs := by
  induction front with
  | nil => rfl
  | cons c front ih =>
    obtain ⟨hc, hfront⟩ := List.forall_mem_cons.mp h
    have hquote : ¬(c = '"' ∨ c = '\'') := by
      rintro (rfl | rfl) <;> exact hc (by simp)
    have hbracket : c ∉ Lexeme.brackets := fun hmem => hc (List.mem_cons_of_mem _ (List.mem_cons_of_mem _ hmem))
    rw [List.cons_append, depthBehind_cons hquote, Lexeme.depthAfter_eq_self hbracket, ih hfront]

theorem depthBehind_text (hc : c ≠ '\\') (mark : Char) (depth : Nat) (cs : List Char) :
    depthBehind (some mark) depth (c :: cs) =
      if c = mark then depthBehind none depth cs else depthBehind (some mark) depth cs := by
  rw [depthBehind]
  · exact fun h _ => hc h
  · exact fun _ _ h _ => hc h

/-- A text is closed where it is read to its end. -/
theorem textBody?_of_depthBehind (h : depthBehind (some mark) depth cs = some depth') :
    ∃ value n, Lexeme.textBody? mark cs = some (value, n) ∧ depthBehind none depth (cs.drop n) = some depth' := by
  fun_induction Lexeme.textBody? mark cs with
  | case1 => cases h
  | case2 => cases h
  | case3 c cs ih =>
    rw [depthBehind] at h
    obtain ⟨value, n, hbody, hbehind⟩ := ih h
    rw [hbody]
    exact ⟨_, _, rfl, hbehind⟩
  | case4 cs hlast hescape =>
    rw [depthBehind_text (Lexeme.ne_backslash hlast hescape), if_pos rfl] at h
    exact ⟨[], 1, rfl, h⟩
  | case5 c cs hlast hescape hmark ih =>
    rw [depthBehind_text (Lexeme.ne_backslash hlast hescape), if_neg hmark] at h
    obtain ⟨value, n, hbody, hbehind⟩ := ih h
    rw [hbody]
    exact ⟨_, _, rfl, hbehind⟩

/-- A lexeme opens and closes brackets only at its head. -/
theorem depthBehind_drop {afterOperand : Bool} {start : Nat} {l : Lexeme} (hquote : ¬(c = '"' ∨ c = '\''))
    (h : Lexeme.next g afterOperand c cs start = .ok l) (depth : Nat) :
    depthBehind none depth (c :: cs) = depthBehind none (depthAfter depth c) ((c :: cs).drop l.length) := by
  rcases Lexeme.next_inside hquote h with hone | hinner
  · rw [hone]
    exact depthBehind_cons hquote depth cs
  · obtain ⟨n, hn⟩ := Nat.exists_eq_add_one_of_ne_zero (Lexeme.next_taken h).length_pos.ne'
    have hc : c ∉ Lexeme.brackets := by
      rw [hn, List.take_succ_cons] at hinner
      exact fun hmem => hinner c List.mem_cons_self (List.mem_cons_of_mem _ (List.mem_cons_of_mem _ hmem))
    have hdrop := depthBehind_inner hinner depth ((c :: cs).drop l.length)
    rw [List.take_append_drop] at hdrop
    rw [Lexeme.depthAfter_eq_self hc, hdrop]

/-! ## Lexemes in front of a line -/

theorem getLast?_textBody? {value : List Char} {n : Nat} (h : Lexeme.textBody? mark cs = some (value, n)) :
    (cs.take n).getLast? = some mark := by
  fun_induction Lexeme.textBody? mark cs generalizing value n with
  | case1 => cases h
  | case2 => cases h
  | case3 c cs ih =>
    obtain ⟨⟨value', n'⟩, hbody, heq⟩ := Option.map_eq_some_iff.mp h
    cases heq
    rw [List.take_succ_cons, List.take_succ_cons, List.getLast?_cons_cons, List.getLast?_cons, ih hbody]
    rfl
  | case4 cs =>
    cases h
    rfl
  | case5 c cs _ _ _ ih =>
    obtain ⟨⟨value', n'⟩, hbody, heq⟩ := Option.map_eq_some_iff.mp h
    cases heq
    rw [List.take_succ_cons, List.getLast?_cons, ih hbody]
    rfl

theorem endsLine_cons (hc : isBreak c = false) (h : EndsLine (c :: cs)) : EndsLine cs := by
  refine h.suffix (List.suffix_cons c cs) ?_
  rintro rfl
  obtain ⟨d, hd, hbreak⟩ := h
  cases hd
  cases hc.symm.trans hbreak

/-- **A lexeme in front of a line** ends in front of it, whatever the line is. -/
theorem next_front (hc : isBreak c = false) (hend : EndsLine (c :: cs))
    (hdepth : depthBehind none depth (c :: cs) = some depth') (g : Grammar) (afterOperand : Bool) (start : Nat) :
    ∃ x, (∀ rest, Lexeme.next g afterOperand c (cs ++ rest) start = x) ∧ ∀ l, x = .ok l →
      l.length < (c :: cs).length ∧
      depthBehind none (depthAfter depth c) ((c :: cs).drop l.length) = some depth' := by
  have hcs := endsLine_cons hc hend
  by_cases hquote : c = '"' ∨ c = '\''
  · rw [depthBehind, if_pos hquote] at hdepth
    obtain ⟨value, n, hbody, hbehind⟩ := textBody?_of_depthBehind hdepth
    obtain ⟨hrecut, hlength⟩ : (∀ rest, Lexeme.textBody? c (cs.take n ++ rest) = some (value, n)) ∧
        (cs.take n).length = n :=
      ⟨fun rest => (Lexeme.textBody?_recut hbody rest).1, (Lexeme.textBody?_recut hbody []).2⟩
    have hle : n ≤ cs.length := by
      rw [List.length_take] at hlength
      omega
    have hbracket : depthAfter depth c = depth := by
      rcases hquote with rfl | rfl <;> rfl
    refine ⟨.ok ⟨n + 1, .literal (.text (String.ofList value)), c :: cs.take n⟩, fun rest => ?_, fun l hl => ?_⟩
    · have hbody' : Lexeme.textBody? c (cs ++ rest) = some (value, n) := by
        rw [← List.take_append_drop n cs, List.append_assoc]
        exact hrecut _
      unfold Lexeme.next
      rw [if_pos hquote, Lexeme.quotedText, List.drop_succ_cons, List.drop_zero, hbody']
      dsimp only
      rw [List.take_succ_cons, List.take_append_of_le_length hle]
    · cases hl
      rw [hbracket]
      refine ⟨Nat.succ_lt_succ (Nat.lt_of_le_of_ne hle fun hn => ?_), hbehind⟩
      -- the last character of a text is its quotation mark
      obtain ⟨d, hd, hbreak⟩ := hcs
      have hlast := getLast?_textBody? hbody
      rw [hn, List.take_length] at hlast
      cases hlast.symm.trans hd
      cases hc.symm.trans hbreak
  · refine ⟨Lexeme.next g afterOperand c (Text.line cs) start, fun rest => ?_, fun l hl => ?_⟩
    · rw [← Text.line_append hcs.exists_isBreak rest, Lexeme.next_line hquote hc]
    · have hle := (Lexeme.next_taken hl).length_le
      have hlt := Text.line_length_lt hcs.exists_isBreak
      rw [Lexeme.next_line hquote hc] at hl
      rw [List.length_cons] at hle
      refine ⟨Nat.lt_of_le_of_lt hle (Nat.succ_lt_succ hlt), ?_⟩
      rw [← depthBehind_drop hquote hl, hdepth]

/-! ## Indentation in front of a line -/

theorem skipIndentation_add (width passed n : Nat) (cs : List Char) :
    skipIndentation width (passed + n) cs =
      ((skipIndentation width passed cs).1, (skipIndentation width passed cs).2.1 + n,
        (skipIndentation width passed cs).2.2) := by
  fun_induction skipIndentation width passed cs with
  | case1 => rfl
  | case2 width passed cs ih =>
    rw [skipIndentation, if_pos rfl, Nat.add_right_comm]
    exact ih
  | case3 width passed cs hspace ih =>
    rw [skipIndentation, if_neg hspace, if_pos rfl, Nat.add_right_comm]
    exact ih
  | case4 width passed c cs hspace htab hbreak ih =>
    rw [skipIndentation, if_neg hspace, if_neg htab, if_pos hbreak, Nat.add_right_comm]
    exact ih
  | case5 width passed c cs hspace htab hbreak => rw [skipIndentation, if_neg hspace, if_neg htab, if_neg hbreak]

/-- Indentation that stops does so whatever follows. -/
theorem skipIndentation_append {width passed width' passed' : Nat} {rest : List Char}
    (h : skipIndentation width passed cs = (width', passed', rest)) (hne : rest ≠ []) (more : List Char) :
    skipIndentation width passed (cs ++ more) = (width', passed', rest ++ more) := by
  fun_induction skipIndentation width passed cs with
  | case1 =>
    cases h
    exact absurd rfl hne
  | case2 width passed cs ih =>
    rw [List.cons_append, skipIndentation, if_pos rfl]
    exact ih h
  | case3 width passed cs hspace ih =>
    rw [List.cons_append, skipIndentation, if_neg hspace, if_pos rfl]
    exact ih h
  | case4 width passed c cs hspace htab hbreak ih =>
    rw [List.cons_append, skipIndentation, if_neg hspace, if_neg htab, if_pos hbreak]
    exact ih h
  | case5 width passed c cs hspace htab hbreak =>
    cases h
    rw [List.cons_append, skipIndentation, if_neg hspace, if_neg htab, if_neg hbreak]

theorem isBreak_iff : isBreak c ↔ c = '\n' ∨ c = '\r' := by
  simp [isBreak]

/-- Lines of indentation are passed over. -/
theorem skipIndentation_lines {blank : List Char} (hblank : ∀ c ∈ blank, IsIndentation c) (hend : EndsLine blank)
    (width passed : Nat) (cs : List Char) :
    skipIndentation width passed (blank ++ cs) = skipIndentation 0 (passed + blank.length) cs := by
  induction blank generalizing width passed with
  | nil => exact absurd rfl hend.ne_nil
  | cons c blank ih =>
    obtain ⟨hc, hblank⟩ := List.forall_mem_cons.mp hblank
    rw [List.cons_append, List.length_cons, Nat.add_comm blank.length 1, ← Nat.add_assoc]
    have hnext (width : Nat) (hrest : blank ≠ []) :
        skipIndentation width (passed + 1) (blank ++ cs) = skipIndentation 0 (passed + 1 + blank.length) cs :=
      ih hblank (hend.suffix (List.suffix_cons c blank) hrest) width (passed + 1)
    by_cases hbreak : isBreak c
    · have hstep :
          skipIndentation width passed (c :: (blank ++ cs)) = skipIndentation 0 (passed + 1) (blank ++ cs) := by
        rcases isBreak_iff.mp hbreak with rfl | rfl <;> rfl
      rw [hstep]
      by_cases hrest : blank = []
      · rw [hrest]
        rfl
      · exact hnext 0 hrest
    · have hrest : blank ≠ [] := by
        rintro rfl
        obtain ⟨d, hd, hd'⟩ := hend
        cases hd
        exact hbreak hd'
      simp only [IsIndentation, List.mem_cons, List.not_mem_nil, or_false] at hc
      rcases hc with rfl | rfl | rfl | rfl
      · exact hnext _ hrest
      · exact hnext _ hrest
      · exact absurd rfl hbreak
      · exact absurd rfl hbreak

/-! ## Steps -/

theorem step_line (hc : isBreak c) (hdepth : s.depth = 0) (g : Grammar) (cs : List Char) :
    s.step g c cs = (s.skip 1).startLine := by
  unfold step
  rw [if_pos (isBreak_iff.mp hc), if_pos hdepth]

theorem step_blank (hc : Text.isBlank c) (hline : isBreak c → s.depth ≠ 0) (g : Grammar) (cs : List Char) :
    s.step g c cs = .ok (s.skip 1) := by
  unfold step
  by_cases hbreak : isBreak c
  · rw [if_pos (isBreak_iff.mp hbreak), if_neg (hline hbreak)]
  · rw [if_neg (mt isBreak_iff.mpr hbreak), if_pos hc]

theorem step_lexeme (hc : Text.isBlank c = false) (g : Grammar) (cs : List Char) : s.step g c cs =
    Lexeme.next g s.afterOperand c cs s.position >>= fun l => .ok (s.take c l) := by
  have hbreak : ¬(c = '\n' ∨ c = '\r') := by
    rintro (rfl | rfl) <;> cases hc
  unfold step
  rw [if_neg hbreak, if_neg (by simp [hc])]
  rfl

/-! ## To the beginning of a line -/

/-- The scanner with other source text ahead. -/
def on (s : Scanner) (cs : List Char) : Scanner := { s with rest := cs }

theorem layOut_on (s : Scanner) (width : Nat) (cs : List Char) :
    (s.on cs).layOut width = (·.on cs) <$> s.layOut width := by
  unfold layOut
  dsimp only [on]
  cases s.indents with
  | nil => rfl
  | cons top indents =>
    dsimp only
    split
    · rfl
    split <;> rfl

/-- Lines of indentation in front of a line change only where it is. -/
theorem startLine_lines {blank : List Char} (hblank : ∀ c ∈ blank, IsIndentation c) (hend : EndsLine blank)
    (s : Scanner) (cs : List Char) : (s.on (blank ++ cs)).startLine = ((s.skip blank.length).on cs).startLine := by
  unfold startLine
  dsimp only [on, skip]
  rw [skipIndentation_lines hblank hend, skipIndentation_add]
  dsimp only
  rw [Nat.add_assoc s.position blank.length, Nat.add_comm blank.length]

/-- A line begins where its indentation stops, whatever follows. -/
theorem startLine_append {width passed : Nat} {rest : List Char} (h : skipIndentation 0 0 cs = (width, passed, rest))
    (hrest : rest ≠ []) (more : List Char) :
    (s.on (cs ++ more)).startLine = (·.on (rest ++ more)) <$> (s.skip passed).layOut width := by
  rw [← layOut_on]
  unfold startLine
  dsimp only [on, skip]
  rw [skipIndentation_append h hrest]
  dsimp only
  rw [if_neg (by simp [hrest])]

/-- **A scan comes to a line**, which begins outside brackets, in the same way whatever the line is. If no line has
been laid out then, there are no tokens. -/
def ComesToLine (g : Grammar) (scan : List Char → Except SourceFault Scanner) : Prop :=
  ∃ x : Except SourceFault Scanner, (∀ s, x = .ok s → s.depth = 0 ∧ (s.indents = [] → s.tokens = [])) ∧
    ∀ cs, scan cs = x >>= fun s => (s.on cs).finishLines g

namespace ComesToLine

theorem error (g : Grammar) (f : SourceFault) : ComesToLine g fun _ => .error f := by
  refine ⟨.error f, fun s hs => ?_, fun _ => rfl⟩
  cases hs

theorem self (g : Grammar) (hdepth : s.depth = 0) (htokens : s.indents = [] → s.tokens = []) :
    ComesToLine g fun cs => (s.on cs).finishLines g := by
  refine ⟨.ok s, fun s' hs' => ?_, fun cs => rfl⟩
  cases hs'
  exact ⟨hdepth, htokens⟩

theorem congr {scan scan' : List Char → Except SourceFault Scanner} (h : ComesToLine g scan')
    (heq : ∀ cs, scan cs = scan' cs) : ComesToLine g scan := by
  obtain ⟨x, hx, hscan⟩ := h
  exact ⟨x, hx, fun cs => (heq cs).trans (hscan cs)⟩

end ComesToLine

/-- Lines in front of a line, if what begins with a lexeme there is scanned in the same way. -/
theorem comesToLine_startLine {front : List Char} (hfront : front = [] ∨ EndsLine front)
    (hbehind : depthBehind none s.depth front = some 0) (hdepth : s.depth = 0)
    (htokens : s.indents = [] → s.tokens = [])
    (h : ∀ (s' : Scanner) (front' : List Char), front'.length ≤ front.length → EndsLine front' → s'.indents ≠ [] →
      depthBehind none s'.depth front' = some 0 → ComesToLine g fun cs => (s'.on (front' ++ cs)).finish g) :
    ComesToLine g fun cs => (s.on (front ++ cs)).finishLines g := by
  cases hskip : skipIndentation 0 0 front with
  | mk width line =>
  obtain ⟨passed, rest⟩ := line
  obtain ⟨blank, rfl, -, hblank⟩ := skipIndentation_eq hskip
  by_cases hrest : rest = []
  · subst hrest
    rw [List.append_nil] at hfront ⊢
    rcases hfront with rfl | hend
    · exact .self g hdepth htokens
    · have hline := ComesToLine.self g (s := s.skip blank.length) hdepth htokens
      refine hline.congr fun cs => ?_
      rw [finishLines, startLine_lines hblank hend, finishLines]
  have hend : EndsLine rest :=
    (hfront.resolve_left (List.append_ne_nil_of_right_ne_nil blank hrest)).suffix (List.suffix_append _ _) hrest
  cases hlay : (s.skip passed).layOut width with
  | error f =>
    refine (ComesToLine.error g f).congr fun cs => ?_
    rw [finishLines, startLine_append hskip hrest, hlay]
    rfl
  | ok s' =>
    obtain ⟨indents, kinds, rfl, hindents, -⟩ := layOut_eq_ok hlay
    have hinner : ∀ c ∈ blank, Lexeme.IsInner c := fun c hc => Lexeme.isInner_of (by decide) (hblank c hc).isBlank
    have hbehind' : depthBehind none s.depth rest = some 0 := by
      rw [← depthBehind_inner hinner]
      exact hbehind
    have hlength : rest.length ≤ (blank ++ rest).length := by
      rw [List.length_append]
      exact Nat.le_add_left _ _
    refine (h ({ s.skip passed with indents }.addLayout kinds) rest hlength hend hindents hbehind').congr fun cs => ?_
    rw [finishLines, startLine_append hskip hrest, hlay]
    rfl

/-- A lexeme in front of a line, if what is behind it is scanned in the same way. -/
theorem comesToLine_lexeme {front : List Char} (hvisible : Text.isBlank c = false) (hend : EndsLine (c :: front))
    (hbehind : depthBehind none s.depth (c :: front) = some 0)
    (h : ∀ (s' : Scanner) (front' : List Char), front'.length < (c :: front).length → EndsLine front' →
      s'.indents = s.indents → depthBehind none s'.depth front' = some 0 →
      ComesToLine g fun cs => (s'.on (front' ++ cs)).finish g) :
    ComesToLine g fun cs => (s.on (c :: front ++ cs)).finish g := by
  have hbreak : isBreak c = false := by
    cases hc : isBreak c with
    | false => rfl
    | true => rcases isBreak_iff.mp hc with rfl | rfl <;> cases hvisible
  obtain ⟨x, hnext, hx⟩ := next_front hbreak hend hbehind g s.afterOperand s.position
  have hfinish (cs : List Char) : (s.on (c :: front ++ cs)).finish g =
      (x >>= fun l => .ok ((s.on (c :: front ++ cs)).take c l)) >>= fun s' => s'.finish g := by
    rw [finish_cons (s := s.on (c :: front ++ cs)) rfl, step_lexeme hvisible]
    show ((Lexeme.next g s.afterOperand c (front ++ cs) s.position >>= fun l => _) >>= fun s' => _) = _
    rw [hnext]
  cases x with
  | error f =>
    refine (ComesToLine.error g f).congr fun cs => ?_
    rw [hfinish]
    rfl
  | ok l =>
    obtain ⟨hlength, hbehind'⟩ := hx l rfl
    have hpos : 0 < l.length := (Lexeme.next_taken (hnext [])).length_pos
    have hless : ((c :: front).drop l.length).length < (c :: front).length := by
      rw [List.length_drop]
      exact Nat.sub_lt (Nat.succ_pos _) hpos
    refine (h ((s.on (c :: front)).take c l) _ hless (hend.drop hlength) rfl hbehind').congr fun cs => ?_
    have htake : (s.on (c :: front ++ cs)).take c l =
        ((s.on (c :: front)).take c l).on ((c :: front).drop l.length ++ cs) := by
      rw [← List.drop_append_of_le_length (Nat.le_of_lt hlength)]
      rfl
    rw [hfinish, ← htake]
    rfl

/-- **What stands in front of a line** is scanned in the same way, whatever the line is. -/
theorem comesToLine_finish (g : Grammar) (n : Nat) (s : Scanner) (front : List Char) (hn : front.length ≤ n)
    (hend : EndsLine front) (hindents : s.indents ≠ []) (hbehind : depthBehind none s.depth front = some 0) :
    ComesToLine g fun cs => (s.on (front ++ cs)).finish g := by
  induction n generalizing s front with
  | zero => exact absurd (List.length_eq_zero_iff.mp (Nat.le_zero.mp hn)) hend.ne_nil
  | succ n ih =>
  obtain ⟨c, front, rfl⟩ := List.exists_cons_of_ne_nil hend.ne_nil
  replace hn : front.length ≤ n := Nat.le_of_succ_le_succ hn
  have hfront : front = [] ∨ EndsLine front := or_iff_not_imp_left.mpr (hend.suffix (List.suffix_cons c front))
  have hfinish (cs : List Char) : (s.on (c :: front ++ cs)).finish g =
      (s.on (c :: front ++ cs)).step g c (front ++ cs) >>= fun s' => s'.finish g := finish_cons rfl
  by_cases hblank : Text.isBlank c
  · have hbehind' : depthBehind none s.depth front = some 0 := by
      rw [← depthBehind_inner (List.forall_mem_singleton.mpr (Lexeme.isInner_of (by decide) hblank))]
      exact hbehind
    by_cases hline : isBreak c ∧ s.depth = 0
    · obtain ⟨hbreak, hdepth⟩ := hline
      refine (comesToLine_startLine (s := s.skip 1) hfront hbehind' hdepth (fun hnil => absurd hnil hindents)
        fun s' front' hle => ih s' front' (hle.trans hn)).congr fun cs => ?_
      rw [hfinish, step_line (s := s.on (c :: front ++ cs)) hbreak hdepth]
      rfl
    · have hne : front ≠ [] := by
        rintro rfl
        obtain ⟨d, hd, hbreak⟩ := hend
        cases hd
        exact hline ⟨hbreak, Option.some.inj hbehind'⟩
      refine (ih (s.skip 1) front hn (hfront.resolve_left hne) hindents hbehind').congr fun cs => ?_
      have hpassed : isBreak c → (s.on (c :: front ++ cs)).depth ≠ 0 := fun hbreak hdepth => hline ⟨hbreak, hdepth⟩
      rw [hfinish, step_blank hblank hpassed]
      rfl
  have hvisible : Text.isBlank c = false := by simpa using hblank
  refine comesToLine_lexeme hvisible hend hbehind fun s' front' hlength hend' hindents' => ?_
  rw [List.length_cons] at hlength
  exact ih s' front' (by omega) hend' (hindents' ▸ hindents)

end Scanner

/-- **A scan comes to every line** that begins outside texts and brackets in the same way, whatever the line is. -/
theorem Token.scan_front (g : Grammar) {front : List Char} (hfront : front = [] ∨ EndsLine front)
    (hbehind : Scanner.depthBehind none 0 front = some 0) :
    ∃ x : Except SourceFault Scanner, (∀ s, x = .ok s → s.depth = 0 ∧ (s.indents = [] → s.tokens = [])) ∧
      ∀ cs, scan g (String.ofList (front ++ cs)) = Scanner.found <$> (x >>= fun s => (s.on cs).finishLines g) := by
  have hcomes : Scanner.ComesToLine g fun cs => ((Scanner.mk [] 0 [] [] 0).on (front ++ cs)).finishLines g :=
    Scanner.comesToLine_startLine hfront hbehind rfl (fun _ => rfl) fun s front' hle =>
      Scanner.comesToLine_finish g _ s front' (Nat.le_refl _)
  obtain ⟨x, hx, hscan⟩ := hcomes
  refine ⟨x, hx, fun cs => ?_⟩
  rw [scan_eq, String.toList_ofList, ← hscan]
  rfl

end Cellbook
