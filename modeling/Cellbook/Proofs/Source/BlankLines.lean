import Cellbook.Proofs.Source.Lockstep

/-!
# Blank lines

A line of spaces and tabs changes nothing but places, wherever it is put in between two lines, as long as it is not
inside brackets or a text (`Token.scan_blankLine`). This is not so of a line with other white space: it is
laid out as a line, so that it begins a block or ends blocks, or separates entries that are not there.
-/

namespace Cellbook

open Text (isBreak EndsLine)
open Token (look)

namespace Scanner

variable {g : Grammar} {s s' : Scanner} {c : Char} {cs : List Char}

/-! ## Lines of spaces and tabs -/

/-- The ends of lines. -/
def endings : List (List Char) := [['\n'], ['\r'], ['\r', '\n']]

theorem endsLine_of_ending {ending : List Char} (hending : ending ∈ endings) : EndsLine ending := by
  simp only [endings, List.mem_cons, List.not_mem_nil, or_false] at hending
  rcases hending with rfl | rfl | rfl
  all_goals exact ⟨_, rfl, rfl⟩

theorem isIndentation_of_ending {ending : List Char} (hending : ending ∈ endings) :
    ∀ c ∈ ending, IsIndentation c := by
  intro c hc
  have hall : endings.all fun cs => cs.all fun c => [' ', '\t', '\n', '\r'].contains c := by decide
  exact List.contains_iff_mem.mp (List.all_eq_true.mp (List.all_eq_true.mp hall ending hending) c hc)

/-- **Lines of spaces and tabs** in front of a line change nothing but places. -/
theorem finishLines_lines {blank : List Char} (hblank : ∀ c ∈ blank, IsIndentation c) (hend : EndsLine blank)
    (s : Scanner) (cs : List Char) :
    AgreeApart Alike ((s.on cs).finishLines g) ((s.on (blank ++ cs)).finishLines g) := by
  have halike : Alike (s.on cs) ((s.skip blank.length).on cs) := ⟨rfl, rfl, rfl, rfl⟩
  have hlines : (s.on (blank ++ cs)).finishLines g = ((s.skip blank.length).on cs).finishLines g := by
    rw [finishLines, startLine_lines hblank hend, finishLines]
  rw [hlines]
  exact finishLines_alike halike g

/-- A line of spaces and tabs is indentation to its end. -/
theorem isIndentation_blankLine {line ending : List Char} (hspaces : ∀ c ∈ line, c = ' ' ∨ c = '\t')
    (hending : ending ∈ endings) : ∀ c ∈ line ++ ending, IsIndentation c := by
  rw [List.forall_mem_append]
  refine ⟨fun c hc => ?_, isIndentation_of_ending hending⟩
  rcases hspaces c hc with rfl | rfl <;> simp [IsIndentation]

/-! ## Lines that are laid out -/

/-- A kind of token that a line is laid out with. -/
def beginsLine : TokenKind → Bool
  | .indent | .newline => true
  | _ => false

/-- The number of lines behind the first one that are laid out. -/
def lineCount (ts : List Token) : Nat := ts.countP (beginsLine ·.kind)

theorem countP_dedents (n : Nat) : (List.replicate n TokenKind.dedent).countP beginsLine = 0 := by
  rw [List.countP_replicate]
  rfl

theorem lineCount_addLayout (s : Scanner) (kinds : List TokenKind) :
    lineCount (s.addLayout kinds).tokens = lineCount s.tokens + kinds.countP beginsLine := by
  rw [addLayout_tokens, lineCount, List.countP_append, List.countP_reverse, List.countP_map, Nat.add_comm]
  rfl

theorem lineCount_eq {ts us : List Token} (h : ts.map look = us.map look) : lineCount ts = lineCount us := by
  have hcount (ts : List Token) : lineCount ts = (ts.map look).countP (beginsLine ·.1) := by
    rw [List.countP_map]
    rfl
  rw [hcount, hcount, h]

theorem lineCount_found (s : Scanner) : lineCount s.found = lineCount s.tokens := by
  have hclose := lineCount_addLayout s (List.replicate (s.indents.length - 1) .dedent)
  rw [countP_dedents, Nat.add_zero] at hclose
  rw [← hclose]
  exact List.countP_reverse

/-- **A further line** is one line more, and no operand stands in front of its first lexeme. -/
theorem layOut_further {width : Nat} (h : s.layOut width = .ok s') (hindents : s.indents ≠ []) :
    lineCount s'.tokens = lineCount s.tokens + 1 ∧ s'.afterOperand = false := by
  obtain ⟨indents, kinds, rfl, -, ⟨hnone, -⟩ | ⟨-, closed, kind, rfl, hkind⟩⟩ := layOut_eq_ok h
  · exact absurd hnone hindents
  have hbegins : beginsLine kind := by
    rcases hkind with ⟨rfl, -⟩ | ⟨rfl, -⟩ <;> decide
  constructor
  · rw [lineCount_addLayout, List.countP_append, countP_dedents, List.countP_singleton, if_pos hbegins]
  · show ((_ ++ s.tokens).head?.any _) = false
    rw [List.map_append, List.reverse_append]
    rcases hkind with ⟨rfl, -⟩ | ⟨rfl, -⟩ <;> rfl

/-- The second scanner has laid out one line more than the first one. -/
structure OneLineMore (s s' : Scanner) : Prop where
  rest : s'.rest = s.rest
  depth : s'.depth = s.depth
  afterOperand : s'.afterOperand = s.afterOperand
  indents : s.indents ≠ []
  indents' : s'.indents ≠ []
  lines : lineCount s'.tokens = lineCount s.tokens + 1

/-- If there are two results, they are related. -/
def IfBoth {α β : Type} (R : α → β → Prop) (x : Except SourceFault α) (y : Except SourceFault β) : Prop :=
  ∀ a b, x = .ok a → y = .ok b → R a b

theorem IfBoth.bind {α β γ δ : Type} {R : α → β → Prop} {S : γ → δ → Prop} {x : Except SourceFault α}
    {y : Except SourceFault β} {k : α → Except SourceFault γ} {k' : β → Except SourceFault δ}
    (h : IfBoth R x y) (hk : ∀ a b, R a b → IfBoth S (k a) (k' b)) : IfBoth S (x >>= k) (y >>= k') := by
  intro c d hc hd
  cases x with
  | error f => cases hc
  | ok a =>
  cases y with
  | error f => cases hd
  | ok b => exact hk a b (h a b rfl rfl) c d hc hd

/-- The second scanner has laid out a line that the first one has not, where a line begins. -/
structure LineBefore (s s' : Scanner) : Prop where
  rest : s'.rest = s.rest
  depth : s'.depth = s.depth
  indents' : s'.indents ≠ []
  first : s.indents = [] → s.tokens = [] ∧ lineCount s'.tokens = 0
  further : s.indents ≠ [] → lineCount s'.tokens = lineCount s.tokens + 1

theorem OneLineMore.lineBefore (h : OneLineMore s s') : LineBefore s s' :=
  ⟨h.rest, h.depth, h.indents', fun hnil => absurd hnil h.indents, fun _ => h.lines⟩

theorem layOut_oneLineMore (h : LineBefore s s') (width : Nat) :
    IfBoth OneLineMore (s.layOut width) (s'.layOut width) := by
  intro a b ha hb
  obtain ⟨hlines', hafter'⟩ := layOut_further hb h.indents'
  obtain ⟨indents', kinds', rfl, hindents', -⟩ := layOut_eq_ok hb
  by_cases hnil : s.indents = []
  · obtain ⟨htokens, hcount⟩ := h.first hnil
    obtain ⟨indents, kinds, rfl, hindents, ⟨-, rfl, -⟩ | ⟨hne, -⟩⟩ := layOut_eq_ok ha
    · refine ⟨h.rest, h.depth, hafter'.trans ?_, hindents, hindents', ?_⟩
      · show _ = s.tokens.head?.any _
        rw [htokens]
        rfl
      · rw [hlines', hcount]
        show _ = lineCount s.tokens + 1
        rw [htokens]
        rfl
    · exact absurd hnil hne
  · obtain ⟨hlines, hafter⟩ := layOut_further ha hnil
    obtain ⟨indents, kinds, rfl, hindents, -⟩ := layOut_eq_ok ha
    refine ⟨h.rest, h.depth, hafter'.trans hafter.symm, hindents, hindents', ?_⟩
    rw [hlines', hlines, h.further hnil]

theorem lineCount_take {l : Lexeme} (hkind : l.kind.isLayout = false) (s : Scanner) (c : Char) :
    lineCount (s.take c l).tokens = lineCount s.tokens := by
  have hlexeme : ¬beginsLine l.kind := by
    intro hbegins
    cases hl : l.kind with
    | indent | newline =>
      rw [hl] at hkind
      cases hkind
    | _ =>
      rw [hl] at hbegins
      cases hbegins
  exact List.countP_cons_of_neg hlexeme

theorem OneLineMore.take (h : OneLineMore s s') (c : Char) {l : Lexeme} (hkind : l.kind.isLayout = false) :
    OneLineMore (s.take c l) (s'.take c l) where
  rest := congrArg (List.drop l.length) h.rest
  depth := congrArg (depthAfter · c) h.depth
  afterOperand := rfl
  indents := h.indents
  indents' := h.indents'
  lines := by rw [lineCount_take hkind, lineCount_take hkind, h.lines]

/-- **Scanners go in step** though one has laid out a line more, if both have no fault. -/
theorem lockstep_oneLineMore : Lockstep OneLineMore (IfBoth OneLineMore) where
  rest := OneLineMore.rest
  depth := OneLineMore.depth
  afterOperand := OneLineMore.afterOperand
  move _ _ _ h := ⟨rfl, h.depth, h.afterOperand, h.indents, h.indents', h.lines⟩
  take c l h hkind := h.take c hkind
  layOut width h := layOut_oneLineMore h.lineBefore width
  ok h _ _ ha hb := by
    cases ha
    cases hb
    exact h
  error _ _ _ ha := by cases ha
  bind h hk := h.bind hk

/-! ## Lines of other white space -/

theorem skip_skip_on (s : Scanner) (m n : Nat) (cs : List Char) :
    ((s.skip m).skip n).on cs = (s.skip (m + n)).on cs := by
  unfold on skip
  rw [Nat.add_assoc]

/-- White space that ends no line is passed over. -/
theorem finish_blanks {blank : List Char} (s : Scanner)
    (hblank : ∀ c ∈ blank, Text.isBlank c ∧ (isBreak c → s.depth ≠ 0)) (cs : List Char) :
    (s.on (blank ++ cs)).finish g = ((s.skip blank.length).on cs).finish g := by
  induction blank generalizing s with
  | nil => rfl
  | cons c blank ih =>
    obtain ⟨⟨hc, hpassed⟩, hblank⟩ := List.forall_mem_cons.mp hblank
    have hfinish : (s.on (c :: blank ++ cs)).finish g =
        (s.on (c :: blank ++ cs)).step g c (blank ++ cs) >>= fun s' => s'.finish g := finish_cons rfl
    rw [hfinish, step_blank (s := s.on (c :: blank ++ cs)) hc hpassed]
    show ((s.skip 1).on (blank ++ cs)).finish g = _
    rw [ih (s.skip 1) hblank, skip_skip_on, List.length_cons, Nat.add_comm]

/-- Outside brackets a line begins behind the end of another one. -/
theorem finish_ending {ending : List Char} (hending : ending ∈ endings) (hdepth : s.depth = 0) (cs : List Char) :
    (s.on (ending ++ cs)).finish g = ((s.skip ending.length).on cs).finishLines g := by
  have hline {c : Char} (hc : isBreak c) (cs : List Char) :
      (s.on (c :: cs)).finish g = ((s.skip 1).on cs).finishLines g := by
    have hfinish : (s.on (c :: cs)).finish g = (s.on (c :: cs)).step g c cs >>= fun s' => s'.finish g :=
      finish_cons rfl
    rw [hfinish, step_line (s := s.on (c :: cs)) hc hdepth]
    rfl
  simp only [endings, List.mem_cons, List.not_mem_nil, or_false] at hending
  rcases hending with rfl | rfl | rfl
  · exact hline rfl cs
  · exact hline rfl cs
  · have hsecond : EndsLine ['\n'] := ⟨'\n', rfl, rfl⟩
    have hindents : ∀ c ∈ ['\n'], IsIndentation c := List.forall_mem_singleton.mpr (by simp [IsIndentation])
    refine (hline rfl ('\n' :: cs)).trans ?_
    rw [finishLines, ← List.singleton_append, startLine_lines hindents hsecond, skip_skip_on]
    rfl

/-- **A line of white space other than spaces and tabs** is laid out, and then the next line is. -/
theorem finishLines_laidOut {line ending : List Char} (hline : ∀ c ∈ line, Text.isBlank c ∧ isBreak c = false)
    (hother : ¬∀ c ∈ line, c = ' ' ∨ c = '\t') (hending : ending ∈ endings) (g : Grammar) (s : Scanner)
    (hdepth : s.depth = 0) : ∃ width passed n, ∀ cs, (s.on (line ++ (ending ++ cs))).finishLines g =
      (s.skip passed).layOut width >>= fun s' => ((s'.skip n).on cs).finishLines g := by
  cases hskip : skipIndentation 0 0 line with
  | mk width left =>
  obtain ⟨passed, left⟩ := left
  obtain ⟨front, rfl, -, hfront⟩ := skipIndentation_eq hskip
  have hleft : left ≠ [] := by
    rintro rfl
    rw [List.append_nil] at hline hother
    refine hother fun c hc => ?_
    have hbreak := (hline c hc).2
    have hindents := hfront c hc
    simp only [IsIndentation, List.mem_cons, List.not_mem_nil, or_false] at hindents
    rcases hindents with rfl | rfl | rfl | rfl
    · exact .inl rfl
    · exact .inr rfl
    · cases hbreak
    · cases hbreak
  refine ⟨width, passed, left.length + ending.length, fun cs => ?_⟩
  rw [finishLines, startLine_append hskip hleft]
  cases hlay : (s.skip passed).layOut width with
  | error f => rfl
  | ok s' =>
    have hdepth' : (s'.skip left.length).depth = 0 := by
      obtain ⟨indents, kinds, rfl, -⟩ := layOut_eq_ok hlay
      exact hdepth
    have hleft : ∀ c ∈ left, Text.isBlank c ∧ (isBreak c → s'.depth ≠ 0) := by
      intro c hc
      obtain ⟨hblank, hbreak⟩ := hline c (List.mem_append_right _ hc)
      exact ⟨hblank, fun h => Bool.noConfusion (hbreak.symm.trans h)⟩
    show (s'.on (left ++ (ending ++ cs))).finish g = _
    rw [finish_blanks s' hleft, finish_ending hending hdepth', skip_skip_on]
    rfl

theorem finish_nil (hrest : s.rest = []) : s.finish g = .ok s := run_nil hrest _

theorem found_eq_nil (hindents : s.indents = []) (htokens : s.tokens = []) : s.found = [] := by
  unfold found close
  rw [addLayout_tokens, hindents, htokens]
  rfl

/-- **A line laid out before** stays in the tokens, if there are any. -/
theorem finishLines_oneLineMore (h : LineBefore s s') :
    IfBoth (fun a b => a.found ≠ [] → lineCount b.found = lineCount a.found + 1) (s.finishLines g)
      (s'.finishLines g) := by
  unfold finishLines startLine
  rw [h.rest]
  dsimp only
  split
  next hend =>
    intro a b ha hb hfound
    have hnil := List.isEmpty_iff.mp hend
    replace ha := (finish_nil hnil).symm.trans ha
    replace hb := (finish_nil hnil).symm.trans hb
    cases ha
    cases hb
    have hindents : s.indents ≠ [] := fun hnone => hfound (found_eq_nil hnone (h.first hnone).1)
    rw [lineCount_found, lineCount_found]
    exact h.further hindents
  next =>
    refine (layOut_oneLineMore ?_ _).bind fun a b hab => ?_
    · exact ⟨rfl, h.depth, h.indents', h.first, h.further⟩
    · intro a' b' ha hb _
      rw [lineCount_found, lineCount_found]
      exact (lockstep_oneLineMore.finish hab g a' b' ha hb).lines

theorem layOut_lineBefore {width passed : Nat} (h : (s.skip passed).layOut width = .ok s')
    (htokens : s.indents = [] → s.tokens = []) (n : Nat) (cs : List Char) :
    LineBefore (s.on cs) ((s'.skip n).on cs) := by
  have hfurther (hne : s.indents ≠ []) : lineCount s'.tokens = lineCount s.tokens + 1 := (layOut_further h hne).1
  obtain ⟨indents, kinds, rfl, hindents, ⟨-, rfl, -⟩ | ⟨hne, -⟩⟩ := layOut_eq_ok h
  · refine ⟨rfl, rfl, hindents, fun hnil => ⟨htokens hnil, ?_⟩, hfurther⟩
    show lineCount s.tokens = 0
    rw [htokens hnil]
    rfl
  · exact ⟨rfl, rfl, hindents, fun hnil => absurd hnil hne, hfurther⟩

/-- **A line of other white space** is a line more in the tokens, if there are any. -/
theorem finishLines_otherLine {line ending : List Char} (hline : ∀ c ∈ line, Text.isBlank c ∧ isBreak c = false)
    (hother : ¬∀ c ∈ line, c = ' ' ∨ c = '\t') (hending : ending ∈ endings) (hdepth : s.depth = 0)
    (htokens : s.indents = [] → s.tokens = []) (rest : List Char) :
    IfBoth (fun a b => a.found ≠ [] → lineCount b.found = lineCount a.found + 1) ((s.on rest).finishLines g)
      ((s.on (line ++ (ending ++ rest))).finishLines g) := by
  obtain ⟨width, passed, n, hblank⟩ := finishLines_laidOut hline hother hending g s hdepth
  rw [hblank]
  cases hlay : (s.skip passed).layOut width with
  | error f =>
    intro a b _ hb
    cases hb
  | ok s' => exact finishLines_oneLineMore (layOut_lineBefore hlay htokens n rest)

end Scanner

/-! ## Blank lines between lines -/

namespace Token

variable {g : Grammar} {front line ending rest : List Char}

/-- **Blank lines do not matter**, outside texts and brackets, if they are of spaces and tabs: the source has the same
tokens, or a fault for the same cause. Of other white space they always do, in a source that has tokens. -/
theorem scan_blankLine (g : Grammar) (hfront : front = [] ∨ EndsLine front)
    (hbehind : Scanner.depthBehind none 0 front = some 0) (hline : ∀ c ∈ line, Text.isBlank c ∧ isBreak c = false)
    (hending : ending ∈ Scanner.endings) (rest : List Char) :
    ((∀ c ∈ line, c = ' ' ∨ c = '\t') →
      looks (scan g (String.ofList (front ++ (line ++ (ending ++ rest))))) =
        looks (scan g (String.ofList (front ++ rest)))) ∧
    ∀ ts, scan g (String.ofList (front ++ rest)) = .ok ts → ts ≠ [] →
      looks (scan g (String.ofList (front ++ (line ++ (ending ++ rest))))) = looks (.ok ts) →
      ∀ c ∈ line, c = ' ' ∨ c = '\t' := by
  obtain ⟨x, hx, hscan⟩ := scan_front g hfront hbehind
  rw [hscan, hscan]
  constructor
  · intro hspaces
    have hblank := Scanner.isIndentation_blankLine hspaces hending
    rw [← List.append_assoc]
    cases x with
    | error f => rfl
    | ok s =>
      exact looks_found (Scanner.finishLines_lines hblank ((Scanner.endsLine_of_ending hending).append line) s rest)
  · intro ts hts hne hlooks
    by_contra hother
    cases x with
    | error f => cases hts
    | ok s =>
    obtain ⟨hdepth, htokens⟩ := hx s rfl
    obtain ⟨a, ha, rfl⟩ := exists_of_map_eq_ok hts
    obtain ⟨ts', hts', hsame⟩ := looks_eq_ok hlooks
    obtain ⟨b, hb, rfl⟩ := exists_of_map_eq_ok hts'
    -- the tokens look the same, but there is a line more in one of them
    have hmore := Scanner.finishLines_otherLine hline hother hending hdepth htokens rest a b ha hb hne
    rw [Scanner.lineCount_eq hsame] at hmore
    exact absurd hmore (Nat.succ_ne_self _).symm

/-- A line of spaces and tabs, and one with a form feed, in a block and behind a text over two lines. -/
theorem scan_blankLine_of_tab :
    looks (scan .standard "a:\n  b: 'é\n['\n \t\r\n  c: 2") = looks (scan .standard "a:\n  b: 'é\n['\n  c: 2") ∧
      looks (scan .standard "a:\n  b: 'é\n['\n\x0c\r\n  c: 2") ≠
        looks (scan .standard "a:\n  b: 'é\n['\n  c: 2") := by
  have hend : EndsLine "a:\n  b: 'é\n['\n".toList := by
    refine ⟨'\n', ?_, rfl⟩
    decide +kernel
  have hbehind : Scanner.depthBehind none 0 "a:\n  b: 'é\n['\n".toList = some 0 := by decide +kernel
  have hspaces : ∀ c ∈ [' ', '\t'], Text.isBlank c ∧ isBreak c = false :=
    List.forall_mem_cons.mpr ⟨by decide +kernel, List.forall_mem_singleton.mpr (by decide +kernel)⟩
  have hfeed : ∀ c ∈ ['\x0c'], Text.isBlank c ∧ isBreak c = false := List.forall_mem_singleton.mpr (by decide +kernel)
  have hending : ['\r', '\n'] ∈ Scanner.endings := by simp [Scanner.endings]
  constructor
  · exact (scan_blankLine .standard (.inr hend) hbehind hspaces hending "  c: 2".toList).1 (by simp)
  · have hscan : (scan .standard "a:\n  b: 'é\n['\n  c: 2").toOption.any fun ts => ts ≠ [] := by decide +kernel
    cases hts : scan .standard "a:\n  b: 'é\n['\n  c: 2" with
    | error f =>
      rw [hts] at hscan
      cases hscan
    | ok ts =>
      rw [hts] at hscan
      intro hlooks
      have hall := (scan_blankLine .standard (.inr hend) hbehind hfeed hending "  c: 2".toList).2 ts hts
        (of_decide_eq_true hscan) hlooks
      exact absurd (hall '\x0c' List.mem_cons_self) (by decide)

/-- A no-break space is white space, but a line of it is laid out. -/
theorem looks_scan_noBreakSpace :
    EndsLine "a: 1\n".toList ∧ Scanner.depthBehind none 0 "a: 1\n".toList = some 0 ∧
      (Text.isBlank '\u00a0' ∧ isBreak '\u00a0' = false) ∧
      looks (scan .standard "a: 1\n\u00a0\nb: 2") ≠ looks (scan .standard "a: 1\nb: 2") := by
  refine ⟨⟨'\n', ?_, rfl⟩, by decide +kernel, by decide +kernel, by decide +kernel⟩
  decide +kernel

end Token

end Cellbook
