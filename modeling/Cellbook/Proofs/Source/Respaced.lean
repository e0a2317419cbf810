import Cellbook.Proofs.Source.Layout

/-!
# Tokens written out again

Tokens are written with a space before each lexeme, and with a line break and the indentation of the current block
for each separator (`Token.respaced`). Scanning that text gives the same tokens, but for where they stand
(`Token.scan_respaced`).

The scanner of the new text lags behind: the end of a block leaves no trace in the text, and only the indentation
of the next line closes it. So the scanner stands among more blocks than the tokens do, and the ends of those
blocks are owed until that line, or until the end of the source.
-/

namespace Cellbook

namespace Token

/-- What two scans have in common in a token: its kind, with the value of a literal, and how it reads. -/
def look (t : Token) : TokenKind × String := (t.kind, t.lexeme)

/-- **Tokens as source text**, where `level` blocks are open. Each is indented by as many spaces as `step` says. -/
def respaced (step : Nat) : (level : Nat) → List Token → List Char
  | _, [] => []
  | level, t :: ts =>
    match t.kind with
    | .indent => '\n' :: (List.replicate ((level + 1) * step) ' ' ++ respaced step (level + 1) ts)
    | .newline => '\n' :: (List.replicate (level * step) ' ' ++ respaced step level ts)
    | .dedent => respaced step (level - 1) ts
    | _ => ' ' :: (t.lexeme.toList ++ respaced step level ts)

variable {step level : Nat} {t : Token} {ts : List Token}

theorem respaced_lexeme (ht : t.kind.isLayout = false) :
    respaced step level (t :: ts) = ' ' :: (t.lexeme.toList ++ respaced step level ts) := by
  rw [respaced]
  cases hkind : t.kind <;> simp_all [TokenKind.isLayout]

theorem respaced_indent (ht : t.Lays .indent) : respaced step level (t :: ts) =
    '\n' :: (List.replicate ((level + 1) * step) ' ' ++ respaced step (level + 1) ts) := by
  rw [respaced, ht.1]

theorem respaced_newline (ht : t.Lays .newline) : respaced step level (t :: ts) =
    '\n' :: (List.replicate (level * step) ' ' ++ respaced step level ts) := by
  rw [respaced, ht.1]

theorem respaced_dedent (ht : t.Lays .dedent) :
    respaced step (level + 1) (t :: ts) = respaced step level ts := by
  rw [respaced, ht.1]
  rfl

/-- No lexeme reaches into the text of the tokens behind it. -/
theorem apart_respaced (step level : Nat) (ts : List Token) : Lexeme.Apart (respaced step level ts) := by
  induction ts generalizing level with
  | nil => exact .nil
  | cons t ts ih =>
    rw [respaced]
    split
    · exact .cons (by decide)
    · exact .cons (by decide)
    · exact ih _
    · exact .cons (by decide)

end Token

namespace Scanner

open Token (Laid Leads look respaced)

/-- The indentation of the lines in each open block, the innermost first: one more than that of its block, for the
space before the lexeme. -/
def margins (step : Nat) : (blocks : Nat) → List Nat
  | 0 => [1]
  | blocks + 1 => ((blocks + 1) * step + 1) :: margins step blocks

variable {step : Nat}

theorem head?_margins (step blocks : Nat) : (margins step blocks).head? = some (blocks * step + 1) := by
  cases blocks with
  | zero => rw [Nat.zero_mul]; rfl
  | succ blocks => rfl

theorem length_margins (step blocks : Nat) : (margins step blocks).length = blocks + 1 := by
  induction blocks with
  | zero => rfl
  | succ blocks ih => rw [margins, List.length_cons, ih]

/-- A line of an outer block closes the blocks inside that one. -/
theorem margins_closed (hstep : 0 < step) {level blocks : Nat} (hle : level ≤ blocks) :
    (margins step blocks).dropWhile (level * step + 1 < ·) = margins step level ∧
      ((margins step blocks).takeWhile (level * step + 1 < ·)).length = blocks - level := by
  induction blocks with
  | zero =>
    obtain rfl := Nat.le_zero.mp hle
    rw [Nat.zero_mul]
    exact ⟨rfl, rfl⟩
  | succ blocks ih =>
    rw [margins]
    rcases Nat.lt_or_ge blocks level with hlt | hge
    · obtain rfl : level = blocks + 1 := by omega
      have hself : ¬ decide ((blocks + 1) * step + 1 < (blocks + 1) * step + 1) = true := by simp
      rw [List.dropWhile_cons, List.takeWhile_cons, if_neg hself, if_neg hself, Nat.sub_self]
      exact ⟨rfl, rfl⟩
    · have hdeeper : decide (level * step + 1 < (blocks + 1) * step + 1) = true := by
        have := Nat.mul_lt_mul_of_pos_right (Nat.lt_succ_of_le hge) hstep
        exact decide_eq_true (Nat.succ_lt_succ this)
      obtain ⟨hleft, hclosed⟩ := ih hge
      rw [List.dropWhile_cons, List.takeWhile_cons, if_pos hdeeper, if_pos hdeeper, List.length_cons, hclosed]
      exact ⟨hleft, (Nat.succ_sub hge).symm⟩

/-! ## Lines -/

theorem skipIndentation_spaces (width passed n : Nat) (cs : List Char) :
    skipIndentation width passed (List.replicate n ' ' ++ cs) = skipIndentation (width + n) (passed + n) cs := by
  induction n generalizing width passed with
  | zero => rfl
  | succ n ih =>
    rw [List.replicate_succ, List.cons_append, skipIndentation, if_pos rfl, ih]
    congr 1 <;> omega

theorem skipIndentation_stop {c : Char} (hc : Text.isBlank c = false) (width passed : Nat) (cs : List Char) :
    skipIndentation width passed (c :: cs) = (width, passed, c :: cs) := by
  have hne (d : Char) (hd : Text.isBlank d) : c ≠ d := fun h => Bool.false_ne_true (hc.symm.trans (h ▸ hd))
  rw [skipIndentation, if_neg (hne ' ' rfl), if_neg (hne '\t' rfl), if_neg (not_or.mpr ⟨hne '\n' rfl, hne '\r' rfl⟩)]

/-- **A line begins** with its indentation and the space before its first lexeme. -/
theorem startLine_spaces {s : Scanner} {n : Nat} {c : Char} {cs : List Char} (hc : Text.isBlank c = false)
    (hrest : s.rest = List.replicate n ' ' ++ ' ' :: c :: cs) :
    s.startLine = { s with rest := c :: cs, position := s.position + (n + 1) }.layOut (n + 1) := by
  have hskip : skipIndentation 0 0 s.rest = (n + 1, n + 1, c :: cs) := by
    rw [hrest, skipIndentation_spaces, skipIndentation, if_pos rfl, skipIndentation_stop hc, Nat.zero_add]
  unfold startLine
  rw [hskip]
  rfl

/-- A line break and the beginning of the line behind it are one step. -/
theorem reaches_line {g : Grammar} {s s' : Scanner} {n : Nat} {c : Char} {cs : List Char}
    (hrest : s.rest = '\n' :: (List.replicate n ' ' ++ ' ' :: c :: cs)) (hdepth : s.depth = 0)
    (hc : Text.isBlank c = false)
    (h : { s with rest := c :: cs, position := s.position + 1 + (n + 1) }.layOut (n + 1) = .ok s')
    (hrest' : s'.rest = c :: cs) : Reaches g s s' := by
  have hline : (s.skip 1).startLine = .ok s' := by
    rw [startLine_spaces hc (by rw [skip, hrest]; rfl)]
    exact h
  have hstep : s.step g '\n' (List.replicate n ' ' ++ ' ' :: c :: cs) = .ok s' := by
    unfold step
    rw [if_pos (.inl rfl), if_pos hdepth, hline]
  refine .step hrest hstep ?_ (.refl _)
  rw [hrest, hrest']
  simp only [List.length_cons, List.length_append]
  omega

variable {s : Scanner} {blocks level : Nat} {ts : List Token}

/-- Tokens that begin with a lexeme are written as a space and a character that is no blank. -/
theorem respaced_of_leads {depth : Nat} {afterOperand : Bool} (h : Laid blocks level depth afterOperand ts)
    (hleads : Leads ts) (step : Nat) :
    ∃ c cs, Text.isBlank c = false ∧ respaced step level ts = ' ' :: c :: cs := by
  obtain ⟨t, ht, hkind⟩ := hleads
  have hlayout {kind : TokenKind} (hlays : t.Lays kind) (hkind' : kind.isLayout) : False := by
    rw [hlays.1, hkind'] at hkind
    cases hkind
  cases h with
  | done => cases ht
  | @lexeme _ _ _ _ ts c cs _ htext hfirm _ =>
    cases ht
    refine ⟨c, cs ++ respaced step blocks ts, hfirm.not_blank, ?_⟩
    rw [Token.respaced_lexeme hkind, htext, String.toList_ofList, List.cons_append]
  | indent hlays =>
    cases ht
    exact (hlayout hlays rfl).elim
  | newline hlays =>
    cases ht
    exact (hlayout hlays rfl).elim
  | dedent hlays =>
    cases ht
    exact (hlayout hlays rfl).elim

theorem layOut_deeper (step blocks : Nat) (hstep : 0 < step) (h : s.indents = margins step blocks) :
    s.layOut ((blocks + 1) * step + 1) = .ok ({ s with indents := margins step (blocks + 1) }.addLayout [.indent]) := by
  obtain ⟨more, hmore⟩ := List.head?_eq_some_iff.mp (head?_margins step blocks)
  have hdeeper : blocks * step + 1 < (blocks + 1) * step + 1 := by
    rw [Nat.add_mul, Nat.one_mul]
    omega
  unfold layOut
  rw [h, hmore]
  dsimp only
  rw [if_pos hdeeper, margins, hmore]

theorem layOut_line (hstep : 0 < step) (hle : level ≤ blocks) (h : s.indents = margins step blocks) :
    s.layOut (level * step + 1) = .ok ({ s with indents := margins step level }.addLayout
      (List.replicate (blocks - level) TokenKind.dedent ++ [TokenKind.newline])) := by
  obtain ⟨more, hmore⟩ := List.head?_eq_some_iff.mp (head?_margins step blocks)
  have hshallower : ¬ blocks * step + 1 < level * step + 1 := by
    have := Nat.mul_le_mul_right step hle
    omega
  obtain ⟨hleft, hclosed⟩ := margins_closed hstep hle
  unfold layOut
  split
  next hnil => cases hnil.symm.trans (h.trans hmore)
  next top more' htop =>
  obtain ⟨rfl, rfl⟩ := List.cons.inj (htop.symm.trans (h.trans hmore))
  rw [if_neg hshallower, h, hleft]
  dsimp only
  rw [hclosed]
  exact if_pos (head?_margins step level)

/-! ## The second scan -/

/-- **A scanner comes to the end** of the source, and with the blocks closed it has added tokens that look so. -/
def Ends (s : Scanner) (looks : List (TokenKind × String)) : Prop :=
  ∃ s', Reaches .standard s s' ∧ s'.rest = [] ∧ s'.close.tokens.reverse.map look = s.tokens.reverse.map look ++ looks

theorem Ends.of_reaches {s₁ : Scanner} (us : List Token) {looks looks' : List (TokenKind × String)}
    (hreach : Reaches .standard s s₁) (htokens : s₁.tokens = us.reverse ++ s.tokens)
    (hlooks : looks' = us.map look ++ looks) (h : Ends s₁ looks) : Ends s looks' := by
  obtain ⟨s', hreach', hend, hlooks'⟩ := h
  refine ⟨s', hreach.trans hreach', hend, ?_⟩
  rw [hlooks', hlooks, htokens, List.reverse_append, List.reverse_reverse, List.map_append, List.append_assoc]

/-- The end of a block, as two scans see it. -/
def owed : TokenKind × String := (.dedent, "")

theorem look_dedents (position n : Nat) :
    ((List.replicate n TokenKind.dedent).map (layoutToken position)).map look = List.replicate n owed := by
  rw [List.map_replicate, List.map_replicate]
  rfl

theorem look_eq_of_lays {kind : TokenKind} {t u : Token} (ht : t.Lays kind) (hu : u.Lays kind) : look t = look u := by
  rw [look, look, ht.1, ht.2, hu.1, hu.2]

/-- **Tokens are scanned again.** The scanner stands among all blocks and owes the ends of those that the tokens
have left. The space before the first lexeme may already be passed over. -/
theorem ends_respaced (hstep : 0 < step) {depth : Nat} {afterOperand : Bool}
    (h : Laid blocks level depth afterOperand ts) (hle : level ≤ blocks) (hindents : s.indents = margins step blocks)
    (hdepth : s.depth = depth) (hafter : s.afterOperand = afterOperand)
    (hrest : s.rest = respaced step level ts ∨ ' ' :: s.rest = respaced step level ts) :
    Ends s (List.replicate (blocks - level) owed ++ ts.map look) := by
  induction h generalizing s with
  | @done blocks depth afterOperand =>
    refine ⟨s, .refl s, by simpa [respaced] using hrest, ?_⟩
    rw [close, addLayout_tokens, hindents, length_margins, List.reverse_append, List.reverse_reverse, List.map_append,
      look_dedents, List.map_nil, List.append_nil]
    rfl
  | @lexeme blocks depth afterOperand t ts c cs hkind htext hfirm h ih =>
    rw [Token.respaced_lexeme hkind, htext, String.toList_ofList, List.cons_append] at hrest
    -- the space before the lexeme
    obtain ⟨s₁, hspace, hs₁, htokens, hindents₁, hdepth₁⟩ : ∃ s₁, Reaches .standard s s₁ ∧
        s₁.rest = c :: (cs ++ respaced step blocks ts) ∧ s₁.tokens = s.tokens ∧ s₁.indents = s.indents ∧
        s₁.depth = s.depth := by
      rcases hrest with hrest | hrest
      · exact ⟨s.skip 1, reaches_blank hrest, by rw [skip, hrest]; rfl, rfl, rfl, rfl⟩
      · exact ⟨s, .refl s, (List.cons.inj hrest).2, rfl, rfl, rfl⟩
    have hafter₁ : s₁.afterOperand = afterOperand := by
      rw [← hafter, Scanner.afterOperand, Scanner.afterOperand, htokens]
    have htake := reaches_take hs₁ hfirm.not_blank
      (hafter₁ ▸ hfirm.next_eq (Token.apart_respaced step blocks ts) s₁.position) (Nat.succ_pos _)
    refine Ends.of_reaches [⟨String.ofList (c :: cs), t.kind, ⟨s₁.position, s₁.position + (cs.length + 1)⟩⟩]
      (hspace.trans htake) (congrArg (_ :: ·) htokens) ?_ (ih (Nat.le_refl _) ?_ ?_ ?_ (.inl ?_))
    · rw [Nat.sub_self, List.replicate_zero, List.nil_append, List.nil_append, List.map_cons, look, htext]
      rfl
    · exact hindents₁.trans hindents
    · exact congrArg (depthAfter · c) (hdepth₁.trans hdepth)
    · show Token.endsOperand ⟨_, t.kind, _⟩ = t.endsOperand
      rw [Token.endsOperand, Token.endsOperand, htext]
    · show s₁.rest.drop (cs.length + 1) = _
      rw [hs₁, List.drop_succ_cons, List.drop_left]
  | @indent blocks afterOperand t ts ht hleads h ih =>
    obtain ⟨c, cs, hc, htext⟩ := respaced_of_leads h hleads step
    rw [Token.respaced_indent ht, htext] at hrest
    have hrest' := hrest.resolve_right fun hcons => by cases (List.cons.inj hcons).1
    have hlayOut := layOut_deeper
      (s := { s with rest := c :: cs, position := s.position + 1 + ((blocks + 1) * step + 1) }) step blocks hstep hindents
    have hreach := reaches_line (g := .standard) hrest' hdepth hc hlayOut rfl
    refine Ends.of_reaches [layoutToken _ .indent] hreach rfl ?_ (ih (Nat.le_refl _) rfl hdepth rfl (.inr htext.symm))
    rw [Nat.sub_self, Nat.sub_self, List.map_cons, look_eq_of_lays ht (lays_layoutToken _ _)]
    rfl
  | @newline blocks level afterOperand t ts ht hleads h ih =>
    obtain ⟨c, cs, hc, htext⟩ := respaced_of_leads h hleads step
    rw [Token.respaced_newline ht, htext] at hrest
    have hrest' := hrest.resolve_right fun hcons => by cases (List.cons.inj hcons).1
    have hlayOut := layOut_line (s := { s with rest := c :: cs, position := s.position + 1 + (level * step + 1) })
      hstep hle hindents
    have hreach := reaches_line (g := .standard) hrest' hdepth hc hlayOut rfl
    refine Ends.of_reaches _ hreach (addLayout_tokens _ _) ?_ (ih (Nat.le_refl _) rfl hdepth ?_ (.inr htext.symm))
    · rw [List.map_append, List.map_append, look_dedents, List.map_cons, look_eq_of_lays ht (lays_layoutToken _ _),
        Nat.sub_self, List.append_assoc]
      rfl
    · rw [Scanner.afterOperand, addLayout_tokens, List.map_append, List.reverse_append]
      rfl
  | @dedent blocks level depth afterOperand t ts ht h ih =>
    rw [Token.respaced_dedent ht] at hrest
    have hends := ih (Nat.le_of_succ_le hle) hindents hdepth hafter hrest
    have hlook : look t = owed := look_eq_of_lays ht (lays_layoutToken 0 .dedent)
    have howed : blocks - level = blocks - (level + 1) + 1 := by omega
    rwa [howed, List.replicate_succ', List.append_assoc, List.singleton_append, ← hlook, ← List.map_cons,
      hlook] at hends

end Scanner

/-- **Tokens print back to source.** A text without blanks other than spaces, tabs and line breaks is scanned to
tokens; written out again, with an indentation of any width, they are scanned to the same tokens. -/
theorem Token.scan_respaced {source : String} {ts : List Token} (step : Nat) (hstep : 0 < step)
    (hplain : ∀ c ∈ source.toList, Text.isBlank c → c ∈ [' ', '\t', '\n', '\r'])
    (h : Token.scan .standard source = .ok ts) :
    ∃ ts', Token.scan .standard (String.ofList (respaced step 0 ts)) = .ok ts' ∧
      ts'.map look = ts.map look := by
  obtain ⟨hlaid, hleads⟩ := laid_scan hplain h
  cases ts with
  | nil => exact ⟨[], rfl, rfl⟩
  | cons t ts =>
    obtain ⟨c, cs, hc, htext⟩ := Scanner.respaced_of_leads hlaid (hleads (List.cons_ne_nil _ _)) step
    let first : Scanner := ⟨c :: cs, 1, [], [1], 0⟩
    have hstart : (Scanner.mk (respaced step 0 (t :: ts)) 0 [] [] 0).startLine = .ok first := by
      rw [Scanner.startLine_spaces (n := 0) hc htext]
      rfl
    obtain ⟨s', hreach, hend, hlooks⟩ :=
      Scanner.ends_respaced (s := first) hstep hlaid (Nat.le_refl _) rfl rfl rfl (.inr htext.symm)
    have hrun : first.run .standard (respaced step 0 (t :: ts)).length = .ok s' :=
      hreach.run_eq hend (by rw [htext]; exact Nat.le_succ _)
    refine ⟨s'.close.tokens.reverse, ?_, hlooks⟩
    unfold Token.scan
    simp only [String.toList_ofList, hstart, hrun, bind, Except.bind, pure, Except.pure]

theorem Token.scan_respaced_blocks : ∃ ts ts', Token.scan .standard "if x:\n\t-1..y\nelse: (a\n , b)" = .ok ts ∧
    String.ofList (respaced 2 0 ts) = " if x :\n   -1 .. y\n else : ( a , b )" ∧
    Token.scan .standard (String.ofList (respaced 2 0 ts)) = .ok ts' ∧ ts'.map look = ts.map look := by
  have hscan : (Token.scan .standard "if x:\n\t-1..y\nelse: (a\n , b)").toOption.map
      (fun ts => String.ofList (respaced 2 0 ts)) = some " if x :\n   -1 .. y\n else : ( a , b )" := by
    decide +kernel
  cases hts : Token.scan .standard "if x:\n\t-1..y\nelse: (a\n , b)" with
  | error e =>
    rw [hts] at hscan
    cases hscan
  | ok ts =>
  rw [hts] at hscan
  have htext : String.ofList (respaced 2 0 ts) = " if x :\n   -1 .. y\n else : ( a , b )" := Option.some.inj hscan
  have hplain : "if x:\n\t-1..y\nelse: (a\n , b)".toList.all fun c =>
      Text.isBlank c → c ∈ [' ', '\t', '\n', '\r'] := by decide +kernel
  obtain ⟨ts', hts', hlooks⟩ := Token.scan_respaced 2 Nat.two_pos
    (fun c hc => of_decide_eq_true (List.all_eq_true.mp hplain c hc)) hts
  exact ⟨ts, ts', rfl, htext, hts', hlooks⟩

end Cellbook
