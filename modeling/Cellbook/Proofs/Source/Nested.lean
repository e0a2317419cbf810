import Cellbook.Proofs.Source.LineStarts

/-!
# Layout is nested

In the tokens of a source, every block that begins ends, no block ends that has not begun, behind the end of a block
comes a line or the end of another one, and no line begins inside brackets (`Token.balanced_of_scan`), under any
grammar. All this is read off the way in which tokens are nested in blocks and brackets (`Token.Nested`).

**The induction** goes over the tokens from the last to the first: what a scanner adds is nested in front of whatever
is nested where it comes to (`Scanner.Nests`). So nothing has to be said of the indentations but how many there are.
-/

namespace Cellbook

open Lexeme (brackets)

/-! ## Lower case is no bracket -/

namespace Text

theorem toLower_not_mem_brackets : ∀ n < 0x80, Char.ofNat n ∉ brackets → (Char.ofNat n).toLower ∉ brackets := by
  decide +kernel

theorem ofNat_not_mem_brackets {n : Nat} (h : ∀ d ∈ brackets, d.toNat ≠ n) : Char.ofNat n ∉ brackets := by
  intro hmem
  by_cases hvalid : n.isValidChar
  · rw [Char.ofNat, dif_pos hvalid] at hmem
    exact h _ hmem rfl
  · rw [Char.ofNat, dif_neg hvalid] at hmem
    exact absurd hmem (by decide)

theorem caseRuns_not_mem_brackets : caseRuns.all fun run =>
    brackets.all fun d => d.toNat < run.lower || run.lower + (run.last - run.first) < d.toNat := by
  decide +kernel

/-- The lower case of a character that is no bracket begins with none. -/
theorem head_lowerChar {c : Char} (hc : c ∉ brackets) : ∃ d ds, lowerChar c = d :: ds ∧ d ∉ brackets := by
  unfold lowerChar
  dsimp only
  split
  next hascii =>
    have hlower := toLower_not_mem_brackets c.toNat hascii
    rw [Char.ofNat_toNat] at hlower
    exact ⟨_, _, rfl, hlower hc⟩
  split
  · exact ⟨'i', _, rfl, by decide⟩
  split
  next run hrun =>
    have hin := List.find?_some hrun
    have hrun := List.all_eq_true.mp caseRuns_not_mem_brackets run (List.mem_of_find?_eq_some hrun)
    refine ⟨_, _, rfl, ofNat_not_mem_brackets fun d hd => ?_⟩
    have hd := List.all_eq_true.mp hrun d hd
    simp only [Bool.and_eq_true, Bool.or_eq_true, decide_eq_true_eq] at hin hd
    omega
  · exact ⟨c, [], rfl, hc⟩

theorem head_toLower {c : Char} (hc : c ∉ brackets) (cs : List Char) :
    ∃ d ds, toLower (c :: cs) = d :: ds ∧ d ∉ brackets := by
  rw [toLower, lowerFrom]
  split
  · refine ⟨_, _, rfl, ?_⟩
    split <;> decide
  · obtain ⟨d, ds, hlower, hd⟩ := head_lowerChar hc
    rw [hlower]
    exact ⟨d, _, rfl, hd⟩

end Text

/-! ## Brackets of tokens -/

namespace Token

/-- The number of open brackets behind a token, with `depth` of them in front of it. -/
def depthBehind (depth : Nat) (t : Token) : Nat :=
  if t.lexeme ∈ ["(", "[", "\x7b"] then depth + 1
  else if t.lexeme ∈ [")", "]", "\x7d"] then depth - 1
  else depth

/-- **The number of open brackets** behind tokens. A bracket that closes none counts for nothing. -/
def openBrackets (ts : List Token) : Nat := ts.foldl depthBehind 0

theorem depthBehind_of_lays {t : Token} {kind : TokenKind} (h : t.Lays kind) (depth : Nat) :
    t.depthBehind depth = depth := by
  unfold depthBehind
  rw [h.2]
  cases kind <;> rfl

theorem depthBehind_bracket {t : Token} {c : Char} (hc : c ∈ brackets) (h : t.lexeme = String.ofList [c])
    (depth : Nat) : t.depthBehind depth = Scanner.depthAfter depth c := by
  unfold depthBehind
  rw [h]
  simp only [brackets, List.mem_cons, List.not_mem_nil, or_false] at hc
  rcases hc with rfl | rfl | rfl | rfl | rfl | rfl <;> rfl

theorem depthBehind_other {t : Token} {c : Char} {cs : List Char} (hc : c ∉ brackets)
    (h : t.lexeme = String.ofList (c :: cs)) (depth : Nat) : t.depthBehind depth = depth := by
  have hhead : (["(", "[", "\x7b"] ++ [")", "]", "\x7d"]).all fun s => s.toList.head?.all (· ∈ brackets) := by decide
  have hne : ∀ s ∈ ["(", "[", "\x7b"] ++ [")", "]", "\x7d"], t.lexeme ≠ s := by
    rintro s hs rfl
    have hs := List.all_eq_true.mp hhead _ hs
    rw [h, String.toList_ofList] at hs
    exact hc (of_decide_eq_true hs)
  unfold depthBehind
  rw [if_neg fun hmem => hne _ (List.mem_append_left _ hmem) rfl,
    if_neg fun hmem => hne _ (List.mem_append_right _ hmem) rfl]

/-- **A lexeme opens and closes the brackets** that the character does with which it begins. -/
theorem depthBehind_next {g : Grammar} {afterOperand : Bool} {c : Char} {cs : List Char} {start : Nat} {l : Lexeme}
    (h : Lexeme.next g afterOperand c cs start = .ok l) (span : Span) (depth : Nat) :
    Token.depthBehind depth ⟨String.ofList l.text, l.kind, span⟩ = Scanner.depthAfter depth c := by
  obtain ⟨hpos, -, -, hreads⟩ := Lexeme.next_taken h
  obtain ⟨n, hn⟩ := Nat.exists_eq_add_one_of_ne_zero hpos.ne'
  rw [hn, List.take_succ_cons] at hreads
  by_cases hc : c ∈ brackets
  · have hquote : ¬(c = '"' ∨ c = '\'') := by
      rintro (rfl | rfl) <;> exact absurd hc (by decide)
    have hword : ¬Lexeme.isWordChar c := fun hchar => Lexeme.isInner_of (by decide) hchar (by simp [hc])
    have hone : n = 0 := by
      rcases Lexeme.next_inside hquote h with hlength | hinner
      · omega
      · rw [hn, List.take_succ_cons] at hinner
        exact absurd (by simp [hc]) (hinner c List.mem_cons_self)
    rw [hone, List.take_zero] at hreads
    rcases hreads with htext | ⟨-, hwords, -⟩
    · exact depthBehind_bracket hc (congrArg String.ofList htext) depth
    · exact absurd (hwords c List.mem_cons_self) hword
  · rw [Lexeme.depthAfter_eq_self hc]
    rcases hreads with htext | ⟨-, -, htext⟩
    · exact depthBehind_other hc (congrArg String.ofList htext) depth
    · obtain ⟨d, ds, hlower, hd⟩ := Text.head_toLower hc (cs.take n)
      exact depthBehind_other hd (congrArg String.ofList (htext.trans hlower)) depth

/-! ## Tokens nested in blocks -/

/-- **Tokens are nested**, where so many blocks are open, of which `level` are not yet at their end, and so many
brackets. -/
inductive Nested : (blocks level depth : Nat) → List Token → Prop
  | done {blocks depth : Nat} : Nested blocks 0 depth []
  | lexeme {blocks depth : Nat} {t : Token} {ts : List Token} (ht : t.kind.isLayout = false)
      (h : Nested blocks blocks (t.depthBehind depth) ts) : Nested blocks blocks depth (t :: ts)
  | indent {blocks : Nat} {t : Token} {ts : List Token} (ht : t.Lays .indent)
      (h : Nested (blocks + 1) (blocks + 1) 0 ts) : Nested blocks blocks 0 (t :: ts)
  | newline {blocks level : Nat} {t : Token} {ts : List Token} (ht : t.Lays .newline)
      (h : Nested level level 0 ts) : Nested blocks level 0 (t :: ts)
  | dedent {blocks level depth : Nat} {t : Token} {ts : List Token} (ht : t.Lays .dedent)
      (h : Nested blocks level depth ts) : Nested blocks (level + 1) depth (t :: ts)

/-- The ends of blocks. -/
theorem Nested.dedents {blocks level depth : Nat} {us ts : List Token} (hus : ∀ t ∈ us, t.Lays .dedent)
    (h : Nested blocks level depth ts) : Nested blocks (level + us.length) depth (us ++ ts) := by
  induction us with
  | nil => exact h
  | cons t us ih =>
    obtain ⟨ht, hus⟩ := List.forall_mem_cons.mp hus
    exact .dedent ht (ih hus)

end Token

namespace Scanner

open Token (Nested)

variable {g : Grammar} {s s₁ s' : Scanner} {ts us : List Token}

/-- **What a scanner adds** on its way to a state: tokens that are nested if those that follow are. -/
structure Nests (s s' : Scanner) (ts : List Token) : Prop where
  tokens : s'.tokens = ts.reverse ++ s.tokens
  nested : ∀ {new : List Token}, Nested s'.blocks s'.blocks s'.depth new →
    Nested s.blocks s.blocks s.depth (ts ++ new)

/-- Nothing is added where as many blocks and brackets are open. -/
theorem Nests.none (htokens : s'.tokens = s.tokens) (hblocks : s'.blocks = s.blocks) (hdepth : s'.depth = s.depth) :
    Nests s s' [] :=
  ⟨htokens, fun h => by rwa [hblocks, hdepth] at h⟩

theorem Nests.trans (h : Nests s s₁ ts) (h' : Nests s₁ s' us) : Nests s s' (ts ++ us) where
  tokens := by rw [h'.tokens, h.tokens, List.reverse_append, List.append_assoc]
  nested hnew := List.append_assoc ts us _ ▸ h.nested (h'.nested hnew)

/-- Blocks begin and end outside brackets. -/
theorem nests_layOut {width : Nat} (hdepth : s.depth = 0) (h : s.layOut width = .ok s') : ∃ ts, Nests s s' ts := by
  obtain ⟨indents, kinds, rfl, hindents, ⟨hnone, rfl, hone⟩ | ⟨hsome, closed, kind, rfl, hkind⟩⟩ := layOut_eq_ok h
  · refine ⟨[], .none rfl ?_ rfl⟩
    show indents.length - 1 = s.indents.length - 1
    rw [hnone, hone, List.length_nil]
  refine ⟨_, addLayout_tokens _ _, fun {new} hnew => ?_⟩
  -- Behind a block that begins one more is open; where `closed` blocks end, so many fewer are.
  replace hnew : Nested (indents.length - 1) (indents.length - 1) s.depth new := hnew
  rw [hdepth] at hnew ⊢
  have hpos := List.length_pos_iff.mpr hindents
  have hpos' := List.length_pos_iff.mpr hsome
  rw [List.map_append, List.append_assoc]
  rcases hkind with ⟨rfl, rfl, hlength⟩ | ⟨rfl, hlength⟩
  · have hblocks : indents.length - 1 = s.blocks + 1 := by
      rw [blocks]
      omega
    rw [hblocks] at hnew
    exact .indent (lays_layoutToken _ _) hnew
  · have hblocks : s.blocks =
        indents.length - 1 + ((List.replicate closed TokenKind.dedent).map (layoutToken s.position)).length := by
      rw [List.length_map, List.length_replicate, blocks]
      omega
    have hnested : Nested s.blocks _ 0 _ :=
      Nested.dedents (lays_dedents s.position closed) (.newline (lays_layoutToken s.position _) hnew)
    rwa [← hblocks] at hnested

theorem nests_startLine (hdepth : s.depth = 0) (h : s.startLine = .ok s') : ∃ ts, Nests s s' ts := by
  unfold startLine at h
  generalize skipIndentation 0 0 s.rest = line at h
  obtain ⟨width, passed, rest⟩ := line
  dsimp only at h
  split at h
  · cases h
    exact ⟨[], .none rfl rfl rfl⟩
  · obtain ⟨ts, hnests⟩ := nests_layOut (s := { s with rest, position := s.position + passed }) hdepth h
    exact ⟨ts, hnests.tokens, hnests.nested⟩

/-- A lexeme opens and closes brackets, and no blocks. -/
theorem nests_take {c : Char} {cs : List Char} {l : Lexeme}
    (h : Lexeme.next g s.afterOperand c cs s.position = .ok l) :
    Nests s (s.take c l) [⟨String.ofList l.text, l.kind, ⟨s.position, s.position + l.length⟩⟩] where
  tokens := rfl
  nested hnew := by
    refine .lexeme (Lexeme.next_taken h).not_layout ?_
    rw [Token.depthBehind_next h]
    exact hnew

theorem nests_step {c : Char} {cs : List Char} (h : s.step g c cs = .ok s') : ∃ ts, Nests s s' ts := by
  unfold step at h
  split at h
  · split at h
    next hdepth =>
      obtain ⟨ts, hnests⟩ := nests_startLine (s := s.skip 1) hdepth h
      exact ⟨ts, hnests.tokens, hnests.nested⟩
    next =>
      cases h
      exact ⟨[], .none rfl rfl rfl⟩
  split at h
  · cases h
    exact ⟨[], .none rfl rfl rfl⟩
  · cases hnext : Lexeme.next g s.afterOperand c cs s.position with
    | error f =>
      rw [hnext] at h
      cases h
    | ok l =>
      rw [hnext] at h
      cases h
      exact ⟨_, nests_take hnext⟩

theorem nests_run {steps : Nat} (h : s.run g steps = .ok s') : ∃ ts, Nests s s' ts := by
  induction steps generalizing s with
  | zero =>
    cases h
    exact ⟨[], .none rfl rfl rfl⟩
  | succ steps ih =>
    unfold run at h
    split at h
    · cases h
      exact ⟨[], .none rfl rfl rfl⟩
    next c cs _ =>
      cases hstep : s.step g c cs with
      | error f =>
        rw [hstep] at h
        cases h
      | ok s₁ =>
        rw [hstep] at h
        obtain ⟨ts, hfirst⟩ := nests_step hstep
        obtain ⟨us, hmore⟩ := ih h
        exact ⟨ts ++ us, hfirst.trans hmore⟩

/-- At the end, every open block is closed. -/
theorem nested_close (s : Scanner) : ∃ ts, s.close.tokens = ts.reverse ++ s.tokens ∧
    Nested s.blocks s.blocks s.depth ts := by
  have hnested : Nested s.blocks _ s.depth _ := Nested.dedents (lays_dedents s.position s.blocks) .done
  rw [List.length_map, List.length_replicate, Nat.zero_add, List.append_nil] at hnested
  exact ⟨_, addLayout_tokens s _, hnested⟩

end Scanner

namespace Token

/-- **The tokens of a source are nested**, under any grammar. -/
theorem nested_of_scan {g : Grammar} {source : String} {ts : List Token} (h : scan g source = .ok ts) :
    Nested 0 0 0 ts := by
  unfold scan at h
  dsimp only at h
  cases hstart : (Scanner.mk source.toList 0 [] [] 0).startLine with
  | error f =>
    rw [hstart] at h
    cases h
  | ok s₁ =>
  cases hrun : s₁.run g source.toList.length with
  | error f =>
    simp only [hstart, hrun, bind, Except.bind] at h
    cases h
  | ok s =>
    simp only [hstart, hrun, bind, Except.bind] at h
    cases h
    obtain ⟨us, hfirst⟩ := Scanner.nests_startLine rfl hstart
    obtain ⟨vs, hmore⟩ := Scanner.nests_run hrun
    obtain ⟨ends, htokens, hends⟩ := Scanner.nested_close s
    rw [htokens, (hfirst.trans hmore).tokens, List.append_nil, List.reverse_append, List.reverse_reverse,
      List.reverse_reverse]
    exact (hfirst.trans hmore).nested hends

/-! ## Balance -/

variable {blocks level depth : Nat} {front rest ts : List Token}

/-- The number of blocks that tokens begin. -/
def begun (ts : List Token) : Nat := ts.countP (·.kind = .indent)

/-- The number of blocks that tokens end. -/
def ended (ts : List Token) : Nat := ts.countP (·.kind = .dedent)

theorem begun_cons (t : Token) (ts : List Token) : begun (t :: ts) = begun ts + if t.kind = .indent then 1 else 0 := by
  simp [begun, List.countP_cons]

theorem ended_cons (t : Token) (ts : List Token) : ended (t :: ts) = ended ts + if t.kind = .dedent then 1 else 0 := by
  simp [ended, List.countP_cons]

/-- **Behind a front, tokens are nested as well**, where the blocks that it begins and ends are taken into account,
and its brackets. -/
theorem Nested.behind (h : Nested blocks level depth (front ++ rest)) (hle : level ≤ blocks) :
    ∃ blocks' level', level' ≤ blocks' ∧ Nested blocks' level' (front.foldl depthBehind depth) rest ∧
      level' + ended front = level + begun front := by
  induction front generalizing blocks level depth with
  | nil => exact ⟨blocks, level, hle, h, rfl⟩
  | cons t front ih =>
    rw [List.foldl_cons, begun_cons, ended_cons]
    cases h with
    | lexeme ht h =>
      obtain ⟨blocks', level', hle', h', hcount⟩ := ih h (Nat.le_refl _)
      refine ⟨blocks', level', hle', h', ?_⟩
      have hindent : t.kind ≠ .indent := fun hkind => by rw [hkind] at ht; cases ht
      have hdedent : t.kind ≠ .dedent := fun hkind => by rw [hkind] at ht; cases ht
      rwa [if_neg hindent, if_neg hdedent]
    | indent ht h =>
      obtain ⟨blocks', level', hle', h', hcount⟩ := ih h (Nat.le_refl _)
      refine ⟨blocks', level', hle', (depthBehind_of_lays ht 0).symm ▸ h', ?_⟩
      rw [ht.1, if_pos rfl, if_neg (by decide)]
      omega
    | newline ht h =>
      obtain ⟨blocks', level', hle', h', hcount⟩ := ih h (Nat.le_refl _)
      refine ⟨blocks', level', hle', (depthBehind_of_lays ht 0).symm ▸ h', ?_⟩
      rwa [ht.1, if_neg (by decide), if_neg (by decide)]
    | dedent ht h =>
      obtain ⟨blocks', level', hle', h', hcount⟩ := ih h (Nat.le_of_succ_le hle)
      refine ⟨blocks', level', hle', (depthBehind_of_lays ht depth).symm ▸ h', ?_⟩
      rw [ht.1, if_pos rfl, if_neg (by decide)]
      omega

/-- Where a block is at its end, a line begins or another block ends. -/
theorem Nested.head? (h : Nested blocks level depth ts) (hlt : level < blocks) :
    ∀ t ∈ ts.head?, t.kind = .dedent ∨ t.kind = .newline := by
  cases h with
  | done => exact fun _ h => nomatch h
  | lexeme | indent => exact absurd hlt (Nat.lt_irrefl _)
  | newline ht => exact fun _ h => Option.some.inj h ▸ .inr ht.1
  | dedent ht => exact fun _ h => Option.some.inj h ▸ .inl ht.1

/-- **Layout is balanced** in tokens. -/
structure Balanced (ts : List Token) : Prop where
  /-- No block ends that has not begun. -/
  ended_le : ∀ front, front <+: ts → ended front ≤ begun front
  /-- Every block ends that begins. -/
  ended_eq : ended ts = begun ts
  /-- Behind a block, another one ends or a line begins, if anything follows. -/
  followed : ∀ front t rest, ts = front ++ t :: rest → t.kind = .dedent →
    ∀ u ∈ rest.head?, u.kind = .dedent ∨ u.kind = .newline
  /-- Blocks and lines begin outside brackets. -/
  outside : ∀ front t rest, ts = front ++ t :: rest → t.kind = .indent ∨ t.kind = .newline → openBrackets front = 0

/-- **The layout of a source is balanced**, under any grammar. -/
theorem balanced_of_scan {g : Grammar} {source : String} {ts : List Token} (h : scan g source = .ok ts) :
    Balanced ts := by
  have hnested := nested_of_scan h
  refine ⟨?_, ?_, ?_, ?_⟩
  · rintro front ⟨rest, rfl⟩
    obtain ⟨_, _, -, -, hcount⟩ := hnested.behind (Nat.le_refl 0)
    omega
  · have hwhole : Nested 0 0 0 (ts ++ []) := by rwa [List.append_nil]
    obtain ⟨_, _, -, hrest, hcount⟩ := hwhole.behind (Nat.le_refl 0)
    generalize ts.foldl depthBehind 0 = depth at hrest
    cases hrest
    omega
  · rintro front t rest rfl ht
    obtain ⟨_, _, hle, hrest, -⟩ := hnested.behind (Nat.le_refl 0)
    generalize front.foldl depthBehind 0 = depth at hrest
    cases hrest with
    | lexeme hkind => rw [ht] at hkind; cases hkind
    | indent hlays | newline hlays => cases ht.symm.trans hlays.1
    | dedent _ hrest => exact hrest.head? hle
  · rintro front t rest rfl ht
    obtain ⟨_, _, -, hrest, -⟩ := hnested.behind (Nat.le_refl 0)
    unfold openBrackets
    generalize front.foldl depthBehind 0 = depth at hrest ⊢
    cases hrest with
    | lexeme hkind => rcases ht with ht | ht <;> (rw [ht] at hkind; cases hkind)
    | indent | newline => rfl
    | dedent hlays => rcases ht with ht | ht <;> cases ht.symm.trans hlays.1

/-- A first line that is indented, blocks that end together, and a bracket that is never closed. -/
theorem balanced_of_scan_of_blocks : ∃ ts, scan .standard "  a:\n    b:\n      c\n  d:\n    (\n e" = .ok ts ∧
    ts.map (·.shown) = ["a", ":", "<indent>", "b", ":", "<indent>", "c", "<dedent>", "<dedent>", "<newline>",
      "d", ":", "<indent>", "(", "e", "<dedent>"] ∧ Balanced ts := by
  have hscan : (scan .standard "  a:\n    b:\n      c\n  d:\n    (\n e").toOption.map (·.map (·.shown)) = some
      ["a", ":", "<indent>", "b", ":", "<indent>", "c", "<dedent>", "<dedent>", "<newline>",
        "d", ":", "<indent>", "(", "e", "<dedent>"] := by
    decide +kernel
  cases hts : scan .standard "  a:\n    b:\n      c\n  d:\n    (\n e" with
  | error f =>
    rw [hts] at hscan
    cases hscan
  | ok ts =>
    rw [hts] at hscan
    exact ⟨ts, rfl, Option.some.inj hscan, balanced_of_scan hts⟩

end Token

end Cellbook
