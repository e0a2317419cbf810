import Cellbook.Proofs.Source.Recut
import Cellbook.Proofs.Source.Spelling

/-!
# How tokens are laid out

What a scanner can add to the tokens that it has found (`run_laid`). Lexemes stand where every block is at its
line: behind the end of a block comes a separator, the end of another one or that of the source. Layout comes
only outside brackets, and a lexeme follows where a line begins. Each lexeme stands alone.

The last of these needs that the source has no other blanks than spaces, tabs and line breaks: a line that begins
with another blank is laid out by it, although no lexeme has to follow.
-/

namespace Cellbook

namespace Token

/-- A token stands for indentation. -/
def Lays (t : Token) (kind : TokenKind) : Prop :=
  t.kind = kind ∧ t.lexeme = if kind = .newline then "\n" else ""

/-- Tokens begin with a lexeme. -/
def Leads (ts : List Token) : Prop := ∃ t ∈ ts.head?, t.kind.isLayout = false

/-- **Tokens are laid out**, where so many blocks are open, of which `level` are not yet at their end, and so many
brackets, and behind an operand or not. -/
inductive Laid : (blocks level depth : Nat) → (afterOperand : Bool) → List Token → Prop
  | done {blocks depth : Nat} {afterOperand : Bool} : Laid blocks 0 depth afterOperand []
  | lexeme {blocks depth : Nat} {afterOperand : Bool} {t : Token} {ts : List Token} {c : Char} {cs : List Char}
      (hkind : t.kind.isLayout = false) (htext : t.lexeme = String.ofList (c :: cs))
      (hfirm : Lexeme.Firm afterOperand t.kind c cs)
      (h : Laid blocks blocks (Scanner.depthAfter depth c) t.endsOperand ts) :
    Laid blocks blocks depth afterOperand (t :: ts)
  | indent {blocks : Nat} {afterOperand : Bool} {t : Token} {ts : List Token} (ht : t.Lays .indent)
      (hleads : Leads ts) (h : Laid (blocks + 1) (blocks + 1) 0 false ts) : Laid blocks blocks 0 afterOperand (t :: ts)
  | newline {blocks level : Nat} {afterOperand : Bool} {t : Token} {ts : List Token} (ht : t.Lays .newline)
      (hleads : Leads ts) (h : Laid level level 0 false ts) : Laid blocks level 0 afterOperand (t :: ts)
  | dedent {blocks level depth : Nat} {afterOperand : Bool} {t : Token} {ts : List Token} (ht : t.Lays .dedent)
      (h : Laid blocks level depth afterOperand ts) : Laid blocks (level + 1) depth afterOperand (t :: ts)

/-- The ends of blocks. -/
theorem Laid.dedents {blocks level depth : Nat} {afterOperand : Bool} {us ts : List Token}
    (hus : ∀ t ∈ us, t.Lays .dedent) (h : Laid blocks level depth afterOperand ts) :
    Laid blocks (level + us.length) depth afterOperand (us ++ ts) := by
  induction us with
  | nil => exact h
  | cons t us ih =>
    obtain ⟨ht, hus⟩ := List.forall_mem_cons.mp hus
    exact .dedent ht (ih hus)

/-- A token that stands for indentation ends no operand. -/
theorem Lays.endsOperand {t : Token} {kind : TokenKind} (h : t.Lays kind) (hkind : kind.isLayout) :
    t.endsOperand = false := by
  unfold Token.endsOperand
  rw [h.1]
  cases kind <;> first | rfl | cases hkind

end Token

namespace Scanner

open Token (Laid Leads)

variable {s s' : Scanner}

/-- Text with no other blanks than these four. -/
def PlainBlanks (cs : List Char) : Prop := ∀ c ∈ cs, Text.isBlank c → c ∈ [' ', '\t', '\n', '\r']

theorem PlainBlanks.suffix {cs ds : List Char} (h : PlainBlanks cs) (hds : ds <:+ cs) : PlainBlanks ds :=
  fun c hc => h c (hds.mem hc)

/-- Indentation is passed over up to something else. -/
theorem skipIndentation_rest (width passed : Nat) (cs : List Char) :
    (skipIndentation width passed cs).2.2 <:+ cs ∧
      ∀ c ∈ (skipIndentation width passed cs).2.2.head?, c ∉ [' ', '\t', '\n', '\r'] := by
  fun_induction skipIndentation width passed cs with
  | case1 => exact ⟨List.suffix_refl _, fun _ h => nomatch h⟩
  | case2 width passed cs ih => exact ⟨ih.1.trans (List.suffix_cons _ _), ih.2⟩
  | case3 width passed cs _ ih => exact ⟨ih.1.trans (List.suffix_cons _ _), ih.2⟩
  | case4 width passed c cs _ _ _ ih => exact ⟨ih.1.trans (List.suffix_cons _ _), ih.2⟩
  | case5 width passed c cs hspace htab hbreak =>
    refine ⟨List.suffix_refl _, ?_⟩
    rintro _ ⟨rfl⟩
    simp_all

/-- Text begins with a lexeme if it begins with no blank. -/
def LeadsBehind (cs : List Char) (ts : List Token) : Prop := ∀ c ∈ cs.head?, Text.isBlank c = false → Leads ts

/-- The blocks that are open, beside the source itself. -/
def blocks (s : Scanner) : Nat := s.indents.length - 1

/-- **What a scanner adds** on its way to a state: tokens that are laid out if those that follow are. -/
structure Adds (s s' : Scanner) (ts : List Token) : Prop where
  suffix : s'.rest <:+ s.rest
  tokens : s'.tokens = ts.reverse ++ s.tokens
  indents : s'.indents ≠ []
  laid : ∀ {new : List Token}, Laid s'.blocks s'.blocks s'.depth s'.afterOperand new → LeadsBehind s'.rest new →
    Laid s.blocks s.blocks s.depth s.afterOperand (ts ++ new)

/-- A token for indentation. -/
def layoutToken (position : Nat) (kind : TokenKind) : Token :=
  ⟨if kind = .newline then "\n" else "", kind, ⟨position, position⟩⟩

theorem lays_layoutToken (position : Nat) (kind : TokenKind) : (layoutToken position kind).Lays kind := ⟨rfl, rfl⟩

theorem addLayout_tokens (s : Scanner) (kinds : List TokenKind) :
    (s.addLayout kinds).tokens = (kinds.map (layoutToken s.position)).reverse ++ s.tokens := rfl

theorem lays_dedents (position k : Nat) :
    ∀ t ∈ (List.replicate k TokenKind.dedent).map (layoutToken position), t.Lays .dedent := by
  intro t ht
  rw [List.map_replicate] at ht
  exact List.eq_of_mem_replicate ht ▸ lays_layoutToken position .dedent

/-- The beginning of a block. -/
theorem adds_indent (hdepth : s.depth = 0) (hindents : s.indents ≠ []) (width : Nat)
    (hleads : ∀ {new : List Token}, LeadsBehind s.rest new → Leads new) :
    Adds s ({ s with indents := width :: s.indents }.addLayout [.indent]) [layoutToken s.position .indent] where
  suffix := List.suffix_refl _
  tokens := rfl
  indents := List.cons_ne_nil _ _
  laid {new} hnew hbehind := by
    have hblocks : ({ s with indents := width :: s.indents }.addLayout [.indent]).blocks = s.blocks + 1 := by
      have hpos := List.length_pos_iff.mpr hindents
      show s.indents.length + 1 - 1 = s.indents.length - 1 + 1
      omega
    rw [hblocks] at hnew
    replace hnew : Laid (s.blocks + 1) (s.blocks + 1) s.depth false new := hnew
    rw [hdepth] at hnew ⊢
    exact .indent (lays_layoutToken _ _) (hleads hbehind) hnew

/-- The ends of blocks and the separator behind them. -/
theorem adds_newline {left : List Nat} {closed : Nat} (hdepth : s.depth = 0) (hleft : left ≠ [])
    (hlength : s.indents.length = closed + left.length)
    (hleads : ∀ {new : List Token}, LeadsBehind s.rest new → Leads new) :
    Adds s ({ s with indents := left }.addLayout (List.replicate closed TokenKind.dedent ++ [TokenKind.newline]))
      ((List.replicate closed TokenKind.dedent ++ [TokenKind.newline]).map (layoutToken s.position)) where
  suffix := List.suffix_refl _
  tokens := addLayout_tokens _ _
  indents := hleft
  laid {new} hnew hbehind := by
    have hafter : ({ s with indents := left }.addLayout
        (List.replicate closed TokenKind.dedent ++ [TokenKind.newline])).afterOperand = false := by
      rw [afterOperand, addLayout_tokens, List.map_append, List.reverse_append]
      rfl
    rw [hafter] at hnew
    replace hnew : Laid (left.length - 1) (left.length - 1) s.depth false new := hnew
    have hblocks : s.blocks = left.length - 1 + ((List.replicate closed TokenKind.dedent).map
        (layoutToken s.position)).length := by
      have hpos := List.length_pos_iff.mpr hleft
      rw [List.length_map, List.length_replicate, blocks]
      omega
    rw [hdepth] at hnew ⊢
    rw [List.map_append, List.append_assoc]
    have hlaid : Laid s.blocks _ 0 s.afterOperand _ := Laid.dedents (lays_dedents s.position closed)
      (.newline (lays_layoutToken s.position _) (hleads hbehind) hnew)
    rwa [← hblocks] at hlaid

theorem adds_layOut {width : Nat} (hdepth : s.depth = 0) (hindents : s.indents ≠ [])
    (hleads : ∀ {new : List Token}, LeadsBehind s.rest new → Leads new)
    (h : s.layOut width = .ok s') : ∃ ts, Adds s s' ts := by
  unfold layOut at h
  split at h
  next hnil => exact absurd hnil hindents
  next top more htop =>
  split at h
  next hdeeper =>
    cases h
    exact ⟨_, adds_indent hdepth hindents width hleads⟩
  dsimp only at h
  split at h
  next hleft =>
    cases h
    have hne : s.indents.dropWhile (width < ·) ≠ [] := by
      intro hnil
      rw [hnil] at hleft
      cases hleft
    refine ⟨_, adds_newline hdepth hne ?_ hleads⟩
    rw [← List.length_append, List.takeWhile_append_dropWhile]
  next => cases h

theorem adds_startLine (hdepth : s.depth = 0) (hplain : PlainBlanks s.rest) (hindents : s.indents ≠ [])
    (h : s.startLine = .ok s') : ∃ ts, Adds s s' ts := by
  unfold startLine at h
  obtain ⟨hsuffix, hhead⟩ := skipIndentation_rest 0 0 s.rest
  generalize skipIndentation 0 0 s.rest = line at h hsuffix hhead
  obtain ⟨width, passed, rest⟩ := line
  dsimp only at h hsuffix hhead
  split at h
  · cases h
    exact ⟨[], hsuffix, rfl, hindents, fun hnew _ => hnew⟩
  next hrest =>
  have hleads {new : List Token} (hnew : LeadsBehind rest new) : Leads new := by
    obtain ⟨c, cs, rfl⟩ := List.exists_cons_of_ne_nil (mt List.isEmpty_iff.mpr hrest)
    refine hnew c rfl (Bool.eq_false_iff.mpr fun hc => ?_)
    exact hhead c rfl (hplain.suffix hsuffix c List.mem_cons_self hc)
  obtain ⟨ts, hadds⟩ :=
    adds_layOut (s := { s with rest, position := s.position + passed }) hdepth hindents hleads h
  exact ⟨ts, hadds.suffix.trans hsuffix, hadds.tokens, hadds.indents, hadds.laid⟩

/-- A lexeme. -/
theorem adds_take {c : Char} (hindents : s.indents ≠ []) {l : Lexeme} (h : Lexeme.Recut s.afterOperand c l) :
    ∃ t, t.kind.isLayout = false ∧ Adds s (s.take c l) [t] := by
  obtain ⟨hlength, hkind, d, ds, htext, hfirm, hdepth⟩ := h
  refine ⟨⟨String.ofList l.text, l.kind, ⟨s.position, s.position + l.length⟩⟩, hkind,
    List.drop_suffix l.length s.rest, rfl, hindents, fun hnew _ => ?_⟩
  exact .lexeme hkind (congrArg String.ofList htext) hfirm (hdepth s.depth ▸ hnew)

/-- **What a step adds.** -/
theorem adds_step {c : Char} {cs : List Char} (hrest : s.rest = c :: cs) (hplain : PlainBlanks s.rest)
    (hindents : s.indents ≠ []) (h : s.step .standard c cs = .ok s') :
    ∃ ts, Adds s s' ts ∧ s'.rest <:+ cs ∧ (Text.isBlank c = false → Leads ts) := by
  have hskip : (s.skip 1).rest = cs := by
    rw [skip, hrest]
    rfl
  have hskips : Adds s (s.skip 1) [] := ⟨List.drop_suffix 1 s.rest, rfl, hindents, fun hnew _ => hnew⟩
  unfold step at h
  split at h
  next hbreak =>
    have hblank : Text.isBlank c ≠ false := by
      rcases hbreak with rfl | rfl <;> decide
    split at h
    next hdepth =>
      obtain ⟨ts, hadds⟩ := adds_startLine (s := s.skip 1) hdepth (hplain.suffix hskips.suffix) hindents h
      exact ⟨ts, ⟨hadds.suffix.trans hskips.suffix, hadds.tokens, hadds.indents, hadds.laid⟩,
        hskip ▸ hadds.suffix, fun hc => absurd hc hblank⟩
    next =>
      cases h
      exact ⟨[], hskips, hskip ▸ List.suffix_refl _, fun hc => absurd hc hblank⟩
  next =>
  split at h
  next hblank =>
    cases h
    exact ⟨[], hskips, hskip ▸ List.suffix_refl _, fun hc => Bool.noConfusion (hblank.symm.trans hc)⟩
  next hblank =>
    cases hnext : Lexeme.next .standard s.afterOperand c cs s.position with
    | error e =>
      rw [hnext] at h
      cases h
    | ok l =>
      rw [hnext] at h
      cases h
      have hrecut := Lexeme.next_recut (Bool.eq_false_iff.mpr hblank) hnext
      obtain ⟨t, ht, hadds⟩ := adds_take hindents hrecut
      refine ⟨[t], hadds, ?_, fun _ => ⟨t, rfl, ht⟩⟩
      obtain ⟨n, hn⟩ := Nat.exists_eq_add_one_of_ne_zero hrecut.length_pos.ne'
      show s.rest.drop l.length <:+ cs
      rw [hrest, hn, List.drop_succ_cons]
      exact List.drop_suffix n cs

theorem run_nil {g : Grammar} (hrest : s.rest = []) (steps : Nat) : s.run g steps = .ok s := by
  cases steps with
  | zero => rfl
  | succ steps => rw [run, hrest]

/-- **What a run adds.** -/
theorem adds_run {steps : Nat} (hplain : PlainBlanks s.rest) (hindents : s.indents ≠ [])
    (hsteps : s.rest.length ≤ steps) (h : s.run .standard steps = .ok s') :
    ∃ ts, s'.close.tokens = ts.reverse ++ s.tokens ∧ Laid s.blocks s.blocks s.depth s.afterOperand ts ∧
      LeadsBehind s.rest ts := by
  have hclose (s : Scanner) (hrest : s.rest = []) : ∃ ts, s.close.tokens = ts.reverse ++ s.tokens ∧
      Laid s.blocks s.blocks s.depth s.afterOperand ts ∧ LeadsBehind s.rest ts := by
    have hlaid : Laid s.blocks _ s.depth s.afterOperand _ := Laid.dedents (lays_dedents s.position s.blocks) .done
    rw [List.length_map, List.length_replicate, Nat.zero_add, List.append_nil] at hlaid
    refine ⟨_, addLayout_tokens s _, hlaid, ?_⟩
    rw [hrest]
    exact fun _ h => nomatch h
  induction steps generalizing s with
  | zero =>
    cases h
    exact hclose _ (List.length_eq_zero_iff.mp (Nat.le_zero.mp hsteps))
  | succ steps ih =>
    unfold run at h
    split at h
    next hrest =>
      cases h
      exact hclose _ hrest
    next c cs hrest =>
      cases hstep : s.step .standard c cs with
      | error e =>
        rw [hstep] at h
        cases h
      | ok s₁ =>
        rw [hstep] at h
        obtain ⟨ts, hadds, hsuffix, hleads⟩ := adds_step hrest hplain hindents hstep
        have hless : s₁.rest.length ≤ steps := by
          have := hsuffix.length_le
          rw [hrest, List.length_cons] at hsteps
          omega
        obtain ⟨us, htokens, hlaid, hbehind⟩ := ih (hplain.suffix hadds.suffix) hadds.indents hless h
        refine ⟨ts ++ us, ?_, hadds.laid hlaid hbehind, ?_⟩
        · rw [htokens, hadds.tokens, List.reverse_append, List.append_assoc]
        · rw [hrest]
          rintro _ ⟨rfl⟩ hc
          obtain ⟨t, ht, hkind⟩ := hleads hc
          exact ⟨t, by rw [List.head?_append, ht]; rfl, hkind⟩

end Scanner

/-- **The tokens of a source text are laid out**, and a first one is a lexeme. -/
theorem Token.laid_scan {source : String} {ts : List Token} (hplain : Scanner.PlainBlanks source.toList)
    (h : Token.scan .standard source = .ok ts) : Token.Laid 0 0 0 false ts ∧ (ts ≠ [] → Token.Leads ts) := by
  unfold Token.scan Scanner.startLine at h
  obtain ⟨hsuffix, hhead⟩ := Scanner.skipIndentation_rest 0 0 source.toList
  dsimp only at h
  generalize Scanner.skipIndentation 0 0 source.toList = line at h hsuffix hhead
  obtain ⟨width, passed, rest⟩ := line
  dsimp only at h hsuffix hhead
  cases rest with
  | nil =>
    simp only [List.isEmpty_nil, if_true, bind, Except.bind, Scanner.run_nil, pure, Except.pure] at h
    cases h
    exact ⟨.done, fun h => absurd rfl h⟩
  | cons c cs =>
    simp only [List.isEmpty_cons, Bool.false_eq_true, if_false, Scanner.layOut, bind, Except.bind, pure,
      Except.pure] at h
    split at h
    next => cases h
    next s' hrun =>
    cases h
    obtain ⟨ts, htokens, hlaid, hleads⟩ :=
      Scanner.adds_run (hplain.suffix hsuffix) (List.cons_ne_nil _ _) hsuffix.length_le hrun
    have htokens' : s'.close.tokens.reverse = ts := by rw [htokens, List.append_nil, List.reverse_reverse]
    rw [htokens']
    refine ⟨hlaid, fun _ => hleads c rfl (Bool.eq_false_iff.mpr fun hc => ?_)⟩
    exact hhead c rfl (hplain.suffix hsuffix c List.mem_cons_self hc)

end Cellbook
