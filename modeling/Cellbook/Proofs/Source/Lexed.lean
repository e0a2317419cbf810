import Cellbook.Source.Token.Scan

/-!
# What is so of every token

There are five ways to cut a lexeme off source text (`Lexeme.next_cut`). A token either stands for layout or was cut
off, so what is so of the three kinds of layout and of whatever is cut off is so of every token
(`Token.scan_forall`).
-/

namespace Cellbook

/-! ## Lexemes -/

namespace Lexeme

/-- **How a lexeme is cut off** source text. -/
inductive Cut (g : Grammar) (source : List Char) (start : Nat) : Lexeme → Prop
  | text {mark : Char} {l : Lexeme} (h : quotedText mark source start = .ok l) : Cut g source start l
  /-- A number, with a minus in front of it or not. -/
  | number {front cs : List Char} {l : Lexeme} (hfront : front ∈ [[], ['-']]) (hsource : source = front ++ cs)
    (h : number front.length source start = .ok l) : Cut g source start l
  | word : Cut g source start (word g source)
  | mark (n : Nat) : Cut g source start (mark g n source)
  | joined {l : Lexeme} (h : joined g source start = .ok l) : Cut g source start l

theorem next_cut {g : Grammar} {afterOperand : Bool} {c : Char} {cs : List Char} {start : Nat} {l : Lexeme}
    (h : next g afterOperand c cs start = .ok l) : Cut g (c :: cs) start l := by
  have hmark {n : Nat} (h : Except.ok (ε := SourceFault) (Lexeme.mark g n (c :: cs)) = .ok l) :
      Cut g (c :: cs) start l := by
    cases h
    exact .mark n
  have hnumber (h : Lexeme.number 0 (c :: cs) start = .ok l) : Cut g (c :: cs) start l :=
    .number List.mem_cons_self (List.nil_append _).symm h
  unfold next at h
  dsimp only at h
  split at h
  · exact .text h
  split at h
  · exact hnumber h
  split at h
  · split at h
    · exact hmark h
    · split at h
      · exact hnumber h
      · exact hmark h
  split at h
  next hminus =>
    split at h
    · have hfront : ['-'] ∈ [[], ['-']] := by decide
      exact .number hfront (by rw [hminus]; rfl) h
    · exact hmark h
  split at h
  · exact hmark h
  split at h
  · cases h
    exact .word
  split at h
  · exact .joined h
  split at h
  · exact hmark h
  · cases h

end Lexeme

/-! ## Tokens -/

/-- The kinds of tokens that stand for indentation. -/
def TokenKind.isLayout : TokenKind → Bool
  | .indent | .dedent | .newline => true
  | _ => false

/-- What is so of layout, and of every lexeme where it stands. -/
structure Token.Lexed (g : Grammar) (p : Token → Prop) : Prop where
  layout : ∀ {text : String} {kind : TokenKind} {span : Span}, kind.isLayout → p ⟨text, kind, span⟩
  lexeme : ∀ {afterOperand : Bool} {c : Char} {cs : List Char} {start : Nat} {l : Lexeme},
    Lexeme.next g afterOperand c cs start = .ok l → p ⟨String.ofList l.text, l.kind, ⟨start, start + l.length⟩⟩

namespace Scanner

theorem isLayout_dedents (n : Nat) : ∀ kind ∈ List.replicate n TokenKind.dedent, kind.isLayout := fun _ hkind =>
  List.eq_of_mem_replicate hkind ▸ rfl

variable {g : Grammar} {p : Token → Prop}

theorem addLayout_forall (hp : Token.Lexed g p) {s : Scanner} (h : ∀ t ∈ s.tokens, p t) {kinds : List TokenKind}
    (hkinds : ∀ kind ∈ kinds, kind.isLayout) : ∀ t ∈ (s.addLayout kinds).tokens, p t := by
  intro t ht
  rcases List.mem_append.mp ht with ht | ht
  · obtain ⟨kind, hmem, rfl⟩ := List.mem_map.mp (List.mem_reverse.mp ht)
    exact hp.layout (hkinds kind hmem)
  · exact h t ht

theorem startLine_forall (hp : Token.Lexed g p) {s s' : Scanner} (h : ∀ t ∈ s.tokens, p t)
    (hs : s.startLine = .ok s') : ∀ t ∈ s'.tokens, p t := by
  unfold startLine at hs
  dsimp only at hs
  split at hs
  · cases hs; exact h
  · unfold layOut at hs
    split at hs
    · cases hs; exact h
    · split at hs
      · cases hs
        exact addLayout_forall hp (by exact h) (List.forall_mem_singleton.mpr rfl)
      · dsimp only at hs
        split at hs
        · cases hs
          exact addLayout_forall hp (by exact h)
            (List.forall_mem_append.mpr ⟨isLayout_dedents _, List.forall_mem_singleton.mpr rfl⟩)
        · cases hs

theorem step_forall (hp : Token.Lexed g p) {s s' : Scanner} {c : Char} {cs : List Char} (h : ∀ t ∈ s.tokens, p t)
    (hs : s.step g c cs = .ok s') : ∀ t ∈ s'.tokens, p t := by
  unfold step at hs
  split at hs
  · split at hs
    · exact startLine_forall hp (by exact h) hs
    · cases hs; exact h
  · split at hs
    · cases hs; exact h
    · cases hnext : Lexeme.next g s.afterOperand c cs s.position with
      | error fault => rw [hnext] at hs; cases hs
      | ok l =>
        rw [hnext] at hs
        cases hs
        exact List.forall_mem_cons.mpr ⟨hp.lexeme hnext, h⟩

theorem run_forall (hp : Token.Lexed g p) {steps : Nat} {s s' : Scanner} (h : ∀ t ∈ s.tokens, p t)
    (hs : s.run g steps = .ok s') : ∀ t ∈ s'.tokens, p t := by
  induction steps generalizing s with
  | zero => cases hs; exact h
  | succ steps ih =>
    unfold run at hs
    split at hs
    · cases hs; exact h
    · rename_i c cs _
      cases hstep : s.step g c cs with
      | error fault => rw [hstep] at hs; cases hs
      | ok s₁ =>
        rw [hstep] at hs
        exact ih (step_forall hp h hstep) hs

end Scanner

/-- **What is so of layout and of lexemes is so of every token** of a source text. -/
theorem Token.scan_forall {g : Grammar} {p : Token → Prop} (hp : Lexed g p) {source : String} {ts : List Token}
    (h : scan g source = .ok ts) : ∀ t ∈ ts, p t := by
  unfold scan at h
  dsimp only at h
  cases hstart : (Scanner.mk source.toList 0 [] [] 0).startLine with
  | error fault => rw [hstart] at h; cases h
  | ok s =>
    rw [hstart] at h
    cases hrun : s.run g source.toList.length with
    | error fault =>
      simp only [bind, Except.bind, hrun] at h
      cases h
    | ok s' =>
      simp only [bind, Except.bind, hrun] at h
      cases h
      have hs : ∀ t ∈ s.tokens, p t := Scanner.startLine_forall hp (List.forall_mem_nil _) hstart
      have hclose := Scanner.addLayout_forall hp (Scanner.run_forall hp hs hrun)
        (Scanner.isLayout_dedents (s'.indents.length - 1))
      exact fun t ht => hclose t (List.mem_reverse.mp ht)

end Cellbook
