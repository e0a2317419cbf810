import Cellbook.Proofs.Source.LineStarts
import Cellbook.Proofs.Source.Respaced

/-!
# Scanners that go in step

Two scanners with the same text ahead do the same things: a scanner looks at the tokens behind it only to see whether
the last one ends an operand, and at its place only to say where a fault is. So what each thing that they do keeps
true of them holds of them at the end (`Scanner.Lockstep.run`). In particular, where in a source a line stands shows
only in the places of its tokens and faults (`Scanner.finishLines_alike`).
-/

namespace Cellbook

open Token (look)

/-- A result apart from the place of its fault. -/
def causeOf {α : Type} (x : Except SourceFault α) : Except SourceCause α := x.mapError (·.cause)

theorem causeOf_bind {α β : Type} (x : Except SourceFault α) (k : α → Except SourceFault β) :
    causeOf (x >>= k) = causeOf x >>= fun a => causeOf (k a) := by
  cases x <;> rfl

/-- How the tokens of a source look, or why there are none. -/
def Token.looks (x : Except SourceFault (List Token)) : Except SourceCause (List (TokenKind × String)) :=
  (·.map look) <$> causeOf x

theorem Token.looks_eq_ok {x : Except SourceFault (List Token)} {ts : List Token} (h : looks x = looks (.ok ts)) :
    ∃ ts', x = .ok ts' ∧ ts'.map look = ts.map look := by
  cases x with
  | error f => cases h
  | ok ts' => exact ⟨ts', rfl, Except.ok.inj h⟩

/-- Two results agree apart from the places of faults. -/
abbrev AgreeApart {α β : Type} (R : α → β → Prop) (x : Except SourceFault α) (y : Except SourceFault β) : Prop :=
  Agree R (causeOf x) (causeOf y)

theorem AgreeApart.bind {α β γ δ : Type} {R : α → β → Prop} {S : γ → δ → Prop} {x : Except SourceFault α}
    {y : Except SourceFault β} {k : α → Except SourceFault γ} {k' : β → Except SourceFault δ}
    (h : AgreeApart R x y) (hk : ∀ a b, R a b → AgreeApart S (k a) (k' b)) : AgreeApart S (x >>= k) (y >>= k') := by
  unfold AgreeApart
  rw [causeOf_bind, causeOf_bind]
  exact Agree.bind h hk

/-- Results that are equal apart from the places of faults are faults for the same cause, or the same value. -/
theorem cases_of_causeOf_eq {α : Type} {x y : Except SourceFault α} (h : causeOf x = causeOf y) :
    (∃ f f', x = .error f ∧ y = .error f' ∧ f.cause = f'.cause) ∨ ∃ a, x = .ok a ∧ y = .ok a := by
  cases x with
  | error f =>
    cases y with
    | error f' => exact .inl ⟨f, f', rfl, rfl, Except.error.inj h⟩
    | ok b => cases h
  | ok a =>
    cases y with
    | error f' => cases h
    | ok b =>
      cases h
      exact .inr ⟨a, rfl, rfl⟩

namespace Lexeme

theorem number_apart (sign : Nat) (cs : List Char) (start start' : Nat) :
    causeOf (number sign cs start) = causeOf (number sign cs start') := by
  unfold number
  split
  · rfl
  · rfl
  · dsimp only
    split <;> rfl

/-- **A lexeme does not depend on where it stands.** -/
theorem next_apart (g : Grammar) (afterOperand : Bool) (c : Char) (cs : List Char) (start start' : Nat) :
    causeOf (next g afterOperand c cs start) = causeOf (next g afterOperand c cs start') := by
  unfold next
  dsimp only
  split
  · unfold quotedText
    split <;> rfl
  split
  · exact number_apart _ _ _ _
  split
  · split
    · rfl
    split
    · exact number_apart _ _ _ _
    · rfl
  split
  · split
    · exact number_apart _ _ _ _
    · rfl
  split
  · rfl
  split
  · rfl
  split
  · unfold joined
    dsimp only
    split <;> rfl
  split <;> rfl

end Lexeme

namespace Scanner

/-- **Two scanners that are related by `R` go in step**: they have the same text ahead, in as many brackets and behind
an operand or not alike, and what they do keeps them related. The relation of what they come to is `T`, as a line that
they lay out may be at fault. -/
structure Lockstep (R : Scanner → Scanner → Prop)
    (T : Except SourceFault Scanner → Except SourceFault Scanner → Prop) : Prop where
  rest {s s' : Scanner} : R s s' → s'.rest = s.rest
  depth {s s' : Scanner} : R s s' → s'.depth = s.depth
  afterOperand {s s' : Scanner} : R s s' → s'.afterOperand = s.afterOperand
  move {s s' : Scanner} (rest : List Char) (position position' : Nat) : R s s' →
    R { s with rest, position } { s' with rest, position := position' }
  take {s s' : Scanner} (c : Char) {l : Lexeme} : R s s' → l.kind.isLayout = false → R (s.take c l) (s'.take c l)
  layOut {s s' : Scanner} (width : Nat) : R s s' → T (s.layOut width) (s'.layOut width)
  ok {s s' : Scanner} : R s s' → T (.ok s) (.ok s')
  error {f f' : SourceFault} : f.cause = f'.cause → T (.error f) (.error f')
  bind {x y : Except SourceFault Scanner} {k k' : Scanner → Except SourceFault Scanner} : T x y →
    (∀ a b, R a b → T (k a) (k' b)) → T (x >>= k) (y >>= k')

variable {g : Grammar} {s s' : Scanner}

namespace Lockstep

variable {R : Scanner → Scanner → Prop} {T : Except SourceFault Scanner → Except SourceFault Scanner → Prop}

theorem skip (hR : Lockstep R T) (h : R s s') (n : Nat) : R (s.skip n) (s'.skip n) := by
  unfold Scanner.skip
  rw [hR.rest h]
  exact hR.move _ _ _ h

theorem startLine (hR : Lockstep R T) (h : R s s') : T s.startLine s'.startLine := by
  unfold Scanner.startLine
  rw [hR.rest h]
  dsimp only
  split
  · exact hR.ok (hR.move _ _ _ h)
  · exact hR.layOut _ (hR.move _ _ _ h)

theorem step (hR : Lockstep R T) (h : R s s') (g : Grammar) (c : Char) (cs : List Char) :
    T (s.step g c cs) (s'.step g c cs) := by
  unfold Scanner.step
  rw [hR.depth h]
  split
  · split
    · exact hR.startLine (hR.skip h 1)
    · exact hR.ok (hR.skip h 1)
  split
  · exact hR.ok (hR.skip h 1)
  · rw [hR.afterOperand h]
    have hnext := Lexeme.next_apart g s.afterOperand c cs s.position s'.position
    obtain ⟨f, f', hf, hf', hcause⟩ | ⟨l, hl, hl'⟩ := cases_of_causeOf_eq hnext
    · rw [hf, hf']
      exact hR.error hcause
    · rw [hl, hl']
      exact hR.ok (hR.take c h (Lexeme.next_taken hl).not_layout)

/-- **A run keeps scanners in step.** -/
theorem run (hR : Lockstep R T) (h : R s s') (g : Grammar) (steps : Nat) : T (s.run g steps) (s'.run g steps) := by
  induction steps generalizing s s' with
  | zero => exact hR.ok h
  | succ steps ih =>
    unfold Scanner.run
    rw [hR.rest h]
    split
    · exact hR.ok h
    · exact hR.bind (hR.step h g _ _) fun _ _ h' => ih h'

theorem finish (hR : Lockstep R T) (h : R s s') (g : Grammar) : T (s.finish g) (s'.finish g) := by
  unfold Scanner.finish
  rw [hR.rest h]
  exact hR.run h g _

theorem finishLines (hR : Lockstep R T) (h : R s s') (g : Grammar) : T (s.finishLines g) (s'.finishLines g) :=
  hR.bind (hR.startLine h) fun _ _ h' => hR.finish h' g

end Lockstep

/-! ## Scanners at other places -/

/-- **Two scanners are alike** apart from where they stand. -/
structure Alike (s s' : Scanner) : Prop where
  rest : s'.rest = s.rest
  looks : s'.tokens.map look = s.tokens.map look
  indents : s'.indents = s.indents
  depth : s'.depth = s.depth

theorem endsOperand_eq {t u : Token} (h : look t = look u) : t.endsOperand = u.endsOperand := by
  obtain ⟨hkind, hlexeme⟩ := Prod.mk.inj h
  unfold Token.endsOperand
  rw [hkind, hlexeme]

theorem Alike.afterOperand (h : Alike s s') : s'.afterOperand = s.afterOperand := by
  have hlooks := h.looks
  unfold Scanner.afterOperand
  cases htokens : s.tokens with
  | nil =>
    rw [htokens, List.map_nil, List.map_eq_nil_iff] at hlooks
    rw [hlooks]
  | cons t ts =>
    rw [htokens, List.map_cons] at hlooks
    obtain ⟨t', ts', htokens', ht, -⟩ := List.map_eq_cons_iff.mp hlooks
    rw [htokens', List.head?_cons, List.head?_cons, Option.any_some, Option.any_some, endsOperand_eq ht]

theorem Alike.take (h : Alike s s') (c : Char) (l : Lexeme) : Alike (s.take c l) (s'.take c l) where
  rest := congrArg (List.drop l.length) h.rest
  looks := by
    show _ :: s'.tokens.map look = _ :: s.tokens.map look
    rw [h.looks]
    rfl
  indents := h.indents
  depth := congrArg (depthAfter · c) h.depth

theorem Alike.withIndents (h : Alike s s') (indents : List Nat) : Alike { s with indents } { s' with indents } :=
  ⟨h.rest, h.looks, rfl, h.depth⟩

theorem Alike.addLayout (h : Alike s s') (kinds : List TokenKind) :
    Alike (s.addLayout kinds) (s'.addLayout kinds) where
  rest := h.rest
  looks := by
    rw [addLayout_tokens, addLayout_tokens, List.map_append, List.map_append, List.map_reverse, List.map_reverse,
      List.map_map, List.map_map]
    exact congrArg _ h.looks
  indents := h.indents
  depth := h.depth

theorem layOut_alike (h : Alike s s') (width : Nat) : AgreeApart Alike (s.layOut width) (s'.layOut width) := by
  unfold layOut
  rw [h.indents]
  cases hindents : s.indents with
  | nil => exact .ok (h.withIndents [width])
  | cons top indents =>
    dsimp only
    split
    · exact .ok ((h.withIndents _).addLayout _)
    split
    · exact .ok ((h.withIndents _).addLayout _)
    · exact .error _

theorem lockstep_alike : Lockstep Alike (AgreeApart Alike) where
  rest := Alike.rest
  depth := Alike.depth
  afterOperand := Alike.afterOperand
  move _ _ _ h := ⟨rfl, h.looks, h.indents, h.depth⟩
  take c l h _ := h.take c l
  layOut width h := layOut_alike h width
  ok := .ok
  error hcause := by
    unfold AgreeApart causeOf
    rw [Except.mapError, Except.mapError, hcause]
    exact .error _
  bind h hk := AgreeApart.bind h hk

/-- **The end of the source is the same** wherever it begins, apart from places. -/
theorem finishLines_alike (h : Alike s s') (g : Grammar) : AgreeApart Alike (s.finishLines g) (s'.finishLines g) :=
  lockstep_alike.finishLines h g

theorem Alike.found_looks (h : Alike s s') : s'.found.map look = s.found.map look := by
  unfold found close
  rw [h.indents, List.map_reverse, List.map_reverse, (h.addLayout _).looks]

end Scanner

theorem Token.looks_found {x y : Except SourceFault Scanner} (h : AgreeApart Scanner.Alike x y) :
    looks (Scanner.found <$> y) = looks (Scanner.found <$> x) := by
  have hlooks (x : Except SourceFault Scanner) : looks (Scanner.found <$> x) =
      (fun s => s.found.map look) <$> causeOf x := by
    cases x <;> rfl
  rw [hlooks, hlooks]
  exact h.map_eq fun s s' hs => hs.found_looks

end Cellbook
