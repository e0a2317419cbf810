import Cellbook.Proofs.Source.Literal
import Cellbook.Source.Token.Scan

/-!
# How values are spelt

Scanning the text of a value gives tokens that spell the value (`scan_toText`): literals for its scalars, and
marks around and between its parts. Blanks stand only behind commas and colons, and no token before a number
ends an operand, so a minus is always the sign of the number behind it.
-/

namespace Cellbook

variable {φ : Type}

/-- A token is a mark. -/
def Token.Marks (t : Token) (name : String) : Prop := t.kind = .delimiter ∧ t.lexeme = name

namespace Value

mutual

/-- **Tokens spell a value.** Where they stand makes no difference. -/
inductive Spelt : Value φ → List Token → Prop
  | scalar {s : Scalar} {t : Token} (h : t.kind = .literal s) : Spelt s.toValue [t]
  | stream {items : List (Value φ)} {opening closing : Token} {ts : List Token} (hopening : opening.Marks "[")
      (h : ItemsSpelt items ts) (hclosing : closing.Marks "]") :
    Spelt (.stream items) (opening :: (ts ++ [closing]))
  | object {entries : List (Value φ × Value φ)} {opening closing : Token} {ts : List Token}
      (hopening : opening.Marks "\x7b") (h : EntriesSpelt entries ts) (hclosing : closing.Marks "\x7d") :
    Spelt (.object entries []) (opening :: (ts ++ [closing]))

/-- Tokens spell values with commas between them. -/
inductive ItemsSpelt : List (Value φ) → List Token → Prop
  | nil : ItemsSpelt [] []
  | single {v : Value φ} {ts : List Token} (h : Spelt v ts) : ItemsSpelt [v] ts
  | cons {v w : Value φ} {vs : List (Value φ)} {comma : Token} {ts us : List Token} (h : Spelt v ts)
      (hcomma : comma.Marks ",") (hs : ItemsSpelt (w :: vs) us) : ItemsSpelt (v :: w :: vs) (ts ++ comma :: us)

/-- Tokens spell a key that is no stream, and behind a colon its value. -/
inductive EntrySpelt : Value φ → Value φ → List Token → Prop
  | mk {k v : Value φ} {colon : Token} {ts us : List Token} (hk : Spelt k ts) (hstream : k.kind ≠ .stream)
      (hcolon : colon.Marks ":") (hv : Spelt v us) : EntrySpelt k v (ts ++ colon :: us)

/-- Tokens spell entries with commas between them. -/
inductive EntriesSpelt : List (Value φ × Value φ) → List Token → Prop
  | nil : EntriesSpelt [] []
  | single {k v : Value φ} {ts : List Token} (h : EntrySpelt k v ts) : EntriesSpelt [(k, v)] ts
  | cons {k v : Value φ} {e : Value φ × Value φ} {es : List (Value φ × Value φ)} {comma : Token}
      {ts us : List Token} (h : EntrySpelt k v ts) (hcomma : comma.Marks ",") (hs : EntriesSpelt (e :: es) us) :
    EntriesSpelt ((k, v) :: e :: es) (ts ++ comma :: us)

end

end Value

/-! ## Runs of the scanner -/

namespace Scanner

/-- **A scanner reaches a state** in steps that each take some of the source. -/
inductive Reaches (g : Grammar) : Scanner → Scanner → Prop
  | refl (s : Scanner) : Reaches g s s
  | step {s s' s'' : Scanner} {c : Char} {cs : List Char} (hrest : s.rest = c :: cs)
      (hstep : s.step g c cs = .ok s') (hless : s'.rest.length < s.rest.length) (h : Reaches g s' s'') :
    Reaches g s s''

variable {g : Grammar} {s s' s'' : Scanner}

theorem Reaches.trans (h : Reaches g s s') (h' : Reaches g s' s'') : Reaches g s s'' := by
  induction h with
  | refl s => exact h'
  | step hrest hstep hless _ ih => exact .step hrest hstep hless (ih h')

/-- What is reached at the end of the source is what a run of the scanner gives. -/
theorem Reaches.run_eq (h : Reaches g s s') (hend : s'.rest = []) {steps : Nat} (hsteps : s.rest.length ≤ steps) :
    s.run g steps = .ok s' := by
  induction h generalizing steps with
  | refl s =>
    cases steps with
    | zero => rfl
    | succ steps => rw [run, hend]
  | @step s₀ s₁ s₂ c cs hrest hstep hless _ ih =>
    cases steps with
    | zero => omega
    | succ steps =>
      have hrun : run g steps s₁ = .ok s₂ := ih hend (by omega)
      rw [run, hrest]
      simp only [hstep, bind, Except.bind, hrun]

/-- The scanner behind tokens that it has found. -/
def behind (s : Scanner) (rest : List Char) (position : Nat) (ts : List Token) : Scanner :=
  { s with rest, position, tokens := ts.reverse ++ s.tokens }

/-- The scanner with as many brackets open. -/
def atDepth (s : Scanner) (depth : Nat) : Scanner := { s with depth }

theorem behind_behind (rest rest' : List Char) (position position' : Nat) (ts us : List Token) :
    (s.behind rest position ts).behind rest' position' us = s.behind rest' position' (ts ++ us) := by
  simp [behind]

theorem behind_atDepth (rest : List Char) (position depth : Nat) (ts : List Token) :
    (s.behind rest position ts).atDepth depth = (s.atDepth depth).behind rest position ts := rfl

theorem atDepth_atDepth (depth depth' : Nat) : (s.atDepth depth).atDepth depth' = s.atDepth depth' := rfl

/-- A token is one step. -/
theorem reaches_take {c : Char} {cs : List Char} (hrest : s.rest = c :: cs) (hc : Text.isBlank c = false)
    {l : Lexeme} (hnext : Lexeme.next g s.afterOperand c cs s.position = .ok l) (hl : 0 < l.length) :
    Reaches g s (s.take c l) := by
  have hbreak : ¬ (c = '\n' ∨ c = '\r') := by
    rintro (rfl | rfl) <;> cases hc
  have hstep : s.step g c cs = .ok (s.take c l) := by
    unfold step
    rw [if_neg hbreak, if_neg (by simp [hc]), hnext]
    rfl
  refine .step hrest hstep ?_ (.refl _)
  show (s.rest.drop l.length).length < s.rest.length
  rw [hrest, List.length_drop, List.length_cons]
  omega

theorem reaches_blank {cs : List Char} (hrest : s.rest = ' ' :: cs) : Reaches g s (s.skip 1) := by
  have hstep : s.step g ' ' cs = .ok (s.skip 1) := rfl
  refine .step hrest hstep ?_ (.refl _)
  show (s.rest.drop 1).length < s.rest.length
  rw [hrest]
  exact Nat.lt_succ_self _

/-- A digit, or what else a scalar begins with, is no blank and no bracket. -/
theorem blank_and_depth_of_head {c : Char} (hc : Text.isDigit c ∨ c ∈ ['n', 't', 'f', '-', '"']) (depth : Nat) :
    Text.isBlank c = false ∧ depthAfter depth c = depth := by
  rcases hc with hc | hc
  · have hopens : ¬ (c = '(' ∨ c = '[' ∨ c = '{') := by rintro (rfl | rfl | rfl) <;> cases hc
    have hcloses : ¬ (c = ')' ∨ c = ']' ∨ c = '}') := by rintro (rfl | rfl | rfl) <;> cases hc
    refine ⟨Text.isBlank_of_isDigit hc, ?_⟩
    rw [depthAfter, if_neg hopens, if_neg hcloses]
  · simp only [List.mem_cons, List.not_mem_nil, or_false] at hc
    rcases hc with rfl | rfl | rfl | rfl | rfl <;> exact ⟨rfl, rfl⟩

/-- A literal. -/
theorem reaches_scalar {v : Scalar} (hv : v.Readable) {rest : List Char} (hrest : Lexeme.Closed rest)
    (hs : s.rest = (v.toValue : Value φ).chars true ++ rest) (hoperand : s.afterOperand = false) :
    ∃ t position, t.kind = .literal v.reread ∧ Reaches .standard s (s.behind rest position [t]) := by
  obtain ⟨c, cs, hchars, hc⟩ := Lexeme.head_scalar (φ := φ) v
  obtain ⟨hblank, hdepth⟩ := blank_and_depth_of_head hc s.depth
  have hcs : (v.toValue : Value φ).chars true ++ rest = c :: (cs ++ rest) := by rw [hchars, List.cons_append]
  have hnext := Lexeme.next_scalar hv hrest hcs s.position
  rw [← hoperand] at hnext
  generalize hl : Lexeme.ofScalar v.reread ((v.toValue : Value φ).chars true) = l at hnext
  have hlength : 0 < l.length := by
    rw [← hl, hchars]
    exact Nat.succ_pos _
  have hdrop : s.rest.drop l.length = rest := by
    rw [hs, ← hl]
    exact List.drop_left
  have htake := reaches_take (hs.trans hcs) hblank hnext hlength
  simp only [take, skip, hdrop, hdepth] at htake
  exact ⟨_, _, by rw [← hl]; rfl, htake⟩

/-- A mark. -/
theorem reaches_mark {c : Char} {rest : List Char} (hs : s.rest = c :: rest) (hc : c ∈ Lexeme.valueMarks) :
    ∃ t position, t.Marks (String.ofList [c]) ∧
      Reaches .standard s ((s.atDepth (depthAfter s.depth c)).behind rest position [t]) := by
  have hblanks : Lexeme.valueMarks.all fun c => !Text.isBlank c := by decide
  have hblank := (Bool.not_eq_true' _).mp (List.all_eq_true.mp hblanks c hc)
  have htake := reaches_take hs hblank (Lexeme.next_mark hc s.afterOperand rest s.position) Nat.one_pos
  simp only [take, skip, hs, List.drop_succ_cons, List.drop_zero] at htake
  exact ⟨_, _, ⟨rfl, rfl⟩, htake⟩

/-- A mark that opens something or stands between two parts ends no operand. -/
theorem afterOperand_of_marks {t : Token} {ts : List Token} (hs : s.tokens = t :: ts) {c : Char}
    (ht : t.Marks (String.ofList [c])) (hc : c ∈ [',', ':', '[', '{']) : s.afterOperand = false := by
  have hnone : (String.ofList [c] == ")" || String.ofList [c] == "]" || String.ofList [c] == "\x7d") = false := by
    simp only [List.mem_cons, List.not_mem_nil, or_false] at hc
    rcases hc with rfl | rfl | rfl | rfl <;> rfl
  unfold afterOperand
  rw [hs, List.head?_cons, Option.any_some, Token.endsOperand, ht.1]
  dsimp only
  rw [ht.2, hnone]

/-- A mark between two parts, with the blank behind it. -/
theorem reaches_separator {c : Char} {rest : List Char} (hc : c ∈ [',', ':']) (hs : s.rest = c :: ' ' :: rest) :
    ∃ t position, t.Marks (String.ofList [c]) ∧ Reaches .standard s (s.behind rest position [t]) := by
  have hmark : c ∈ Lexeme.valueMarks := List.mem_of_mem_take (i := 2) hc
  have hdepth : depthAfter s.depth c = s.depth := by
    simp only [List.mem_cons, List.not_mem_nil, or_false] at hc
    rcases hc with rfl | rfl <;> rfl
  obtain ⟨t, position, ht, hreach⟩ := reaches_mark hs hmark
  rw [hdepth] at hreach
  exact ⟨t, position + 1, ht, hreach.trans (reaches_blank rfl)⟩

end Scanner

open Scanner

/-! ## Texts of values -/

/-- **Characters are scanned** to tokens with a property wherever they stand, only not behind an operand. -/
def Scans (cs : List Char) (T : List Token → Prop) : Prop :=
  ∀ (s : Scanner) (rest : List Char), s.rest = cs ++ rest → Lexeme.Closed rest → s.afterOperand = false →
    ∃ ts position, T ts ∧ Reaches .standard s (s.behind rest position ts)

namespace Scans

variable {cs ds : List Char} {T U : List Token → Prop}

theorem nil : Scans [] fun ts => ts = [] := by
  intro s rest hs _ _
  refine ⟨[], s.position, rfl, ?_⟩
  have hbehind : s.behind rest s.position [] = s := by
    subst hs
    rfl
  rw [hbehind]
  exact .refl s

theorem mono (h : Scans cs T) (himp : ∀ ts, T ts → U ts) : Scans cs U := fun s rest hs hrest hoperand =>
  let ⟨ts, position, hts, hreach⟩ := h s rest hs hrest hoperand
  ⟨ts, position, himp ts hts, hreach⟩

/-- Two parts with a mark between them. -/
theorem join {c : Char} (hc : c ∈ [',', ':']) (h : Scans cs T) (h' : Scans ds U) :
    Scans (cs ++ c :: ' ' :: ds) fun ts =>
      ∃ us t ws, T us ∧ t.Marks (String.ofList [c]) ∧ U ws ∧ ts = us ++ t :: ws := by
  intro s rest hs hrest hoperand
  have hclosed : Lexeme.Closed (c :: ' ' :: (ds ++ rest)) := .cons (List.mem_of_mem_take (i := 2) hc)
  rw [List.append_assoc] at hs
  obtain ⟨us, p, hus, hreach⟩ := h s (c :: ' ' :: (ds ++ rest)) hs hclosed hoperand
  obtain ⟨t, p', ht, hreach'⟩ := reaches_separator (s := s.behind (c :: ' ' :: (ds ++ rest)) p us) hc rfl
  obtain ⟨ws, p'', hws, hreach''⟩ := h' _ rest rfl hrest
    (afterOperand_of_marks (s := (s.behind (c :: ' ' :: (ds ++ rest)) p us).behind (ds ++ rest) p' [t]) rfl ht
      (List.mem_of_mem_take (i := 2) hc))
  rw [behind_behind, behind_behind, List.append_assoc] at hreach''
  rw [behind_behind] at hreach'
  exact ⟨us ++ t :: ws, p'', ⟨us, t, ws, hus, ht, hws, rfl⟩, hreach.trans (hreach'.trans hreach'')⟩

/-- A part in brackets or braces. -/
theorem enclosed {o c : Char} (hoc : (o, c) ∈ [('[', ']'), ('{', '}')]) (h : Scans cs T) :
    Scans (o :: (cs ++ [c])) fun ts => ∃ opening us closing, opening.Marks (String.ofList [o]) ∧ T us ∧
      closing.Marks (String.ofList [c]) ∧ ts = opening :: (us ++ [closing]) := by
  intro s rest hs hrest _
  have hmarks : o ∈ Lexeme.valueMarks ∧ c ∈ Lexeme.valueMarks ∧ o ∈ [',', ':', '[', '{'] ∧
      c ∈ [',', ':', ']', '}'] ∧ depthAfter (depthAfter s.depth o) c = s.depth := by
    simp only [List.mem_cons, List.not_mem_nil, or_false, Prod.mk.injEq] at hoc
    rcases hoc with ⟨rfl, rfl⟩ | ⟨rfl, rfl⟩ <;> exact ⟨by decide, by decide, by decide, by decide, rfl⟩
  obtain ⟨hopens, hcloses, hoperand, hclosed, hdepth⟩ := hmarks
  rw [List.cons_append, List.append_assoc] at hs
  obtain ⟨opening, p, hopening, hreach⟩ := reaches_mark hs hopens
  generalize hinner : (s.atDepth (depthAfter s.depth o)).behind (cs ++ ([c] ++ rest)) p [opening] = inner at hreach
  have hrest' : inner.rest = cs ++ c :: rest := by rw [← hinner]; rfl
  have htokens : inner.tokens = opening :: s.tokens := by rw [← hinner]; rfl
  obtain ⟨us, p', hus, hreach'⟩ := h inner (c :: rest) hrest' (.cons hclosed)
    (afterOperand_of_marks htokens hopening hoperand)
  obtain ⟨closing, p'', hclosing, hreach''⟩ :=
    reaches_mark (s := inner.behind (c :: rest) p' us) rfl hcloses
  refine ⟨opening :: (us ++ [closing]), p'', ⟨opening, us, closing, hopening, hus, hclosing, rfl⟩,
    hreach.trans (hreach'.trans ?_)⟩
  have hend : ((inner.behind (c :: rest) p' us).atDepth (depthAfter inner.depth c)).behind rest p'' [closing] =
      s.behind rest p'' (opening :: (us ++ [closing])) := by
    rw [behind_atDepth, behind_behind, ← hinner, behind_atDepth, behind_behind, atDepth_atDepth]
    show (s.atDepth (depthAfter (depthAfter s.depth o) c)).behind rest p'' _ = _
    rw [hdepth]
    rfl
  exact hend ▸ hreach''

end Scans

/-! ## Values -/

namespace Value

theorem scans_items {items : List (Value φ)} (h : ∀ v ∈ items, Scans (v.chars true) v.reread.Spelt) :
    Scans (itemsChars items) (ItemsSpelt (rereadItems items)) := by
  induction items with
  | nil => exact Scans.nil.mono fun ts hts => hts ▸ .nil
  | cons v vs ih =>
    obtain ⟨hv, hvs⟩ := List.forall_mem_cons.mp h
    cases vs with
    | nil => exact hv.mono fun ts hts => .single hts
    | cons w vs =>
      refine (hv.join (c := ',') (by decide) (ih hvs)).mono fun ts hts => ?_
      obtain ⟨us, t, ws, hus, ht, hws, rfl⟩ := hts
      exact .cons hus ht hws

theorem scans_entry {k v : Value φ} (hk : Scans (k.chars true) k.reread.Spelt) (hstream : k.kind ≠ .stream)
    (hv : Scans (v.chars true) v.reread.Spelt) :
    Scans (k.chars true ++ ':' :: ' ' :: v.chars true) (EntrySpelt k.reread v.reread) := by
  refine (hk.join (c := ':') (by decide) hv).mono fun ts hts => ?_
  obtain ⟨us, t, ws, hus, ht, hws, rfl⟩ := hts
  exact .mk hus (k.reread_kind ▸ hstream) ht hws

theorem scans_entries {entries : List (Value φ × Value φ)}
    (hkeys : ∀ e ∈ entries, Scans (e.1.chars true) e.1.reread.Spelt) (hstream : ∀ e ∈ entries, e.1.kind ≠ .stream)
    (hvalues : ∀ e ∈ entries, Scans (e.2.chars true) e.2.reread.Spelt) :
    Scans (entriesChars entries) (EntriesSpelt (rereadEntries entries)) := by
  induction entries with
  | nil => exact Scans.nil.mono fun ts hts => hts ▸ .nil
  | cons e es ih =>
    obtain ⟨hk, hks⟩ := List.forall_mem_cons.mp hkeys
    obtain ⟨hs, hss⟩ := List.forall_mem_cons.mp hstream
    obtain ⟨hv, hvs⟩ := List.forall_mem_cons.mp hvalues
    have he := scans_entry hk hs hv
    obtain ⟨k, v⟩ := e
    cases es with
    | nil => exact he.mono fun ts hts => .single hts
    | cons e' es =>
      refine (he.join (c := ',') (by decide) (ih hks hss hvs)).mono fun ts hts => ?_
      obtain ⟨us, t, ws, hus, ht, hws, rfl⟩ := hts
      exact .cons hus ht hws

/-- **The text of a value is scanned** to tokens that spell the value. -/
theorem Readable.scans [BEq φ] {v : Value φ} (h : v.Readable) : Scans (v.chars true) v.reread.Spelt := by
  induction h with
  | @scalar s h =>
    intro scanner rest hs hrest hoperand
    obtain ⟨t, p, ht, hreach⟩ := reaches_scalar h hrest hs hoperand
    exact ⟨[t], p, reread_toValue s ▸ .scalar ht, hreach⟩
  | @stream items _ ih =>
    simp only [chars, reread]
    refine ((scans_items ih).enclosed (by decide)).mono fun ts hts => ?_
    obtain ⟨opening, us, closing, hopening, hus, hclosing, rfl⟩ := hts
    exact .stream hopening hus hclosing
  | @object entries _ _ hstream _ hkeys hvalues =>
    have hchars : (Value.object entries []).chars true = '{' :: (entriesChars entries ++ ['}']) := by
      cases entries with
      | nil => rfl
      | cons e es => simp [chars, methodsChars]
    rw [hchars]
    simp only [reread]
    refine ((scans_entries hkeys hstream hvalues).enclosed (by decide)).mono fun ts hts => ?_
    obtain ⟨opening, us, closing, hopening, hus, hclosing, rfl⟩ := hts
    exact .object hopening hus hclosing

/-- The text of a value begins with its first token. -/
theorem Readable.head [BEq φ] {v : Value φ} (h : v.Readable) :
    ∃ c cs, v.chars true = c :: cs ∧ Text.isBlank c = false := by
  cases h with
  | @scalar s _ =>
    obtain ⟨c, cs, hcs, hc⟩ := Lexeme.head_scalar (φ := φ) s
    exact ⟨c, cs, hcs, (blank_and_depth_of_head hc 0).1⟩
  | stream _ => exact ⟨_, _, rfl, rfl⟩
  | object _ _ _ _ => exact ⟨_, _, rfl, rfl⟩

/-- Only a text is written in another way on its own. -/
theorem chars_of_kind {v : Value φ} (h : v.kind ≠ .text) : v.chars false = v.chars true := by
  cases v with
  | text s => exact absurd rfl h
  | _ => rfl

/-- **Scanning the text of a value** gives tokens that spell the value. -/
theorem Readable.scan_toText [BEq φ] {v : Value φ} (h : v.Readable) (htext : v.kind ≠ .text) :
    ∃ ts, Token.scan .standard v.toText = .ok ts ∧ v.reread.Spelt ts := by
  obtain ⟨c, cs, hchars, hc⟩ := h.head
  have hsource : v.toText.toList = v.chars true := by rw [toText, toChars, String.toList_ofList, chars_of_kind htext]
  -- the first line has no indentation, and its level is that of the source
  have hskip : skipIndentation 0 0 (c :: cs) = (0, 0, c :: cs) := by
    have hne (d : Char) (hd : Text.isBlank d) : c ≠ d := fun h => Bool.false_ne_true (hc.symm.trans (h ▸ hd))
    rw [skipIndentation, if_neg (hne ' ' rfl), if_neg (hne '\t' rfl),
      if_neg (not_or.mpr ⟨hne '\n' rfl, hne '\r' rfl⟩)]
  let first : Scanner := ⟨v.chars true, 0, [], [0], 0⟩
  have hstart : (Scanner.mk (v.chars true) 0 [] [] 0).startLine = .ok first := by
    unfold startLine
    simp only [first, hchars, hskip]
    rfl
  obtain ⟨ts, position, hts, hreach⟩ := h.scans first [] (List.append_nil _).symm .nil rfl
  refine ⟨ts, ?_, hts⟩
  have hrun : first.run .standard (v.chars true).length = .ok (first.behind [] position ts) :=
    hreach.run_eq rfl (Nat.le_refl _)
  unfold Token.scan
  simp only [hsource, hstart, hrun, bind, Except.bind, pure, Except.pure]
  simp [close, addLayout, behind, first]

end Value

end Cellbook
