import Mathlib.Data.List.Pairwise
import Cellbook.Proofs.Results
import Cellbook.Proofs.Source.Layout

/-!
# Tokens tile the source

Where tokens stand in the source text that they come from (`Token.tiling_of_scan`): one behind the other, each
lexeme at the characters that it reads as, and nothing between them but white space.

A scanner covers what it passes. Each of its steps adds tokens that tile some of the source, and tiles behind tiles
are tiles again, so a whole run tiles all of it.
-/

namespace Cellbook

namespace Lexeme

/-- **How a lexeme reads** where these characters of the source are: as they do, or if it is an operator that is a
word, as they do in lower case. -/
def Reads (kind : TokenKind) (text cs : List Char) : Prop :=
  text = cs ∨ kind = .operator ∧ (∀ c ∈ cs, isWordChar c) ∧ text = Text.toLower cs

/-- A lexeme is cut off the front of source text: some of it, and what it reads are those characters. -/
structure Taken (l : Lexeme) (source : List Char) : Prop where
  length_pos : 0 < l.length
  length_le : l.length ≤ source.length
  not_layout : l.kind.isLayout = false
  reads : Reads l.kind l.text (source.take l.length)

variable {g : Grammar} {afterOperand : Bool} {c : Char} {cs : List Char} {start : Nat} {l : Lexeme}

theorem taken_text (h : quotedText c (c :: cs) start = .ok l) : l.Taken (c :: cs) := by
  unfold quotedText at h
  rw [List.drop_succ_cons, List.drop_zero] at h
  split at h
  case h_1 => cases h
  case h_2 value n hbody =>
    cases h
    have hlength := (textBody?_recut hbody []).2
    rw [List.length_take] at hlength
    refine ⟨Nat.succ_pos n, ?_, rfl, .inl rfl⟩
    show n + 1 ≤ cs.length + 1
    omega

/-- A number behind the sign that it has or not. -/
theorem taken_number (front : List Char) (h : number front.length (front ++ cs) start = .ok l) :
    l.Taken (front ++ cs) := by
  have hpos := (number_recut front h).1
  unfold number at h
  rw [List.drop_left] at h
  split at h
  · cases h
  · cases h
  next n hn =>
  dsimp only at h
  split at h
  case h_2 => cases h
  case h_1 x hx =>
    cases h
    obtain ⟨_, _, _, _, _, hcount⟩ := NumberParts.of_length hn
    rw [List.length_take] at hcount
    refine ⟨hpos, ?_, rfl, .inl rfl⟩
    rw [List.length_append]
    show front.length + n ≤ _
    omega

theorem word_reads (g : Grammar) (cs : List Char) :
    Reads (word g cs).kind (word g cs).text (cs.takeWhile isWordChar) := by
  unfold word
  dsimp only
  split
  · exact .inl rfl
  split
  · exact .inl rfl
  split
  · exact .inl rfl
  split
  · exact .inr ⟨rfl, fun c => List.mem_takeWhile_imp, String.toList_ofList⟩
  · exact .inl rfl

theorem taken_word (hc : Text.isAlphabetic c || c == '_') : (word g (c :: cs)).Taken (c :: cs) := by
  have hword : isWordChar c := by
    rcases Bool.or_eq_true_iff.mp hc with hc | hc
    · simp [isWordChar, Text.isAlphanumeric, hc]
    · simp [isWordChar, hc]
  obtain ⟨hlength, hkind, -⟩ := word_text g (c :: cs)
  refine ⟨?_, ?_, hkind, ?_⟩
  · rw [hlength, List.takeWhile_cons_of_pos hword]
    exact Nat.succ_pos _
  · rw [hlength]
    exact (List.takeWhile_prefix _).length_le
  · rw [hlength, take_takeWhile]
    exact word_reads g (c :: cs)

theorem taken_mark {n : Nat} (hpos : 0 < n) (hle : n ≤ (c :: cs).length) : (mark g n (c :: cs)).Taken (c :: cs) :=
  ⟨hpos, hle, isLayout_mark g n (c :: cs), .inl rfl⟩

theorem taken_joined (hc : isOperatorChar c) (h : joined g (c :: cs) start = .ok l) : l.Taken (c :: cs) := by
  unfold joined at h
  dsimp only at h
  split at h
  · cases h
    refine ⟨?_, (List.takeWhile_prefix _).length_le, rfl, .inl (take_takeWhile _ _).symm⟩
    rw [List.takeWhile_cons_of_pos hc]
    exact Nat.succ_pos _
  · cases h

/-- A character and the same one behind it are two. -/
theorem two_le_of_head? (h : cs.head? = some c) : 2 ≤ (c :: cs).length := by
  obtain ⟨ds, rfl⟩ := List.head?_eq_some_iff.mp h
  simp

/-- **What is cut off was there.** -/
theorem next_taken (h : next g afterOperand c cs start = .ok l) : l.Taken (c :: cs) := by
  have hone : (mark g 1 (c :: cs)).Taken (c :: cs) := taken_mark Nat.one_pos (Nat.succ_le_succ (Nat.zero_le _))
  unfold next at h
  dsimp only at h
  by_cases hquote : c = '"' ∨ c = '\''
  · rw [if_pos hquote] at h
    exact taken_text h
  rw [if_neg hquote] at h
  split at h
  · exact taken_number [] h
  split at h
  next hdot =>
    split at h
    next hdots =>
      cases h
      exact taken_mark Nat.two_pos (two_le_of_head? (hdot ▸ hdots))
    split at h
    · exact taken_number [] h
    · cases h
      exact hone
  split at h
  next hminus =>
    split at h
    · rw [hminus] at h ⊢
      exact taken_number ['-'] h
    · cases h
      exact hone
  split at h
  next hstar =>
    cases h
    split
    next hstars => exact taken_mark Nat.two_pos (two_le_of_head? (hstar ▸ hstars))
    next => exact hone
  split at h
  next hletter =>
    cases h
    exact taken_word hletter
  split at h
  next hjoins => exact taken_joined hjoins h
  split at h
  · cases h
    exact hone
  · cases h

/-! ## Faults -/

theorem fractionLength_fault {before n : Nat} (h : fractionLength before cs = .error (.missingDigits n)) :
    n ≤ before + cs.length := by
  unfold fractionLength at h
  split at h
  · split at h
    · cases h
    split at h
    · cases h
      simp
    · cases h
  · cases h

theorem exponentLength_fault {before n : Nat} (h : exponentLength before cs = .error (.missingDigits n)) :
    n ≤ before + cs.length := by
  rcases cs with - | ⟨c, ds⟩
  · cases h
  by_cases hc : c = 'e' ∨ c = 'E'
  · rw [exponentLength_cons hc] at h
    have hsign := (take_signLength ds).2
    rw [List.length_take] at hsign
    split at h
    · cases h
      rw [List.length_cons]
      omega
    · cases h
  · cases (if_neg hc : exponentLength before (c :: ds) = .ok 0).symm.trans h

/-- Digits are missed within the text of a number or at its end. -/
theorem numberLength_fault {n : Nat} (h : numberLength cs = .error (.missingDigits n)) : n ≤ cs.length := by
  have hwhole : (cs.takeWhile Text.isDigit).length ≤ cs.length := (List.takeWhile_prefix _).length_le
  unfold numberLength at h
  simp only [bind, Except.bind, pure, Except.pure, throw, throwThe, MonadExceptOf.throw] at h
  split at h
  next flaw hfraction =>
    cases h
    have hle := fractionLength_fault hfraction
    rw [List.length_drop] at hle
    omega
  next m hfraction =>
  have hm := (IsFraction.of_length hfraction).2
  rw [List.length_take, List.length_drop] at hm
  split at h
  · cases h
  split at h
  next flaw hexponent =>
    cases h
    have hle := exponentLength_fault hexponent
    rw [List.length_drop] at hle
    omega
  next =>
  split at h
  · cases h
  · cases h

theorem number_fault {sign : Nat} {f : SourceFault} (hsign : sign ≤ cs.length) (h : number sign cs start = .error f) :
    f.index ≤ start + cs.length := by
  unfold number at h
  split at h
  next after hflaw =>
    cases h
    have hle := numberLength_fault hflaw
    rw [List.length_drop] at hle
    show start + sign + after ≤ start + cs.length
    omega
  next =>
    cases h
    exact Nat.le_add_right start _
  next =>
    dsimp only at h
    split at h
    · cases h
    · cases h
      exact Nat.le_add_right start _

/-- **A fault of a lexeme** is within what is left of the source or at its end. -/
theorem next_fault {f : SourceFault} (h : next g afterOperand c cs start = .error f) :
    f.index ≤ start + (c :: cs).length := by
  have hpos : 1 ≤ (c :: cs).length := Nat.succ_le_succ (Nat.zero_le _)
  unfold next at h
  dsimp only at h
  split at h
  · unfold quotedText at h
    split at h
    · cases h
      exact Nat.le_add_right start _
    · cases h
  split at h
  · exact number_fault (Nat.zero_le _) h
  split at h
  · split at h
    · cases h
    split at h
    · exact number_fault (Nat.zero_le _) h
    · cases h
  split at h
  · split at h
    · exact number_fault hpos h
    · cases h
  split at h
  · cases h
  split at h
  · cases h
  split at h
  · unfold joined at h
    dsimp only at h
    split at h
    · cases h
    · cases h
      exact Nat.le_add_right start _
  split at h
  · cases h
  · cases h
    exact Nat.le_add_right start _

end Lexeme

/-! ## Tiles -/

/-- The source has only white space in a span. -/
def Span.Blank (source : List Char) (s : Span) : Prop := ∀ c ∈ s.slice source, Text.isBlank c

/-- A character of the source is in a span. -/
def Span.Covers (s : Span) (i : Nat) : Prop := s.start ≤ i ∧ i < s.stop

/-- **Where a token stands in the source**: layout has no characters, and a lexeme reads as those that it has. -/
inductive Token.Stands (source : List Char) (t : Token) : Prop
  | layout (hkind : t.kind.isLayout) (hspan : t.span.start = t.span.stop)
  | lexeme (hkind : t.kind.isLayout = false) (hspan : t.span.start < t.span.stop)
      (hreads : Lexeme.Reads t.kind t.lexeme.toList (t.span.slice source))

/-- **Tokens tile the source** from one place to another: before, between and behind them is only white space. -/
def Token.Tiles (source : List Char) : (start : Nat) → List Token → (stop : Nat) → Prop
  | start, [], stop => start ≤ stop ∧ (Span.mk start stop).Blank source
  | start, t :: ts, stop =>
    (start ≤ t.span.start ∧ (Span.mk start t.span.start).Blank source) ∧ t.Stands source ∧
      Tiles source t.span.stop ts stop

namespace Span

/-- The next characters of a source of which those in front are passed. -/
theorem slice_next (front cs : List Char) (n : Nat) :
    (Span.mk front.length (front.length + n)).slice (front ++ cs) = cs.take n := by
  rw [slice, List.take_length_add_append, List.drop_left]

theorem slice_trans (source : List Char) {a b c : Nat} (hab : a ≤ b) (hbc : b ≤ c) :
    (Span.mk a c).slice source = (Span.mk a b).slice source ++ (Span.mk b c).slice source := by
  have hdrop : (source.drop a).drop (b - a) = source.drop b := by
    rw [List.drop_drop, Nat.add_sub_cancel' hab]
  have hlength : c - a = (b - a) + (c - b) := by omega
  simp only [slice, List.drop_take]
  rw [hlength, List.take_add, hdrop]

theorem blank_self (source : List Char) (a : Nat) : (Span.mk a a).Blank source := by
  intro c hc
  simp [slice] at hc

theorem Blank.trans {source : List Char} {a b c : Nat} (h : (Span.mk a b).Blank source)
    (h' : (Span.mk b c).Blank source) (hab : a ≤ b) (hbc : b ≤ c) : (Span.mk a c).Blank source := by
  intro d hd
  rw [slice_trans source hab hbc] at hd
  rcases List.mem_append.mp hd with hd | hd
  · exact h d hd
  · exact h' d hd

end Span

namespace Token

variable {source : List Char} {a b c : Nat} {ts us : List Token}

theorem Stands.start_le {t : Token} (h : t.Stands source) : t.span.start ≤ t.span.stop := by
  cases h with
  | layout _ hspan => exact hspan.le
  | lexeme _ hspan _ => exact hspan.le

/-- White space may stand before tiles. -/
theorem Tiles.pass (hab : a ≤ b) (hblank : (Span.mk a b).Blank source) (h : Tiles source b ts c) :
    Tiles source a ts c := by
  cases ts with
  | nil => exact ⟨hab.trans h.1, hblank.trans h.2 hab h.1⟩
  | cons t ts =>
    obtain ⟨⟨hle, hblank'⟩, h⟩ := h
    exact ⟨⟨hab.trans hle, hblank.trans hblank' hab hle⟩, h⟩

theorem Tiles.append (h : Tiles source a ts b) (h' : Tiles source b us c) : Tiles source a (ts ++ us) c := by
  induction ts generalizing a with
  | nil => exact h'.pass h.1 h.2
  | cons t ts ih => exact ⟨h.1, h.2.1, ih h.2.2⟩

theorem Tiles.start_le (h : Tiles source a ts b) : a ≤ b := by
  induction ts generalizing a with
  | nil => exact h.1
  | cons t ts ih =>
    obtain ⟨⟨hle, -⟩, ht, hts⟩ := h
    exact hle.trans (ht.start_le.trans (ih hts))

/-- One token, from where it stands to its end. -/
theorem Stands.tiles {t : Token} (h : t.Stands source) : Tiles source t.span.start [t] t.span.stop :=
  ⟨⟨Nat.le_refl _, Span.blank_self _ _⟩, h, Nat.le_refl _, Span.blank_self _ _⟩

end Token

/-- **What a stage gives**: so it is of its result, and a fault of it is at such a place. -/
abbrev EndsWhere {α : Type} (p : Nat → Prop) (A : α → Prop) (x : Except SourceFault α) : Prop :=
  EndsIn (fun f => p f.index) A x

/-! ## What a scanner does -/

namespace Scanner

open Token (Tiles)

variable {source : List Char} {s s' s'' : Scanner} {g : Grammar}

/-- **A scanner stands in the source** where as many characters are passed as it says. -/
def StandsIn (source : List Char) (s : Scanner) : Prop :=
  ∃ front, source = front ++ s.rest ∧ s.position = front.length

/-- What a scanner does on its way to a state: the tokens that it adds tile the source that it passes. -/
structure Covers (source : List Char) (s s' : Scanner) (ts : List Token) : Prop where
  standsIn : s'.StandsIn source
  tokens : s'.tokens = ts.reverse ++ s.tokens
  tiles : Tiles source s.position ts s'.position

theorem StandsIn.position_add (h : s.StandsIn source) : s.position + s.rest.length = source.length := by
  obtain ⟨front, hsource, hposition⟩ := h
  rw [hsource, List.length_append, hposition]

theorem StandsIn.covers (h : s.StandsIn source) : Covers source s s [] :=
  ⟨h, rfl, Nat.le_refl _, Span.blank_self _ _⟩

theorem Covers.trans {ts us : List Token} (h : Covers source s s' ts) (h' : Covers source s' s'' us) :
    Covers source s s'' (ts ++ us) where
  standsIn := h'.standsIn
  tokens := by rw [h'.tokens, h.tokens, List.reverse_append, List.append_assoc]
  tiles := h.tiles.append h'.tiles

/-- White space is passed over. -/
theorem covers_blank {passed : List Char} (hs : s.StandsIn source) (hrest : s.rest = passed ++ s'.rest)
    (hposition : s'.position = s.position + passed.length) (htokens : s'.tokens = s.tokens)
    (hblank : ∀ c ∈ passed, Text.isBlank c) : Covers source s s' [] := by
  obtain ⟨front, hsource, hfront⟩ := hs
  refine ⟨⟨front ++ passed, ?_, ?_⟩, htokens, ?_, ?_⟩
  · rw [hsource, hrest, List.append_assoc]
  · rw [hposition, hfront, List.length_append]
  · omega
  · intro c hc
    rw [hposition, hfront, hsource, hrest, Span.slice_next, List.take_left] at hc
    exact hblank c hc

/-- Layout takes no characters. -/
theorem covers_layout (hs : s.StandsIn source) (indents : List Nat) {kinds : List TokenKind}
    (hkinds : ∀ kind ∈ kinds, kind.isLayout) :
    Covers source s ({ s with indents }.addLayout kinds) (kinds.map (layoutToken s.position)) where
  standsIn := hs
  tokens := addLayout_tokens _ kinds
  tiles := by
    show Tiles source s.position _ s.position
    induction kinds with
    | nil => exact ⟨Nat.le_refl _, Span.blank_self _ _⟩
    | cons kind kinds ih =>
      obtain ⟨hkind, hkinds⟩ := List.forall_mem_cons.mp hkinds
      exact ⟨⟨Nat.le_refl _, Span.blank_self _ _⟩, .layout hkind rfl, ih hkinds⟩

theorem covers_take {c : Char} {cs : List Char} {l : Lexeme} (hs : s.StandsIn source) (hrest : s.rest = c :: cs)
    (h : l.Taken (c :: cs)) :
    Covers source s (s.take c l) [⟨String.ofList l.text, l.kind, ⟨s.position, s.position + l.length⟩⟩] := by
  obtain ⟨front, hsource, hfront⟩ := hs
  have hlength : s.position + l.length = (front ++ s.rest.take l.length).length := by
    rw [List.length_append, List.length_take, hrest, Nat.min_eq_left h.length_le, hfront]
  have hreads : Lexeme.Reads l.kind (String.ofList l.text).toList
      ((Span.mk s.position (s.position + l.length)).slice source) := by
    rw [String.toList_ofList, hsource, hfront, Span.slice_next, hrest]
    exact h.reads
  have hstands : Token.Stands source ⟨String.ofList l.text, l.kind, ⟨s.position, s.position + l.length⟩⟩ :=
    .lexeme h.not_layout (Nat.lt_add_of_pos_right h.length_pos) hreads
  refine ⟨⟨front ++ s.rest.take l.length, ?_, hlength⟩, rfl, hstands.tiles⟩
  show source = front ++ s.rest.take l.length ++ s.rest.drop l.length
  rw [List.append_assoc, List.take_append_drop, hsource]

/-- The characters that indent a line or end one. -/
def IsIndentation (c : Char) : Prop := c ∈ [' ', '\t', '\n', '\r']

theorem IsIndentation.isBlank {c : Char} (h : IsIndentation c) : Text.isBlank c := by
  simp only [IsIndentation, List.mem_cons, List.not_mem_nil, or_false] at h
  rcases h with rfl | rfl | rfl | rfl <;> rfl

/-- **Indentation is passed over**, with the blank lines in front of it. -/
theorem skipIndentation_eq {width passed width' passed' : Nat} {cs rest : List Char}
    (h : skipIndentation width passed cs = (width', passed', rest)) :
    ∃ front, cs = front ++ rest ∧ passed' = passed + front.length ∧ ∀ c ∈ front, IsIndentation c := by
  have hcons {c : Char} {ds : List Char} {passed : Nat} (hc : IsIndentation c)
      (h : ∃ front, ds = front ++ rest ∧ passed' = passed + 1 + front.length ∧ ∀ c ∈ front, IsIndentation c) :
      ∃ front, c :: ds = front ++ rest ∧ passed' = passed + front.length ∧ ∀ c ∈ front, IsIndentation c := by
    obtain ⟨front, rfl, hpassed, hfront⟩ := h
    refine ⟨c :: front, rfl, ?_, List.forall_mem_cons.mpr ⟨hc, hfront⟩⟩
    rw [hpassed, List.length_cons]
    omega
  fun_induction skipIndentation width passed cs with
  | case1 =>
    cases h
    exact ⟨[], rfl, rfl, List.forall_mem_nil _⟩
  | case2 width passed ds ih => exact hcons (by simp [IsIndentation]) (ih h)
  | case3 width passed ds _ ih => exact hcons (by simp [IsIndentation]) (ih h)
  | case4 width passed c ds _ _ hbreak ih =>
    have hc : IsIndentation c := by
      rcases hbreak with rfl | rfl <;> simp [IsIndentation]
    exact hcons hc (ih h)
  | case5 =>
    cases h
    exact ⟨[], rfl, rfl, List.forall_mem_nil _⟩

/-- A scanner that goes on covers some of the source, and a fault is within it. -/
abbrev Advances (source : List Char) (s : Scanner) (x : Except SourceFault Scanner) : Prop :=
  EndsWhere (· ≤ source.length) (fun s' => ∃ ts, Covers source s s' ts) x

theorem Advances.behind {x : Except SourceFault Scanner} {ts : List Token} (h : Covers source s s' ts)
    (h' : Advances source s' x) : Advances source s x := by
  refine EndsIn.mono h' fun s'' hs'' => ?_
  obtain ⟨us, hus⟩ := hs''
  exact ⟨ts ++ us, h.trans hus⟩

/-- The blocks of a line. -/
theorem layOut_advances (width : Nat) (hs : s.StandsIn source) : Advances source s (s.layOut width) := by
  unfold layOut
  split
  · exact .ok ⟨[], covers_layout hs [width] (List.forall_mem_nil _)⟩
  split
  · exact .ok ⟨_, covers_layout hs _ (List.forall_mem_singleton.mpr rfl)⟩
  dsimp only
  split
  · have hnewline : ∀ kind ∈ [TokenKind.newline], kind.isLayout := List.forall_mem_singleton.mpr rfl
    exact .ok ⟨_, covers_layout hs _ (List.forall_mem_append.mpr ⟨isLayout_dedents _, hnewline⟩)⟩
  · exact .error (hs.position_add ▸ Nat.le_add_right _ _)

theorem startLine_advances (hs : s.StandsIn source) : Advances source s s.startLine := by
  unfold startLine
  cases hskip : skipIndentation 0 0 s.rest with
  | mk width line =>
  obtain ⟨passed, rest⟩ := line
  obtain ⟨front, hrest, hpassed, hfront⟩ := skipIndentation_eq hskip
  rw [Nat.zero_add] at hpassed
  have hline : Covers source s { s with rest, position := s.position + passed } [] :=
    covers_blank hs hrest (congrArg (s.position + ·) hpassed) rfl fun c hc => (hfront c hc).isBlank
  dsimp only
  split
  · exact .ok ⟨[], hline⟩
  · exact (layOut_advances width hline.standsIn).behind hline

/-- **A step** takes some of the source. -/
theorem step_advances {c : Char} {cs : List Char} (g : Grammar) (hs : s.StandsIn source) (hrest : s.rest = c :: cs) :
    EndsWhere (· ≤ source.length) (fun s' => s.position < s'.position ∧ ∃ ts, Covers source s s' ts)
      (s.step g c cs) := by
  have hskip (hc : Text.isBlank c) : Covers source s (s.skip 1) [] :=
    covers_blank hs (by rw [skip, hrest]; rfl) rfl rfl (List.forall_mem_singleton.mpr hc)
  have hless : s.position < (s.skip 1).position := Nat.lt_succ_self _
  unfold step
  split
  next hbreak =>
    have hblank : Text.isBlank c := by
      rcases hbreak with rfl | rfl <;> rfl
    split
    · refine (startLine_advances (hskip hblank).standsIn).mono fun s' hs' => ?_
      obtain ⟨ts, hts⟩ := hs'
      exact ⟨hless.trans_le hts.tiles.start_le, ts, (hskip hblank).trans hts⟩
    · exact .ok ⟨hless, [], hskip hblank⟩
  split
  next hblank => exact .ok ⟨hless, [], hskip hblank⟩
  have hnext : EndsWhere (· ≤ source.length) (Lexeme.Taken · (c :: cs))
      (Lexeme.next g s.afterOperand c cs s.position) := by
    cases h : Lexeme.next g s.afterOperand c cs s.position with
    | ok l => exact .ok (Lexeme.next_taken h)
    | error f =>
      refine .error ((Lexeme.next_fault h).trans ?_)
      rw [← hrest, hs.position_add]
  refine hnext.bind fun l hl => .ok ?_
  exact ⟨Nat.lt_add_of_pos_right hl.length_pos, _, covers_take hs hrest hl⟩

/-- **A run** comes to the end of the source, or to a fault within it. -/
theorem run_advances {steps : Nat} (g : Grammar) (hs : s.StandsIn source) (hsteps : s.rest.length ≤ steps) :
    EndsWhere (· ≤ source.length) (fun s' => s'.rest = [] ∧ ∃ ts, Covers source s s' ts) (s.run g steps) := by
  induction steps generalizing s with
  | zero => exact .ok ⟨List.length_eq_zero_iff.mp (Nat.le_zero.mp hsteps), [], hs.covers⟩
  | succ steps ih =>
    unfold run
    split
    next hnil => exact .ok ⟨hnil, [], hs.covers⟩
    next c cs hrest =>
      refine (step_advances g hs hrest).bind fun s₁ hs₁ => ?_
      obtain ⟨hless, ts, hts⟩ := hs₁
      have hlength := hs.position_add
      have hlength₁ := hts.standsIn.position_add
      refine (ih hts.standsIn (by omega)).mono fun s' hs' => ?_
      obtain ⟨hnil, us, hus⟩ := hs'
      exact ⟨hnil, ts ++ us, hts.trans hus⟩

end Scanner

namespace Token

/-- **Tokens cover a source**, or there is a fault in it. -/
theorem scan_endsWhere (g : Grammar) (source : String) :
    EndsWhere (· ≤ source.toList.length) (fun ts => Tiles source.toList 0 ts source.toList.length) (scan g source) := by
  have hstart : (Scanner.mk source.toList 0 [] [] 0).StandsIn source.toList := ⟨[], rfl, rfl⟩
  refine (Scanner.startLine_advances hstart).bind fun s hs => ?_
  obtain ⟨ts, hts⟩ := hs
  have hsteps : s.rest.length ≤ source.toList.length := hts.standsIn.position_add ▸ Nat.le_add_left _ _
  refine (Scanner.run_advances g hts.standsIn hsteps).bind fun s' hs' => .ok ?_
  obtain ⟨hnil, us, hus⟩ := hs'
  have hclose : Scanner.Covers source.toList s' s'.close _ :=
    Scanner.covers_layout hus.standsIn s'.indents (Scanner.isLayout_dedents _)
  have hall := (hts.trans hus).trans hclose
  have hend : s'.close.position = source.toList.length := by
    have hlength := hus.standsIn.position_add
    rw [hnil, List.length_nil, Nat.add_zero] at hlength
    exact hlength
  have htiles := hall.tiles
  rw [hend] at htiles
  rw [hall.tokens, List.append_nil, List.reverse_reverse]
  exact htiles

/-! ## Tilings -/

theorem Tiles.stands {source : List Char} {a b : Nat} {ts : List Token} (h : Tiles source a ts b) :
    ∀ t ∈ ts, t.Stands source ∧ a ≤ t.span.start ∧ t.span.stop ≤ b := by
  induction ts generalizing a with
  | nil => exact List.forall_mem_nil _
  | cons t ts ih =>
    obtain ⟨⟨hle, -⟩, ht, hts⟩ := h
    refine List.forall_mem_cons.mpr ⟨⟨ht, hle, hts.start_le⟩, fun u hu => ?_⟩
    obtain ⟨hu, hstart, hstop⟩ := ih hts u hu
    exact ⟨hu, hle.trans (ht.start_le.trans hstart), hstop⟩

theorem Tiles.pairwise {source : List Char} {a b : Nat} {ts : List Token} (h : Tiles source a ts b) :
    ts.Pairwise fun t u => t.span.stop ≤ u.span.start := by
  induction ts generalizing a with
  | nil => exact .nil
  | cons t ts ih => exact .cons (fun u hu => (h.2.2.stands u hu).2.1) (ih h.2.2)

theorem Span.Blank.isBlank {source : List Char} {a b i : Nat} {c : Char} (h : (Span.mk a b).Blank source)
    (hc : source[i]? = some c) (ha : a ≤ i) (hb : i < b) : Text.isBlank c := by
  refine h c (List.mem_of_getElem? (i := i - a) ?_)
  rw [Span.slice, List.getElem?_drop, Nat.add_sub_cancel' ha, List.getElem?_take_of_lt hb, hc]

/-- A character between two ends of tiles is white space, or it is in one of them. -/
theorem Tiles.isBlank {source : List Char} {a b i : Nat} {c : Char} {ts : List Token} (h : Tiles source a ts b)
    (hc : source[i]? = some c) (ha : a ≤ i) (hb : i < b) (hnone : ∀ t ∈ ts, ¬t.span.Covers i) :
    Text.isBlank c := by
  induction ts generalizing a with
  | nil => exact Span.Blank.isBlank h.2 hc ha hb
  | cons t ts ih =>
    obtain ⟨⟨-, hblank⟩, -, hts⟩ := h
    obtain ⟨ht, hnone⟩ := List.forall_mem_cons.mp hnone
    by_cases hstart : i < t.span.start
    · exact Span.Blank.isBlank hblank hc ha hstart
    · have hstop : t.span.stop ≤ i := Nat.le_of_not_lt fun hlt => ht ⟨Nat.le_of_not_lt hstart, hlt⟩
      exact ih hts hstop hnone

/-- Two tokens of which neither ends before the other begins are one. -/
theorem eq_of_covers {ts : List Token} {t u : Token} {i : Nat}
    (hts : ts.Pairwise fun t u => t.span.stop ≤ u.span.start) (ht : t ∈ ts) (hu : u ∈ ts)
    (hti : t.span.Covers i) (hui : u.span.Covers i) : u = t := by
  have hsymm : Std.Symm fun t u : Token => t.span.Covers i → u.span.Covers i → u = t :=
    ⟨fun x y h hy hx => (h hx hy).symm⟩
  have hone : ts.Pairwise fun t u => t.span.Covers i → u.span.Covers i → u = t := by
    refine hts.imp fun hle ⟨_, hlt⟩ ⟨hle', _⟩ => ?_
    omega
  exact hone.forall_of_forall (fun _ _ _ _ => rfl) ht hu hti hui

/-- **Tokens tile a source.** -/
structure Tiling (source : List Char) (ts : List Token) : Prop where
  start_le : ∀ t ∈ ts, t.span.start ≤ t.span.stop
  /-- None begins before the end of an earlier one. -/
  pairwise : ts.Pairwise fun t u => t.span.stop ≤ u.span.start
  stop_le : ∀ t ∈ ts, t.span.stop ≤ source.length
  /-- Layout has an empty span, and a lexeme one that is not empty and reads as its characters do. -/
  stands : ∀ t ∈ ts, t.Stands source
  isBlank : ∀ i c, source[i]? = some c → (∀ t ∈ ts, ¬t.span.Covers i) → Text.isBlank c
  /-- No character is lost or read twice. -/
  existsUnique : ∀ i c, source[i]? = some c → Text.isBlank c = false → ∃! t, t ∈ ts ∧ t.span.Covers i

/-- **Tokens tile the source**, under any grammar. -/
theorem tiling_of_scan {g : Grammar} {source : String} {ts : List Token} (h : scan g source = .ok ts) :
    Tiling source.toList ts := by
  have htiles := (scan_endsWhere g source).of_eq_ok h
  have hblank : ∀ i c, source.toList[i]? = some c → (∀ t ∈ ts, ¬t.span.Covers i) → Text.isBlank c := by
    intro i c hc hnone
    exact htiles.isBlank hc (Nat.zero_le i) (List.getElem?_eq_some_iff.mp hc).1 hnone
  refine ⟨fun t ht => (htiles.stands t ht).1.start_le, htiles.pairwise, fun t ht => (htiles.stands t ht).2.2,
    fun t ht => (htiles.stands t ht).1, hblank, fun i c hc hvisible => ?_⟩
  obtain ⟨t, ht, hcovers⟩ : ∃ t ∈ ts, t.span.Covers i := by
    by_contra hnone
    rw [hblank i c hc fun t ht hcovers => hnone ⟨t, ht, hcovers⟩] at hvisible
    cases hvisible
  refine ⟨t, ⟨ht, hcovers⟩, fun u ⟨hu, hcovers'⟩ => ?_⟩
  exact eq_of_covers htiles.pairwise ht hu hcovers hcovers'

theorem tiling_of_scan_of_escapes : ∃ ts, scan .standard "é: 'ü\\'ß'\r\n\tX OR -1" = .ok ts ∧
    ts.map (fun t => (t.lexeme, t.span.start, t.span.stop)) =
      [("é", 0, 1), (":", 1, 2), ("'ü\\'ß'", 3, 9), ("", 12, 12), ("X", 12, 13), ("or", 14, 16), ("-1", 17, 19),
        ("", 19, 19)] ∧
    Tiling "é: 'ü\\'ß'\r\n\tX OR -1".toList ts := by
  have hscan : (scan .standard "é: 'ü\\'ß'\r\n\tX OR -1").toOption.map
      (fun ts => ts.map fun t => (t.lexeme, t.span.start, t.span.stop)) = some
      [("é", 0, 1), (":", 1, 2), ("'ü\\'ß'", 3, 9), ("", 12, 12), ("X", 12, 13), ("or", 14, 16), ("-1", 17, 19),
        ("", 19, 19)] := by
    decide +kernel
  cases hts : scan .standard "é: 'ü\\'ß'\r\n\tX OR -1" with
  | error f =>
    rw [hts] at hscan
    cases hscan
  | ok ts =>
    rw [hts] at hscan
    exact ⟨ts, rfl, Option.some.inj hscan, tiling_of_scan hts⟩

end Token

end Cellbook
