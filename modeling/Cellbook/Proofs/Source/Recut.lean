import Cellbook.Proofs.Source.Lexed
import Cellbook.Proofs.Source.Literal

/-!
# Lexemes stand alone

What the scanner cuts off does not need the text that stood behind it: set before a blank, a line break or the
end of the source, the lexeme is cut off again, whole and as a token of the same kind (`next_recut`). A number
looks one character beyond itself and a word or an operator ends only where its characters do, so it matters
that nothing of them follows. Of what stood before it a lexeme needs only whether that ended an operand.
-/

namespace Cellbook

open Text (isDigit)

namespace Lexeme

/-- Source text that no lexeme reaches into: there is none left, or it goes on with a blank or a line break. -/
def Apart (rest : List Char) : Prop := ∀ c ∈ rest.head?, c ∈ [' ', '\n']

theorem Apart.nil : Apart [] := fun _ h => nomatch h

theorem Apart.cons {c : Char} {rest : List Char} (h : c ∈ [' ', '\n']) : Apart (c :: rest) := by
  rintro _ ⟨rfl⟩
  exact h

/-- What is so of the blank and the line break is so of the next character. -/
theorem Apart.head {rest : List Char} (h : Apart rest) {p : Char → Prop} (hp : p ' ' ∧ p '\n') :
    ∀ c ∈ rest.head?, p c := by
  intro c hc
  rcases List.mem_cons.mp (h c hc) with rfl | hc
  · exact hp.1
  · exact List.mem_singleton.mp hc ▸ hp.2

theorem Apart.cases {rest : List Char} (h : Apart rest) :
    rest = [] ∨ (∃ cs, rest = ' ' :: cs) ∨ ∃ cs, rest = '\n' :: cs := by
  rcases rest with - | ⟨c, cs⟩
  · exact .inl rfl
  rcases List.mem_cons.mp (h c rfl) with rfl | hc
  · exact .inr (.inl ⟨cs, rfl⟩)
  · exact .inr (.inr ⟨cs, List.mem_singleton.mp hc ▸ rfl⟩)

/-- **A lexeme stands alone**: it begins with `c`, which is no blank, and wherever it stands apart from what
follows it is cut off as a token of that kind. -/
structure Firm (afterOperand : Bool) (kind : TokenKind) (c : Char) (cs : List Char) : Prop where
  not_blank : Text.isBlank c = false
  next_eq : ∀ {rest : List Char}, Apart rest → ∀ start : Nat,
    next .standard afterOperand c (cs ++ rest) start = .ok ⟨cs.length + 1, kind, c :: cs⟩

/-! ## Numbers -/

section Numbers

variable {before n : Nat} {cs rest : List Char}

/-- One digit or more. -/
structure Digits (ds : List Char) : Prop where
  ne_nil : ds ≠ []
  isDigit : ∀ d ∈ ds, isDigit d

/-- No fraction, or a dot with digits behind it. -/
inductive IsFraction : List Char → Prop
  | none : IsFraction []
  | digits {ds : List Char} (h : Digits ds) : IsFraction ('.' :: ds)

/-- No exponent, or a letter with digits behind it, and a sign between them or not. -/
inductive IsExponent : List Char → Prop
  | none : IsExponent []
  | digits {c : Char} {sign ds : List Char} (hc : c = 'e' ∨ c = 'E') (hsign : sign ∈ [[], ['+'], ['-']])
      (h : Digits ds) : IsExponent (c :: (sign ++ ds))

/-- **The parts of an unsigned number.** -/
structure NumberParts (whole fraction exponent : List Char) : Prop where
  isDigit : ∀ c ∈ whole, isDigit c
  isFraction : IsFraction fraction
  isExponent : IsExponent exponent
  ne_nil : whole ++ fraction ≠ []

theorem Digits.takeWhile (h : Digits cs) (hrest : ∀ c ∈ rest.head?, Text.isDigit c = false) :
    (cs ++ rest).takeWhile Text.isDigit = cs :=
  takeWhile_front h.isDigit hrest

/-- Digits begin with a digit. -/
theorem Digits.head (h : Digits cs) (rest : List Char) : ∃ d ds, cs ++ rest = d :: ds ∧ Text.isDigit d := by
  obtain ⟨d, ds, rfl⟩ := List.exists_cons_of_ne_nil h.ne_nil
  exact ⟨d, ds ++ rest, rfl, h.isDigit d List.mem_cons_self⟩

theorem take_takeWhile (p : Char → Bool) (cs : List Char) : cs.take (cs.takeWhile p).length = cs.takeWhile p :=
  (List.prefix_iff_eq_take.mp (List.takeWhile_prefix p)).symm

/-- As many characters as there are digits in front are digits. -/
theorem Digits.of_length (h : (cs.takeWhile Text.isDigit).length = n + 1) :
    Digits (cs.take (n + 1)) ∧ (cs.take (n + 1)).length = n + 1 := by
  have htake : cs.take (n + 1) = cs.takeWhile Text.isDigit := by rw [← h, take_takeWhile]
  rw [htake]
  exact ⟨⟨List.ne_nil_of_length_eq_add_one h, fun _ => List.mem_takeWhile_imp⟩, h⟩

theorem IsFraction.of_length (h : fractionLength before cs = .ok n) :
    IsFraction (cs.take n) ∧ (cs.take n).length = n := by
  unfold fractionLength at h
  split at h
  next ds =>
    split at h
    · cases h
      exact ⟨.none, rfl⟩
    split at h
    next => cases h
    next m hm =>
      cases h
      obtain ⟨hdigits, hlength⟩ := Digits.of_length hm
      rw [List.take_succ_cons]
      exact ⟨.digits hdigits, congrArg (· + 1) hlength⟩
  next =>
    cases h
    exact ⟨.none, rfl⟩

theorem IsFraction.head (h : IsFraction cs) : ∀ c ∈ cs.head?, c = '.' := by
  cases h with
  | none => exact fun _ h => nomatch h
  | digits _ =>
    rintro _ ⟨rfl⟩
    rfl

theorem IsFraction.length_eq (h : IsFraction cs) (hrest : ∀ c ∈ rest.head?, Text.isDigit c = false ∧ c ≠ '.') :
    fractionLength before (cs ++ rest) = .ok cs.length := by
  cases h with
  | none =>
    rw [List.nil_append]
    unfold fractionLength
    split
    · exact absurd rfl (hrest '.' rfl).2
    · rfl
  | @digits ds hds =>
    have hdot : (ds ++ rest).head? ≠ some '.' := by
      obtain ⟨d, ds', hcons, hd⟩ := hds.head rest
      rw [hcons]
      rintro ⟨rfl⟩
      cases hd
    obtain ⟨m, hm⟩ := Nat.exists_eq_add_one_of_ne_zero (List.length_pos_iff.mpr hds.ne_nil).ne'
    rw [List.cons_append, fractionLength, if_neg hdot, hds.takeWhile fun c hc => (hrest c hc).1, List.length_cons, hm]

/-- The length of a sign, or of none. -/
def signLength : List Char → Nat
  | '+' :: _ | '-' :: _ => 1
  | _ => 0

theorem take_signLength (cs : List Char) :
    cs.take (signLength cs) ∈ [[], ['+'], ['-']] ∧ (cs.take (signLength cs)).length = signLength cs := by
  unfold signLength
  split <;> simp

theorem signLength_append {sign : List Char} (hsign : sign ∈ [[], ['+'], ['-']]) (h : Digits cs) (rest : List Char) :
    signLength (sign ++ (cs ++ rest)) = sign.length := by
  simp only [List.mem_cons, List.not_mem_nil, or_false] at hsign
  rcases hsign with rfl | rfl | rfl
  · obtain ⟨d, ds, hcons, hd⟩ := h.head rest
    rw [List.nil_append, hcons]
    unfold signLength
    split
    next heq => cases (List.cons.inj heq).1 ▸ hd
    next heq => cases (List.cons.inj heq).1 ▸ hd
    next => rfl
  · rfl
  · rfl

theorem exponentLength_cons {c : Char} (hc : c = 'e' ∨ c = 'E') (ds : List Char) :
    exponentLength before (c :: ds) =
      match ((ds.drop (signLength ds)).takeWhile Text.isDigit).length with
      | 0 => .error (.missingDigits (before + 1 + signLength ds))
      | n + 1 => .ok (signLength ds + n + 2) :=
  if_pos hc

theorem IsExponent.of_length (h : exponentLength before cs = .ok n) :
    IsExponent (cs.take n) ∧ (cs.take n).length = n := by
  rcases cs with - | ⟨c, ds⟩
  · cases h
    exact ⟨.none, rfl⟩
  by_cases hc : c = 'e' ∨ c = 'E'
  · rw [exponentLength_cons hc] at h
    obtain ⟨hsign, hlength⟩ := take_signLength ds
    generalize signLength ds = sign at h hsign hlength
    split at h
    next => cases h
    next m hm =>
      cases h
      obtain ⟨hdigits, hcount⟩ := Digits.of_length hm
      rw [List.take_succ_cons, Nat.add_assoc, List.take_add]
      refine ⟨.digits hc hsign hdigits, ?_⟩
      rw [List.length_cons, List.length_append, hlength, hcount]
      omega
  · have hnone : exponentLength before (c :: ds) = .ok 0 := if_neg hc
    cases hnone.symm.trans h
    exact ⟨.none, rfl⟩

theorem IsExponent.head (h : IsExponent cs) : ∀ c ∈ cs.head?, c = 'e' ∨ c = 'E' := by
  cases h with
  | none => exact fun _ h => nomatch h
  | digits hc _ _ =>
    rintro _ ⟨rfl⟩
    exact hc

theorem IsExponent.length_eq (h : IsExponent cs)
    (hrest : ∀ c ∈ rest.head?, Text.isDigit c = false ∧ ¬ (c = 'e' ∨ c = 'E')) :
    exponentLength before (cs ++ rest) = .ok cs.length := by
  cases h with
  | none =>
    cases rest with
    | nil => rfl
    | cons c rest => exact if_neg (hrest c rfl).2
  | @digits c sign ds hc hsign hds =>
    obtain ⟨m, hm⟩ := Nat.exists_eq_add_one_of_ne_zero (List.length_pos_iff.mpr hds.ne_nil).ne'
    rw [List.cons_append, List.append_assoc, exponentLength_cons hc, signLength_append hsign hds, List.drop_left,
      hds.takeWhile fun c hc => (hrest c hc).1, List.length_cons, List.length_append, hm]
    rfl

/-- The number in front has its parts. -/
theorem NumberParts.of_length (h : numberLength cs = .ok n) :
    ∃ whole fraction exponent, NumberParts whole fraction exponent ∧
      cs.take n = whole ++ (fraction ++ exponent) ∧ (cs.take n).length = n := by
  unfold numberLength at h
  simp only [bind, Except.bind, pure, Except.pure, throw, throwThe, MonadExceptOf.throw] at h
  have hwhole := take_takeWhile Text.isDigit cs
  have hdigits : ∀ c ∈ cs.takeWhile Text.isDigit, Text.isDigit c := fun _ => List.mem_takeWhile_imp
  generalize hn₁ : (cs.takeWhile Text.isDigit).length = n₁ at h hwhole
  split at h
  · cases h
  next n₂ hfraction =>
  split at h
  · cases h
  next hpos =>
  split at h
  · cases h
  next n₃ hexponent =>
  split at h
  · cases h
  cases h
  obtain ⟨hisFraction, hn₂⟩ := IsFraction.of_length hfraction
  obtain ⟨hisExponent, hn₃⟩ := IsExponent.of_length hexponent
  have htake : cs.take (n₁ + n₂ + n₃) =
      cs.takeWhile Text.isDigit ++ ((cs.drop n₁).take n₂ ++ (cs.drop (n₁ + n₂)).take n₃) := by
    rw [List.take_add, List.take_add, hwhole, List.append_assoc]
  refine ⟨_, _, _, ⟨hdigits, hisFraction, hisExponent, fun hnil => hpos ?_⟩, htake, ?_⟩
  · rw [← hn₁, ← hn₂, ← List.length_append, hnil]
    rfl
  · rw [htake, List.length_append, List.length_append, hn₁, hn₂, hn₃, Nat.add_assoc]

/-- **The length of a number** is that of its parts, if it goes on with nothing else. -/
theorem NumberParts.length_eq {whole fraction exponent : List Char} (h : NumberParts whole fraction exponent)
    (hrest : Apart rest) :
    numberLength (whole ++ (fraction ++ exponent) ++ rest) = .ok (whole ++ (fraction ++ exponent)).length := by
  have hafterFraction : ∀ c ∈ (exponent ++ rest).head?, Text.isDigit c = false ∧ c ≠ '.' := by
    refine head?_append (fun c hc => ?_) (hrest.head (by decide))
    rcases h.isExponent.head c hc with rfl | rfl <;> decide
  have hafterWhole : ∀ c ∈ (fraction ++ (exponent ++ rest)).head?, Text.isDigit c = false := by
    refine head?_append (fun c hc => ?_) fun c hc => (hafterFraction c hc).1
    rw [h.isFraction.head c hc]
    decide
  have hwhole := takeWhile_front h.isDigit hafterWhole
  have hpos : whole.length + fraction.length ≠ 0 := by
    rw [← List.length_append]
    exact (List.length_pos_iff.mpr h.ne_nil).ne'
  have hend : rest.head?.any isWordChar = false := by
    rw [Option.any_eq_false]
    exact hrest.head (p := fun c => isWordChar c = false) (by decide)
  have hdrop : (whole ++ (fraction ++ (exponent ++ rest))).drop (whole.length + fraction.length) =
      exponent ++ rest := by
    rw [← List.append_assoc, ← List.length_append, List.drop_left]
  have hdrop' : (whole ++ (fraction ++ (exponent ++ rest))).drop
      (whole.length + fraction.length + exponent.length) = rest := by
    rw [← List.drop_drop, hdrop, List.drop_left]
  have hexponent : ∀ before, exponentLength before (exponent ++ rest) = .ok exponent.length := fun _ =>
    h.isExponent.length_eq (hrest.head (p := fun c => Text.isDigit c = false ∧ ¬ (c = 'e' ∨ c = 'E')) (by decide))
  have hlength : (whole ++ (fraction ++ exponent)).length = whole.length + fraction.length + exponent.length := by
    rw [List.length_append, List.length_append, Nat.add_assoc]
  unfold numberLength
  rw [List.append_assoc, List.append_assoc, hlength]
  simp only [hwhole, List.drop_left, h.isFraction.length_eq hafterFraction, bind, Except.bind, if_neg hpos, pure,
    Except.pure, hdrop, hexponent, hdrop', hend, Bool.false_eq_true, if_false]

/-- A number begins as one. -/
theorem NumberParts.startsNumber {whole fraction exponent : List Char} (h : NumberParts whole fraction exponent)
    (rest : List Char) : startsNumber (whole ++ (fraction ++ exponent) ++ rest) := by
  rw [List.append_assoc, List.append_assoc]
  cases whole with
  | nil =>
    cases h.isFraction with
    | none => exact absurd rfl h.ne_nil
    | @digits ds hds =>
      obtain ⟨d, ds', hcons, hd⟩ := hds.head (exponent ++ rest)
      rw [List.nil_append, List.cons_append, hcons]
      exact hd
  | cons d ds =>
    have hd : Text.isDigit d := h.isDigit d List.mem_cons_self
    rw [List.cons_append]
    unfold Lexeme.startsNumber
    split
    next heq => cases (List.cons.inj heq).1 ▸ hd
    next heq => exact (List.cons.inj heq).1 ▸ hd
    next heq => cases heq

/-- **A number stands alone**, with the sign in front of it if it has one. -/
theorem number_recut (front : List Char) {start : Nat} {l : Lexeme}
    (h : number front.length (front ++ cs) start = .ok l) :
    0 < l.length ∧ l.kind.isLayout = false ∧ ∃ c text more, cs = c :: more ∧ l.text = front ++ c :: text ∧
      (∀ rest, Lexeme.startsNumber (c :: (text ++ rest))) ∧
      ∀ {rest : List Char}, Apart rest → ∀ start' : Nat, number front.length (front ++ c :: (text ++ rest)) start' =
        .ok ⟨(front ++ c :: text).length, l.kind, front ++ c :: text⟩ := by
  unfold number at h
  rw [List.drop_left] at h
  split at h
  · cases h
  · cases h
  next n hn =>
  dsimp only at h
  rw [List.take_length_add_append] at h
  split at h
  case h_2 => cases h
  case h_1 x hx =>
  cases h
  obtain ⟨whole, fraction, exponent, hparts, htake, hcount⟩ := NumberParts.of_length hn
  obtain ⟨c, text, htext⟩ : ∃ c text, cs.take n = c :: text := by
    refine List.exists_cons_of_ne_nil fun hnil => hparts.ne_nil ?_
    rw [htake, ← List.append_assoc] at hnil
    exact List.append_eq_nil_iff.mp hnil |>.1
  obtain ⟨more, hmore⟩ : ∃ more, cs = c :: more := by
    rw [← List.take_append_drop n cs, htext]
    exact ⟨_, rfl⟩
  have hpos : 0 < n := by
    rw [← hcount, htext]
    exact Nat.succ_pos _
  rw [htext] at hx ⊢
  refine ⟨Nat.add_pos_right _ hpos, rfl, c, text, more, hmore, rfl, fun rest => ?_, fun {rest} hrest start' => ?_⟩
  · rw [← List.cons_append, ← htext, htake]
    exact hparts.startsNumber rest
  · have hlength : numberLength (c :: text ++ rest) = .ok (c :: text).length := by
      rw [← htext, htake]
      exact hparts.length_eq hrest
    unfold number
    rw [List.drop_left, ← List.cons_append, hlength]
    dsimp only
    rw [List.take_length_add_append, List.take_left, hx, List.length_append]

end Numbers

/-! ## Texts -/

theorem textBody?_cons {mark c : Char} (h : c ≠ '\\') (cs : List Char) :
    textBody? mark (c :: cs) =
      if c = mark then some ([], 1) else (textBody? mark cs).map fun (value, n) => (c :: value, n + 1) :=
  textBody?.eq_4 mark c cs (fun hc _ => h hc) (fun _ _ hc _ => h hc)

/-- No escape begins where neither a backslash is the last character nor another one stands behind it. -/
theorem ne_backslash {c : Char} {cs : List Char} (hlast : c = '\\' → cs = [] → False)
    (hescape : ∀ d ds, c = '\\' → cs = d :: ds → False) : c ≠ '\\' := by
  intro hc
  cases cs with
  | nil => exact hlast hc rfl
  | cons d ds => exact hescape d ds hc rfl

theorem textBody?_recut {mark : Char} {cs value : List Char} {n : Nat} (h : textBody? mark cs = some (value, n))
    (rest : List Char) : textBody? mark (cs.take n ++ rest) = some (value, n) ∧ (cs.take n).length = n := by
  fun_induction textBody? mark cs generalizing value n with
  | case1 => cases h
  | case2 => cases h
  | case3 c cs ih =>
    obtain ⟨⟨value', n'⟩, hbody, heq⟩ := Option.map_eq_some_iff.mp h
    cases heq
    obtain ⟨hrecut, hlength⟩ := ih hbody
    simp only [List.take_succ_cons, List.cons_append, textBody?, hrecut, Option.map_some, List.length_cons, hlength]
    trivial
  | case4 cs hend hescape =>
    cases h
    refine ⟨?_, rfl⟩
    rw [List.take_succ_cons, List.take_zero, List.cons_append, textBody?_cons (ne_backslash hend hescape), if_pos rfl]
  | case5 c cs hend hescape hmark ih =>
    obtain ⟨⟨value', n'⟩, hbody, heq⟩ := Option.map_eq_some_iff.mp h
    cases heq
    obtain ⟨hrecut, hlength⟩ := ih hbody
    rw [List.take_succ_cons, List.cons_append, textBody?_cons (ne_backslash hend hescape), if_neg hmark, hrecut,
      List.length_cons, hlength]
    exact ⟨rfl, rfl⟩

/-! ## Words, operators and marks -/

variable {afterOperand : Bool} {c : Char} {cs : List Char}

/-- A word ends where its characters do. -/
theorem word_append {g : Grammar} {text rest : List Char} (htext : ∀ c ∈ text, isWordChar c) (hrest : Apart rest) :
    word g (text ++ rest) = word g text := by
  have hself : text.takeWhile isWordChar = text := List.takeWhile_eq_self_iff.mpr htext
  unfold word
  rw [takeWhile_front htext (hrest.head (by decide)), hself]

/-- The characters that join to operators do so wherever they stand. -/
theorem next_joined (hc : isOperatorChar c) (cs : List Char) (start : Nat) :
    next .standard afterOperand c cs start = joined .standard (c :: cs) start := by
  have hmem : c ∈ ['+', '<', '>', '=', '!', '&', '|', '^', '~', '?', '@', '#', '$'] := List.contains_iff_mem.mp hc
  simp only [List.mem_cons, List.not_mem_nil, or_false] at hmem
  rcases hmem with rfl | rfl | rfl | rfl | rfl | rfl | rfl | rfl | rfl | rfl | rfl | rfl | rfl <;> rfl

/-- A mark of one character is cut off alone if nothing follows that would join to it. -/
theorem next_mark_of_apart (hc : isMarkChar c) {rest : List Char} (hrest : Apart rest) (start : Nat) :
    next .standard afterOperand c rest start = .ok (mark .standard 1 (c :: rest)) := by
  have hmem : c ∈ ['(', ')', '[', ']', '{', '}', ',', ':', ';', '.', '*', '/', '%', '-'] :=
    List.contains_iff_mem.mp hc
  simp only [List.mem_cons, List.not_mem_nil, or_false] at hmem
  -- a dot, a star and a minus look at the next character, and a minus at what stands before it
  rcases hrest.cases with rfl | ⟨cs, rfl⟩ | ⟨cs, rfl⟩ <;> cases afterOperand <;>
    rcases hmem with rfl | rfl | rfl | rfl | rfl | rfl | rfl | rfl | rfl | rfl | rfl | rfl | rfl | rfl <;> rfl

theorem Firm.mark (hc : isMarkChar c) : Firm afterOperand (Lexeme.mark .standard 1 [c]).kind c [] where
  not_blank := by
    have hmarks : "()[]\x7b\x7d,:;.*/%-".toList.all fun c => !Text.isBlank c := by decide
    exact (Bool.not_eq_true' _).mp (List.all_eq_true.mp hmarks c (List.contains_iff_mem.mp hc))
  next_eq hrest start := next_mark_of_apart hc hrest start

/-- Two dots, or two stars. -/
theorem Firm.doubled (hc : c ∈ ['.', '*']) : Firm afterOperand .operator c [c] := by
  simp only [List.mem_cons, List.not_mem_nil, or_false] at hc
  rcases hc with rfl | rfl <;> exact ⟨rfl, fun _ _ => rfl⟩

theorem Firm.joined (hcs : ∀ d ∈ c :: cs, isOperatorChar d)
    (hoperator : Grammar.standard.isOperator (String.ofList (c :: cs))) : Firm afterOperand .operator c cs where
  not_blank := by
    have hmarks : "+<>=!&|^~?@#$".toList.all fun c => !Text.isBlank c := by decide
    have hc := List.contains_iff_mem.mp (hcs c List.mem_cons_self)
    exact (Bool.not_eq_true' _).mp (List.all_eq_true.mp hmarks c hc)
  next_eq {rest} hrest start := by
    rw [next_joined (hcs c List.mem_cons_self), Lexeme.joined, ← List.cons_append,
      takeWhile_front hcs (hrest.head (by decide))]
    exact if_pos hoperator

/-- The operators that are words. -/
def keywords : List (List Char) := ["or", "and", "in", "is", "not", "if", "else"].map String.toList

theorem Firm.keyword (h : c :: cs ∈ keywords) : Firm afterOperand .operator c cs := by
  have hwords : ∀ d ∈ c :: cs, isWordChar d := by
    have hall : keywords.all fun text => text.all isWordChar := by decide
    exact List.all_eq_true.mp (List.all_eq_true.mp hall _ h)
  have hnext (rest : List Char) (start : Nat) : next .standard afterOperand c (cs ++ rest) start =
      .ok (word .standard (c :: cs ++ rest)) := by
    simp only [keywords, List.map_cons, List.map_nil, List.mem_cons, List.not_mem_nil, or_false] at h
    rcases h with h | h | h | h | h | h | h <;> obtain ⟨rfl, rfl⟩ := List.cons.inj h <;> rfl
  have hword : word .standard (c :: cs) = ⟨cs.length + 1, .operator, c :: cs⟩ := by
    simp only [keywords, List.map_cons, List.map_nil, List.mem_cons, List.not_mem_nil, or_false] at h
    rcases h with h | h | h | h | h | h | h <;> rw [h] <;> obtain ⟨rfl, rfl⟩ := List.cons.inj h <;> rfl
  refine ⟨?_, fun {rest} hrest start => ?_⟩
  · have hall : keywords.all fun text => text.head?.all fun c => !Text.isBlank c := by decide
    have hhead := List.all_eq_true.mp hall _ h
    rwa [List.head?_cons, Option.all_some, Bool.not_eq_true'] at hhead
  · rw [hnext, word_append hwords hrest, hword]

/-- How operators are spelt: as words, by marks that join, by a mark twice, or by one mark. -/
theorem isOperator_cases {text : List Char} (h : Grammar.standard.isOperator (String.ofList text)) :
    text ∈ keywords ∨ (text ≠ [] ∧ ∀ c ∈ text, isOperatorChar c) ∨ (∃ c ∈ ['.', '*'], text = [c, c]) ∨
      ∃ c ∈ ['*', '/', '%', '-'], text = [c] := by
  have hall : (Grammar.standard.keywords.filter (·.isOperator)).all fun k =>
      let text := k.name.toList
      decide (text ∈ keywords) || (decide (text ≠ []) && text.all isOperatorChar) ||
        ['.', '*'].any (fun c => text == [c, c]) || ['*', '/', '%', '-'].any (fun c => text == [c]) := by
    decide +kernel
  unfold Grammar.isOperator at h
  cases hget : Grammar.standard.get? (String.ofList text) with
  | none => simp [hget] at h
  | some k =>
    have hname : k.name.toList = text := by
      have hbeq := List.find?_some hget
      rw [beq_iff_eq.mp hbeq, String.toList_ofList]
    have hk : k ∈ Grammar.standard.keywords.filter (·.isOperator) :=
      List.mem_filter.mpr ⟨List.mem_of_find?_eq_some hget, by simpa [hget] using h⟩
    have hspelt := List.all_eq_true.mp hall k hk
    simp only [hname, Bool.or_eq_true, Bool.and_eq_true, decide_eq_true_eq, List.all_eq_true, List.any_eq_true,
      beq_iff_eq, or_assoc] at hspelt
    exact hspelt

/-- The characters that open and close brackets. -/
def brackets : List Char := ['(', '[', '{', ')', ']', '}']

theorem depthAfter_eq_self (h : c ∉ brackets) (depth : Nat) : Scanner.depthAfter depth c = depth := by
  simp only [brackets, List.mem_cons, List.not_mem_nil, or_false, not_or] at h
  obtain ⟨h₁, h₂, h₃, h₄, h₅, h₆⟩ := h
  rw [Scanner.depthAfter, if_neg (by simp [h₁, h₂, h₃]), if_neg (by simp [h₄, h₅, h₆])]

/-- **An operator stands alone.** It is no bracket. -/
theorem Firm.operator (afterOperand : Bool) {text : List Char} (h : Grammar.standard.isOperator (String.ofList text)) :
    ∃ c cs, text = c :: cs ∧ Firm afterOperand .operator c cs ∧ c ∉ brackets := by
  rcases isOperator_cases h with hword | ⟨hne, hjoins⟩ | ⟨c, hc, rfl⟩ | ⟨c, hc, rfl⟩
  · have hall : keywords.all fun text => !text.isEmpty && text.head?.all (· ∉ brackets) := by decide
    have htext := List.all_eq_true.mp hall text hword
    cases text with
    | nil => cases htext
    | cons c cs => exact ⟨c, cs, rfl, .keyword hword, of_decide_eq_true htext⟩
  · obtain ⟨c, cs, rfl⟩ := List.exists_cons_of_ne_nil hne
    have hall : "+<>=!&|^~?@#$".toList.all fun c => c ∉ brackets := by decide
    have hc := List.all_eq_true.mp hall c (List.contains_iff_mem.mp (hjoins c List.mem_cons_self))
    exact ⟨c, cs, rfl, .joined hjoins h, of_decide_eq_true hc⟩
  · have hall : ['.', '*'].all fun c => c ∉ brackets := by decide
    exact ⟨c, [c], rfl, .doubled hc, of_decide_eq_true (List.all_eq_true.mp hall c hc)⟩
  · have hall : ['*', '/', '%', '-'].all fun c => isMarkChar c && c ∉ brackets := by decide
    obtain ⟨hmark, hbracket⟩ := Bool.and_eq_true_iff.mp (List.all_eq_true.mp hall c hc)
    have hfirm : Firm afterOperand _ c [] := Firm.mark hmark
    rw [Lexeme.mark, List.take_succ_cons, List.take_zero, if_pos h] at hfirm
    exact ⟨c, [], rfl, hfirm, of_decide_eq_true hbracket⟩

/-- A lexeme takes some of the source, which begins with `c`, and stands alone. It opens and closes the brackets
that it did where it stood. -/
structure Recut (afterOperand : Bool) (c : Char) (l : Lexeme) : Prop where
  length_pos : 0 < l.length
  not_layout : l.kind.isLayout = false
  firm : ∃ d ds, l.text = d :: ds ∧ Firm afterOperand l.kind d ds ∧
    ∀ depth, Scanner.depthAfter depth d = Scanner.depthAfter depth c

variable {start : Nat} {l : Lexeme}

theorem recut_text (hblank : Text.isBlank c = false) (hquote : c = '"' ∨ c = '\'')
    (h : quotedText c (c :: cs) start = .ok l) : Recut afterOperand c l := by
  unfold quotedText at h
  rw [List.drop_succ_cons, List.drop_zero] at h
  split at h
  case h_1 => cases h
  case h_2 value n hbody =>
  cases h
  have hrecut := textBody?_recut hbody
  generalize htext : cs.take n = text at hrecut
  refine ⟨Nat.succ_pos n, rfl, c, text, congrArg (c :: ·) htext, ⟨hblank, fun {rest} hrest start' => ?_⟩, fun _ => rfl⟩
  obtain ⟨hbody', hlength⟩ := hrecut rest
  unfold next
  rw [if_pos hquote, quotedText, List.drop_succ_cons, List.drop_zero, hbody', ← hlength]
  dsimp only
  rw [List.take_succ_cons, List.take_left]

/-- Behind a dot that begins a number stands no second dot. -/
theorem head?_of_startsNumber (h : startsNumber ('.' :: cs)) : cs.head? ≠ some '.' := by
  rcases cs with - | ⟨d, ds⟩
  · cases h
  · have hd : Text.isDigit d := h
    rintro ⟨rfl⟩
    cases hd

/-- A number without a sign. -/
theorem recut_number (hblank : Text.isBlank c = false) (hquote : ¬ (c = '"' ∨ c = '\''))
    (hc : Text.isDigit c ∨ c = '.') (h : number 0 (c :: cs) start = .ok l) : Recut afterOperand c l := by
  obtain ⟨hpos, hkind, d, text, more, hcons, htext, hstarts, hrecut⟩ := number_recut [] h
  obtain ⟨rfl, rfl⟩ := List.cons.inj hcons
  refine ⟨hpos, hkind, c, text, htext, ⟨hblank, fun {rest} hrest start' => ?_⟩, fun _ => rfl⟩
  have hnumber : number 0 (c :: (text ++ rest)) start' = .ok ⟨text.length + 1, l.kind, c :: text⟩ :=
    hrecut hrest start'
  unfold next
  dsimp only
  rw [if_neg hquote]
  by_cases hdigit : Text.isDigit c
  · rw [if_pos hdigit, hnumber]
  · obtain rfl := hc.resolve_left hdigit
    rw [if_neg hdigit, if_pos rfl, if_neg (head?_of_startsNumber (hstarts rest)), if_pos (hstarts rest), hnumber]

/-- A number with a sign, not behind an operand. -/
theorem recut_signed (h : number 1 ('-' :: cs) start = .ok l) : Recut false '-' l := by
  obtain ⟨hpos, hkind, d, text, more, -, htext, hstarts, hrecut⟩ := number_recut ['-'] h
  refine ⟨hpos, hkind, '-', d :: text, htext, ⟨rfl, fun {rest} hrest start' => ?_⟩, fun _ => rfl⟩
  have hnumber : number 1 ('-' :: d :: (text ++ rest)) start' =
      .ok ⟨(d :: text).length + 1, l.kind, '-' :: d :: text⟩ := hrecut hrest start'
  unfold next
  dsimp only
  rw [if_neg (by decide), if_neg (by decide), if_neg (by decide), if_pos rfl, List.cons_append, hstarts rest]
  exact hnumber

theorem isLayout_mark (g : Grammar) (n : Nat) (cs : List Char) : (mark g n cs).kind.isLayout = false := by
  unfold mark
  dsimp only
  split <;> rfl

theorem recut_mark (hc : isMarkChar c) : Recut afterOperand c (mark .standard 1 (c :: cs)) :=
  ⟨Nat.one_pos, isLayout_mark _ _ _, c, [], rfl, .mark hc, fun _ => rfl⟩

theorem recut_doubled (hc : c ∈ ['.', '*']) (hcs : cs.head? = some c) :
    Recut afterOperand c (mark .standard 2 (c :: cs)) := by
  obtain ⟨ds, rfl⟩ := List.head?_eq_some_iff.mp hcs
  refine ⟨Nat.two_pos, isLayout_mark _ _ _, c, [c], rfl, ?_, fun _ => rfl⟩
  simp only [List.mem_cons, List.not_mem_nil, or_false] at hc
  rcases hc with rfl | rfl
  · exact .doubled (by decide)
  · exact .doubled (by decide)

theorem recut_joined (hc : isOperatorChar c) (h : joined .standard (c :: cs) start = .ok l) :
    Recut afterOperand c l := by
  unfold joined at h
  dsimp only at h
  split at h
  next hoperator =>
    cases h
    rw [List.takeWhile_cons_of_pos hc] at hoperator ⊢
    refine ⟨Nat.succ_pos _, rfl, c, cs.takeWhile isOperatorChar, rfl, .joined (fun d hd => ?_) hoperator, fun _ => rfl⟩
    rcases List.mem_cons.mp hd with rfl | hd
    · exact hc
    · exact List.mem_takeWhile_imp hd
  next => cases h

/-- A letter is no bracket. -/
theorem not_mem_brackets (hletter : Text.isAlphabetic c || c == '_') : c ∉ brackets := by
  have hall : brackets.all fun c => !(Text.isAlphabetic c || c == '_') := by decide
  intro hc
  have hno := List.all_eq_true.mp hall c hc
  rw [hletter] at hno
  cases hno

/-- A word is an operator, which reads in lower case, or it keeps its letters. -/
theorem word_text (g : Grammar) (cs : List Char) :
    (word g cs).length = (cs.takeWhile isWordChar).length ∧ (word g cs).kind.isLayout = false ∧
      ((word g cs).text = cs.takeWhile isWordChar ∨
      (word g cs).kind = .operator ∧ g.isOperator (String.ofList (word g cs).text)) := by
  unfold word
  dsimp only
  split
  · exact ⟨rfl, rfl, .inl rfl⟩
  split
  · exact ⟨rfl, rfl, .inl rfl⟩
  split
  · exact ⟨rfl, rfl, .inl rfl⟩
  split
  next hoperator => exact ⟨rfl, rfl, .inr ⟨rfl, by rwa [String.ofList_toList]⟩⟩
  next => exact ⟨rfl, rfl, .inl rfl⟩

theorem recut_word (hblank : Text.isBlank c = false) (hletter : Text.isAlphabetic c || c == '_')
    (hnext : ∀ ds start, next .standard afterOperand c ds start = .ok (word .standard (c :: ds))) :
    Recut afterOperand c (word .standard (c :: cs)) := by
  have hc : isWordChar c := by
    rcases Bool.or_eq_true_iff.mp hletter with hc | hc
    · simp [isWordChar, Text.isAlphanumeric, hc]
    · simp [isWordChar, hc]
  obtain ⟨hlength, hkind, htext⟩ := word_text .standard (c :: cs)
  have hself : word .standard ((c :: cs).takeWhile isWordChar) = word .standard (c :: cs) := by
    have htwice : ((c :: cs).takeWhile isWordChar).takeWhile isWordChar = (c :: cs).takeWhile isWordChar :=
      List.takeWhile_eq_self_iff.mpr fun _ => List.mem_takeWhile_imp
    unfold word
    rw [htwice]
  rw [List.takeWhile_cons_of_pos hc] at hlength htext hself
  have hwords : ∀ d ∈ c :: cs.takeWhile isWordChar, isWordChar d := by
    intro d hd
    rcases List.mem_cons.mp hd with rfl | hd
    · exact hc
    · exact List.mem_takeWhile_imp hd
  refine ⟨hlength ▸ Nat.succ_pos _, hkind, ?_⟩
  rcases htext with htext | ⟨hkind, hoperator⟩
  · refine ⟨c, _, htext, ⟨hblank, fun {rest} hrest start => ?_⟩, fun _ => rfl⟩
    rw [hnext, ← List.cons_append, word_append hwords hrest, hself, ← htext]
    exact congrArg Except.ok (congrArg (Lexeme.mk · _ _) hlength)
  · obtain ⟨d, ds, htext, hfirm, hd⟩ := Firm.operator afterOperand hoperator
    refine ⟨d, ds, htext, hkind ▸ hfirm, fun depth => ?_⟩
    rw [depthAfter_eq_self hd, depthAfter_eq_self (not_mem_brackets hletter)]

/-! ## All lexemes -/

/-- **What is cut off stands alone.** -/
theorem next_recut (hblank : Text.isBlank c = false) (h : next .standard afterOperand c cs start = .ok l) :
    Recut afterOperand c l := by
  unfold next at h
  dsimp only at h
  by_cases hquote : c = '"' ∨ c = '\''
  · rw [if_pos hquote] at h
    exact recut_text hblank hquote h
  rw [if_neg hquote] at h
  by_cases hdigit : Text.isDigit c
  · rw [if_pos hdigit] at h
    exact recut_number hblank hquote (.inl hdigit) h
  rw [if_neg hdigit] at h
  by_cases hdot : c = '.'
  · rw [if_pos hdot] at h
    split at h
    next hdots =>
      cases h
      exact recut_doubled (by simp [hdot]) (hdots.trans (congrArg some hdot.symm))
    split at h
    · exact recut_number hblank hquote (.inr hdot) h
    · cases h
      exact recut_mark (hdot ▸ rfl)
  rw [if_neg hdot] at h
  by_cases hminus : c = '-'
  · subst hminus
    rw [if_pos rfl] at h
    split at h
    next hsign =>
      obtain rfl : afterOperand = false := by simpa using (Bool.and_eq_true_iff.mp hsign).1
      exact recut_signed h
    next =>
      cases h
      exact recut_mark rfl
  rw [if_neg hminus] at h
  by_cases hstar : c = '*'
  · subst hstar
    rw [if_pos rfl] at h
    cases h
    split
    next hstars => exact recut_doubled (by decide) hstars
    next => exact recut_mark rfl
  rw [if_neg hstar] at h
  by_cases hletter : Text.isAlphabetic c || c == '_'
  · rw [if_pos hletter] at h
    cases h
    refine recut_word hblank hletter fun ds start => ?_
    unfold next
    dsimp only
    rw [if_neg hquote, if_neg hdigit, if_neg hdot, if_neg hminus, if_neg hstar, if_pos hletter]
  rw [if_neg hletter] at h
  by_cases hjoins : isOperatorChar c
  · rw [if_pos hjoins] at h
    exact recut_joined hjoins h
  rw [if_neg hjoins] at h
  by_cases hmark : isMarkChar c
  · rw [if_pos hmark] at h
    cases h
    exact recut_mark hmark
  rw [if_neg hmark] at h
  cases h

end Lexeme

end Cellbook
