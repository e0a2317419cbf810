import Cellbook.Proofs.Value.Reread
import Cellbook.Source.Token.Lexeme

/-!
# Literals at the front of source text

The text of a scalar, a text in quotation marks, is cut off the front of source text as one literal, and the
literal is that scalar (`next_scalar`). What follows must be a mark that ends it: a letter behind a number
would belong to it or be a fault, and a letter behind a word would make it another word.
-/

namespace Cellbook

open Text (isDigit)

namespace Lexeme

/-- Source text in which a literal has ended: there is none left, or it goes on with one of these marks. -/
def Closed (rest : List Char) : Prop := ∀ c ∈ rest.head?, c ∈ [',', ':', ']', '}']

theorem Closed.nil : Closed [] := fun _ h => nomatch h

theorem Closed.cons {c : Char} {rest : List Char} (h : c ∈ [',', ':', ']', '}']) : Closed (c :: rest) := by
  rintro _ ⟨rfl⟩
  exact h

/-- What is so of the four marks is so of the next character. -/
theorem Closed.head {rest : List Char} (h : Closed rest) {p : Char → Prop}
    (hp : p ',' ∧ p ':' ∧ p ']' ∧ p '}') : ∀ c ∈ rest.head?, p c := by
  intro c hc
  obtain ⟨h₁, h₂, h₃, h₄⟩ := hp
  rcases List.mem_cons.mp (h c hc) with rfl | hc
  · exact h₁
  rcases List.mem_cons.mp hc with rfl | hc
  · exact h₂
  rcases List.mem_cons.mp hc with rfl | hc
  · exact h₃
  · exact List.mem_singleton.mp hc ▸ h₄

/-- The characters at the front that satisfy `p`, if the next one does not. -/
theorem takeWhile_front {p : Char → Bool} {front rest : List Char} (hfront : ∀ c ∈ front, p c)
    (hrest : ∀ c ∈ rest.head?, p c = false) : (front ++ rest).takeWhile p = front := by
  rw [List.takeWhile_append_of_pos hfront]
  cases rest with
  | nil => exact List.append_nil _
  | cons c rest => rw [List.takeWhile_cons_of_neg (by simp [hrest c rfl]), List.append_nil]

/-! ## Numbers -/

theorem head?_append {cs rest : List Char} {p : Char → Prop} (hcs : ∀ c ∈ cs.head?, p c)
    (hrest : ∀ c ∈ rest.head?, p c) : ∀ c ∈ (cs ++ rest).head?, p c := by
  cases cs with
  | nil => exact hrest
  | cons c cs => exact hcs

theorem head?_exponentChars (n : Numeral) : ∀ c ∈ n.exponentChars.head?, c = 'e' := by
  unfold Numeral.exponentChars
  split
  · exact fun _ h => nomatch h
  · rintro _ ⟨rfl⟩
    rfl

theorem head?_fractionChars (n : Numeral) : ∀ c ∈ n.fractionChars.head?, c = '.' := by
  unfold Numeral.fractionChars
  split
  · exact fun _ h => nomatch h
  · rintro _ ⟨rfl⟩
    rfl

theorem fractionLength_chars (n : Numeral) (before : Nat) {rest : List Char}
    (hrest : ∀ c ∈ rest.head?, isDigit c = false ∧ c ≠ '.') :
    fractionLength before (n.fractionChars ++ rest) = .ok n.fractionChars.length := by
  unfold Numeral.fractionChars
  split
  next =>
    rw [List.nil_append]
    unfold fractionLength
    split
    next heq => exact absurd rfl (hrest '.' rfl).2
    next => rfl
  next hne =>
    obtain ⟨c, cs, hcs⟩ := List.exists_cons_of_ne_nil hne
    have hc : isDigit c := n.isDigit_fraction (hcs ▸ List.mem_cons_self)
    have htake : (n.fraction ++ rest).takeWhile isDigit = c :: cs := by
      rw [takeWhile_front (fun c => n.isDigit_fraction) fun c hc => (hrest c hc).1, hcs]
    have hdot : (n.fraction ++ rest).head? ≠ some '.' := by
      rw [hcs]
      rintro ⟨rfl⟩
      cases hc
    rw [List.cons_append, fractionLength, if_neg hdot, htake, hcs]
    rfl

/-- An exponent of digits `c :: cs`, behind a sign or not. -/
theorem exponentLength_of_digits (before : Nat) {c : Char} {cs rest : List Char} (hc : isDigit c)
    (htake : (c :: (cs ++ rest)).takeWhile isDigit = c :: cs) :
    exponentLength before ('e' :: '-' :: c :: (cs ++ rest)) = .ok (cs.length + 3) ∧
      exponentLength before ('e' :: c :: (cs ++ rest)) = .ok (cs.length + 2) := by
  have hplus : c ≠ '+' := by rintro rfl; cases hc
  have hminus : c ≠ '-' := by rintro rfl; cases hc
  constructor
  · simp only [exponentLength, true_or, if_true, List.drop_succ_cons, List.drop_zero, htake,
      List.length_cons, Except.ok.injEq]
    omega
  · simp [exponentLength, hplus, hminus, htake]

theorem exponentLength_chars (n : Numeral) (before : Nat) {rest : List Char} (hrest : Closed rest) :
    exponentLength before (n.exponentChars ++ rest) = .ok n.exponentChars.length := by
  unfold Numeral.exponentChars
  split
  next =>
    cases rest with
    | nil => rfl
    | cons c rest => exact if_neg (hrest.head (p := fun c => ¬ (c = 'e' ∨ c = 'E')) (by decide) c rfl)
  next e _ =>
    obtain ⟨c, cs, hcs⟩ := List.exists_cons_of_ne_nil (Nat.toDigits_ne_nil (n := e.natAbs) (b := 10))
    have hdigits : ∀ c ∈ Nat.toDigits 10 e.natAbs, isDigit c := fun c hc => Text.isDigit_of_mem_toDigits hc
    have htake : (c :: (cs ++ rest)).takeWhile isDigit = c :: cs := by
      rw [← List.cons_append, ← hcs, takeWhile_front hdigits (hrest.head (by decide))]
    obtain ⟨hsigned, hunsigned⟩ :=
      exponentLength_of_digits before (hdigits c (hcs ▸ List.mem_cons_self)) htake
    rw [toString_int_toList, hcs]
    split
    · exact hsigned
    · exact hunsigned

/-- **The length of a number** is that of its numeral. -/
theorem numberLength_chars (n : Numeral) {rest : List Char} (hrest : Closed rest) :
    numberLength (n.chars ++ rest) = .ok n.chars.length := by
  have hexponent : ∀ c ∈ (n.exponentChars ++ rest).head?, isDigit c = false ∧ c ≠ '.' :=
    head?_append (fun c hc => head?_exponentChars n c hc ▸ by decide) (hrest.head (by decide))
  have hfraction : ∀ c ∈ (n.fractionChars ++ (n.exponentChars ++ rest)).head?, isDigit c = false :=
    head?_append (fun c hc => head?_fractionChars n c hc ▸ by decide) fun c hc => (hexponent c hc).1
  have hwhole : (n.chars ++ rest).takeWhile isDigit = n.whole := by
    rw [Numeral.chars, List.append_assoc, List.append_assoc]
    exact takeWhile_front (fun c => n.isDigit_whole) hfraction
  have hpos : n.whole.length + n.fractionChars.length ≠ 0 := by
    have := List.length_pos_iff.mpr n.whole_ne
    omega
  have hmantissa : (n.chars ++ rest).drop (n.whole.length + n.fractionChars.length) = n.exponentChars ++ rest := by
    rw [Numeral.chars, ← List.append_assoc, List.append_assoc, ← List.length_append, List.drop_left]
  have hend : rest.head?.any isWordChar = false := by
    rw [Option.any_eq_false]
    exact hrest.head (p := fun c => isWordChar c = false) (by decide)
  have hlength : n.whole.length + n.fractionChars.length + n.exponentChars.length = n.chars.length := by
    simp only [Numeral.chars, List.length_append]
    omega
  unfold numberLength
  have hdrop : (n.chars ++ rest).drop n.whole.length = n.fractionChars ++ (n.exponentChars ++ rest) := by
    rw [Numeral.chars, List.append_assoc, List.drop_left, List.append_assoc]
  simp only [hwhole, hdrop, fractionLength_chars n _ hexponent, bind, Except.bind, if_neg hpos, pure, Except.pure,
    hmantissa, exponentLength_chars n _ hrest, hlength, List.drop_left, hend, Bool.false_eq_true, if_false]

/-- The literal that `n` characters of source text are. -/
def ofScalar (s : Scalar) (text : List Char) : Lexeme := ⟨text.length, .literal s, text⟩

/-- A number is cut off with its sign. -/
theorem number_toChars {x : Decimal} (h : InInt64 x.exponent) {rest : List Char} (hrest : Closed rest) (start : Nat) :
    number (if x.isNegative then 1 else 0) (x.toChars ++ rest) start =
      .ok (ofScalar (.number x.reread) x.toChars) := by
  obtain ⟨n, -, hchars, -⟩ := x.toChars_numeral
  have hdrop : (x.toChars ++ rest).drop (if x.isNegative then 1 else 0) = n.chars ++ rest := by
    rw [hchars]
    split <;> rfl
  have hlength : (if x.isNegative then 1 else 0) + n.chars.length = x.toChars.length := by
    rw [hchars]
    split
    · rw [List.length_cons, Nat.add_comm]
    · rw [Nat.zero_add]
  have hread : Decimal.ofText (String.ofList x.toChars) = .ok x.reread := Decimal.ofText_toText h
  unfold number
  rw [hdrop, numberLength_chars n hrest]
  simp only [hlength, List.take_left, hread]
  rfl

/-- The first character of a number is a digit, or a minus with a digit behind it. -/
theorem toChars_head (x : Decimal) :
    ∃ c cs, isDigit c ∧ x.toChars = if x.isNegative then '-' :: c :: cs else c :: cs := by
  obtain ⟨n, -, hchars, -⟩ := x.toChars_numeral
  obtain ⟨c, cs, hcs⟩ := List.exists_cons_of_ne_nil n.whole_ne
  refine ⟨c, cs ++ (n.fractionChars ++ n.exponentChars), n.isDigit_whole (hcs ▸ List.mem_cons_self), ?_⟩
  rw [hchars, Numeral.chars, hcs, List.cons_append]

theorem next_number {x : Decimal} (h : InInt64 x.exponent) {rest : List Char} (hrest : Closed rest) {c : Char}
    {cs : List Char} (hcs : x.toChars ++ rest = c :: cs) (start : Nat) :
    next .standard false c cs start = .ok (ofScalar (.number x.reread) x.toChars) := by
  have hnumber := number_toChars h hrest start
  obtain ⟨d, ds, hd, hchars⟩ := toChars_head x
  unfold next
  dsimp only
  rw [← hcs]
  split at hnumber
  next hneg =>
    obtain ⟨rfl, rfl⟩ : '-' = c ∧ d :: (ds ++ rest) = cs := by
      rw [hchars, if_pos hneg] at hcs
      exact List.cons.inj hcs
    have hstarts : startsNumber (d :: (ds ++ rest)) := by
      unfold startsNumber
      split
      next heq =>
        obtain rfl := (List.cons.inj heq).1
        cases hd
      next heq => exact (List.cons.inj heq).1 ▸ hd
      next heq => cases heq
    rw [if_neg (by decide), if_neg (by decide), if_neg (by decide), if_pos rfl, hstarts]
    exact hnumber
  next hneg =>
    obtain ⟨rfl, rfl⟩ : d = c ∧ ds ++ rest = cs := by
      rw [hchars, if_neg hneg] at hcs
      exact List.cons.inj hcs
    have hquote : ¬ (d = '"' ∨ d = '\'') := by
      rintro (rfl | rfl) <;> cases hd
    rw [if_neg hquote, if_pos hd]
    exact hnumber

/-! ## Texts -/

/-- An escape, or a character that needs none, is read as the character. -/
theorem textBody?_quoteChar {c : Char} (h : Text.isReadable c) (rest : List Char) :
    textBody? '"' (Text.quoteChar c ++ rest) =
      (textBody? '"' rest).map fun (value, n) => (c :: value, n + (Text.quoteChar c).length) := by
  unfold Text.quoteChar
  split
  iterate 6 rfl
  next hquote hslash hfeed hreturn htab hzero =>
    have hvisible : Text.isVisible c := by
      simp only [Text.isReadable, List.contains_eq_mem, List.mem_cons, List.not_mem_nil, Bool.or_eq_true,
        decide_eq_true_eq, or_false] at h
      tauto
    have hbody : textBody? '"' (c :: rest) = (textBody? '"' rest).map fun (value, n) => (c :: value, n + 1) := by
      rw [textBody?.eq_4 '"' c rest (fun hc _ => hslash hc) (fun _ _ hc _ => hslash hc), if_neg hquote]
    rw [if_pos hvisible]
    exact hbody

theorem textBody?_quote {cs : List Char} (h : ∀ c ∈ cs, Text.isReadable c) (rest : List Char) :
    textBody? '"' (cs.flatMap Text.quoteChar ++ '"' :: rest) =
      some (cs, (cs.flatMap Text.quoteChar).length + 1) := by
  induction cs with
  | nil => rfl
  | cons c cs ih =>
    obtain ⟨hc, hcs⟩ := List.forall_mem_cons.mp h
    rw [List.flatMap_cons, List.append_assoc, textBody?_quoteChar hc, ih hcs]
    simp only [Option.map_some, List.length_append]
    congr 2
    omega

theorem next_text {s : String} (h : ∀ c ∈ s.toList, Text.isReadable c) {rest : List Char} {c : Char}
    {cs : List Char} (hcs : Text.quote s.toList ++ rest = c :: cs) (start : Nat) :
    next .standard false c cs start = .ok (ofScalar (.text s) (Text.quote s.toList)) := by
  obtain ⟨rfl, rfl⟩ : '"' = c ∧ s.toList.flatMap Text.quoteChar ++ '"' :: rest = cs := by
    simpa [Text.quote] using hcs
  have hlength : (s.toList.flatMap Text.quoteChar).length + 1 + 1 = (Text.quote s.toList).length := by
    simp [Text.quote]
  unfold next
  dsimp only
  rw [if_pos (.inl rfl), quotedText, List.drop_succ_cons, List.drop_zero, textBody?_quote h, ← hcs]
  simp only [hlength, List.take_left, String.ofList_toList]
  rfl

/-! ## Words -/

/-- The words for none and the truth values. -/
inductive IsWord : Scalar → List Char → Prop
  | none : IsWord .none "none".toList
  | true : IsWord (.boolean true) "true".toList
  | false : IsWord (.boolean false) "false".toList

theorem word_eq {s : Scalar} {text rest : List Char} (h : IsWord s text) (hrest : Closed rest) :
    word .standard (text ++ rest) = ofScalar s text := by
  have hword : ∀ c ∈ text, isWordChar c := by
    cases h <;> exact List.all_eq_true.mp (by decide)
  have hlower : Text.toLower text = text := by
    cases h <;> decide +kernel
  unfold word
  rw [takeWhile_front hword (hrest.head (by decide))]
  dsimp only
  rw [hlower]
  cases h <;> rfl

theorem next_word {s : Scalar} {text rest : List Char} (h : IsWord s text) (hrest : Closed rest) {c : Char}
    {cs : List Char} (hcs : text ++ rest = c :: cs) (start : Nat) :
    next .standard false c cs start = .ok (ofScalar s text) := by
  have hnext : next .standard false c cs start = .ok (word .standard (c :: cs)) := by
    cases h <;> obtain ⟨rfl, rfl⟩ := List.cons.inj hcs
    all_goals rfl
  rw [hnext, ← hcs, word_eq h hrest]

/-! ## Scalars -/

/-- **The text of a scalar is cut off as a literal**, and the literal is that scalar. -/
theorem next_scalar {φ : Type} {s : Scalar} (h : s.Readable) {rest : List Char} (hrest : Closed rest) {c : Char}
    {cs : List Char} (hcs : (s.toValue : Value φ).chars true ++ rest = c :: cs) (start : Nat) :
    next .standard false c cs start = .ok (ofScalar s.reread ((s.toValue : Value φ).chars true)) := by
  cases h with
  | none => exact next_word .none hrest hcs start
  | boolean b =>
    cases b with
    | true => exact next_word .true hrest hcs start
    | false => exact next_word .false hrest hcs start
  | number h => exact next_number h hrest hcs start
  | text h => exact next_text h hcs start

/-- The text of a scalar begins with a digit, or with one of few other characters. -/
theorem head_scalar {φ : Type} (s : Scalar) :
    ∃ c cs, (s.toValue : Value φ).chars true = c :: cs ∧ (isDigit c ∨ c ∈ ['n', 't', 'f', '-', '"']) := by
  cases s with
  | none => exact ⟨_, _, rfl, .inr (by decide)⟩
  | boolean b =>
    cases b with
    | true => exact ⟨_, _, rfl, .inr (by decide)⟩
    | false => exact ⟨_, _, rfl, .inr (by decide)⟩
  | number x =>
    obtain ⟨c, cs, hc, hchars⟩ := toChars_head x
    show ∃ c cs, x.toChars = c :: cs ∧ _
    rw [hchars]
    split
    · exact ⟨_, _, rfl, .inr (by decide)⟩
    · exact ⟨_, _, rfl, .inl hc⟩
  | text s => exact ⟨_, _, rfl, .inr (by decide)⟩

/-! ## Marks -/

/-- The marks in the text of a value. -/
def valueMarks : List Char := [',', ':', ']', '}', '[', '{']

theorem next_mark {c : Char} (h : c ∈ valueMarks) (afterOperand : Bool) (cs : List Char) (start : Nat) :
    next .standard afterOperand c cs start = .ok ⟨1, .delimiter, [c]⟩ := by
  have hoperators : valueMarks.all fun c => !Grammar.standard.isOperator (String.ofList [c]) := by decide +kernel
  have hoperator := (Bool.not_eq_true' _).mp (List.all_eq_true.mp hoperators c h)
  have hmark : mark .standard 1 (c :: cs) = ⟨1, .delimiter, [c]⟩ := by
    unfold mark
    dsimp only [List.take_succ_cons, List.take_zero]
    rw [hoperator, if_neg Bool.false_ne_true]
  have hnext : next .standard afterOperand c cs start = .ok (mark .standard 1 (c :: cs)) := by
    simp only [valueMarks, List.mem_cons, List.not_mem_nil, or_false] at h
    rcases h with rfl | rfl | rfl | rfl | rfl | rfl <;> rfl
  rw [hnext, hmark]

end Lexeme

end Cellbook
