import Mathlib.Data.List.Induction
import Mathlib.Tactic.FieldSimp
import Cellbook.Proofs.Decimal.Value
import Cellbook.Proofs.Source.Recut

/-!
# Numbers mean what is written

A written number has a value: its digits before the dot and a fraction for those behind it, times a power of ten.
What is read is that value, with nothing rounded (`toRat_decimal`). The scanner has a grammar of its own, in which
a number is cut off in front; what it cuts off is a written number (`exists_written_of_length`), so it is always
read, and the literal of a token means what stands in the source (`ofText_exact`).
-/

namespace Cellbook

open Text (isDigit isBlank digitsValue)

theorem Text.digitsValue_append_list (ds : List Char) : ∀ es : List Char,
    digitsValue (ds ++ es) = digitsValue ds * 10 ^ es.length + digitsValue es := by
  intro es
  induction es using List.reverseRecOn with
  | nil => simp
  | append_singleton es c ih =>
    rw [← List.append_assoc, digitsValue_append, ih, digitsValue_append, List.length_append, List.length_singleton,
      Nat.pow_succ]
    ring

namespace Decimal

namespace Written

variable (w : Written)

/-- **The number that is written.** -/
def value : ℚ :=
  w.sign.apply ((digitsValue w.whole + digitsValue w.fractionDigits / 10 ^ w.fractionDigits.length) *
    10 ^ w.exponentValue)

/-- **What is read is what is written**, to the last digit. -/
theorem toRat_decimal : w.decimal.toRat = w.value := by
  have hcast {n : Nat} : ((w.sign.apply (n : Int) : Int) : ℚ) = w.sign.apply (n : ℚ) := by
    cases w.sign with
    | none => exact Int.cast_natCast n
    | plus => exact Int.cast_natCast n
    | minus => exact (Int.cast_neg _).trans (congrArg Neg.neg (Int.cast_natCast n))
  rw [decimal, toRat_ofParts, hcast, ← Sign.apply_mul, value, digits, Text.digitsValue_append_list, scale,
    zpow_sub₀ (by norm_num), zpow_natCast]
  congr 1
  push_cast
  field_simp

/-- No character of a number is blank. -/
theorem isBlank_of_mem_chars {c : Char} (hc : c ∈ w.chars) : isBlank c = false := by
  have hsign {sign : Sign} (hc : c ∈ sign.chars) : isBlank c = false := by
    cases sign with
    | none => cases hc
    | plus | minus => rw [List.mem_singleton.mp hc]; rfl
  rcases List.mem_append.mp hc with hc | hc
  · exact hsign hc
  rcases List.mem_append.mp hc with hc | hc
  · rcases w.isDigit_or_mem_of_mem_mantissaChars hc with hdigit | rfl
    · exact Text.isBlank_of_isDigit hdigit
    · decide
  cases hexponent : w.exponent with
  | none => simp [hexponent] at hc
  | some e =>
    rw [hexponent] at hc
    rcases List.mem_cons.mp hc with rfl | hc
    · rcases e.letter_eq with heq | heq <;> rw [heq] <;> decide
    rcases List.mem_append.mp hc with hc | hc
    · exact hsign hc
    · exact Text.isBlank_of_isDigit (e.isDigit_of_mem c hc)

/-- A number that stands alone is read. -/
theorem ofText_chars (h : w.InRange) : ofText (String.ofList w.chars) = .ok w.decimal := by
  refine ofText_written ?_ h
  rw [String.toList_ofList, Text.trim_of_forall fun c => w.isBlank_of_mem_chars]

end Written

end Decimal

/-! ## The grammar of the scanner -/

namespace Lexeme

open Decimal (Sign Written)

theorem exists_sign_chars {sign : List Char} (h : sign ∈ [[], ['+'], ['-']]) : ∃ s : Sign, s.chars = sign := by
  simp only [List.mem_cons, List.not_mem_nil, or_false] at h
  rcases h with rfl | rfl | rfl
  · exact ⟨.none, rfl⟩
  · exact ⟨.plus, rfl⟩
  · exact ⟨.minus, rfl⟩

/-- What the scanner takes in front of a number is a sign. -/
theorem exists_front_chars {front : List Char} (h : front ∈ [[], ['-']]) : ∃ s : Sign, s.chars = front :=
  exists_sign_chars ((by decide : [[], ['-']] ⊆ [[], ['+'], ['-']]) h)

theorem IsFraction.exists_digits {fraction : List Char} (h : IsFraction fraction) :
    ∃ ds : Option (List Char), ds.elim [] ('.' :: ·) = fraction ∧ (∀ c ∈ ds.getD [], Text.isDigit c) ∧
      (ds.getD [] = [] → fraction = []) := by
  cases h with
  | none => exact ⟨.none, rfl, List.forall_mem_nil _, fun _ => rfl⟩
  | @digits ds hds => exact ⟨some ds, rfl, hds.isDigit, fun h => absurd h hds.ne_nil⟩

theorem IsExponent.exists_written {exponent : List Char} (h : IsExponent exponent) :
    ∃ e : Option Decimal.WrittenExponent, e.elim [] (fun e => e.letter :: e.integerChars) = exponent := by
  cases h with
  | none => exact ⟨.none, rfl⟩
  | @digits c sign ds hc hsign hds =>
    obtain ⟨s, rfl⟩ := exists_sign_chars hsign
    exact ⟨some ⟨c, s, ds, hc, hds.ne_nil, hds.isDigit⟩, rfl⟩

/-- **A number in the scanner's grammar** is a written number. -/
theorem NumberParts.exists_written {whole fraction exponent : List Char} (h : NumberParts whole fraction exponent)
    (sign : Sign) : ∃ w : Written, w.chars = sign.chars ++ (whole ++ (fraction ++ exponent)) := by
  obtain ⟨ds, hfraction, hdigits, hnil⟩ := h.isFraction.exists_digits
  obtain ⟨e, hexponent⟩ := h.isExponent.exists_written
  refine ⟨⟨sign, whole, ds, e, fun hempty => h.ne_nil ?_, List.forall_mem_append.mpr ⟨h.isDigit, hdigits⟩⟩, ?_⟩
  · obtain ⟨hwhole, hds⟩ := List.append_eq_nil_iff.mp hempty
    rw [hwhole, hnil hds, List.append_nil]
  · rw [Written.chars, Written.unsignedChars, Written.mantissaChars, hfraction, hexponent, List.append_assoc]

/-- What is measured as a number is a written number, whatever follows. -/
theorem exists_written_of_length {cs : List Char} {n : Nat} (h : numberLength cs = .ok n) (sign : Sign) :
    ∃ w : Written, w.chars = sign.chars ++ cs.take n := by
  obtain ⟨whole, fraction, exponent, hparts, htake, -⟩ := NumberParts.of_length h
  obtain ⟨w, hw⟩ := hparts.exists_written sign
  exact ⟨w, by rw [hw, htake]⟩

/-- **A number that is measured is cut off**, if its exponents are in range. -/
theorem number_written {front cs : List Char} {n : Nat} (h : numberLength cs = .ok n) {w : Written}
    (hw : w.chars = front ++ cs.take n) (hrange : w.InRange) (start : Nat) :
    number front.length (front ++ cs) start = .ok ⟨front.length + n, .literal (.number w.decimal), w.chars⟩ := by
  unfold number
  rw [List.drop_left, h]
  simp only [List.take_length_add_append, ← hw, w.ofText_chars hrange]

/-- **The literal of a number is what stands in the source.** -/
theorem exists_written_of_number {front cs : List Char} (hfront : front ∈ [[], ['-']]) {start : Nat} {l : Lexeme}
    (h : number front.length (front ++ cs) start = .ok l) :
    ∃ w : Written, l.text = w.chars ∧ w.InRange ∧ l.kind = .literal (.number w.decimal) := by
  obtain ⟨sign, rfl⟩ := exists_front_chars hfront
  unfold number at h
  rw [List.drop_left] at h
  split at h
  · cases h
  · cases h
  next n hn =>
  obtain ⟨w, hw⟩ := exists_written_of_length hn sign
  simp only [List.take_length_add_append, ← hw] at h
  split at h
  case h_2 => cases h
  case h_1 x hx =>
  cases h
  obtain ⟨w', htext, hrange, rfl⟩ := Decimal.exists_written_of_ofText hx
  rw [String.toList_ofList, Text.trim_of_forall fun c => w.isBlank_of_mem_chars] at htext
  exact ⟨w', htext, hrange, rfl⟩

/-- A number is cut off in no other way. -/
theorem exists_written_of_next {g : Grammar} {afterOperand : Bool} {c : Char} {cs : List Char} {start : Nat}
    {l : Lexeme} (h : next g afterOperand c cs start = .ok l) {x : Decimal} (hkind : l.kind = .literal (.number x)) :
    ∃ w : Written, l.text = w.chars ∧ w.InRange ∧ x = w.decimal := by
  cases next_cut h with
  | number hfront hsource h =>
    rw [hsource] at h
    obtain ⟨w, htext, hrange, hliteral⟩ := exists_written_of_number hfront h
    rw [hliteral] at hkind
    cases hkind
    exact ⟨w, htext, hrange, rfl⟩
  | text h =>
    unfold quotedText at h
    split at h
    · cases h
    · cases h; cases hkind
  | word =>
    unfold word at hkind
    dsimp only at hkind
    repeat' split at hkind
    all_goals cases hkind
  | mark n =>
    unfold mark at hkind
    dsimp only at hkind
    split at hkind <;> cases hkind
  | joined h =>
    unfold joined at h
    dsimp only at h
    split at h
    · cases h; cases hkind
    · cases h

end Lexeme

/-! ## Texts and sources -/

/-- **Numbers are exact.** A text is a number exactly if it is written as one, blanks around it left out, with
exponents in range, and then it is the number that is written. What the scanner measures as a number, with a minus in
front of it or not, is written as one, so it is cut off as a literal if its exponents are in range. Among the tokens
of a source the literal of a number is the number that its lexeme writes. -/
theorem Decimal.ofText_exact :
    (∀ text : String, (∃ x, ofText text = .ok x) ↔ ∃ w : Written, Text.trim text.toList = w.chars ∧ w.InRange) ∧
      (∀ (text : String) (w : Written), Text.trim text.toList = w.chars → w.InRange →
        ∃ x, ofText text = .ok x ∧ x.toRat = w.value) ∧
      (∀ front ∈ [[], ['-']], ∀ (cs : List Char) (n start : Nat), Lexeme.numberLength cs = .ok n →
        ∃ w : Written, w.chars = front ++ cs.take n ∧ (w.InRange →
          ∃ x, Lexeme.number front.length (front ++ cs) start =
            .ok ⟨front.length + n, .literal (.number x), front ++ cs.take n⟩ ∧ x.toRat = w.value)) ∧
      ∀ (g : Grammar) (source : String) (ts : List Token), Token.scan g source = .ok ts →
        ∀ t ∈ ts, ∀ x, t.kind = .literal (.number x) →
          ∃ w : Written, t.lexeme.toList = w.chars ∧ w.InRange ∧ x.toRat = w.value := by
  refine ⟨fun text => ⟨?_, ?_⟩, ?_, ?_, ?_⟩
  · rintro ⟨x, hx⟩
    obtain ⟨w, htext, hrange, -⟩ := exists_written_of_ofText hx
    exact ⟨w, htext, hrange⟩
  · rintro ⟨w, htext, hrange⟩
    exact ⟨_, ofText_written htext hrange⟩
  · intro text w htext hrange
    exact ⟨_, ofText_written htext hrange, w.toRat_decimal⟩
  · intro front hfront cs n start hn
    obtain ⟨sign, rfl⟩ := Lexeme.exists_front_chars hfront
    obtain ⟨w, hw⟩ := Lexeme.exists_written_of_length hn sign
    exact ⟨w, hw, fun hrange => ⟨_, hw ▸ Lexeme.number_written hn hw hrange start, w.toRat_decimal⟩⟩
  · intro g source ts hts t ht
    refine Token.scan_forall (p := fun t => ∀ x, t.kind = .literal (.number x) →
      ∃ w : Written, t.lexeme.toList = w.chars ∧ w.InRange ∧ x.toRat = w.value) ⟨?_, ?_⟩ hts t ht
    · intro text kind span hlayout x hkind
      cases show kind = .literal (.number x) from hkind
      cases hlayout
    · intro afterOperand c cs start l hl x hkind
      obtain ⟨w, htext, hrange, rfl⟩ := Lexeme.exists_written_of_next hl hkind
      exact ⟨w, by rw [String.toList_ofList, htext], hrange, w.toRat_decimal⟩

/-- A text with everything that it may have. -/
theorem Decimal.ofText_exact_of_padded : ∃ x, ofText "\t-.50E+3 " = .ok x ∧ x.toRat = -500 := by
  let e : WrittenExponent := ⟨'E', .plus, ['3'], .inr rfl, by decide, List.all_eq_true.mp rfl⟩
  let w : Written := ⟨.minus, [], some ['5', '0'], some e, by decide, List.all_eq_true.mp rfl⟩
  have hvalue : w.value = -500 := by
    show -((((0 : Nat) : ℚ) + ((50 : Nat) : ℚ) / 10 ^ 2) * 10 ^ (3 : Int)) = -500
    norm_num
  rw [← hvalue]
  exact ofText_exact.2.1 "\t-.50E+3 " w (by decide) (by decide)

end Cellbook
