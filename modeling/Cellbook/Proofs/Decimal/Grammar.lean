import Mathlib.Algebra.Ring.Basic
import Mathlib.Data.List.TakeWhile
import Cellbook.Decimal.Text

/-!
# The grammar of numbers

A number is written with a sign or none, digits with a dot among them, before them, behind them or not at all, and
an exponent or none: `Written`. Reading takes apart what is written in this way (`readParts?_unsigned`), and what it
takes apart is written in this way (`exists_written`).
-/

namespace Cellbook

open Text (isDigit digitsValue)

/-- An integer in 64 bits. -/
def InInt64 (e : Int) : Prop := -Int.pow 2 63 ≤ e ∧ e < Int.pow 2 63

instance (e : Int) : Decidable (InInt64 e) := inferInstanceAs (Decidable (_ ∧ _))

namespace Decimal

/-- No digit is another character. -/
theorem beq_false_of_isDigit {c d : Char} (hc : isDigit c) (hd : isDigit d = false) : (c == d) = false :=
  beq_false_of_ne fun h => Bool.false_ne_true (hd.symm.trans (h ▸ hc))

/-! ## Signs -/

/-- A sign in front of digits, or none. -/
inductive Sign where
  | protected none
  | plus
  | minus
deriving DecidableEq

namespace Sign

def chars : Sign → List Char
  | .none => []
  | .plus => ['+']
  | .minus => ['-']

/-- A number with a sign in front of it. -/
def apply {α : Type} [Neg α] : Sign → α → α
  | .minus, a => -a
  | _, a => a

theorem ite_eq_apply {α : Type} [Neg α] (sign : Sign) (a : α) :
    (if decide (sign = .minus) then -a else a) = sign.apply a := by
  cases sign <;> rfl

/-- A sign goes to the front of a product. -/
theorem apply_mul {α : Type} [Mul α] [HasDistribNeg α] (sign : Sign) (a b : α) :
    sign.apply (a * b) = sign.apply a * b := by
  cases sign with
  | none => rfl
  | plus => rfl
  | minus => exact (neg_mul a b).symm

end Sign

/-- A sign is split from what does not begin with one itself. -/
theorem splitSign_chars (sign : Sign) {cs : List Char} (h : ∀ c ∈ cs.head?, c ∉ ['+', '-']) :
    splitSign (sign.chars ++ cs) = (decide (sign = .minus), cs) := by
  cases sign with
  | none =>
    rw [Sign.chars, List.nil_append]
    unfold splitSign
    split
    · exact absurd (h '-' rfl) (by decide)
    · exact absurd (h '+' rfl) (by decide)
    · rfl
  | plus => rfl
  | minus => rfl

theorem exists_sign (cs : List Char) :
    ∃ (sign : Sign) (rest : List Char), splitSign cs = (decide (sign = .minus), rest) ∧ cs = sign.chars ++ rest := by
  unfold splitSign
  split
  · exact ⟨.minus, _, rfl, rfl⟩
  · exact ⟨.plus, _, rfl, rfl⟩
  · exact ⟨.none, _, rfl, rfl⟩

theorem not_mem_signs_of_isDigit {c : Char} (h : isDigit c) : c ∉ ['+', '-'] := by
  intro hmem
  rw [List.mem_cons, List.mem_singleton] at hmem
  rcases hmem with rfl | rfl <;> exact absurd h (by decide)

/-- Digits do not begin with a sign. -/
theorem head?_digits {cs : List Char} (h : ∀ c ∈ cs, isDigit c) : ∀ c ∈ cs.head?, c ∉ ['+', '-'] := fun _ hc =>
  not_mem_signs_of_isDigit (h _ (List.mem_of_mem_head? hc))

/-! ## Integers -/

/-- **An integer is read** if it fits. -/
theorem readInt64?_chars (sign : Sign) {ds : List Char} (hne : ds ≠ []) (hds : ∀ c ∈ ds, isDigit c)
    (h : InInt64 (sign.apply (digitsValue ds : Int))) :
    readInt64? (sign.chars ++ ds) = some (sign.apply (digitsValue ds : Int)) := by
  unfold readInt64?
  rw [splitSign_chars sign (head?_digits hds)]
  simp only [List.isEmpty_eq_false_iff.mpr hne, List.all_eq_true.mpr hds, Sign.ite_eq_apply]
  exact if_pos h

theorem exists_of_readInt64? {cs : List Char} {e : Int} (h : readInt64? cs = some e) :
    ∃ (sign : Sign) (ds : List Char), cs = sign.chars ++ ds ∧ ds ≠ [] ∧ (∀ c ∈ ds, isDigit c) ∧
      sign.apply (digitsValue ds : Int) = e ∧ InInt64 e := by
  obtain ⟨sign, ds, hsplit, hcs⟩ := exists_sign cs
  unfold readInt64? at h
  simp only [hsplit, Sign.ite_eq_apply] at h
  split at h
  · cases h
  next hdigits =>
  simp only [Bool.or_eq_true, Bool.not_eq_true', not_or, Bool.not_eq_true, Bool.not_eq_false] at hdigits
  split at h
  next hin =>
    cases h
    exact ⟨sign, ds, hcs, List.isEmpty_eq_false_iff.mp hdigits.1, List.all_eq_true.mp hdigits.2, rfl, hin⟩
  · cases h

/-! ## Splitting -/

/-- A list is cut in front of the first character that is looked for. -/
theorem splitAt?_append {p : Char → Bool} {before after : List Char} {c : Char}
    (hbefore : ∀ d ∈ before, p d = false) (hc : p c) : splitAt? p (before ++ c :: after) = (before, some after) := by
  have h : ∀ d ∈ before, (!p d) = true := fun d hd => by rw [hbefore d hd]; rfl
  unfold splitAt?
  rw [List.dropWhile_append_of_pos h, List.takeWhile_append_of_pos h]
  simp [hc]

theorem splitAt?_none {p : Char → Bool} {cs : List Char} (h : ∀ d ∈ cs, p d = false) :
    splitAt? p cs = (cs, none) := by
  unfold splitAt?
  rw [List.dropWhile_eq_nil_iff.mpr fun d hd => by rw [h d hd]; rfl]

theorem exists_of_splitAt? {p : Char → Bool} {cs before : List Char} {after : Option (List Char)}
    (h : splitAt? p cs = (before, after)) :
    (after = none ∧ cs = before) ∨ ∃ c rest, p c = true ∧ after = some rest ∧ cs = before ++ c :: rest := by
  unfold splitAt? at h
  split at h
  · cases h
    exact .inl ⟨rfl, rfl⟩
  next c rest hdrop =>
    cases h
    refine .inr ⟨c, rest, ?_, rfl, ?_⟩
    · simpa [hdrop] using List.head?_dropWhile_not (fun c => !p c) cs
    · rw [← hdrop, List.takeWhile_append_dropWhile]

/-! ## Numbers -/

/-- **The exponent of a number**: a letter, a sign or none, and digits. -/
structure WrittenExponent where
  letter : Char
  sign : Sign
  digits : List Char
  letter_eq : letter = 'e' ∨ letter = 'E'
  digits_ne : digits ≠ []
  isDigit_of_mem : ∀ c ∈ digits, isDigit c

/-- The characters of an exponent behind its letter. -/
def WrittenExponent.integerChars (e : WrittenExponent) : List Char := e.sign.chars ++ e.digits

def WrittenExponent.value (e : WrittenExponent) : Int := e.sign.apply (digitsValue e.digits : Int)

/-- **A number as it is written**: a sign or none, digits with a dot among them or not, at least one of them, and an
exponent or none. -/
structure Written where
  sign : Sign
  whole : List Char
  /-- What stands behind the dot, if there is one. -/
  fraction : Option (List Char)
  exponent : Option WrittenExponent
  digits_ne : whole ++ fraction.getD [] ≠ []
  isDigit_of_mem : ∀ c ∈ whole ++ fraction.getD [], isDigit c

namespace Written

def fractionDigits (w : Written) : List Char := w.fraction.getD []

/-- The digits with the dot. -/
def mantissaChars (w : Written) : List Char :=
  w.whole ++ w.fraction.elim [] ('.' :: ·)

/-- The characters of a number behind its sign. -/
def unsignedChars (w : Written) : List Char :=
  w.mantissaChars ++ w.exponent.elim [] fun e => e.letter :: e.integerChars

/-- **The characters of a number.** -/
def chars (w : Written) : List Char := w.sign.chars ++ w.unsignedChars

def exponentValue (w : Written) : Int := w.exponent.elim 0 (·.value)

variable (w : Written)

theorem isDigit_whole : ∀ c ∈ w.whole, isDigit c := fun c hc =>
  w.isDigit_of_mem c (List.mem_append_left _ hc)

theorem isDigit_fraction {ds : List Char} (h : w.fraction = some ds) : ∀ c ∈ ds, isDigit c := fun c hc =>
  w.isDigit_of_mem c (List.mem_append_right _ (by rwa [h]))

theorem isDigit_or_mem_of_mem_mantissaChars {c : Char} (hc : c ∈ w.mantissaChars) : isDigit c ∨ c = '.' := by
  rcases List.mem_append.mp hc with hc | hc
  · exact .inl (w.isDigit_whole c hc)
  cases hfraction : w.fraction with
  | none => simp [hfraction] at hc
  | some ds =>
    rw [hfraction] at hc
    rcases List.mem_cons.mp hc with rfl | hc
    · exact .inr rfl
    · exact .inl (w.isDigit_fraction hfraction c hc)

end Written

/-- **Reading what is written** takes its parts apart. -/
theorem readParts?_unsigned (w : Written) (h : InInt64 w.exponentValue) :
    readParts? w.unsignedChars = some (w.whole, w.fractionDigits, w.exponentValue) := by
  have hletter : ∀ c ∈ w.mantissaChars, (c == 'e' || c == 'E') = false := by
    intro c hc
    rcases w.isDigit_or_mem_of_mem_mantissaChars hc with hdigit | rfl
    · rw [beq_false_of_isDigit hdigit (by decide), beq_false_of_isDigit hdigit (by decide)]
      rfl
    · rfl
  have hdot : ∀ c ∈ w.whole, (c == '.') = false := fun c hc =>
    beq_false_of_isDigit (w.isDigit_whole c hc) (by decide)
  have hmantissa : splitAt? (· == '.') w.mantissaChars = (w.whole, w.fraction) := by
    unfold Written.mantissaChars
    cases w.fraction with
    | none => rw [Option.elim_none, List.append_nil, splitAt?_none hdot]
    | some ds => exact splitAt?_append hdot rfl
  have hunsigned : splitAt? (fun c => c == 'e' || c == 'E') w.unsignedChars =
      (w.mantissaChars, w.exponent.map (·.integerChars)) := by
    unfold Written.unsignedChars
    cases w.exponent with
    | none => rw [Option.elim_none, List.append_nil, splitAt?_none hletter, Option.map_none]
    | some e =>
      refine splitAt?_append hletter ?_
      rcases e.letter_eq with heq | heq <;> rw [heq] <;> rfl
  have hempty : (w.whole.isEmpty && (w.fraction.getD []).isEmpty) = false := by
    rw [Bool.eq_false_iff, Ne, Bool.and_eq_true, List.isEmpty_iff, List.isEmpty_iff]
    exact fun h => w.digits_ne (List.append_eq_nil_iff.mpr h)
  unfold readParts?
  simp only [hunsigned, hmantissa, hempty, List.all_eq_true.mpr w.isDigit_of_mem, Bool.false_eq_true, if_false, if_true]
  unfold Written.exponentValue at h ⊢
  cases hexponent : w.exponent with
  | none => rfl
  | some e =>
    rw [hexponent] at h
    simp only [Option.map_some, WrittenExponent.integerChars, readInt64?_chars e.sign e.digits_ne e.isDigit_of_mem h]
    rfl

/-- The characters of a fraction with its dot. -/
theorem exists_of_splitDot {cs whole : List Char} {fraction : Option (List Char)}
    (h : splitAt? (· == '.') cs = (whole, fraction)) : cs = whole ++ fraction.elim [] ('.' :: ·) := by
  rcases exists_of_splitAt? h with ⟨rfl, rfl⟩ | ⟨c, rest, hc, rfl, rfl⟩
  · rw [Option.elim_none, List.append_nil]
  · rw [Option.elim_some, eq_of_beq hc]

/-- **What is read** is a number as it is written. -/
theorem exists_written {cs whole fraction : List Char} {e : Int} (h : readParts? cs = some (whole, fraction, e))
    (sign : Sign) :
    ∃ w : Written, w.sign = sign ∧ cs = w.unsignedChars ∧ w.whole = whole ∧ w.fractionDigits = fraction ∧
      w.exponentValue = e ∧ InInt64 e := by
  unfold readParts? at h
  rcases hexponent : splitAt? (fun c => c == 'e' || c == 'E') cs with ⟨mantissa, exponent⟩
  rcases hdot : splitAt? (· == '.') mantissa with ⟨whole', fraction'⟩
  simp only [hexponent, hdot] at h
  have hdigits {e' : Int} (h : (if whole'.isEmpty && (fraction'.getD []).isEmpty then none
      else if (whole' ++ fraction'.getD []).all isDigit then some (whole', fraction'.getD [], e') else none) =
        some (whole, fraction, e)) :
      whole' ++ fraction'.getD [] ≠ [] ∧ (∀ c ∈ whole' ++ fraction'.getD [], isDigit c) ∧
        whole' = whole ∧ fraction'.getD [] = fraction ∧ e' = e := by
    split at h
    · cases h
    next hempty =>
    split at h
    next hall =>
      cases h
      refine ⟨fun hnil => hempty ?_, List.all_eq_true.mp hall, rfl, rfl, rfl⟩
      rw [(List.append_eq_nil_iff.mp hnil).1, (List.append_eq_nil_iff.mp hnil).2]
      rfl
    · cases h
  rcases exists_of_splitAt? hexponent with ⟨rfl, rfl⟩ | ⟨c, cs', hc, rfl, rfl⟩
  · obtain ⟨hne, hall, rfl, rfl, rfl⟩ := hdigits h
    refine ⟨⟨sign, whole', fraction', none, hne, hall⟩, rfl, ?_, rfl, rfl, rfl, by decide⟩
    rw [exists_of_splitDot hdot]
    exact (List.append_nil _).symm
  · obtain ⟨e', he, h⟩ := Option.bind_eq_some_iff.mp h
    obtain ⟨hne, hall, rfl, rfl, rfl⟩ := hdigits h
    obtain ⟨esign, ds, rfl, hds, hdsall, hvalue, hin⟩ := exists_of_readInt64? he
    have hletter : c = 'e' ∨ c = 'E' := (Bool.or_eq_true_iff.mp hc).imp eq_of_beq eq_of_beq
    refine ⟨⟨sign, whole', fraction', some ⟨c, esign, ds, hletter, hds, hdsall⟩, hne, hall⟩, rfl, ?_, rfl, rfl, hvalue,
      hin⟩
    rw [exists_of_splitDot hdot]
    rfl

/-! ## Texts -/

namespace Written

variable (w : Written)

def digits : List Char := w.whole ++ w.fractionDigits

/-- The exponent of the last digit. -/
def scale : Int := w.exponentValue - w.fractionDigits.length

/-- The exponents of the number and of its last digit can be told in 64 bits. -/
def InRange : Prop := InInt64 w.exponentValue ∧ -Int.pow 2 63 ≤ w.scale

instance : Decidable w.InRange := inferInstanceAs (Decidable (_ ∧ _))

/-- The number in normal form, with every digit of it. -/
def decimal : Decimal :=
  ofParts (w.sign.apply (digitsValue w.digits : Int)) w.scale
    (max workingPrecision (w.digits.dropWhile (· == '0')).length)

theorem head?_unsignedChars : ∀ c ∈ w.unsignedChars.head?, c ∉ ['+', '-'] := by
  intro c hc
  have hne : w.mantissaChars ≠ [] := by
    intro hnil
    obtain ⟨hwhole, hfraction⟩ := List.append_eq_nil_iff.mp hnil
    refine w.digits_ne (List.append_eq_nil_iff.mpr ⟨hwhole, ?_⟩)
    cases hw : w.fraction with
    | none => rfl
    | some ds => simp [hw] at hfraction
  have hmem : c ∈ w.mantissaChars := by
    obtain ⟨d, ds, hcons⟩ := List.exists_cons_of_ne_nil hne
    rw [unsignedChars, hcons] at hc
    cases hc
    rw [hcons]
    exact List.mem_cons_self
  rcases w.isDigit_or_mem_of_mem_mantissaChars hmem with hdigit | rfl
  · exact not_mem_signs_of_isDigit hdigit
  · decide

end Written

/-- **The text of a written number** is read as the number, if its exponents are in range. -/
theorem ofText_written {text : String} {w : Written} (htext : Text.trim text.toList = w.chars) (h : w.InRange) :
    ofText text = .ok w.decimal := by
  unfold ofText
  simp only [htext, Written.chars, splitSign_chars w.sign w.head?_unsignedChars, readParts?_unsigned w h.1,
    Sign.ite_eq_apply]
  exact if_neg (Int.not_lt.mpr h.2)

/-- **Whatever is read** is a written number with exponents in range. -/
theorem exists_written_of_ofText {text : String} {x : Decimal} (h : ofText text = .ok x) :
    ∃ w : Written, Text.trim text.toList = w.chars ∧ w.InRange ∧ x = w.decimal := by
  obtain ⟨sign, cs, hsplit, hcs⟩ := exists_sign (Text.trim text.toList)
  unfold ofText at h
  simp only [hsplit, Sign.ite_eq_apply] at h
  split at h
  · cases h
  next whole fraction e hread =>
  obtain ⟨w, rfl, rfl, rfl, rfl, rfl, hin⟩ := exists_written hread sign
  split at h
  · cases h
  next hscale =>
  cases h
  exact ⟨w, hcs, ⟨hin, Int.not_lt.mp hscale⟩, rfl⟩

end Decimal

end Cellbook
