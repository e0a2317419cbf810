import Mathlib.Tactic.Ring
import Cellbook.Proofs.Decimal.Grammar

/-!
# What the text of a decimal reads as

The text of a decimal is a numeral: digits, perhaps digits behind a dot, perhaps an exponent. What these parts
denote is the decimal that was written (`placeDigits_numeral`), which also has whatever zeros the text pads it
with. A numeral is a number as it may be written (`Numeral.written`), so it is read, and a decimal comes back as it
was (`ofText_toText`), only that its precision is that of the digits in the text.
-/

namespace Cellbook

namespace Text

/-! ## Digits -/

theorem isDigit_of_mem_toDigits {n : Nat} {c : Char} (h : c ∈ Nat.toDigits 10 n) : isDigit c := by
  have hdigit : c.isDigit := Nat.isDigit_of_mem_toDigits (by decide) (by decide) h
  simpa [isDigit, Char.isDigit, Char.le_def] using hdigit

theorem digitsValue_toDigits (n : Nat) : digitsValue (Nat.toDigits 10 n) = n :=
  Nat.ofDigitChars_toDigits (by decide) (by decide)

/-- The zeros in front of digits count nothing. -/
theorem digitsValue_zeros_append (k : Nat) (ds : List Char) :
    digitsValue (List.replicate k '0' ++ ds) = digitsValue ds := by
  induction k with
  | zero => rfl
  | succ k ih => exact ih

/-- The zeros behind digits count tens. -/
theorem digitsValue_append_zeros (ds : List Char) (k : Nat) :
    digitsValue (ds ++ List.replicate k '0') = digitsValue ds * 10 ^ k := by
  induction k with
  | zero => simp
  | succ k ih =>
    rw [List.replicate_succ', ← List.append_assoc, digitsValue_append, ih, Nat.pow_succ]
    have hzero : '0'.toNat - 48 = 0 := rfl
    rw [hzero, Nat.add_zero, Nat.mul_left_comm, Nat.mul_comm 10]

/-! ## Blanks -/

theorem isBlank_of_isDigit {c : Char} (h : isDigit c) : isBlank c = false := by
  have hlower : 48 ≤ c.toNat := (Bool.and_eq_true_iff.mp h).1 |> of_decide_eq_true
  have hupper : c.toNat ≤ 57 := (Bool.and_eq_true_iff.mp h).2 |> of_decide_eq_true
  unfold isBlank
  simp
  omega

theorem trim_of_forall {cs : List Char} (h : ∀ c ∈ cs, isBlank c = false) : trim cs = cs := by
  have hdrop {cs : List Char} (h : ∀ c ∈ cs, isBlank c = false) : cs.dropWhile isBlank = cs := by
    cases cs with
    | nil => rfl
    | cons c cs => simp [h c List.mem_cons_self]
  rw [trim, hdrop h, trimEnd, hdrop fun c hc => h c (List.mem_reverse.mp hc), List.reverse_reverse]

end Text

open Text (isDigit digitsValue isBlank)

/-- The characters of an integer: a sign if it is negative, and digits. -/
theorem toString_int_toList (e : Int) : (toString e).toList =
    if e < 0 then '-' :: Nat.toDigits 10 e.natAbs else Nat.toDigits 10 e.natAbs := by
  cases e with
  | ofNat n =>
    rw [if_neg (by simp)]
    exact Nat.toList_repr
  | negSucc n =>
    rw [if_pos (Int.negSucc_lt_zero n)]
    show ("-" ++ n.succ.repr).toList = _
    rw [String.toList_append, Nat.toList_repr]
    rfl

/-! ## Numerals -/

/-- **A numeral**: digits, the digits behind a dot if there are any, and an exponent. -/
structure Numeral where
  whole : List Char
  fraction : List Char
  exponent : Option Int
  whole_ne : whole ≠ []
  isDigit_of_mem : ∀ c ∈ whole ++ fraction, isDigit c

namespace Numeral

/-- The dot and the digits behind it. -/
def fractionChars (n : Numeral) : List Char := if n.fraction = [] then [] else '.' :: n.fraction

/-- The exponent behind its letter. -/
def exponentChars (n : Numeral) : List Char :=
  match n.exponent with
  | none => []
  | some e => 'e' :: (toString e).toList

/-- The characters of a numeral. -/
def chars (n : Numeral) : List Char := n.whole ++ (n.fractionChars ++ n.exponentChars)

/-- The digits of a numeral, all behind each other. -/
def digits (n : Numeral) : List Char := n.whole ++ n.fraction

/-- The exponent of its last digit. -/
def scale (n : Numeral) : Int := n.exponent.getD 0 - n.fraction.length

/-- **A numeral denotes `value · 10 ^ e`**, with `k` zeros padded behind the digits of the value. Its exponent is
`e` if it has one, and its last digit stands no further behind than it must. -/
structure Denotes (n : Numeral) (value : Nat) (e : Int) (k : Nat) : Prop where
  exponent_eq : ∀ e' ∈ n.exponent, e' = e
  le_scale : min e 0 ≤ n.scale
  value_eq : digitsValue n.digits = value * 10 ^ k
  scale_add : n.scale + k = e

variable (n : Numeral)

theorem isDigit_whole {c : Char} (h : c ∈ n.whole) : isDigit c :=
  n.isDigit_of_mem c (List.mem_append_left _ h)

theorem isDigit_fraction {c : Char} (h : c ∈ n.fraction) : isDigit c :=
  n.isDigit_of_mem c (List.mem_append_right _ h)

/-- The characters that are no digits. -/
theorem isDigit_or_mem {c : Char} (h : c ∈ n.chars) : isDigit c ∨ c ∈ ['.', 'e', '-'] := by
  rcases List.mem_append.mp h with h | h
  · exact .inl (n.isDigit_whole h)
  rcases List.mem_append.mp h with h | h
  · unfold fractionChars at h
    split at h
    · cases h
    · rcases List.mem_cons.mp h with rfl | h
      · exact .inr (by decide)
      · exact .inl (n.isDigit_fraction h)
  · unfold exponentChars at h
    split at h
    · cases h
    · rcases List.mem_cons.mp h with rfl | h
      · exact .inr (by decide)
      rw [toString_int_toList] at h
      split at h
      · rcases List.mem_cons.mp h with rfl | h
        · exact .inr (by decide)
        · exact .inl (Text.isDigit_of_mem_toDigits h)
      · exact .inl (Text.isDigit_of_mem_toDigits h)

end Numeral

/-! ## Numerals as written numbers -/

namespace Decimal

/-- The sign of a number in its text. -/
def Sign.ofNegative (negative : Bool) : Sign := if negative then .minus else .none

theorem Sign.chars_ofNegative (negative : Bool) (cs : List Char) :
    (ofNegative negative).chars ++ cs = if negative then '-' :: cs else cs := by
  cases negative <;> rfl

theorem Sign.apply_ofNegative {α : Type} [Neg α] (negative : Bool) (a : α) :
    (ofNegative negative).apply a = if negative then -a else a := by
  cases negative <;> rfl

theorem Sign.apply_natAbs (n : Int) : (ofNegative (n < 0)).apply (n.natAbs : Int) = n := by
  simp only [apply_ofNegative, decide_eq_true_eq]
  omega

/-- An integer as the text of an exponent. -/
def WrittenExponent.ofInt (e : Int) : WrittenExponent where
  letter := 'e'
  sign := .ofNegative (e < 0)
  digits := Nat.toDigits 10 e.natAbs
  letter_eq := .inl rfl
  digits_ne := Nat.toDigits_ne_nil
  isDigit_of_mem _ hc := Text.isDigit_of_mem_toDigits hc

theorem WrittenExponent.value_ofInt (e : Int) : (ofInt e).value = e := by
  show (Sign.ofNegative (e < 0)).apply (digitsValue (Nat.toDigits 10 e.natAbs) : Int) = e
  rw [Text.digitsValue_toDigits, Sign.apply_natAbs]

theorem WrittenExponent.integerChars_ofInt (e : Int) : (ofInt e).integerChars = (toString e).toList := by
  show (Sign.ofNegative (e < 0)).chars ++ Nat.toDigits 10 e.natAbs = _
  rw [toString_int_toList, Sign.chars_ofNegative]
  simp only [decide_eq_true_eq]

end Decimal

/-- A numeral with its sign, as a number that is written. -/
def Numeral.written (n : Numeral) (negative : Bool) : Decimal.Written where
  sign := .ofNegative negative
  whole := n.whole
  fraction := if n.fraction = [] then none else some n.fraction
  exponent := n.exponent.map .ofInt
  digits_ne := by simp [n.whole_ne]
  isDigit_of_mem := by
    split
    next hnil => simpa [hnil] using n.isDigit_of_mem
    next => exact n.isDigit_of_mem

namespace Numeral

open Decimal

variable (n : Numeral) (negative : Bool)

theorem fractionDigits_written : (n.written negative).fractionDigits = n.fraction := by
  show (if n.fraction = [] then none else some n.fraction).getD [] = n.fraction
  split
  next hnil => exact hnil.symm
  next => rfl

theorem exponentValue_written : (n.written negative).exponentValue = n.exponent.getD 0 := by
  show (n.exponent.map WrittenExponent.ofInt).elim 0 (·.value) = _
  cases n.exponent with
  | none => rfl
  | some e => exact WrittenExponent.value_ofInt e

theorem digits_written : (n.written negative).digits = n.digits :=
  congrArg (n.whole ++ ·) (n.fractionDigits_written negative)

theorem scale_written : (n.written negative).scale = n.scale := by
  rw [Written.scale, exponentValue_written, fractionDigits_written, scale]

theorem chars_written : (n.written negative).chars = if negative then '-' :: n.chars else n.chars := by
  have hfraction : (n.written negative).fraction.elim [] ('.' :: ·) = n.fractionChars := by
    show (if n.fraction = [] then none else some n.fraction).elim [] ('.' :: ·) = n.fractionChars
    unfold fractionChars
    split <;> rfl
  have hexponent : (n.written negative).exponent.elim [] (fun e => e.letter :: e.integerChars) = n.exponentChars := by
    show (n.exponent.map WrittenExponent.ofInt).elim [] (fun e => e.letter :: e.integerChars) = n.exponentChars
    unfold exponentChars
    cases n.exponent with
    | none => rfl
    | some e => exact congrArg ('e' :: ·) (WrittenExponent.integerChars_ofInt e)
  have hunsigned : (n.written negative).unsignedChars = n.chars := by
    rw [Written.unsignedChars, Written.mantissaChars, hfraction, hexponent, List.append_assoc]
    rfl
  rw [Written.chars, hunsigned]
  exact Sign.chars_ofNegative negative n.chars

end Numeral

namespace Decimal

/-! ## Writing numerals -/

theorem isDigit_of_mem_zeros (k : Nat) : ∀ c ∈ List.replicate k '0', isDigit c := fun c hc =>
  List.eq_of_mem_replicate hc ▸ by decide

/-- Digits behind each other, with an exponent. -/
theorem exponential_numeral {ds : List Char} (hds : ∀ c ∈ ds, isDigit c) (hne : ds ≠ []) (e : Int) :
    ∃ n : Numeral, ds ++ 'e' :: (toString e).toList = n.chars ∧ n.Denotes (digitsValue ds) e 0 := by
  have hdigits : ∀ c ∈ ds ++ [], isDigit c := by rwa [List.append_nil]
  refine ⟨⟨ds, [], some e, hne, hdigits⟩, rfl, ?_⟩
  constructor
  case exponent_eq => exact fun e' he => (Option.some.inj he).symm
  case le_scale => exact (Int.min_le_left e 0).trans (Int.sub_zero e).ge
  case value_eq => simp [Numeral.digits]
  case scale_add => simp [Numeral.scale]

/-- Digits with zeros behind them. -/
theorem padded_numeral {ds : List Char} (hds : ∀ c ∈ ds, isDigit c) (hne : ds ≠ []) (k : Nat) :
    ∃ n : Numeral, ds ++ List.replicate k '0' = n.chars ∧ n.Denotes (digitsValue ds) k k := by
  have hdigits : ∀ c ∈ ds ++ List.replicate k '0' ++ [], isDigit c := by
    rw [List.append_nil]
    exact List.forall_mem_append.mpr ⟨hds, isDigit_of_mem_zeros k⟩
  refine ⟨⟨ds ++ List.replicate k '0', [], none, by simp [hne], hdigits⟩, ?_, ?_⟩
  · simp [Numeral.chars, Numeral.fractionChars, Numeral.exponentChars]
  constructor
  case exponent_eq => exact nofun
  case le_scale => exact Int.min_le_right _ 0
  case value_eq => rw [Numeral.digits, List.append_nil, Text.digitsValue_append_zeros]
  case scale_add => simp [Numeral.scale]

/-- Digits before and behind a dot. -/
theorem pointed_numeral {whole fraction : List Char} (hds : ∀ c ∈ whole ++ fraction, isDigit c) (hwhole : whole ≠ [])
    (hfraction : fraction ≠ []) : ∃ n : Numeral, whole ++ '.' :: fraction = n.chars ∧
      n.Denotes (digitsValue (whole ++ fraction)) (-fraction.length) 0 := by
  refine ⟨⟨whole, fraction, none, hwhole, hds⟩, ?_, ?_⟩
  · simp only [Numeral.chars, Numeral.fractionChars, Numeral.exponentChars, if_neg hfraction, List.append_nil]
  constructor
  case exponent_eq => exact nofun
  case le_scale => simp [Numeral.scale]
  case value_eq => rw [Numeral.digits, Nat.pow_zero, Nat.mul_one]
  case scale_add => simp [Numeral.scale]

/-- **What is written is a numeral** that denotes what the digits do at the exponent at which they are placed. -/
theorem placeDigits_numeral {ds : List Char} (hds : ∀ c ∈ ds, isDigit c) (hne : ds ≠ []) (e : Int) :
    ∃ (n : Numeral) (k : Nat), placeDigits ds e = n.chars ∧ n.Denotes (digitsValue ds) e k := by
  unfold placeDigits
  extract_lets padding places
  split
  · obtain ⟨n, hn⟩ := exponential_numeral hds hne e
    exact ⟨n, 0, hn⟩
  split
  next _ hpos =>
    obtain ⟨n, hn⟩ := padded_numeral hds hne e.toNat
    rw [Int.toNat_of_nonneg hpos] at hn
    exact ⟨n, e.toNat, hn⟩
  next _ hneg =>
  have hplaces : -(places : Int) = e := by omega
  split
  next hlt =>
    have hlength : (ds.drop (ds.length - places)).length = places := by
      rw [List.length_drop]
      omega
    have hwhole : ds.take (ds.length - places) ≠ [] := by
      rw [← List.length_pos_iff, List.length_take]
      omega
    have hfraction : ds.drop (ds.length - places) ≠ [] := by
      rw [← List.length_pos_iff, hlength]
      omega
    rw [← List.take_append_drop (ds.length - places) ds] at hds
    obtain ⟨n, hn⟩ := pointed_numeral hds hwhole hfraction
    rw [hlength, hplaces, List.take_append_drop] at hn
    exact ⟨n, 0, hn⟩
  next hge =>
    have hlength : (List.replicate (places - ds.length) '0' ++ ds).length = places := by
      rw [List.length_append, List.length_replicate]
      omega
    have hzeros : ∀ c ∈ ['0'] ++ (List.replicate (places - ds.length) '0' ++ ds), isDigit c := by
      rw [← List.append_assoc]
      exact List.forall_mem_append.mpr ⟨isDigit_of_mem_zeros (_ + 1), hds⟩
    have hvalue : digitsValue (['0'] ++ (List.replicate (places - ds.length) '0' ++ ds)) = digitsValue ds :=
      Text.digitsValue_zeros_append (_ + 1) ds
    obtain ⟨n, hn⟩ := pointed_numeral hzeros (by simp) (by simp [hne])
    rw [hlength, hplaces, hvalue] at hn
    exact ⟨n, 0, hn⟩

/-! ## Normal form -/

theorem stripZeros_mul_pow (s e : Int) (hs : s ≠ 0) (k : Nat) :
    stripZeros (s * 10 ^ k) e = stripZeros s (e + k) := by
  induction k generalizing e with
  | zero => simp
  | succ k ih =>
    have hpow : s * 10 ^ (k + 1) = 10 * (s * 10 ^ k) := by ring
    have hne : s * 10 ^ (k + 1) ≠ 0 := by simp [hs]
    have htens : s * 10 ^ (k + 1) % 10 = 0 := by rw [hpow, Int.mul_emod_right]
    calc stripZeros (s * 10 ^ (k + 1)) e
        = stripZeros (s * 10 ^ (k + 1) / 10) (e + 1) := by rw [stripZeros, if_pos ⟨htens, hne⟩]
      _ = stripZeros (s * 10 ^ k) (e + 1) := by rw [hpow, Int.mul_ediv_cancel_left _ (by decide)]
      _ = stripZeros s (e + 1 + k) := ih (e + 1)
      _ = stripZeros s (e + (k + 1 : Nat)) := by rw [Int.natCast_succ, Int.add_assoc, Int.add_comm 1]

/-- Zeros behind the digits change nothing. -/
theorem ofParts_mul_pow (s e : Int) (k precision : Nat) :
    ofParts (s * 10 ^ k) e precision = ofParts s (e + k) precision := by
  unfold ofParts
  by_cases hs : s = 0
  · rw [dif_pos (by simp [hs]), dif_pos hs]
  · have hpow : s * 10 ^ k ≠ 0 := by simp [hs]
    simp only [dif_neg hs, dif_neg hpow, stripZeros_mul_pow s e hs k]

/-! ## The round trip -/

/-- **The text of a decimal is a numeral** with a sign if it is negative. -/
theorem toChars_numeral (x : Decimal) :
    ∃ (n : Numeral) (k : Nat), x.toChars = (if x.isNegative then '-' :: n.chars else n.chars) ∧
      n.Denotes x.significand.natAbs x.exponent k := by
  obtain ⟨n, k, hchars, hn⟩ := placeDigits_numeral (fun c hc => Text.isDigit_of_mem_toDigits hc)
    (Nat.toDigits_ne_nil (n := x.significand.natAbs) (b := 10)) x.exponent
  rw [Text.digitsValue_toDigits] at hn
  exact ⟨n, k, by rw [toChars, hchars], hn⟩

/-- The precision that a decimal has when it is read from its text. -/
def readPrecision (x : Decimal) : Nat :=
  match ofText x.toText with
  | .ok y => y.precision
  | .error _ => x.precision

/-- **A decimal as it is read from its text**: the same number. -/
def reread (x : Decimal) : Decimal := x.withPrecision x.readPrecision

theorem withPrecision_beq (x y : Decimal) (p q : Nat) : (x.withPrecision p == y.withPrecision q) = (x == y) := rfl

theorem reread_beq_reread (x y : Decimal) : (x.reread == y.reread) = (x == y) := withPrecision_beq x y _ _

theorem withPrecision_beq_self (x : Decimal) (p : Nat) : (x.withPrecision p == x) = true := by
  show (x.significand == x.significand && x.exponent == x.exponent) = true
  rw [beq_self_eq_true, beq_self_eq_true, Bool.and_self]

theorem reread_beq (x : Decimal) : (x.reread == x) = true := withPrecision_beq_self x _

/-- The sign in front of the digits. -/
theorem signed_digits {x : Decimal} {k m : Nat} (h : m = x.significand.natAbs * 10 ^ k) :
    (Sign.ofNegative x.isNegative).apply (m : Int) = x.significand * 10 ^ k := by
  rw [h, Nat.cast_mul, Nat.cast_pow, Sign.apply_mul, isNegative, Sign.apply_natAbs]
  rfl

theorem isDigit_or_mem_of_mem_toChars {x : Decimal} {c : Char} (hc : c ∈ x.toChars) :
    isDigit c ∨ c ∈ ['.', 'e', '-'] := by
  obtain ⟨n, -, hchars, -⟩ := toChars_numeral x
  rw [hchars] at hc
  split at hc
  · rcases List.mem_cons.mp hc with rfl | hc
    · exact .inr (by decide)
    · exact n.isDigit_or_mem hc
  · exact n.isDigit_or_mem hc

theorem isBlank_of_mem_toChars {x : Decimal} {c : Char} (hc : c ∈ x.toChars) : isBlank c = false := by
  rcases isDigit_or_mem_of_mem_toChars hc with hdigit | hsign
  · exact Text.isBlank_of_isDigit hdigit
  · simp only [List.mem_cons, List.not_mem_nil, or_false] at hsign
    rcases hsign with rfl | rfl | rfl <;> rfl

theorem exists_ofText_toText {x : Decimal} (h : InInt64 x.exponent) :
    ∃ precision, ofText x.toText = .ok (x.withPrecision precision) := by
  obtain ⟨n, k, hchars, hn⟩ := toChars_numeral x
  have htrim : Text.trim x.toText.toList = (n.written x.isNegative).chars := by
    rw [toText, String.toList_ofList, Text.trim_of_forall fun c => isBlank_of_mem_toChars, hchars, n.chars_written]
  have hrange : (n.written x.isNegative).InRange := by
    rw [Written.InRange, n.exponentValue_written, n.scale_written]
    refine ⟨?_, (Int.le_min.mpr ⟨h.1, by decide⟩).trans hn.le_scale⟩
    cases hexponent : n.exponent with
    | none => decide
    | some e => exact hn.exponent_eq e hexponent ▸ h
  refine ⟨max workingPrecision (n.digits.dropWhile (· == '0')).length, (ofText_written htrim hrange).trans ?_⟩
  rw [Written.decimal, n.digits_written, n.scale_written]
  calc Except.ok (ofParts ((Sign.ofNegative x.isNegative).apply (digitsValue n.digits : Int)) n.scale _)
      = .ok (ofParts (x.significand * 10 ^ k) n.scale _) := by rw [signed_digits hn.value_eq]
    _ = .ok (x.withPrecision _) := by rw [ofParts_mul_pow, hn.scale_add, ofParts_self]

/-- **Reading the text of a decimal** gives the decimal again, if its exponent fits into 64 bits. -/
theorem ofText_toText {x : Decimal} (h : InInt64 x.exponent) : ofText x.toText = .ok x.reread := by
  obtain ⟨precision, hok⟩ := exists_ofText_toText h
  have hprecision : x.readPrecision = precision := by
    unfold readPrecision
    rw [hok]
    rfl
  rw [hok, reread, hprecision]

end Decimal

end Cellbook
