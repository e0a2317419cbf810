import Cellbook.Proofs.Decimal.Numeral
import Cellbook.Proofs.Decimal.Value
import Cellbook.Response
import Cellbook.Script.Basic

/-!
# One text for each number

Reading takes the text of a number back to the number, so numbers with one text are equal; and the text is made
from significand and exponent alone, which equal numbers share (`toText_exact`). Wherever a number is shown its
text stands as it is, without an escape (`quote_toText`), so what is shown determines the number.
-/

namespace Cellbook

namespace Decimal

variable {x y : Decimal}

theorem toChars_eq_of_beq (h : (x == y) = true) : x.toChars = y.toChars := by
  obtain ⟨hs, he⟩ := beq_iff.mp h
  rw [toChars, toChars, isNegative, isNegative, hs, he]

/-- **Numbers are equal exactly if their characters are.** -/
theorem toChars_eq_iff (hx : InInt64 x.exponent) (hy : InInt64 y.exponent) :
    x.toChars = y.toChars ↔ (x == y) = true := by
  refine ⟨fun h => ?_, toChars_eq_of_beq⟩
  have hreread : x.reread = y.reread := by
    have : Except.ok x.reread = Except.ok (ε := Fault) y.reread := by
      rw [← ofText_toText hx, ← ofText_toText hy, toText, toText, h]
    exact Except.ok.inj this
  rw [← reread_beq_reread, hreread]
  exact reread_beq_reread y y |>.trans (withPrecision_beq_self y y.precision)

/-- No character of a number is escaped. -/
theorem escapeChar_of_mem_toChars {c : Char} (hc : c ∈ x.toChars) : Json.escapeChar c = [c] := by
  rcases isDigit_or_mem_of_mem_toChars hc with hdigit | hsign
  · have hlow : 48 ≤ c.toNat := of_decide_eq_true (Bool.and_eq_true_iff.mp hdigit).1
    unfold Json.escapeChar
    split
    all_goals first
      | exact absurd hdigit (by decide)
      | rw [if_neg (by omega)]
  · simp only [List.mem_cons, List.not_mem_nil, or_false] at hsign
    rcases hsign with rfl | rfl | rfl <;> rfl

theorem quote_toText (x : Decimal) : Json.quote x.toText = '"' :: x.toChars ++ ['"'] := by
  have hchars : x.toChars.flatMap Json.escapeChar = x.toChars := by
    rw [List.flatMap_def, List.map_congr_left fun c => escapeChar_of_mem_toChars, ← List.flatMap_def,
      List.flatMap_singleton']
  rw [Json.quote, toText, String.toList_ofList, hchars]

/-- The characters of a number stand in its JSON as they are. -/
theorem writeChars_toJson (φ : Type) : ∃ before after : List Char, ∀ x : Decimal,
    (Value.number x : Value φ).toJson.writeChars = before ++ (x.toChars ++ after) := by
  refine ⟨'{' :: Json.quote "type" ++ ':' :: Json.quote Kind.number.name ++ ',' :: Json.quote "value" ++ [':', '"'],
    ['"', '}'], fun x => ?_⟩
  simp [Value.toJson, Value.tagged, Json.writeChars, Json.writeFields, quote_toText]

theorem layoutChars_toJson (φ : Type) : ∃ before after : List Char, ∀ x : Decimal,
    (Value.number x : Value φ).toJson.layoutChars 0 = before ++ (x.toChars ++ after) := by
  refine ⟨'{' :: Json.newLine 1 ++ Json.quote "type" ++ ':' :: ' ' :: Json.quote Kind.number.name ++
    ',' :: Json.newLine 1 ++ Json.quote "value" ++ [':', ' ', '"'], '"' :: Json.newLine 0 ++ ['}'], fun x => ?_⟩
  simp [Value.toJson, Value.tagged, Json.layoutChars, Json.layoutFields, quote_toText]

/-- **The text of a number** reads as the number, and equal numbers are those with one text: alone, for display, as
JSON in one line or over several, and as a literal of a script. -/
theorem toText_exact (φ : Type) (hx : InInt64 x.exponent) (hy : InInt64 y.exponent) :
    (∃ z, ofText x.toText = .ok z ∧ (z == x) = true) ∧
      (x.toText = y.toText ↔ (x == y) = true) ∧
      ((Value.number x : Value φ).toText = (Value.number y : Value φ).toText ↔ (x == y) = true) ∧
      ((Value.number x : Value φ).toJson.write = (Value.number y : Value φ).toJson.write ↔ (x == y) = true) ∧
      ((Value.number x : Value φ).toJson.layout = (Value.number y : Value φ).toJson.layout ↔ (x == y) = true) ∧
      (Script.literal (.number x) = Script.literal (.number y) ↔ (x == y) = true) := by
  have hchars := toChars_eq_iff hx hy
  obtain ⟨before, after, hwrite⟩ := writeChars_toJson φ
  obtain ⟨before', after', hlayout⟩ := layoutChars_toJson φ
  refine ⟨⟨x.reread, ofText_toText hx, reread_beq x⟩, ?_, ?_, ?_, ?_, hchars⟩
  · rw [toText, toText, String.ofList_inj, hchars]
  · rw [Value.toText, Value.toText, String.ofList_inj]
    exact hchars
  · rw [Json.write, Json.write, String.ofList_inj, hwrite, hwrite, List.append_right_inj, List.append_left_inj, hchars]
  · rw [Json.layout, Json.layout, String.ofList_inj, hlayout, hlayout, List.append_right_inj, List.append_left_inj,
      hchars]

/-- The two forms of a text: the last zero that is written out, and an exponent. -/
theorem toText_exact_of_padded :
    let x : Decimal := ⟨123, 64, 50, by decide⟩
    let y : Decimal := ⟨123, 65, 50, by decide⟩
    (InInt64 x.exponent ∧ InInt64 y.exponent) ∧ x.toText ≠ y.toText := by
  intro x y
  have hin : InInt64 x.exponent ∧ InInt64 y.exponent := ⟨by decide, by decide⟩
  obtain ⟨-, htext, -⟩ := toText_exact Unit hin.1 hin.2
  exact ⟨hin, fun h => absurd (htext.mp h) (by decide)⟩

end Decimal

end Cellbook
