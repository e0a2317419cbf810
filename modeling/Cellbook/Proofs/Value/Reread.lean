import Cellbook.Proofs.Decimal.Numeral
import Cellbook.Value.Object

/-!
# Values that can be written down

A value is readable if its text is source for it. Functions are not, nor are objects with methods; a stream in
the place of a key would be read as a key in brackets; and a character that is written by its code point would
not be read as that character (`Value.Readable`). The keys of an object are different from each other, as
insertion keeps them, and the exponent of a number is an integer in 64 bits, since no other one can be read.

What is read in the end is the value again, except that numbers have the precision that their texts have
(`Value.reread`). No comparison sees the difference (`Value.beq_reread`), so keys stay different.
-/

namespace Cellbook

/-- A character that a quoted text shows as itself, or by an escape that stands for it. -/
def Text.isReadable (c : Char) : Bool :=
  isVisible c || ['"', '\\', '\n', '\r', '\t', '\x00'].contains c

/-- A scalar as it is read from its text. -/
def Scalar.reread : Scalar → Scalar
  | .number x => .number x.reread
  | s => s

/-- A scalar that can be written down. -/
inductive Scalar.Readable : Scalar → Prop
  | none : Readable .none
  | boolean (b : Bool) : Readable (.boolean b)
  | number {x : Decimal} (h : InInt64 x.exponent) : Readable (.number x)
  | text {s : String} (h : ∀ c ∈ s.toList, Text.isReadable c) : Readable (.text s)

namespace Value

variable {φ : Type}

mutual

/-- **A value as it is read from its text.** -/
def reread : Value φ → Value φ
  | .number x => .number x.reread
  | .stream items => .stream (rereadItems items)
  | .object entries methods => .object (rereadEntries entries) methods
  | v => v

def rereadItems : List (Value φ) → List (Value φ)
  | [] => []
  | v :: vs => reread v :: rereadItems vs

def rereadEntries : List (Value φ × Value φ) → List (Value φ × Value φ)
  | [] => []
  | (k, v) :: es => (reread k, reread v) :: rereadEntries es

end

theorem rereadItems_eq_map (items : List (Value φ)) : rereadItems items = items.map reread := by
  induction items with
  | nil => rfl
  | cons v vs ih => rw [rereadItems, ih, List.map_cons]

theorem rereadEntries_eq_map (entries : List (Value φ × Value φ)) :
    rereadEntries entries = entries.map fun e => (e.1.reread, e.2.reread) := by
  induction entries with
  | nil => rfl
  | cons e es ih => rw [rereadEntries, ih, List.map_cons]

theorem reread_toValue (s : Scalar) : (s.toValue : Value φ).reread = s.reread.toValue := by
  cases s <;> simp only [Scalar.toValue, Scalar.reread, reread]

theorem reread_kind (v : Value φ) : v.reread.kind = v.kind := by
  cases v <;> simp only [reread, kind]

section Equality

variable [BEq φ]

/-- **A value that can be written down.** -/
inductive Readable : Value φ → Prop
  | scalar {s : Scalar} (h : s.Readable) : Readable s.toValue
  | stream {items : List (Value φ)} (h : ∀ v ∈ items, Readable v) : Readable (.stream items)
  | object {entries : List (Value φ × Value φ)} (hkeys : ∀ e ∈ entries, Readable e.1)
      (hvalues : ∀ e ∈ entries, Readable e.2) (hstream : ∀ e ∈ entries, e.1.kind ≠ .stream)
      (hdistinct : entries.Pairwise fun e e' => (e.1 == e'.1) = false) : Readable (.object entries [])

mutual

/-- What is read compares as what was written. -/
theorem equal_reread : (v w : Value φ) → equal v.reread w.reread = equal v w
  | .number x, w => by
    cases w with
    | number y => exact Decimal.reread_beq_reread x y
    | _ => simp only [reread, equal]
  | .stream xs, w => by
    cases w with
    | stream ys => simp only [reread, equal, equalItems_reread xs ys]
    | _ => simp only [reread, equal]
  | .object es ms, w => by
    cases w with
    | object fs ns => simp only [reread, equal, equalEntries_reread es fs]
    | _ => simp only [reread, equal]
  | .none, w => by cases w <;> simp only [reread, equal]
  | .boolean b, w => by cases w <;> simp only [reread, equal]
  | .text s, w => by cases w <;> simp only [reread, equal]
  | .function f, w => by cases w <;> simp only [reread, equal]

theorem equalItems_reread : (xs ys : List (Value φ)) →
    equalItems (rereadItems xs) (rereadItems ys) = equalItems xs ys
  | [], ys => by cases ys <;> simp only [rereadItems, equalItems]
  | x :: xs, ys => by
    cases ys with
    | nil => simp only [rereadItems, equalItems]
    | cons y ys => simp only [rereadItems, equalItems, equal_reread x y, equalItems_reread xs ys]

theorem equalEntries_reread : (es fs : List (Value φ × Value φ)) →
    equalEntries (rereadEntries es) (rereadEntries fs) = equalEntries es fs
  | [], fs => by cases fs <;> simp only [rereadEntries, equalEntries]
  | (k, v) :: es, fs => by
    cases fs with
    | nil => simp only [rereadEntries, equalEntries]
    | cons f fs =>
      obtain ⟨l, w⟩ := f
      simp only [rereadEntries, equalEntries, equal_reread k l, equal_reread v w, equalEntries_reread es fs]

end

theorem beq_reread (v w : Value φ) : (v.reread == w.reread) = (v == w) := equal_reread v w

theorem equalItems_self_of_forall {items : List (Value φ)} (h : ∀ v ∈ items, equal v.reread v) :
    equalItems (rereadItems items) items := by
  induction items with
  | nil => rfl
  | cons v vs ih =>
    obtain ⟨hv, hvs⟩ := List.forall_mem_cons.mp h
    exact Bool.and_eq_true_iff.mpr ⟨hv, ih hvs⟩

theorem equalEntries_self_of_forall {entries : List (Value φ × Value φ)}
    (hkeys : ∀ e ∈ entries, equal e.1.reread e.1) (hvalues : ∀ e ∈ entries, equal e.2.reread e.2) :
    equalEntries (rereadEntries entries) entries := by
  induction entries with
  | nil => rfl
  | cons e es ih =>
    obtain ⟨hk, hks⟩ := List.forall_mem_cons.mp hkeys
    obtain ⟨hv, hvs⟩ := List.forall_mem_cons.mp hvalues
    exact Bool.and_eq_true_iff.mpr ⟨Bool.and_eq_true_iff.mpr ⟨hk, hv⟩, ih hks hvs⟩

/-- **What is read is equal to what was written.** -/
theorem Readable.reread_equal {v : Value φ} (h : v.Readable) : equal v.reread v := by
  induction h with
  | @scalar s h =>
    rw [reread_toValue]
    cases s with
    | none => rfl
    | boolean b => exact beq_self_eq_true b
    | number x => exact x.reread_beq
    | text s => exact beq_self_eq_true s
  | stream _ ih =>
    simp only [reread, equal]
    exact equalItems_self_of_forall ih
  | object _ _ _ _ hkeys hvalues =>
    simp only [reread, equal, Bool.and_eq_true]
    exact ⟨equalEntries_self_of_forall hkeys hvalues, rfl⟩

/-! ## Keys -/

/-- **The keys of every object in a value are different from each other.** Its functions are left aside. -/
inductive Keyed : Value φ → Prop
  | none : Keyed .none
  | boolean (b : Bool) : Keyed (.boolean b)
  | number (x : Decimal) : Keyed (.number x)
  | text (s : String) : Keyed (.text s)
  | function (f : Function φ) : Keyed (.function f)
  | stream {items : List (Value φ)} (h : ∀ v ∈ items, Keyed v) : Keyed (.stream items)
  | object {entries : List (Value φ × Value φ)} {methods : List (Function φ)} (hkeys : ∀ e ∈ entries, Keyed e.1)
      (hvalues : ∀ e ∈ entries, Keyed e.2) (hdistinct : entries.Pairwise fun e e' => (e.1 == e'.1) = false) :
    Keyed (.object entries methods)

/-- Keys stay different when they are read from their texts. -/
theorem Readable.keyed {v : Value φ} (h : v.Readable) : v.reread.Keyed := by
  induction h with
  | @scalar s _ =>
    rw [reread_toValue]
    cases s with
    | none => exact .none
    | boolean b => exact .boolean b
    | number x => exact .number _
    | text s => exact .text s
  | stream _ ih =>
    rw [reread, rereadItems_eq_map]
    exact .stream (List.forall_mem_map.mpr ih)
  | object _ _ _ hdistinct hkeys hvalues =>
    rw [reread, rereadEntries_eq_map]
    refine .object (List.forall_mem_map.mpr hkeys) (List.forall_mem_map.mpr hvalues) ?_
    simpa only [List.pairwise_map, beq_reread] using hdistinct

/-- A value under a new key comes behind the others. -/
theorem insertEntry_of_new {entries : List (Value φ × Value φ)} {key : Value φ} (value : Value φ)
    (h : ∀ e ∈ entries, (e.1 == key) = false) : Object.insertEntry key value entries = entries ++ [(key, value)] := by
  induction entries with
  | nil => rfl
  | cons e es ih =>
    obtain ⟨he, hes⟩ := List.forall_mem_cons.mp h
    rw [Object.insertEntry, he, if_neg Bool.false_ne_true, ih hes, List.cons_append]

end Equality

end Value

end Cellbook
