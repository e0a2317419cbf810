import Cellbook.Machine.Closure
import Cellbook.Proofs.Value.Broadcast
import Cellbook.Proofs.Value.Operators

/-!
# Operators on streams

An operator that broadcasts is applied to a stream element by element: the result is the stream of the results, and
there is one just if every element has one (`Elementwise`). A stream is refused by the kind of what it meets, before
any element is looked at, and the operators but one refuse no kind that an element would take. The one is `+`, which
joins a text with a truth value or with none but takes neither against a stream of texts (`Unjoined`).
-/

namespace Cellbook

/-- The operators that go into streams. -/
def BinaryOp.Broadcasts (op : BinaryOp) : Prop := op ≠ .isIn ∧ op ≠ .notIn ∧ op ≠ .is

instance (op : BinaryOp) : Decidable op.Broadcasts := inferInstanceAs (Decidable (_ ∧ _ ∧ _))

theorem BinaryOp.Broadcasts.meets_number {op : BinaryOp} (h : op.Broadcasts) : op.meets .number = true := by
  cases op with
  | isIn => exact absurd rfl h.1
  | notIn => exact absurd rfl h.2.1
  | is => exact absurd rfl h.2.2
  | _ => rfl

namespace Value

variable {φ : Type}

/-! ## Element by element -/

section Elementwise

variable {α β ε : Type}

theorem except_bind_eq_ok_iff {r : Except ε α} {f : α → Except ε β} {b : β} :
    r >>= f = .ok b ↔ ∃ a, r = .ok a ∧ f a = .ok b := by
  cases r <;> simp [bind, Except.bind]

theorem mapM_eq_ok_iff {f : α → Except ε β} {xs : List α} {ys : List β} :
    xs.mapM f = .ok ys ↔ List.Forall₂ (fun x y => f x = .ok y) xs ys := by
  induction xs generalizing ys with
  | nil =>
    rw [List.mapM_nil, List.forall₂_nil_left_iff]
    exact ⟨fun h => by cases h; rfl, fun h => by rw [h]; rfl⟩
  | cons x xs ih =>
    simp only [List.mapM_cons, except_bind_eq_ok_iff, ih, List.forall₂_cons_left_iff]
    constructor
    · rintro ⟨y, hy, ys, hys, ⟨⟩⟩
      exact ⟨y, ys, hy, hys, rfl⟩
    · rintro ⟨y, ys, hy, hys, rfl⟩
      exact ⟨y, hy, ys, hys, rfl⟩

theorem exists_mapM_eq_ok_iff {f : α → Except ε β} {xs : List α} :
    (∃ ys, xs.mapM f = .ok ys) ↔ ∀ x ∈ xs, ∃ y, f x = .ok y := by
  simp only [mapM_eq_ok_iff]
  induction xs with
  | nil => simp
  | cons x xs ih =>
    rw [List.forall_mem_cons, ← ih]
    constructor
    · rintro ⟨_, h⟩
      cases h with | cons hx hxs => exact ⟨⟨_, hx⟩, _, hxs⟩
    · rintro ⟨⟨y, hx⟩, ys, hxs⟩
      exact ⟨y :: ys, .cons hx hxs⟩

/-- **A result is that of `apply` element by element**: there is one just if every element has one, and then it is the
stream of these in order. -/
structure Elementwise (apply : α → Except EvalFault (Value φ)) (xs : List α)
    (result : Except EvalFault (Value φ)) : Prop where
  succeeds_iff : (∃ v, result = .ok v) ↔ ∀ x ∈ xs, ∃ z, apply x = .ok z
  eq_stream : ∀ v, result = .ok v → ∃ zs, v = .stream zs ∧ List.Forall₂ (fun x z => apply x = .ok z) xs zs

theorem elementwise_mapM (apply : α → Except EvalFault (Value φ)) (xs : List α) :
    Elementwise apply xs (.stream <$> xs.mapM apply) := by
  cases hresult : xs.mapM apply with
  | error fault =>
    refine ⟨?_, fun v h => nomatch h⟩
    rw [← exists_mapM_eq_ok_iff, hresult]
    constructor <;> rintro ⟨_, h⟩ <;> cases h
  | ok zs =>
    refine ⟨iff_of_true ⟨_, rfl⟩ (exists_mapM_eq_ok_iff.mp ⟨zs, hresult⟩), fun v h => ?_⟩
    cases h
    exact ⟨zs, rfl, mapM_eq_ok_iff.mp hresult⟩

/-- A fault is right just if an element has no result. -/
theorem elementwise_error_iff {apply : α → Except EvalFault (Value φ)} {xs : List α} {fault : EvalFault} :
    Elementwise apply xs (.error fault) ↔ ¬∀ x ∈ xs, ∃ z, apply x = .ok z := by
  constructor
  · intro h hall
    obtain ⟨v, hv⟩ := h.succeeds_iff.mpr hall
    cases hv
  · intro h
    exact ⟨iff_of_false (fun ⟨_, hv⟩ => nomatch hv) h, fun v hv => nomatch hv⟩

end Elementwise

/-! ## What an operator takes -/

section Kinds

variable {op : BinaryOp} {k l : Kind}

/-- Of two kinds one is that of texts, and the other one that of truth values or of none. -/
def JoinsText (k l : Kind) : Prop :=
  k = .text ∧ (l = .boolean ∨ l = .none) ∨ (k = .boolean ∨ k = .none) ∧ l = .text

theorem joinsText_comm : JoinsText k l ↔ JoinsText l k := by
  unfold JoinsText
  rw [or_comm, and_comm, and_comm (b := l = .boolean ∨ l = .none)]

theorem joins_iff (h : BinaryOp.meets .add k = false ∨ BinaryOp.meets .add l = false) :
    ((k == .text && joins l) || (joins k && l == .text)) = true ↔ JoinsText k l := by
  revert h
  unfold JoinsText
  cases k <;> cases l <;> decide

theorem joinsText_iff (h : BinaryOp.meets .add l = false) :
    JoinsText k l ↔ k = .text ∧ (l = .boolean ∨ l = .none) := by
  revert h
  unfold JoinsText
  cases k <;> cases l <;> decide

theorem holds?_eq_none (h : op.meets .text = false) (order : Ordering) : holds? op order = none := by
  cases op <;> first | rfl | cases h

end Kinds

section Singles

variable {settings : Settings} {op : BinaryOp} {x y : Value φ}

theorem not_numbers (hop : op.Broadcasts) (h : op.meets x.kind = false ∨ op.meets y.kind = false) :
    ¬(x.kind = .number ∧ y.kind = .number) := by
  rintro ⟨hx, hy⟩
  rw [hx, hy, or_self, hop.meets_number] at h
  cases h

/-- An operator other than `+` refuses two single values if it refuses one of them against a stream. -/
theorem applySingles_of_not_meets (hop : op.Broadcasts) (hadd : op ≠ .add)
    (h : op.meets x.kind = false ∨ op.meets y.kind = false) :
    applySingles settings op x y = .error (op.refuse x y) := by
  by_cases htexts : x.kind = .text ∧ y.kind = .text
  -- Texts are taken against a stream by the comparisons, so that the operator is one of arithmetic.
  · rw [htexts.1, htexts.2, or_self] at h
    obtain ⟨a, rfl⟩ := exists_text htexts.1
    obtain ⟨b, rfl⟩ := exists_text htexts.2
    rw [applySingles_texts settings hadd, holds?_eq_none h]
  · exact applySingles_refuse settings hadd (not_numbers hop h) htexts

/-- **Single values**, one of which the operator refuses against a stream: only `+` takes them, to join a text with a
truth value or with none. -/
theorem exists_applySingles_eq_ok_iff (hop : op.Broadcasts)
    (h : op.meets x.kind = false ∨ op.meets y.kind = false) :
    (∃ z, applySingles settings op x y = .ok z) ↔ op = .add ∧ JoinsText x.kind y.kind := by
  by_cases hadd : op = .add
  · subst hadd
    rw [applySingles_add settings (not_numbers hop h), ← joins_iff h]
    split <;> simp_all
  · rw [applySingles_of_not_meets hop hadd h]
    exact iff_of_false (fun ⟨_, hz⟩ => nomatch hz) (hadd ·.1)

end Singles

/-! ## Operators on streams -/

section Operators

variable [BEq φ] {settings : Settings} {op : BinaryOp}

/-- **An operator that broadcasts**, on two values that are no streams. -/
def applyPair (settings : Settings) (op : BinaryOp) (x y : Value φ) : Except EvalFault (Value φ) :=
  match op with
  | .eq => .ok (.boolean (x == y))
  | .ne => .ok (.boolean (!(x == y)))
  | .and => .ok (.boolean (x.truthy && y.truthy))
  | .or => .ok (.boolean (x.truthy || y.truthy))
  | op => applySingles settings op x y

theorem applyPair_of_not_meets {k : Kind} (h : op.meets k = false) :
    applyPair (φ := φ) settings op = applySingles settings op := by
  cases op <;> first | rfl | cases h

theorem binary_eq_broadcast (hop : op.Broadcasts) (x y : Value φ) :
    binary settings op x y = broadcast op.meets op.refuse (applyPair settings op) x y := by
  cases op with
  | isIn => exact absurd rfl hop.1
  | notIn => exact absurd rfl hop.2.1
  | is => exact absurd rfl hop.2.2
  | _ => rfl

theorem binary_left (hop : op.Broadcasts) {y : Value φ} (hy : y.isStream = false) (xs : List (Value φ)) :
    binary settings op (.stream xs) y =
      if op.meets y.kind then .stream <$> xs.mapM (binary settings op · y)
      else .error (op.refuse (.stream xs) y) := by
  simp only [binary_eq_broadcast hop, broadcast_left hy]

theorem binary_right (hop : op.Broadcasts) {x : Value φ} (hx : x.isStream = false) (ys : List (Value φ)) :
    binary settings op x (.stream ys) =
      if op.meets x.kind then .stream <$> ys.mapM (binary settings op x)
      else .error (op.refuse x (.stream ys)) := by
  rw [binary_eq_broadcast hop, broadcast_right hx, funext (binary_eq_broadcast hop x)]

theorem binary_streams (hop : op.Broadcasts) (xs ys : List (Value φ)) :
    binary settings op (.stream xs) (.stream ys) =
      if xs.length = ys.length then .stream <$> (xs.zip ys).mapM fun p => binary settings op p.1 p.2
      else .error ⟨.lengthMismatch xs.length ys.length, []⟩ := by
  simp only [binary_eq_broadcast hop, broadcast_streams]

omit [BEq φ] in
theorem not_joinsText_stream {k : Kind} (xs : List (Value φ)) : ¬JoinsText (Value.stream xs).kind k := by
  rintro (⟨h, -⟩ | ⟨h | h, -⟩) <;> cases h

/-- What goes with a single value that the operator refuses against a stream. -/
theorem exists_binary_eq_ok_iff_left (hop : op.Broadcasts) {y : Value φ} (hy : y.isStream = false)
    (hmeets : op.meets y.kind = false) (x : Value φ) :
    (∃ z, binary settings op x y = .ok z) ↔ op = .add ∧ JoinsText x.kind y.kind := by
  cases hx : x.isStream
  · rw [binary_eq_broadcast hop, broadcast_singles hx hy, applyPair_of_not_meets hmeets]
    exact exists_applySingles_eq_ok_iff hop (.inr hmeets)
  · obtain ⟨xs, rfl⟩ := exists_stream hx
    rw [binary_left hop hy, hmeets]
    exact iff_of_false (fun ⟨_, hz⟩ => nomatch hz) fun h => not_joinsText_stream xs h.2

theorem exists_binary_eq_ok_iff_right (hop : op.Broadcasts) {x : Value φ} (hx : x.isStream = false)
    (hmeets : op.meets x.kind = false) (y : Value φ) :
    (∃ z, binary settings op x y = .ok z) ↔ op = .add ∧ JoinsText y.kind x.kind := by
  cases hy : y.isStream
  · rw [binary_eq_broadcast hop, broadcast_singles hx hy, applyPair_of_not_meets hmeets, joinsText_comm]
    exact exists_applySingles_eq_ok_iff hop (.inl hmeets)
  · obtain ⟨ys, rfl⟩ := exists_stream hy
    rw [binary_right hop hx, hmeets]
    exact iff_of_false (fun ⟨_, hz⟩ => nomatch hz) fun h => not_joinsText_stream ys h.2

omit [BEq φ] in
/-- **Texts that `+` does not join**: a stream of them and a truth value or none. -/
def Unjoined (op : BinaryOp) (xs : List (Value φ)) (y : Value φ) : Prop :=
  op = .add ∧ (y.kind = .boolean ∨ y.kind = .none) ∧ ∀ x ∈ xs, x.kind = .text

omit [BEq φ] in
theorem Unjoined.not_meets {xs : List (Value φ)} {y : Value φ} (h : Unjoined op xs y) : op.meets y.kind = false := by
  obtain ⟨rfl, hy | hy, -⟩ := h <;> rw [hy] <;> rfl

omit [BEq φ] in
theorem unjoined_iff {xs : List (Value φ)} {y : Value φ} (hne : xs ≠ []) (hmeets : op.meets y.kind = false) :
    (∀ x ∈ xs, op = .add ∧ JoinsText x.kind y.kind) ↔ Unjoined op xs y := by
  constructor
  · intro h
    obtain ⟨x, hx⟩ := List.exists_mem_of_ne_nil xs hne
    obtain rfl := (h x hx).1
    simp only [joinsText_iff hmeets, true_and] at h
    exact ⟨rfl, (h x hx).2, fun x hx => (h x hx).1⟩
  · rintro ⟨rfl, hy, htexts⟩ x hx
    exact ⟨rfl, .inl ⟨htexts x hx, hy⟩⟩

omit [BEq φ] in
/-- Where the kind of a single value decides, it decides as the elements do, but for texts that are not joined. -/
theorem elementwise_ite_iff {apply : Value φ → Except EvalFault (Value φ)} {xs : List (Value φ)} {y : Value φ}
    {fault : EvalFault} (hne : xs ≠ [])
    (happly : op.meets y.kind = false → ∀ x, (∃ z, apply x = .ok z) ↔ op = .add ∧ JoinsText x.kind y.kind) :
    Elementwise apply xs (if op.meets y.kind then .stream <$> xs.mapM apply else .error fault) ↔
      ¬Unjoined op xs y := by
  cases hmeets : op.meets y.kind
  · rw [← unjoined_iff hne hmeets, if_neg Bool.false_ne_true, elementwise_error_iff]
    simp only [happly hmeets]
  · rw [if_pos rfl]
    refine iff_of_true (elementwise_mapM _ xs) fun h => ?_
    exact absurd (h.not_meets.symm.trans hmeets) Bool.false_ne_true

/-- **Broadcasting**: an operator applied to a stream beside a single value is applied element by element, but for
texts that are not joined; and two streams are combined pair by pair if they have the same length. -/
theorem binary_elementwise (settings : Settings) (hop : op.Broadcasts) :
    (∀ (xs : List (Value φ)) (y : Value φ), xs ≠ [] → y.isStream = false →
      (Elementwise (binary settings op · y) xs (binary settings op (.stream xs) y) ↔ ¬Unjoined op xs y) ∧
      (Elementwise (binary settings op y ·) xs (binary settings op y (.stream xs)) ↔ ¬Unjoined op xs y)) ∧
    ∀ xs ys : List (Value φ),
      (xs.length = ys.length →
        Elementwise (fun p => binary settings op p.1 p.2) (xs.zip ys) (binary settings op (.stream xs) (.stream ys))) ∧
      (xs.length ≠ ys.length → ∀ v, binary settings op (.stream xs) (.stream ys) ≠ .ok v) := by
  refine ⟨fun xs y hne hy => ⟨?_, ?_⟩, fun xs ys => ⟨fun h => ?_, fun h v hv => ?_⟩⟩
  · rw [binary_left hop hy]
    exact elementwise_ite_iff hne (exists_binary_eq_ok_iff_left hop hy)
  · rw [binary_right hop hy]
    exact elementwise_ite_iff hne (exists_binary_eq_ok_iff_right hop hy)
  · rw [binary_streams hop, if_pos h]
    exact elementwise_mapM _ _
  · rw [binary_streams hop, if_neg h] at hv
    cases hv

end Operators

theorem binary_elementwise_of_texts :
    (BinaryOp.Broadcasts .lt ∧ [Value.text "a", .stream [.text "c"]] ≠ ([] : List (Value Closure)) ∧
      (Value.text "b" : Value Closure).isStream = false ∧
      ¬Unjoined .lt [.text "a", .stream [.text "c"]] (.text "b" : Value Closure)) ∧
    Elementwise (binary {} .lt · (.text "b")) [.text "a", .stream [.text "c"]]
      (binary {} .lt (.stream [.text "a", .stream [.text "c"]]) (.text "b" : Value Closure)) := by
  have hop : BinaryOp.Broadcasts .lt := by decide
  have hne : [Value.text "a", .stream [.text "c"]] ≠ ([] : List (Value Closure)) := List.cons_ne_nil _ _
  have hjoined : ¬Unjoined .lt [.text "a", .stream [.text "c"]] (.text "b" : Value Closure) := nofun
  exact ⟨⟨hop, hne, rfl, hjoined⟩, ((binary_elementwise {} hop).1 _ _ hne rfl).1.mpr hjoined⟩

/-- A text is joined with a truth value, and a stream of texts with a stream of truth values, but not a stream of
texts with a truth value. -/
theorem binary_add_texts :
    BinaryOp.Broadcasts .add ∧
    binary {} .add (.text "a") (.boolean true : Value Closure) = .ok (.text "atrue") ∧
    binary {} .add (.stream [.text "a"]) (.stream [.boolean true] : Value Closure) = .ok (.stream [.text "atrue"]) ∧
    binary {} .add (.stream [.text "a"]) (.boolean true : Value Closure) =
      .error ⟨.unsupported "+" .stream .boolean, []⟩ ∧
    ¬Elementwise (binary {} .add · (.boolean true)) [.text "a"]
      (binary {} .add (.stream [.text "a"]) (.boolean true : Value Closure)) := by
  have hjoin : binary {} .add (.text "a") (.boolean true : Value Closure) = .ok (.text "atrue") := rfl
  refine ⟨by decide, hjoin, rfl, rfl, fun h => ?_⟩
  refine elementwise_error_iff.mp h fun x hx => ?_
  rw [List.mem_singleton.mp hx]
  exact ⟨_, hjoin⟩

end Value

end Cellbook
