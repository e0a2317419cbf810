import Mathlib.Data.List.Forall2
import Cellbook.Value.Object

/-!
# Values that differ in function bodies only

What functions do is a parameter of values, so a relation `R` between function bodies extends to values:
two values are related if they have the same shape, the same scalars in it and, where one has a function,
the other has one with the same parameters and a related body. Everything that can be said of a value
without calling its functions is then the same of both, as long as related bodies are equal to the same
bodies (`KeepsEquality`): its kind, its truth, its text, and what it is equal to.

Two instances matter. With equality for `R`, related values are equal (`Value.related_eq_iff`). With a
relation between closures that run alike, it says how two runs of a program compare.
-/

namespace Cellbook

variable {φ ψ : Type} {R : φ → ψ → Prop}

/-- Functions of the same parameters with related bodies and guards. -/
inductive Function.Related (R : φ → ψ → Prop) : Function φ → Function ψ → Prop
  | mk {params : List String} {body : φ} {body' : ψ} {guard : Option φ} {guard' : Option ψ} :
    R body body' → Option.Rel R guard guard' →
      Related R ⟨params, body, guard⟩ ⟨params, body', guard'⟩

namespace Function.Related

variable {f : Function φ} {g : Function ψ}

theorem params (h : Related R f g) : f.params = g.params := by
  cases h
  rfl

theorem body (h : Related R f g) : R f.body g.body := by
  cases h with
  | mk h _ => exact h

theorem guard (h : Related R f g) : Option.Rel R f.guard g.guard := by
  cases h with
  | mk _ h => exact h

theorem withGuard {f' : Function φ} {g' : Function ψ} (h : Related R f g) (h' : Related R f' g') :
    Related R (f.withGuard f') (g.withGuard g') := by
  cases h with
  | mk hbody _ => exact .mk hbody (.some h'.body)

end Function.Related

theorem Function.Related.toText_eq {f : Function φ} {g : Function ψ} (h : Function.Related R f g) :
    f.toText = g.toText := by
  rw [Function.toText, Function.toText, h.params]

namespace Value

mutual

/-- **Values of the same shape with related function bodies.** -/
inductive Related (R : φ → ψ → Prop) : Value φ → Value ψ → Prop
  | none : Related R .none .none
  | boolean (b : Bool) : Related R (.boolean b) (.boolean b)
  | number (x : Decimal) : Related R (.number x) (.number x)
  | text (s : String) : Related R (.text s) (.text s)
  | stream {xs : List (Value φ)} {ys : List (Value ψ)} :
    ItemsRelated R xs ys → Related R (.stream xs) (.stream ys)
  | object {es : List (Value φ × Value φ)} {fs : List (Value ψ × Value ψ)}
      {ms : List (Function φ)} {ns : List (Function ψ)} :
    EntriesRelated R es fs → List.Forall₂ (Function.Related R) ms ns →
      Related R (.object es ms) (.object fs ns)
  | function {f : Function φ} {g : Function ψ} :
    Function.Related R f g → Related R (.function f) (.function g)

inductive ItemsRelated (R : φ → ψ → Prop) : List (Value φ) → List (Value ψ) → Prop
  | nil : ItemsRelated R [] []
  | cons {x : Value φ} {y : Value ψ} {xs : List (Value φ)} {ys : List (Value ψ)} :
    Related R x y → ItemsRelated R xs ys → ItemsRelated R (x :: xs) (y :: ys)

inductive EntriesRelated (R : φ → ψ → Prop) :
    List (Value φ × Value φ) → List (Value ψ × Value ψ) → Prop
  | nil : EntriesRelated R [] []
  | cons {k v : Value φ} {l w : Value ψ} {es : List (Value φ × Value φ)}
      {fs : List (Value ψ × Value ψ)} :
    Related R k l → Related R v w → EntriesRelated R es fs →
      EntriesRelated R ((k, v) :: es) ((l, w) :: fs)

end

/-! ## Lists of related values -/

theorem itemsRelated_iff {xs : List (Value φ)} {ys : List (Value ψ)} :
    ItemsRelated R xs ys ↔ List.Forall₂ (Related R) xs ys := by
  constructor
  · intro h
    induction xs generalizing ys with
    | nil => cases h with | nil => exact .nil
    | cons x xs ih => cases h with | cons hx hxs => exact .cons hx (ih hxs)
  · intro h
    induction h with
    | nil => exact .nil
    | cons hx _ ih => exact .cons hx ih

theorem ItemsRelated.length_eq {xs : List (Value φ)} {ys : List (Value ψ)}
    (h : ItemsRelated R xs ys) : xs.length = ys.length := (itemsRelated_iff.mp h).length_eq

theorem ItemsRelated.reverse {xs : List (Value φ)} {ys : List (Value ψ)}
    (h : ItemsRelated R xs ys) : ItemsRelated R xs.reverse ys.reverse :=
  itemsRelated_iff.mpr (List.rel_reverse (itemsRelated_iff.mp h))

theorem ItemsRelated.append {xs xs' : List (Value φ)} {ys ys' : List (Value ψ)}
    (h : ItemsRelated R xs ys) (h' : ItemsRelated R xs' ys') :
    ItemsRelated R (xs ++ xs') (ys ++ ys') :=
  itemsRelated_iff.mpr (List.rel_append (itemsRelated_iff.mp h) (itemsRelated_iff.mp h'))

theorem ItemsRelated.isEmpty_eq {xs : List (Value φ)} {ys : List (Value ψ)}
    (h : ItemsRelated R xs ys) : xs.isEmpty = ys.isEmpty := by cases h <;> rfl

theorem EntriesRelated.isEmpty_eq {es : List (Value φ × Value φ)} {fs : List (Value ψ × Value ψ)}
    (h : EntriesRelated R es fs) : es.isEmpty = fs.isEmpty := by cases h <;> rfl

/-! ## Equality as the relation -/

theorem functionRelated_eq_iff {f g : Function φ} : Function.Related Eq f g ↔ f = g := by
  constructor
  · rintro ⟨rfl, hguard⟩
    cases hguard with
    | none => rfl
    | some h => rw [h]
  · rintro rfl
    obtain ⟨params, body, guard⟩ := f
    refine ⟨rfl, ?_⟩
    cases guard with
    | none => exact .none
    | some _ => exact .some rfl

theorem methodsRelated_eq_iff {ms ns : List (Function φ)} :
    List.Forall₂ (Function.Related Eq) ms ns ↔ ms = ns := by
  have hrel : Function.Related (φ := φ) Eq = Eq := by
    funext f g
    exact propext functionRelated_eq_iff
  rw [hrel, List.forall₂_eq_eq_eq]

mutual

theorem Related.eq {v w : Value φ} (h : Related Eq v w) : v = w :=
  match h with
  | .none => rfl
  | .boolean _ => rfl
  | .number _ => rfl
  | .text _ => rfl
  | .stream hs => by rw [hs.eq]
  | .object he hm => by rw [he.eq, methodsRelated_eq_iff.mp hm]
  | .function hf => by rw [functionRelated_eq_iff.mp hf]

theorem ItemsRelated.eq {xs ys : List (Value φ)} (h : ItemsRelated Eq xs ys) : xs = ys :=
  match h with
  | .nil => rfl
  | .cons hx hs => by rw [hx.eq, hs.eq]

theorem EntriesRelated.eq {es fs : List (Value φ × Value φ)} (h : EntriesRelated Eq es fs) :
    es = fs :=
  match h with
  | .nil => rfl
  | .cons hk hv hs => by rw [hk.eq, hv.eq, hs.eq]

end

mutual

theorem Related.rfl : (v : Value φ) → Related Eq v v
  | .none => .none
  | .boolean b => .boolean b
  | .number x => .number x
  | .text s => .text s
  | .stream xs => .stream (ItemsRelated.rfl xs)
  | .object es _ => .object (EntriesRelated.rfl es) (methodsRelated_eq_iff.mpr (Eq.refl _))
  | .function _ => .function (functionRelated_eq_iff.mpr (Eq.refl _))

theorem ItemsRelated.rfl : (xs : List (Value φ)) → ItemsRelated Eq xs xs
  | [] => .nil
  | x :: xs => .cons (Related.rfl x) (ItemsRelated.rfl xs)

theorem EntriesRelated.rfl : (es : List (Value φ × Value φ)) → EntriesRelated Eq es es
  | [] => .nil
  | (k, v) :: es => .cons (Related.rfl k) (Related.rfl v) (EntriesRelated.rfl es)

end

/-- Where bodies are related by equality, so are values. -/
theorem related_eq_iff {v w : Value φ} : Related Eq v w ↔ v = w :=
  ⟨Related.eq, fun h => h ▸ Related.rfl v⟩

/-! ## What is the same of related values -/

theorem Related.kind_eq {v : Value φ} {w : Value ψ} (h : Related R v w) : v.kind = w.kind := by
  cases h <;> rfl

theorem Related.truthy_eq {v : Value φ} {w : Value ψ} (h : Related R v w) :
    v.truthy = w.truthy := by
  cases h with
  | stream hs => exact congrArg (!·) hs.isEmpty_eq
  | object he hm =>
    have hms : ∀ {ms : List (Function φ)} {ns : List (Function ψ)},
        List.Forall₂ (Function.Related R) ms ns → ms.isEmpty = ns.isEmpty := fun h => by
      cases h <;> rfl
    simp only [truthy, he.isEmpty_eq, hms hm]
  | _ => rfl

/-! ## Text -/

theorem methodsChars_eq {ms : List (Function φ)} {ns : List (Function ψ)}
    (h : List.Forall₂ (Function.Related R) ms ns) : methodsChars ms = methodsChars ns := by
  induction h with
  | nil => rfl
  | cons hf _ ih =>
    rw [methodsChars, methodsChars, List.flatMap_cons, List.flatMap_cons, hf.toText_eq]
    exact congrArg (_ ++ ·) ih

mutual

/-- Related values have the same text. -/
theorem Related.chars_eq {v : Value φ} {w : Value ψ} (inner : Bool) (h : Related R v w) :
    v.chars inner = w.chars inner :=
  match h with
  | .none => rfl
  | .boolean _ => rfl
  | .number _ => rfl
  | .text _ => rfl
  | .stream hs => by rw [chars, chars, hs.chars_eq]
  | .object he hm => by rw [chars, chars, he.isEmpty_eq, he.chars_eq, methodsChars_eq hm]
  | .function hf => by rw [chars, chars, hf.toText_eq]

theorem ItemsRelated.chars_eq {xs : List (Value φ)} {ys : List (Value ψ)}
    (h : ItemsRelated R xs ys) : itemsChars xs = itemsChars ys :=
  match h with
  | .nil => rfl
  | .cons hx .nil => by rw [itemsChars, itemsChars, hx.chars_eq true]
  | .cons hx (.cons hy hs) => by
    have htail := (ItemsRelated.cons hy hs).chars_eq
    simp only [itemsChars, hx.chars_eq true, htail]

theorem EntriesRelated.chars_eq {es : List (Value φ × Value φ)} {fs : List (Value ψ × Value ψ)}
    (h : EntriesRelated R es fs) : entriesChars es = entriesChars fs :=
  match h with
  | .nil => rfl
  | .cons hk hv .nil => by rw [entriesChars, entriesChars, hk.chars_eq true, hv.chars_eq true]
  | .cons hk hv (.cons hl hw hs) => by
    have htail := (EntriesRelated.cons hl hw hs).chars_eq
    simp only [entriesChars, hk.chars_eq true, hv.chars_eq true, htail]

end

theorem Related.toText_eq {v : Value φ} {w : Value ψ} (h : Related R v w) : v.toText = w.toText :=
  congrArg String.ofList (h.chars_eq false)

end Value

/-! ## Equality -/

section Equality

variable [BEq φ] [BEq ψ]

/-- Bodies are equal to each other whenever the bodies related to them are. -/
def KeepsEquality (R : φ → ψ → Prop) : Prop :=
  ∀ ⦃a b c d⦄, R a b → R c d → (a == c) = (b == d)

omit [BEq ψ] in
theorem keepsEquality_eq : KeepsEquality (φ := φ) (ψ := φ) Eq := by
  rintro a b c d rfl rfl
  rfl

theorem Function.methods_beq {R : φ → ψ → Prop} (hR : KeepsEquality R)
    {ms ms' : List (Function φ)} {ns ns' : List (Function ψ)}
    (h : List.Forall₂ (Function.Related R) ms ns) (h' : List.Forall₂ (Function.Related R) ms' ns') :
    (ms == ms') = (ns == ns') := by
  induction h generalizing ms' ns' with
  | nil => cases h' <;> rfl
  | cons hf _ ih =>
    cases h' with
    | nil => rfl
    | cons hg hs =>
      have hfg := hR hf.body hg.body
      exact congr (congrArg and hfg) (ih hs)

namespace Value

mutual

theorem Related.equal_eq (hR : KeepsEquality R) {v v' : Value φ} {w w' : Value ψ}
    (h : Related R v w) (h' : Related R v' w') : equal v v' = equal w w' :=
  match h with
  | .none => by cases h' <;> rfl
  | .boolean _ => by cases h' <;> rfl
  | .number _ => by cases h' <;> rfl
  | .text _ => by cases h' <;> rfl
  | .stream hs => by
    cases h' with
    | stream hs' => rw [equal, equal, hs.equal_eq hR hs']
    | _ => rfl
  | .object he hm => by
    cases h' with
    | object he' hm' => rw [equal, equal, he.equal_eq hR he', Function.methods_beq hR hm hm']
    | _ => rfl
  | .function hf => by
    cases h' with
    | function hf' => exact hR hf.body hf'.body
    | _ => rfl

theorem ItemsRelated.equal_eq (hR : KeepsEquality R) {xs xs' : List (Value φ)}
    {ys ys' : List (Value ψ)} (h : ItemsRelated R xs ys) (h' : ItemsRelated R xs' ys') :
    equalItems xs xs' = equalItems ys ys' :=
  match h with
  | .nil => by cases h' <;> rfl
  | .cons hx hs => by
    cases h' with
    | nil => rfl
    | cons hx' hs' => rw [equalItems, equalItems, hx.equal_eq hR hx', hs.equal_eq hR hs']

theorem EntriesRelated.equal_eq (hR : KeepsEquality R) {es es' : List (Value φ × Value φ)}
    {fs fs' : List (Value ψ × Value ψ)} (h : EntriesRelated R es fs)
    (h' : EntriesRelated R es' fs') : equalEntries es es' = equalEntries fs fs' :=
  match h with
  | .nil => by cases h' <;> rfl
  | .cons hk hv hs => by
    cases h' with
    | nil => rfl
    | cons hk' hv' hs' =>
      rw [equalEntries, equalEntries, hk.equal_eq hR hk', hv.equal_eq hR hv', hs.equal_eq hR hs']

end

theorem Related.beq_eq (hR : KeepsEquality R) {v v' : Value φ} {w w' : Value ψ}
    (h : Related R v w) (h' : Related R v' w') : (v == v') = (w == w') := h.equal_eq hR h'

/-! ## Objects -/

theorem EntriesRelated.insertEntry (hR : KeepsEquality R) {es : List (Value φ × Value φ)}
    {fs : List (Value ψ × Value ψ)} {k v : Value φ} {l w : Value ψ} (h : EntriesRelated R es fs)
    (hk : Related R k l) (hv : Related R v w) :
    EntriesRelated R (Object.insertEntry k v es) (Object.insertEntry l w fs) := by
  induction es generalizing fs with
  | nil => cases h with | nil => exact .cons hk hv .nil
  | cons e es ih =>
    cases h with
    | cons hk' hv' hs =>
      rw [Object.insertEntry, Object.insertEntry, hk'.beq_eq hR hk]
      split
      · exact .cons hk' hv hs
      · exact .cons hk' hv' (ih hs)

theorem EntriesRelated.get? (hR : KeepsEquality R) {es : List (Value φ × Value φ)}
    {fs : List (Value ψ × Value ψ)} (ms : List (Function φ)) (ns : List (Function ψ))
    {k : Value φ} {l : Value ψ} (h : EntriesRelated R es fs) (hk : Related R k l) :
    Option.Rel (Related R) (Object.get? ⟨es, ms⟩ k) (Object.get? ⟨fs, ns⟩ l) := by
  induction es generalizing fs with
  | nil => cases h with | nil => exact .none
  | cons e es ih =>
    cases h with
    | cons hk' hv' hs =>
      have htail := ih hs
      unfold Object.get? at htail ⊢
      rw [List.find?_cons, List.find?_cons]
      dsimp only
      rw [hk'.beq_eq hR hk]
      split
      · exact .some hv'
      · exact htail

theorem EntriesRelated.containsKey_eq (hR : KeepsEquality R) {es : List (Value φ × Value φ)}
    {fs : List (Value ψ × Value ψ)} (ms : List (Function φ)) (ns : List (Function ψ))
    {k : Value φ} {l : Value ψ} (h : EntriesRelated R es fs) (hk : Related R k l) :
    Object.containsKey ⟨es, ms⟩ k = Object.containsKey ⟨fs, ns⟩ l := by
  have hisSome : ∀ {a : Option (Value φ)} {b : Option (Value ψ)},
      Option.Rel (Related R) a b → a.isSome = b.isSome := fun h => by cases h <;> rfl
  exact hisSome (h.get? hR ms ns hk)

omit [BEq φ] [BEq ψ] in
theorem EntriesRelated.field? {es : List (Value φ × Value φ)} {fs : List (Value ψ × Value ψ)}
    (ms : List (Function φ)) (ns : List (Function ψ)) (h : EntriesRelated R es fs) (name : String) :
    Option.Rel (Related R) (Object.field? ⟨es, ms⟩ name) (Object.field? ⟨fs, ns⟩ name) := by
  induction es generalizing fs with
  | nil => cases h with | nil => exact .none
  | cons e es ih =>
    cases h with
    | cons hk hv hs =>
      have htail := ih hs
      unfold Object.field? at htail ⊢
      rw [List.find?_cons, List.find?_cons]
      cases hk with
      | text s =>
        dsimp only
        split
        · exact .some hv
        · exact htail
      | _ => exact htail

end Value

end Equality

end Cellbook
