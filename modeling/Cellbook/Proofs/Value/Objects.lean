import Mathlib.Data.List.Induction
import Cellbook.Code.Builtin
import Cellbook.Proofs.Value.Equality

/-!
# Objects are maps in order of insertion

An object is made by calls that put a value under a key or add a method. Whatever these calls are and in whatever
order, the object has each key once and where it was inserted first, under it the value that was inserted last, and
the methods in order (`Object.IsMap`). The invariant is kept by each call, and it speaks of what was inserted only
through two functions on lists: which keys come first, and which value comes last (`lastValue?`).

Keys are compared as values, so that all of it rests on equality of values being an equivalence. Every way of looking
for a key then comes to the entry that is there (`Object.Lookups`).
-/

namespace Cellbook

/-! ## Firsts of a list -/

section Firsts

variable {α : Type} [BEq α] [PartialEquivBEq α]

/-- What is equal to an element is no less left out with the elements that are equal to a different one. -/
theorem any_filter_ne {a b : α} (h : (b == a) = false) (as : List α) :
    (as.filter fun c => !c == b).any (· == a) = as.any (· == a) := by
  rw [List.any_filter]
  refine List.any_congr rfl fun c => ?_
  cases hc : c == a with
  | false => rw [Bool.and_false]
  | true => rw [BEq.congr_left hc, BEq.comm, h]; rfl

/-- One more element is a new one unless an equal one is there. -/
theorem eraseDups_concat (as : List α) (a : α) :
    (as ++ [a]).eraseDups = if as.any (· == a) then as.eraseDups else as.eraseDups ++ [a] := by
  induction h : as.length using Nat.strong_induction_on generalizing as with
  | _ n ih =>
    cases as with
    | nil => rfl
    | cons b as =>
      rw [List.cons_append, List.eraseDups_cons, List.filter_append, List.any_cons, List.eraseDups_cons]
      cases hab : b == a with
      | true => simp [BEq.symm hab]
      | false =>
        have hba : (a == b) = false := by rw [BEq.comm, hab]
        have hlt : (as.filter fun c => !c == b).length < n := by
          have := List.length_filter_le (fun c => !c == b) as
          rw [List.length_cons] at h
          omega
        simp only [List.filter_singleton, hba, Bool.not_false, cond_true, ih _ hlt _ rfl, any_filter_ne hab,
          Bool.false_or]
        split <;> rfl

theorem mem_of_mem_eraseDups {as : List α} {a : α} (h : a ∈ as.eraseDups) : a ∈ as := by
  induction as using List.reverseRecOn with
  | nil => exact h
  | append_singleton as b ih =>
    rw [eraseDups_concat] at h
    split at h
    · exact List.mem_append_left _ (ih h)
    · rcases List.mem_append.mp h with h | h
      · exact List.mem_append_left _ (ih h)
      · exact List.mem_append_right _ h

/-- No two of the elements that are left are equal. -/
theorem pairwise_eraseDups (as : List α) : as.eraseDups.Pairwise fun a b => (a == b) = false := by
  induction as using List.reverseRecOn with
  | nil => exact .nil
  | append_singleton as b ih =>
    rw [eraseDups_concat]
    split
    next => exact ih
    next hnew =>
      refine List.pairwise_append.mpr ⟨ih, List.pairwise_singleton _ _, fun a ha c hc => ?_⟩
      obtain rfl := List.mem_singleton.mp hc
      have hall := List.any_eq_false.mp (Bool.eq_false_iff.mpr hnew) a (mem_of_mem_eraseDups ha)
      exact Bool.eq_false_iff.mpr hall

end Firsts

namespace Object

variable {φ : Type} [BEq φ]

/-! ## Entries -/

theorem get?_eq_find (o : Object φ) (key : Value φ) : o.get? key = (o.entries.find? (·.1 == key)).map (·.2) := rfl

theorem map_fst_insertEntry (key value : Value φ) (entries : List (Value φ × Value φ)) :
    (insertEntry key value entries).map (·.1) =
      if (entries.map (·.1)).any (· == key) then entries.map (·.1) else entries.map (·.1) ++ [key] := by
  induction entries with
  | nil => rfl
  | cons e entries ih =>
    rw [insertEntry, List.map_cons, List.any_cons]
    cases h : e.1 == key with
    | true => simp
    | false =>
      simp only [Bool.false_eq_true, if_false, Bool.false_or, List.map_cons, ih]
      split <;> rfl

/-- What is found after an insertion: the new value under an equal key, and under any other key what was there. -/
theorem get?_insert [EquivBEq φ] (o : Object φ) (key value other : Value φ) :
    (o.insert key value).get? other = if key == other then some value else o.get? other := by
  obtain ⟨entries, methods⟩ := o
  rw [get?_eq_find, get?_eq_find, insert]
  induction entries with
  | nil => cases h : key == other <;> simp [insertEntry, h]
  | cons e entries ih =>
    rw [insertEntry]
    cases hkey : e.1 == key with
    | true =>
      rw [if_pos rfl, List.find?_cons, List.find?_cons, BEq.congr_left hkey]
      cases key == other <;> rfl
    | false =>
      rw [if_neg Bool.false_ne_true, List.find?_cons, List.find?_cons]
      cases hother : e.1 == other with
      | true =>
        have hne : (key == other) = false := by rw [BEq.comm, ← BEq.congr_left hother, hkey]
        simp [hne]
      | false => exact ih

theorem isSome_get? (o : Object φ) (key : Value φ) : (o.get? key).isSome = o.entries.any (·.1 == key) := by
  rw [get?_eq_find, Option.isSome_map, List.isSome_find?]

/-- Where no two keys are equal each entry is the one that is found under its key. -/
theorem get?_of_mem [EquivBEq φ] {o : Object φ} (h : o.entries.Pairwise fun e e' => (e.1 == e'.1) = false)
    {e : Value φ × Value φ} (he : e ∈ o.entries) : o.get? e.1 = some e.2 := by
  rw [get?_eq_find]
  generalize o.entries = entries at h he ⊢
  induction h with
  | nil => cases he
  | @cons first rest hfirst _ ih =>
    rcases List.mem_cons.mp he with rfl | he
    · simp
    · rw [List.find?_cons_of_neg (by rw [hfirst e he]; exact Bool.false_ne_true)]
      exact ih he

/-- A text as a key is compared as a text. -/
theorem field?_eq_get? (o : Object φ) (name : String) : o.field? name = o.get? (.text name) := by
  rw [field?, get?]
  congr 2
  funext ⟨key, value⟩
  cases key <;> rfl

/-- Under the name that a value is put under it is found. -/
theorem field?_insert_self [EquivBEq φ] (o : Object φ) (name : String) (v : Value φ) :
    (o.insert (.text name) v).field? name = some v := by
  rw [field?_eq_get?, get?_insert, if_pos BEq.rfl]

/-- Under every other name what was there is found. -/
theorem field?_insert_of_ne [EquivBEq φ] (o : Object φ) {name other : String} (h : other ≠ name) (v : Value φ) :
    (o.insert (.text other) v).field? name = o.field? name := by
  have hne : ((.text other : Value φ) == .text name) = false := beq_false_of_ne (α := String) h
  rw [field?_eq_get?, get?_insert, hne, if_neg Bool.false_ne_true, field?_eq_get?]

/-! ## What an object keeps of its calls -/

/-- The value that was inserted last under a key. -/
def lastValue? (inserted : List (Value φ × Value φ)) (key : Value φ) : Option (Value φ) :=
  (inserted.reverse.find? (·.1 == key)).map (·.2)

theorem lastValue?_concat (inserted : List (Value φ × Value φ)) (key value other : Value φ) :
    lastValue? (inserted ++ [(key, value)]) other = if key == other then some value else lastValue? inserted other := by
  rw [lastValue?, List.reverse_concat, List.find?_cons]
  cases key == other <;> rfl

theorem isSome_lastValue? (inserted : List (Value φ × Value φ)) (key : Value φ) :
    (lastValue? inserted key).isSome = (inserted.map (·.1)).any (· == key) := by
  rw [lastValue?, Option.isSome_map, List.isSome_find?, List.any_reverse, List.any_map]
  rfl

/-- What an object keeps of what was inserted and what was defined. -/
structure Keeps (inserted : List (Value φ × Value φ)) (defined : List (Function φ)) (o : Object φ) : Prop where
  keys : o.entries.map (·.1) = (inserted.map (·.1)).eraseDups
  get?_eq : ∀ key, o.get? key = lastValue? inserted key
  methods : o.methods = defined

theorem keeps_empty : Keeps [] [] (empty : Object φ) := ⟨rfl, fun _ => rfl, rfl⟩

theorem Keeps.insert [EquivBEq φ] {inserted : List (Value φ × Value φ)} {defined : List (Function φ)} {o : Object φ}
    (h : o.Keeps inserted defined) (key value : Value φ) :
    (o.insert key value).Keeps (inserted ++ [(key, value)]) defined where
  keys := by
    have hany : (o.entries.map (·.1)).any (· == key) = (inserted.map (·.1)).any (· == key) :=
      calc (o.entries.map (·.1)).any (· == key) = (o.get? key).isSome := by rw [isSome_get?, List.any_map]; rfl
        _ = (lastValue? inserted key).isSome := by rw [h.get?_eq]
        _ = (inserted.map (·.1)).any (· == key) := isSome_lastValue? inserted key
    rw [List.map_append, List.map_singleton, eraseDups_concat, ← hany, ← h.keys]
    exact map_fst_insertEntry key value o.entries
  get?_eq other := by rw [get?_insert, lastValue?_concat, h.get?_eq]
  methods := h.methods

theorem Keeps.define {inserted : List (Value φ × Value φ)} {defined : List (Function φ)} {o : Object φ}
    (h : o.Keeps inserted defined) (f : Function φ) : (o.define f).Keeps inserted (defined ++ [f]) where
  keys := h.keys
  get?_eq := h.get?_eq
  methods := congrArg (· ++ [f]) h.methods

/-! ## Calls -/

end Object

/-- A call that puts something into an object. -/
inductive ObjectCall (φ : Type) where
  | insert (key value : Value φ)
  | define (f : Function φ)

namespace ObjectCall

variable {φ : Type} [BEq φ]

/-- The key and the value that a call inserts. -/
def inserted? : ObjectCall φ → Option (Value φ × Value φ)
  | .insert key value => some (key, value)
  | .define _ => none

/-- The function that a call defines. -/
def defined? : ObjectCall φ → Option (Function φ)
  | .insert _ _ => none
  | .define f => some f

/-- The call as it is made on a value. -/
def run (invoke : φ → List (Value φ) → Run (Value φ)) (settings : Settings) (target : Value φ) :
    ObjectCall φ → Run (Value φ)
  | .insert key value => Builtin.apply invoke settings .insert [target, key, value]
  | .define f => Builtin.apply invoke settings .define [target, .function f]

/-- **An object made by calls**, one after the other from an empty one. -/
def runAll (invoke : φ → List (Value φ) → Run (Value φ)) (settings : Settings) (calls : List (ObjectCall φ)) :
    Run (Value φ) := do
  calls.foldlM (ObjectCall.run invoke settings) (← Builtin.apply invoke settings .map [])

/-- A call on an object makes another object of it. -/
theorem run_keeps [EquivBEq φ] (invoke : φ → List (Value φ) → Run (Value φ)) (settings : Settings)
    {inserted : List (Value φ × Value φ)} {defined : List (Function φ)} {o : Object φ} (h : o.Keeps inserted defined)
    (c : ObjectCall φ) : ∃ o' : Object φ, c.run invoke settings o.toValue = pure o'.toValue ∧
      o'.Keeps (inserted ++ c.inserted?.toList) (defined ++ c.defined?.toList) := by
  cases c with
  | insert key value => exact ⟨o.insert key value, rfl, by simpa [inserted?, defined?] using h.insert key value⟩
  | define f => exact ⟨o.define f, rfl, by simpa [inserted?, defined?] using h.define f⟩

theorem foldlM_run_keeps [EquivBEq φ] (invoke : φ → List (Value φ) → Run (Value φ)) (settings : Settings)
    {inserted : List (Value φ × Value φ)} {defined : List (Function φ)} {o : Object φ} (h : o.Keeps inserted defined)
    (calls : List (ObjectCall φ)) :
    ∃ o' : Object φ, calls.foldlM (ObjectCall.run invoke settings) o.toValue = pure o'.toValue ∧
      o'.Keeps (inserted ++ calls.filterMap inserted?) (defined ++ calls.filterMap defined?) := by
  induction calls generalizing o inserted defined with
  | nil => exact ⟨o, rfl, by simpa using h⟩
  | cons c calls ih =>
    obtain ⟨o₁, hrun, h₁⟩ := run_keeps invoke settings h c
    obtain ⟨o₂, hrest, h₂⟩ := ih h₁
    refine ⟨o₂, by rw [List.foldlM_cons, hrun, pure_bind, hrest], ?_⟩
    cases c <;> simpa [inserted?, defined?, List.filterMap_cons] using h₂

end ObjectCall

namespace Object

variable {φ : Type} [BEq φ]

/-- **A map in order of insertion**: what an object is, given what was inserted and what was defined, in order. -/
structure IsMap (inserted : List (Value φ × Value φ)) (defined : List (Function φ)) (o : Object φ) : Prop where
  distinct : o.entries.Pairwise fun e e' => (e.1 == e'.1) = false
  keys : o.entries.map (·.1) = (inserted.map (·.1)).eraseDups
  values : ∀ e ∈ o.entries, lastValue? inserted e.1 = some e.2
  methods : o.methods = defined

/-- **What looking into an object finds**: every way comes to the entry that is there. -/
structure Lookups (invoke : φ → List (Value φ) → Run (Value φ)) (settings : Settings) (o : Object φ) : Prop where
  isIn : ∀ key, Builtin.apply invoke settings (.binary .isIn) [key, o.toValue] =
    pure (.boolean (o.entries.any (·.1 == key)))
  get : ∀ key, Builtin.apply invoke settings .get [o.toValue, key] =
    match o.entries.find? (·.1 == key) with
    | some e => pure e.2
    | none => Run.fail (.undefinedField key.toText)
  attr : ∀ name, Builtin.apply invoke settings .attr [o.toValue, .text name] =
    Builtin.apply invoke settings .get [o.toValue, .text name]

theorem Keeps.isMap [EquivBEq φ] {inserted : List (Value φ × Value φ)} {defined : List (Function φ)} {o : Object φ}
    (h : o.Keeps inserted defined) : o.IsMap inserted defined := by
  have hdistinct : o.entries.Pairwise fun e e' => (e.1 == e'.1) = false := by
    rw [← List.pairwise_map (f := Prod.fst) (R := fun k k' => (k == k') = false), h.keys]
    exact pairwise_eraseDups _
  exact ⟨hdistinct, h.keys, fun e he => by rw [← h.get?_eq, get?_of_mem hdistinct he], h.methods⟩

theorem lookups (invoke : φ → List (Value φ) → Run (Value φ)) (settings : Settings) (o : Object φ) :
    o.Lookups invoke settings where
  isIn key := by
    rw [← isSome_get?]
    rfl
  get key := by
    show Value.index invoke (.object o.entries o.methods) key = _
    rw [Value.index, get?_eq_find]
    cases o.entries.find? (·.1 == key) <;> rfl
  attr name := by
    have hname : (Value.text name : Value φ).toText = name := String.ofList_toList
    show Run.ofExcept (Value.member (.object o.entries o.methods) name) =
      Value.index invoke (.object o.entries o.methods) (.text name)
    rw [Value.member, Value.index, field?_eq_get?, hname]
    cases o.get? (.text name) <;> rfl

end Object

/-- **Objects are maps in order of insertion**, whatever calls make them. -/
theorem ObjectCall.runAll_isMap (invoke : Closure → List (Value Closure) → Run (Value Closure)) (settings : Settings)
    (calls : List (ObjectCall Closure)) :
    ∃ o : Object Closure, runAll invoke settings calls = pure o.toValue ∧
      o.IsMap (calls.filterMap inserted?) (calls.filterMap defined?) ∧ o.Lookups invoke settings := by
  obtain ⟨o, hrun, hkeeps⟩ := foldlM_run_keeps invoke settings Object.keeps_empty calls
  exact ⟨o, hrun, hkeeps.isMap, o.lookups invoke settings⟩

end Cellbook
