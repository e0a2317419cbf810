import Cellbook.Code.Builtin
import Cellbook.Proofs.Run.Safe

/-!
# Values whose functions can be called

A value fits a property of function bodies if every function in it has a body and a guard with the
property, for the number of its parameters. Since the property says of a body that it can be called with
that many arguments, calls of values that fit are safe. The operators look at no functions and make none,
so what they come to always fits; the rest of the built-in functions take values apart and put them together.

Here too is said which faults are in order (`EvalFault.Regular`). A fault that tells of a wrong number of
arguments is, if it comes from the call of a function that has another number of parameters, and one that
tells of a wrong kind is in two places: where a bound of a range is no number, and where an index is no
integer.
-/

namespace Cellbook

/-- The causes that have nothing to do with the number and the kinds of arguments, or with variables. -/
def EvalCause.isPlain : EvalCause → Bool
  | .argumentCount _ _ _ | .argumentKind _ _ _ | .unboundVariable _ => false
  | _ => true

/-- **A fault that is in order**, over function bodies `φ`. -/
inductive EvalFault.Regular (φ : Type) : EvalFault → Prop
  /-- The call of a function with the wrong number of arguments. -/
  | call (f : Function φ) {count : Nat} : count ≠ f.arity →
    Regular φ ⟨.argumentCount f.toText f.arity count, []⟩
  /-- A bound of a range that is no number. -/
  | bound {v : Value φ} : v.kind ≠ .number → Regular φ (Builtin.generate.refuse "number" v)
  /-- An index that is no integer. -/
  | index {x : Decimal} : x.toInt64? = none →
    Regular φ ⟨.argumentKind Builtin.get.name "integer" .number, []⟩
  /-- A fault of another sort. -/
  | plain {fault : EvalFault} : fault.cause.isPlain → Regular φ fault

variable {φ : Type} {B : Nat → φ → Prop} {deep : Prop}

/-- **A function that can be called**: its body and its guard have a property with the number of its
parameters. -/
inductive Function.Fits (B : Nat → φ → Prop) : Function φ → Prop
  | mk {params : List String} {body : φ} {guard : Option φ} : B params.length body →
    (∀ g ∈ guard, B params.length g) → Fits B ⟨params, body, guard⟩

/-- **A value whose functions can all be called.** -/
inductive Value.Fits (B : Nat → φ → Prop) : Value φ → Prop
  | none : Fits B .none
  | boolean (b : Bool) : Fits B (.boolean b)
  | number (x : Decimal) : Fits B (.number x)
  | text (s : String) : Fits B (.text s)
  | stream {items : List (Value φ)} : (∀ v ∈ items, Fits B v) → Fits B (.stream items)
  | object {entries : List (Value φ × Value φ)} {methods : List (Function φ)} :
    (∀ e ∈ entries, Fits B e.1) → (∀ e ∈ entries, Fits B e.2) → (∀ f ∈ methods, f.Fits B) →
    Fits B (.object entries methods)
  | function {f : Function φ} : f.Fits B → Fits B (.function f)

namespace Function.Fits

variable {f g : Function φ}

theorem body (h : f.Fits B) : B f.arity f.body := by
  cases h with
  | mk h _ => exact h

theorem guard (h : f.Fits B) {c : φ} (hc : f.guard = some c) : B f.arity c := by
  cases h with
  | mk _ h => exact h c hc

/-- A guard of as many parameters may be put on a function. -/
theorem withGuard (hf : f.Fits B) (hg : g.Fits B) (h : g.arity = f.arity) : (f.withGuard g).Fits B := by
  refine .mk hf.body fun c hc => ?_
  obtain rfl := Option.some.inj hc
  have hbody : B g.arity g.body := hg.body
  rwa [h] at hbody

end Function.Fits

theorem Function.Fits.mono {B' : Nat → φ → Prop} (hB : ∀ n c, B n c → B' n c) {f : Function φ}
    (h : f.Fits B) : f.Fits B' := by
  cases h with
  | mk hbody hguard => exact .mk (hB _ _ hbody) fun g hg => hB _ _ (hguard g hg)

theorem Value.Fits.mono {B' : Nat → φ → Prop} (hB : ∀ n c, B n c → B' n c) {v : Value φ}
    (h : v.Fits B) : v.Fits B' := by
  induction h with
  | none => exact .none
  | boolean b => exact .boolean b
  | number x => exact .number x
  | text s => exact .text s
  | stream _ ih => exact .stream ih
  | object _ _ hmethods ihkeys ihvalues =>
    exact .object ihkeys ihvalues fun f hf => (hmethods f hf).mono hB
  | function hf => exact .function (hf.mono hB)

namespace Value

/-- **An operation whose result fits**, or that fails in order. -/
abbrev Comes (B : Nat → φ → Prop) (x : Except EvalFault (Value φ)) : Prop :=
  EndsIn (EvalFault.Regular φ) (Fits B) x

/-! ## Operators -/

section Broadcast

variable {meets : Kind → Bool} {refuse : Value φ → Value φ → EvalFault}

mutual

theorem mapSingles_comes {f : Value φ → Except EvalFault (Value φ)} (hf : ∀ v, Comes B (f v)) :
    (v : Value φ) → Comes B (mapSingles f v)
  | .stream items => by
    rw [mapSingles]
    exact (mapItems_ends hf items (by simp)).bind fun _ h => .ok (.stream h)
  | .none => hf .none
  | .boolean b => hf (.boolean b)
  | .number x => hf (.number x)
  | .text s => hf (.text s)
  | .object entries methods => hf (.object entries methods)
  | .function f => hf (.function f)

theorem mapItems_ends {f : Value φ → Except EvalFault (Value φ)} (hf : ∀ v, Comes B (f v)) :
    (items : List (Value φ)) → {done : List (Value φ)} → (∀ v ∈ done, v.Fits B) →
    EndsIn (EvalFault.Regular φ) (fun vs => ∀ v ∈ vs, v.Fits B) (mapItems f items done)
  | [], _, hdone => by
    rw [mapItems]
    exact .ok fun v hv => hdone v (List.mem_reverse.mp hv)
  | v :: vs, _, hdone => by
    rw [mapItems]
    exact (mapSingles_comes hf v).bind fun _ h => mapItems_ends hf vs (List.forall_mem_cons.mpr ⟨h, hdone⟩)

end

/-- A single value on the left meets a value: each element, if that is a stream. -/
theorem single_broadcast_comes {f : Value φ → Value φ → Except EvalFault (Value φ)}
    (hrefuse : ∀ x y, (refuse x y).Regular φ) (hf : ∀ x y, Comes B (f x y)) (x y : Value φ) :
    Comes B (if y.isStream && !meets x.kind then throw (refuse x y) else mapSingles (f x) y) := by
  split
  · exact .error (hrefuse x y)
  · exact mapSingles_comes (hf x) y

/-- A single value on the right meets each element of a stream. -/
theorem stream_broadcast_comes {f : Value φ → Value φ → Except EvalFault (Value φ)}
    (hrefuse : ∀ x y, (refuse x y).Regular φ) (hf : ∀ x y, Comes B (f x y)) (xs : List (Value φ))
    (y : Value φ) :
    Comes B (if meets y.kind then mapSingles (f · y) (.stream xs) else throw (refuse (.stream xs) y)) := by
  split
  · exact mapSingles_comes (fun x => hf x y) _
  · exact .error (hrefuse _ y)

mutual

theorem broadcast_comes {f : Value φ → Value φ → Except EvalFault (Value φ)}
    (hrefuse : ∀ x y, (refuse x y).Regular φ) (hf : ∀ x y, Comes B (f x y)) :
    (x y : Value φ) → Comes B (broadcast meets refuse f x y)
  | .stream xs, .stream ys => by
    simp only [broadcast]
    split
    · exact (broadcastItems_ends hrefuse hf xs ys (by simp)).bind fun _ h => .ok (.stream h)
    · exact .error (.plain rfl)
  | .stream xs, .none => stream_broadcast_comes hrefuse hf xs .none
  | .stream xs, .boolean b => stream_broadcast_comes hrefuse hf xs (.boolean b)
  | .stream xs, .number a => stream_broadcast_comes hrefuse hf xs (.number a)
  | .stream xs, .text s => stream_broadcast_comes hrefuse hf xs (.text s)
  | .stream xs, .object es ms => stream_broadcast_comes hrefuse hf xs (.object es ms)
  | .stream xs, .function g => stream_broadcast_comes hrefuse hf xs (.function g)
  | .none, y => single_broadcast_comes hrefuse hf .none y
  | .boolean b, y => single_broadcast_comes hrefuse hf (.boolean b) y
  | .number a, y => single_broadcast_comes hrefuse hf (.number a) y
  | .text s, y => single_broadcast_comes hrefuse hf (.text s) y
  | .object es ms, y => single_broadcast_comes hrefuse hf (.object es ms) y
  | .function g, y => single_broadcast_comes hrefuse hf (.function g) y

theorem broadcastItems_ends {f : Value φ → Value φ → Except EvalFault (Value φ)}
    (hrefuse : ∀ x y, (refuse x y).Regular φ) (hf : ∀ x y, Comes B (f x y)) :
    (xs ys : List (Value φ)) → {done : List (Value φ)} → (∀ v ∈ done, v.Fits B) →
    EndsIn (EvalFault.Regular φ) (fun vs => ∀ v ∈ vs, v.Fits B) (broadcastItems meets refuse f xs ys done)
  | x :: xs, y :: ys, _, hdone => by
    rw [broadcastItems]
    exact (broadcast_comes hrefuse hf x y).bind fun _ h =>
      broadcastItems_ends hrefuse hf xs ys (List.forall_mem_cons.mpr ⟨h, hdone⟩)
  | [], _, _, hdone => by
    rw [broadcastItems]
    · exact .ok fun v hv => hdone v (List.mem_reverse.mp hv)
    · simp
  | _ :: _, [], _, hdone => by
    rw [broadcastItems]
    · exact .ok fun v hv => hdone v (List.mem_reverse.mp hv)
    · simp

end

end Broadcast

theorem refuse_regular (op : BinaryOp) (x y : Value φ) : (op.refuse x y).Regular φ := .plain rfl

theorem ofResult_comes (result : Except Decimal.Fault Decimal) : Comes B (ofResult result) := by
  cases result with
  | ok x => exact .ok (.number x)
  | error fault => exact .error (.plain rfl)

theorem applySingles_comes (settings : Settings) (op : BinaryOp) (x y : Value φ) :
    Comes B (applySingles settings op x y) := by
  unfold applySingles applyNumbers
  split
  · split
    · exact ofResult_comes _
    · exact .ok (.boolean _)
    · exact .error (refuse_regular op _ _)
  · split
    · split
      · exact .ok (.text _)
      · exact .error (refuse_regular .add _ _)
    · split
      · exact .ok (.boolean _)
      · exact .error (refuse_regular op _ _)
    · exact .error (refuse_regular op _ _)

/-- **What an operator comes to fits**, whatever its operands are. -/
theorem binary_comes [BEq φ] (settings : Settings) (op : BinaryOp) (x y : Value φ) :
    Comes B (binary settings op x y) := by
  unfold binary
  split
  · exact .ok (.boolean _)
  · split
    · exact .ok (.boolean _)
    · exact .error (refuse_regular _ x y)
  · split
    · exact .ok (.boolean _)
    · exact .error (refuse_regular _ x y)
  · exact broadcast_comes (refuse_regular _) (fun _ _ => .ok (.boolean _)) x y
  · exact broadcast_comes (refuse_regular _) (fun _ _ => .ok (.boolean _)) x y
  · exact broadcast_comes (refuse_regular _) (fun _ _ => .ok (.boolean _)) x y
  · exact broadcast_comes (refuse_regular _) (fun _ _ => .ok (.boolean _)) x y
  · exact broadcast_comes (refuse_regular _) (applySingles_comes settings _) x y

theorem unary_comes (op : UnaryOp) (x : Value φ) : Comes B (unary op x) := by
  refine mapSingles_comes (fun v => ?_) x
  unfold applySingle
  split
  · exact .ok (.number _)
  · exact .error (.plain rfl)
  · exact .ok (.boolean _)

/-! ## Parts of values -/

/-- What holds of the keys and the values of an object holds still when an entry is put into it. -/
theorem forall_insertEntry [BEq φ] {P Q : Value φ → Prop} {key value : Value φ} (hkey : P key)
    (hvalue : Q value) {entries : List (Value φ × Value φ)} (h : ∀ e ∈ entries, P e.1 ∧ Q e.2) :
    ∀ e ∈ Object.insertEntry key value entries, P e.1 ∧ Q e.2 := by
  induction entries with
  | nil => exact List.forall_mem_singleton.mpr ⟨hkey, hvalue⟩
  | cons entry entries ih =>
    obtain ⟨hentry, hentries⟩ := List.forall_mem_cons.mp h
    rw [Object.insertEntry]
    split
    · exact List.forall_mem_cons.mpr ⟨⟨hentry.1, hvalue⟩, hentries⟩
    · exact List.forall_mem_cons.mpr ⟨hentry, ih hentries⟩

theorem Fits.insert [BEq φ] {entries : List (Value φ × Value φ)} {methods : List (Function φ)}
    (h : Fits B (.object entries methods)) {key value : Value φ} (hkey : key.Fits B)
    (hvalue : value.Fits B) :
    Fits B (.object (Object.insertEntry key value entries) methods) := by
  cases h with
  | object hkeys hvalues hmethods =>
    have hentries := forall_insertEntry hkey hvalue fun e he => ⟨hkeys e he, hvalues e he⟩
    exact .object (fun e he => (hentries e he).1) (fun e he => (hentries e he).2) hmethods

theorem Fits.define {entries : List (Value φ × Value φ)} {methods : List (Function φ)} {f : Function φ}
    (h : Fits B (.object entries methods)) (hf : Fits B (.function f)) :
    Fits B (.object entries (methods ++ [f])) := by
  cases h with
  | object hkeys hvalues hmethods =>
    cases hf with
    | function hf =>
      refine .object hkeys hvalues fun g hg => ?_
      rcases List.mem_append.mp hg with hg | hg
      · exact hmethods g hg
      · exact List.mem_singleton.mp hg ▸ hf

/-- The value of an entry that was found. -/
theorem Fits.entry {entries : List (Value φ × Value φ)} {methods : List (Function φ)}
    (h : Fits B (.object entries methods)) {p : Value φ × Value φ → Bool} {v : Value φ}
    (hv : (entries.find? p).map (·.2) = some v) : v.Fits B := by
  cases h with
  | object _ hvalues _ =>
    obtain ⟨e, he, rfl⟩ := Option.map_eq_some_iff.mp hv
    exact hvalues e (List.mem_of_find?_eq_some he)

theorem Fits.member {target : Value φ} (h : target.Fits B) (name : String) :
    Comes B (target.member name) := by
  unfold Value.member
  split
  · split
    next v hv => exact .ok (h.entry hv)
    next => exact .error (.plain rfl)
  · exact .error (.plain rfl)

theorem elementAt_ends (φ : Type) {α : Type} (items : List α) (index : Int) :
    EndsIn (EvalFault.Regular φ) (· ∈ items) (elementAt items index) := by
  unfold elementAt
  dsimp only
  generalize (if index < 0 then (items.length : Int) + index else index) = position
  split
  next item hitem =>
    split at hitem
    · cases hitem
    · exact .ok (List.mem_of_getElem? hitem)
  next => exact .error (.plain rfl)

theorem toIndex_ends (φ : Type) (x : Decimal) :
    EndsIn (EvalFault.Regular φ) (fun _ => True) (toIndex x) := by
  unfold toIndex
  split
  next => exact .ok trivial
  next hx => exact .error (.index hx)

theorem mem_of_mem_keepMarked {α : Type} {items : List α} {marks : List (Value φ)} {item : α}
    (h : item ∈ keepMarked items marks) : item ∈ items := by
  obtain ⟨⟨item', mark⟩, hmem, hitem⟩ := List.mem_filterMap.mp h
  dsimp only at hitem
  split at hitem
  · exact Option.some.inj hitem ▸ (List.of_mem_zip hmem).1
  · cases hitem

/-! ## Calls -/

/-- **Calls that are safe**, of bodies with a property, with as many arguments as it says. -/
def InvokeSafe (B : Nat → φ → Prop) (deep : Prop)
    (other invoke : φ → List (Value φ) → Run (Value φ)) : Prop :=
  ∀ ⦃c : φ⦄ ⦃args : List (Value φ)⦄, B args.length c → (∀ v ∈ args, v.Fits B) →
    Run.Safe (EvalFault.Regular φ) deep (Fits B) (other c args) (invoke c args)

section Calls

open Run

variable {other invoke : φ → List (Value φ) → Run (Value φ)} (hinv : InvokeSafe B deep other invoke)
  {args : List (Value φ)} (hargs : ∀ v ∈ args, v.Fits B)

include hinv hargs

/-- A function that accepts arguments takes as many. -/
theorem accepts_safe {f : Function φ} (hf : f.Fits B) :
    Safe (EvalFault.Regular φ) deep (fun (accepted : Bool) => accepted = true → args.length = f.arity)
      (accepts other f args) (accepts invoke f args) := by
  unfold accepts
  split
  next => exact .pure nofun
  next hlength =>
    have hlength : args.length = f.arity := Decidable.not_not.mp hlength
    split
    next => exact .pure fun _ => hlength
    next c hc =>
      have hguard : B args.length c := hlength ▸ hf.guard hc
      exact (hinv hguard hargs).bind fun _ _ => .pure fun _ => hlength

theorem callFirst_safe {methods : List (Function φ)} (hmethods : ∀ f ∈ methods, f.Fits B) :
    Safe (EvalFault.Regular φ) deep (Fits B) (callFirst other args methods) (callFirst invoke args methods) := by
  induction methods with
  | nil => exact .fail (.plain rfl)
  | cons f methods ih =>
    obtain ⟨hf, hmethods⟩ := List.forall_mem_cons.mp hmethods
    rw [callFirst, callFirst]
    refine (accepts_safe hinv hargs hf).bind fun accepted hlength => ?_
    cases accepted with
    | false => exact ih hmethods
    | true =>
      have hbody : B args.length f.body := hlength rfl ▸ hf.body
      exact hinv hbody hargs

/-- **A call of a value that fits.** -/
theorem call_safe {callee : Value φ} (h : callee.Fits B) :
    Safe (EvalFault.Regular φ) deep (Fits B) (call other callee args) (call invoke callee args) := by
  cases h with
  | function hf =>
    rw [call, call]
    split
    next hlength => exact .fail (.call _ hlength)
    next =>
      refine (accepts_safe hinv hargs hf).bind fun accepted hlength => ?_
      cases accepted with
      | false => exact .fail (.plain rfl)
      | true =>
        have hbody := hf.body
        rw [← hlength rfl] at hbody
        exact hinv hbody hargs
  | object _ _ hmethods => exact callFirst_safe hinv hargs hmethods
  | _ => exact .fail (.plain rfl)

end Calls

section Index

open Run

variable {other invoke : φ → List (Value φ) → Run (Value φ)} (hinv : InvokeSafe B deep other invoke)

include hinv

/-- The elements that a callee accepts. -/
theorem filter_safe {callee : Value φ} (h : callee.Fits B) {items : List (Value φ)}
    (hitems : ∀ v ∈ items, v.Fits B) :
    Safe (EvalFault.Regular φ) deep (Fits B)
      (do return .stream (← items.filterM fun item => return (← call other callee [item]).truthy))
      (do return .stream (← items.filterM fun item => return (← call invoke callee [item]).truthy)) := by
  refine (Safe.filterM hitems fun item hitem => ?_).bind fun _ hkept => .pure (.stream hkept)
  exact (call_safe hinv (List.forall_mem_singleton.mpr (hitems item hitem)) h).bind fun _ _ => .pure trivial

theorem index_safe [BEq φ] {target key : Value φ} (htarget : target.Fits B) (hkey : key.Fits B) :
    Safe (EvalFault.Regular φ) deep (Fits B) (index other target key) (index invoke target key) := by
  unfold index
  split
  next items x =>
    cases htarget with
    | stream hitems =>
      exact (Safe.ofExcept (toIndex_ends φ x)).bind fun i _ =>
        .ofExcept ((elementAt_ends φ items i).mono hitems)
  next items marks =>
    cases htarget with
    | stream hitems =>
      split
      · exact .fail (.plain rfl)
      · exact .pure (.stream fun v hv => hitems v (mem_of_mem_keepMarked hv))
  next items f =>
    cases htarget with
    | stream hitems => exact filter_safe hinv hkey hitems
  next items entries methods =>
    cases htarget with
    | stream hitems => exact filter_safe hinv hkey hitems
  next entries methods =>
    split
    next v hv => exact .pure (htarget.entry hv)
    next => exact .fail (.plain rfl)
  next s x =>
    exact (Safe.ofExcept (toIndex_ends φ x)).bind fun i _ =>
      (Safe.ofExcept (elementAt_ends φ s.toList i)).bind fun _ _ => .pure (.text _)
  next => exact .fail (.plain rfl)

end Index

end Value

end Cellbook
