import Cellbook.Proofs.Run.Refines
import Cellbook.Proofs.Value.Related
import Cellbook.Value.Apply

/-!
# Operators on related values

An operator looks at its operands no deeper than functions, so on related operands it comes to related
results or to the same fault. The laws follow the definitions: streams are gone through by induction on how
their items are related, and what is done to single values is a parameter.
-/

namespace Cellbook

variable {φ ψ : Type} {R : φ → ψ → Prop}

namespace Value

/-! ## Broadcasting -/

mutual

theorem Related.mapSingles_agree {f : Value φ → Except EvalFault (Value φ)}
    {g : Value ψ → Except EvalFault (Value ψ)}
    (hfg : ∀ v w, Related R v w → Agree (Related R) (f v) (g w)) {v : Value φ} {w : Value ψ}
    (h : Related R v w) : Agree (Related R) (mapSingles f v) (mapSingles g w) :=
  match h with
  | .stream hs => by
    rw [mapSingles, mapSingles]
    exact (hs.mapItems_agree hfg .nil).bind fun _ _ h => .ok (.stream h)
  | .none => hfg _ _ .none
  | .boolean b => hfg _ _ (.boolean b)
  | .number x => hfg _ _ (.number x)
  | .text s => hfg _ _ (.text s)
  | .object he hm => hfg _ _ (.object he hm)
  | .function hf => hfg _ _ (.function hf)

theorem ItemsRelated.mapItems_agree {f : Value φ → Except EvalFault (Value φ)}
    {g : Value ψ → Except EvalFault (Value ψ)}
    (hfg : ∀ v w, Related R v w → Agree (Related R) (f v) (g w)) {xs done : List (Value φ)}
    {ys done' : List (Value ψ)} (h : ItemsRelated R xs ys) (hdone : ItemsRelated R done done') :
    Agree (ItemsRelated R) (mapItems f xs done) (mapItems g ys done') :=
  match h with
  | .nil => by
    rw [mapItems, mapItems]
    exact .ok hdone.reverse
  | .cons hv hs => by
    rw [mapItems, mapItems]
    exact (hv.mapSingles_agree hfg).bind fun _ _ h => hs.mapItems_agree hfg (.cons h hdone)

end

theorem Related.isStream_eq {v : Value φ} {w : Value ψ} (h : Related R v w) :
    v.isStream = w.isStream := by cases h <;> rfl

section Broadcast

variable {meets : Kind → Bool} {refuse : Value φ → Value φ → EvalFault}
  {refuse' : Value ψ → Value ψ → EvalFault} {f : Value φ → Value φ → Except EvalFault (Value φ)}
  {g : Value ψ → Value ψ → Except EvalFault (Value ψ)}

/-- A single value on the left meets a value: each element, if that is a stream. -/
theorem single_broadcast_agree {x y : Value φ} {x' y' : Value ψ}
    (hrefuse : ∀ v w v' w', Related R v w → Related R v' w' → refuse v v' = refuse' w w')
    (hfg : ∀ v w v' w', Related R v w → Related R v' w' → Agree (Related R) (f v v') (g w w'))
    (hx : Related R x x') (hy : Related R y y') :
    Agree (Related R)
      (if y.isStream && !meets x.kind then throw (refuse x y) else mapSingles (f x) y)
      (if y'.isStream && !meets x'.kind then throw (refuse' x' y') else mapSingles (g x') y') := by
  rw [hx.kind_eq, hy.isStream_eq, hrefuse _ _ _ _ hx hy]
  split
  · exact .error _
  · exact hy.mapSingles_agree fun v w h => hfg _ _ _ _ hx h

/-- A single value on the right meets each element of a stream. -/
theorem stream_broadcast_agree {xs : List (Value φ)} {xs' : List (Value ψ)} {y : Value φ}
    {y' : Value ψ}
    (hrefuse : ∀ v w v' w', Related R v w → Related R v' w' → refuse v v' = refuse' w w')
    (hfg : ∀ v w v' w', Related R v w → Related R v' w' → Agree (Related R) (f v v') (g w w'))
    (hs : ItemsRelated R xs xs') (hy : Related R y y') :
    Agree (Related R)
      (if meets y.kind then mapSingles (f · y) (.stream xs) else throw (refuse (.stream xs) y))
      (if meets y'.kind then mapSingles (g · y') (.stream xs')
        else throw (refuse' (.stream xs') y')) := by
  rw [hy.kind_eq, hrefuse _ _ _ _ (.stream hs) hy]
  cases meets y'.kind with
  | true => exact (Related.stream hs).mapSingles_agree fun v w h => hfg _ _ _ _ h hy
  | false => exact .error _

mutual

theorem Related.broadcast_agree
    (hrefuse : ∀ v w v' w', Related R v w → Related R v' w' → refuse v v' = refuse' w w')
    (hfg : ∀ v w v' w', Related R v w → Related R v' w' → Agree (Related R) (f v v') (g w w'))
    {x y : Value φ} {x' y' : Value ψ} (hx : Related R x x') (hy : Related R y y') :
    Agree (Related R) (broadcast meets refuse f x y) (broadcast meets refuse' g x' y') :=
  match hx with
  | .stream hs => by
    cases hy with
    | stream ht =>
      simp only [broadcast, hs.length_eq, ht.length_eq]
      split
      · exact (hs.broadcastItems_agree hrefuse hfg ht .nil).bind fun _ _ h => .ok (.stream h)
      · exact .error _
    | none => exact stream_broadcast_agree hrefuse hfg hs .none
    | boolean b => exact stream_broadcast_agree hrefuse hfg hs (.boolean b)
    | number a => exact stream_broadcast_agree hrefuse hfg hs (.number a)
    | text s => exact stream_broadcast_agree hrefuse hfg hs (.text s)
    | object he hm => exact stream_broadcast_agree hrefuse hfg hs (.object he hm)
    | function hf => exact stream_broadcast_agree hrefuse hfg hs (.function hf)
  | .none => single_broadcast_agree hrefuse hfg .none hy
  | .boolean b => single_broadcast_agree hrefuse hfg (.boolean b) hy
  | .number a => single_broadcast_agree hrefuse hfg (.number a) hy
  | .text s => single_broadcast_agree hrefuse hfg (.text s) hy
  | .object he hm => single_broadcast_agree hrefuse hfg (.object he hm) hy
  | .function hf => single_broadcast_agree hrefuse hfg (.function hf) hy

theorem ItemsRelated.broadcastItems_agree
    (hrefuse : ∀ v w v' w', Related R v w → Related R v' w' → refuse v v' = refuse' w w')
    (hfg : ∀ v w v' w', Related R v w → Related R v' w' → Agree (Related R) (f v v') (g w w'))
    {xs ys done : List (Value φ)} {xs' ys' done' : List (Value ψ)} (hx : ItemsRelated R xs xs')
    (hy : ItemsRelated R ys ys') (hdone : ItemsRelated R done done') :
    Agree (ItemsRelated R) (broadcastItems meets refuse f xs ys done)
      (broadcastItems meets refuse' g xs' ys' done') :=
  match hx with
  | .nil => by
    rw [broadcastItems, broadcastItems]
    · exact .ok hdone.reverse
    all_goals simp
  | .cons hv hs => by
    cases hy with
    | nil =>
      rw [broadcastItems, broadcastItems]
      · exact .ok hdone.reverse
      all_goals simp
    | cons hw ht =>
      rw [broadcastItems, broadcastItems]
      exact (hv.broadcast_agree hrefuse hfg hw).bind fun _ _ h =>
        hs.broadcastItems_agree hrefuse hfg ht (.cons h hdone)

end

end Broadcast

/-! ## Single values -/

theorem refuse_eq (op : BinaryOp) {x y : Value φ} {x' y' : Value ψ} (hx : Related R x x')
    (hy : Related R y y') : op.refuse x y = op.refuse x' y' := by
  rw [BinaryOp.refuse, BinaryOp.refuse, hx.kind_eq, hy.kind_eq]

theorem ofResult_agree (result : Except Decimal.Fault Decimal) :
    Agree (Related R) (ofResult result) (ofResult result) := by
  cases result with
  | ok x => exact .ok (.number x)
  | error fault => exact .error _

theorem applyNumbers_agree (settings : Settings) (op : BinaryOp) (a b : Decimal) :
    Agree (Related R) (applyNumbers settings op a b) (applyNumbers settings op a b) := by
  unfold applyNumbers
  split
  · exact ofResult_agree _
  · exact .ok (.boolean _)
  · exact .error _

/-- Joining with a text, on related values. -/
theorem join_agree (op : BinaryOp) {x y : Value φ} {x' y' : Value ψ} (hx : Related R x x')
    (hy : Related R y y') :
    Agree (Related R)
      (if (x.kind == .text && joins y.kind) || (joins x.kind && y.kind == .text) then
        .ok (.text (x.toText ++ y.toText)) else .error (op.refuse x y))
      (if (x'.kind == .text && joins y'.kind) || (joins x'.kind && y'.kind == .text) then
        .ok (.text (x'.toText ++ y'.toText)) else .error (op.refuse x' y')) := by
  rw [hx.kind_eq, hy.kind_eq, hx.toText_eq, hy.toText_eq, refuse_eq op hx hy]
  split
  · exact .ok (.text _)
  · exact .error _

theorem compareTexts_agree (op : BinaryOp) (a b : String) :
    Agree (Related R)
      (match holds? op (compare a b) with
        | some b => .ok (.boolean b)
        | none => .error (op.refuse (φ := φ) (.text a) (.text b)))
      (match holds? op (compare a b) with
        | some b => .ok (.boolean b)
        | none => .error (op.refuse (φ := ψ) (.text a) (.text b))) := by
  split
  · exact .ok (.boolean _)
  · exact .error _

theorem exists_number {v : Value φ} (h : v.kind = .number) : ∃ x, v = .number x := by
  cases v with
  | number x => exact ⟨x, rfl⟩
  | _ => cases h

theorem exists_text {v : Value φ} (h : v.kind = .text) : ∃ s, v = .text s := by
  cases v with
  | text s => exact ⟨s, rfl⟩
  | _ => cases h

theorem applySingles_add (settings : Settings) {x y : Value φ}
    (h : ¬(x.kind = .number ∧ y.kind = .number)) :
    applySingles settings .add x y =
      if (x.kind == .text && joins y.kind) || (joins x.kind && y.kind == .text) then
        .ok (.text (x.toText ++ y.toText)) else .error (BinaryOp.refuse .add x y) := by
  unfold applySingles
  split
  · exact absurd ⟨rfl, rfl⟩ h
  · rfl

/-- Two single values that are neither numbers nor texts together meet in no operator but `+`. -/
theorem applySingles_refuse (settings : Settings) {op : BinaryOp} (hop : op ≠ .add) {x y : Value φ}
    (hn : ¬(x.kind = .number ∧ y.kind = .number)) (ht : ¬(x.kind = .text ∧ y.kind = .text)) :
    applySingles settings op x y = .error (op.refuse x y) := by
  unfold applySingles
  split
  · exact absurd ⟨rfl, rfl⟩ hn
  · split
    · exact absurd rfl hop
    · exact absurd ⟨rfl, rfl⟩ ht
    · rfl

theorem applySingles_texts (settings : Settings) {op : BinaryOp} (hop : op ≠ .add) (a b : String) :
    applySingles settings op (.text a : Value φ) (.text b) =
      match holds? op (compare a b) with
      | some b => .ok (.boolean b)
      | none => .error (op.refuse (φ := φ) (.text a) (.text b)) := by
  unfold applySingles
  split
  · next heq _ => exact absurd heq (by simp)
  · split
    · exact absurd rfl hop
    · next h₁ h₂ =>
      cases h₁
      cases h₂
      rfl
    · next hne => exact absurd rfl (hne a b rfl)

theorem applySingles_agree (settings : Settings) (op : BinaryOp) {x y : Value φ} {x' y' : Value ψ}
    (hx : Related R x x') (hy : Related R y y') :
    Agree (Related R) (applySingles settings op x y) (applySingles settings op x' y') := by
  by_cases hn : x.kind = .number ∧ y.kind = .number
  · cases hx <;> cases hy <;> simp only [kind, reduceCtorEq, and_false, and_true] at hn
    exact applyNumbers_agree settings op _ _
  have hn' : ¬(x'.kind = .number ∧ y'.kind = .number) := by rwa [← hx.kind_eq, ← hy.kind_eq]
  by_cases hop : op = .add
  · rw [hop, applySingles_add settings hn, applySingles_add settings hn']
    exact join_agree .add hx hy
  by_cases ht : x.kind = .text ∧ y.kind = .text
  · cases hx <;> cases hy <;> simp only [kind, reduceCtorEq, and_false, and_true] at ht
    rw [applySingles_texts settings hop, applySingles_texts settings hop]
    exact compareTexts_agree op _ _
  · have ht' : ¬(x'.kind = .text ∧ y'.kind = .text) := by rwa [← hx.kind_eq, ← hy.kind_eq]
    rw [applySingles_refuse settings hop hn ht, applySingles_refuse settings hop hn' ht',
      refuse_eq op hx hy]
    exact .error _

/-! ## The operators -/

section Operators

variable [BEq φ] [BEq ψ]

theorem ItemsRelated.any_beq_eq (hR : KeepsEquality R) {xs : List (Value φ)} {ys : List (Value ψ)}
    {v : Value φ} {w : Value ψ} (h : ItemsRelated R xs ys) (hv : Related R v w) :
    xs.any (· == v) = ys.any (· == w) := by
  induction xs generalizing ys with
  | nil => cases h with | nil => rfl
  | cons x xs ih =>
    cases h with
    | cons hx hs => rw [List.any_cons, List.any_cons, hx.beq_eq hR hv, ih hs]

theorem memberOf?_eq (hR : KeepsEquality R) {x y : Value φ} {x' y' : Value ψ}
    (hx : Related R x x') (hy : Related R y y') : memberOf? x y = memberOf? x' y' := by
  cases hy with
  | stream hs => rw [memberOf?, memberOf?, hs.any_beq_eq hR hx]
  | object he hm => rw [memberOf?, memberOf?, he.containsKey_eq hR _ _ hx]
  | text s => cases hx <;> rfl
  | _ => rfl

/-- **An operator on related values** comes to related results. -/
theorem binary_agree (hR : KeepsEquality R) (settings : Settings) (op : BinaryOp) {x y : Value φ}
    {x' y' : Value ψ} (hx : Related R x x') (hy : Related R y y') :
    Agree (Related R) (binary settings op x y) (binary settings op x' y') := by
  have hrefuse : ∀ v w v' w', Related R v w → Related R v' w' →
      op.refuse v v' = op.refuse w w' := fun _ _ _ _ => refuse_eq op
  have hsingles : Agree (Related R)
      (broadcast op.meets op.refuse (applySingles settings op) x y)
      (broadcast op.meets op.refuse (applySingles settings op) x' y') :=
    hx.broadcast_agree hrefuse (fun _ _ _ _ => applySingles_agree settings op) hy
  have hboolean : ∀ (f : Value φ → Value φ → Bool) (g : Value ψ → Value ψ → Bool),
      (∀ v w v' w', Related R v w → Related R v' w' → f v v' = g w w') →
      Agree (Related R)
        (broadcast op.meets op.refuse (fun a b => .ok (.boolean (f a b))) x y)
        (broadcast op.meets op.refuse (fun a b => .ok (.boolean (g a b))) x' y') := by
    intro f g hfg
    refine hx.broadcast_agree hrefuse (fun v w v' w' h h' => ?_) hy
    rw [hfg v w v' w' h h']
    exact .ok (.boolean _)
  have hmember : Agree (Related R)
      (match memberOf? x y with
        | some found => .ok (.boolean (if op == .notIn then !found else found))
        | none => .error (op.refuse x y))
      (match memberOf? x' y' with
        | some found => .ok (.boolean (if op == .notIn then !found else found))
        | none => .error (op.refuse x' y')) := by
    rw [memberOf?_eq hR hx hy, refuse_eq op hx hy]
    cases memberOf? x' y' with
    | some found => exact .ok (.boolean _)
    | none => exact .error _
  cases op with
  | is =>
    rw [binary, binary, hx.beq_eq hR hy]
    exact .ok (.boolean _)
  | isIn => exact hmember
  | notIn => exact hmember
  | eq => exact hboolean (· == ·) (· == ·) fun _ _ _ _ h h' => h.beq_eq hR h'
  | ne =>
    exact hboolean (fun a b => !(a == b)) (fun a b => !(a == b)) fun _ _ _ _ h h' =>
      congrArg (!·) (h.beq_eq hR h')
  | and =>
    exact hboolean (·.truthy && ·.truthy) (·.truthy && ·.truthy) fun _ _ _ _ h h' => by
      rw [h.truthy_eq, h'.truthy_eq]
  | or =>
    exact hboolean (·.truthy || ·.truthy) (·.truthy || ·.truthy) fun _ _ _ _ h h' => by
      rw [h.truthy_eq, h'.truthy_eq]
  | _ => exact hsingles

end Operators

theorem unary_agree (op : UnaryOp) {x : Value φ} {x' : Value ψ} (hx : Related R x x') :
    Agree (Related R) (unary op x) (unary op x') := by
  refine hx.mapSingles_agree fun v w h => ?_
  cases op with
  | neg =>
    cases h with
    | number a => exact .ok (.number _)
    | _ => exact .error _
  | not =>
    rw [applySingle, applySingle, h.truthy_eq]
    exact .ok (.boolean _)

end Value

end Cellbook
