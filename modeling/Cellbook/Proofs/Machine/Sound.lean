import Cellbook.Proofs.Machine.Nesting
import Cellbook.Proofs.Value.Shapes

/-!
# Sound closures

Code is shaped if every variable, parameter and cell that it reads is there, and every built-in function gets
arguments of the shapes that it requires (`Code.Shaped`). In a frame that has what is read, shaped code does
not trip the watched machine (`Frame.run_safe`).

A function is made in one frame and runs in another one, maybe in the run of another cell, so what its code
reads must go with it. A closure is sound if its code is shaped for the parameters and the cells that it has
kept, and if all functions among these are sound in turn (`Closure.Sound`). What a closure has captured
does not matter, since the code of a function sets every variable that it reads. Calls of sound closures are safe at
every depth (`Closure.invoke_safe`).
-/

namespace Cellbook

open Run

/-- Variables that are set, with the shapes of their values. -/
abbrev Shapes := List (Nat × Shape)

variable {φ : Type}

namespace Code

mutual

/-- **Code whose value has a shape**, where parameters with these names are there and the variables in
`vars` are set, and which reads only cells with a property. -/
inductive Shaped (cells : Nat → Prop) : List String → Shapes → Code φ → Shape → Prop
  | var {names : List String} {vars : Shapes} {n : Nat} {σ : Shape} : (n, σ) ∈ vars →
    Shaped cells names vars (.var n) σ
  | param {names : List String} {vars : Shapes} {name : String} : name ∈ names →
    Shaped cells names vars (.param name) .any
  | cell {names : List String} {vars : Shapes} {id : Nat} : cells id →
    Shaped cells names vars (.cell id) .any
  | literal {names : List String} {vars : Shapes} (v : Scalar) :
    Shaped cells names vars (.literal v.toValue) .any
  | text {names : List String} {vars : Shapes} (s : String) :
    Shaped cells names vars (.literal (.text s)) .text
  | noBranch {names : List String} {vars : Shapes} : Shaped cells names vars (.literal .none) .branch
  | array {names : List String} {vars : Shapes} {cs : List (Code φ)} {count : Nat} :
    ShapedAll cells names vars cs (List.replicate count .any) →
    Shaped cells names vars (.array cs) .stream
  | call {names : List String} {vars : Shapes} {b : Builtin} {cs : List (Code φ)} {shapes : List Shape}
      {σ : Shape} : b.Signature shapes σ → ShapedAll cells names vars cs shapes →
    Shaped cells names vars (.call b cs) σ
  | member {names : List String} {vars : Shapes} {c : Code φ} (attr : String) :
    Shaped cells names vars c .any → Shaped cells names vars (.member c attr) .any
  | lambda {names : List String} {vars vars' : Shapes} {params : List String} {body : Statements φ}
      {c : Code φ} (captures : List Nat) : ShapedBody cells (names ++ params) [] body vars' →
    Shaped cells (names ++ params) vars' c .any →
    Shaped cells names vars (.lambda params body c captures) (.function params.length)
  | forget {names : List String} {vars : Shapes} {c : Code φ} {σ : Shape} :
    Shaped cells names vars c σ → Shaped cells names vars c .any
  | branch {names : List String} {vars : Shapes} {c : Code φ} :
    Shaped cells names vars c (.function 0) → Shaped cells names vars c .branch

inductive ShapedAll (cells : Nat → Prop) :
    List String → Shapes → List (Code φ) → List Shape → Prop
  | nil {names : List String} {vars : Shapes} : ShapedAll cells names vars [] []
  | cons {names : List String} {vars : Shapes} {c : Code φ} {cs : List (Code φ)} {σ : Shape}
      {shapes : List Shape} : Shaped cells names vars c σ → ShapedAll cells names vars cs shapes →
    ShapedAll cells names vars (c :: cs) (σ :: shapes)

inductive ShapedBody (cells : Nat → Prop) :
    List String → Shapes → Statements φ → Shapes → Prop
  | nil {names : List String} {vars : Shapes} : ShapedBody cells names vars [] vars
  | cons {names : List String} {vars vars' : Shapes} {n : Nat} {c : Code φ} {σ : Shape}
      {body : Statements φ} : Shaped cells names vars c σ → (∀ p ∈ vars, p.1 ≠ n) →
    ShapedBody cells names ((n, σ) :: vars) body vars' →
    ShapedBody cells names vars ((n, c) :: body) vars'

end

end Code

/-- **A closure that can be called** with that many arguments. -/
inductive Closure.Sound : Nat → Closure → Prop
  | mk {identity : Identity} {params : List String} {settings : Settings} {cells : Nat → Prop}
      {names : List String} {body : Statements Closure} {result : Code Closure} {shapes : Shapes}
      {vars : List (Nat × Value Closure)} {bound : List (String × Value Closure)}
      {slots : List (Nat × Slot Closure)} :
    (∀ name ∈ names, name ∈ bound.map (·.1)) → (∀ p ∈ bound, p.2.Fits Sound) →
    (∀ id, cells id → id ∈ slots.map (·.1)) →
    (∀ p ∈ slots, ∀ v, p.2.outcome = .ok v → v.Fits Sound) →
    Code.ShapedBody cells (names ++ params) [] body shapes →
    Code.Shaped cells (names ++ params) shapes result .any →
    Sound params.length (.mk identity params body result vars bound slots settings)

/-! ## Frames -/

/-- **A frame that has what code reads** that names these parameters and reads cells with a property. All
functions in it have the property `B`, and so has every function that code makes in it, if functions are
nested no deeper than `depth` in that code. -/
structure Frame.Offers (B : Nat → Closure → Prop) (depth : Nat) (cells : Nat → Prop)
    (names : List String) (frame : Frame) : Prop where
  closes : ∀ (identity : Identity) (params : List String) (body : Statements Closure)
    (result : Code Closure) (vars : List (Nat × Value Closure)) (shapes : Shapes),
    Code.ShapedBody cells (names ++ params) [] body shapes →
    Code.Shaped cells (names ++ params) shapes result .any →
    max (Code.nestingBody body) result.nesting < depth →
    B params.length (.mk identity params body result vars frame.bound frame.cells frame.settings)
  names : ∀ name ∈ names, name ∈ frame.bound.map (·.1)
  bound : ∀ p ∈ frame.bound, p.2.Fits B
  cells : ∀ id, cells id → id ∈ frame.cells.map (·.1)
  slots : ∀ p ∈ frame.cells, ∀ v, p.2.outcome = .ok v → v.Fits B

/-- **A frame in which variables are set**, to values of their shapes. -/
def Frame.Sets (B : Nat → Closure → Prop) (vars : Shapes) (frame : Frame) : Prop :=
  ∀ p ∈ vars, ∃ v, frame.vars.lookup p.1 = some v ∧ v.Shaped B p.2

/-- A key of a table has an entry there. -/
theorem exists_lookup_of_mem {α β : Type} [BEq α] [LawfulBEq α] {ps : List (α × β)} {a : α}
    (h : a ∈ ps.map (·.1)) : ∃ b, ps.lookup a = some b ∧ (a, b) ∈ ps := by
  cases hlookup : ps.lookup a with
  | none =>
    obtain ⟨p, hp, rfl⟩ := List.mem_map.mp h
    exact absurd rfl (bne_iff_ne.mp (List.lookup_eq_none_iff.mp hlookup p hp))
  | some b =>
    obtain ⟨before, after, rfl, -⟩ := List.lookup_eq_some_iff.mp hlookup
    exact ⟨b, rfl, by simp⟩

namespace Frame

variable {B : Nat → Closure → Prop} {depth : Nat} {cells : Nat → Prop} {names : List String} {frame : Frame}

/-- Reading a cell that is there. -/
theorem Offers.readCell (h : frame.Offers B depth cells names) {id : Nat} (hid : cells id) :
    (∃ slot, frame.cells.lookup id = some slot) ∧
      EndsIn (EvalFault.Regular Closure) (Value.Fits B) (frame.readCell id) := by
  obtain ⟨⟨label, outcome⟩, hslot, hmem⟩ := exists_lookup_of_mem (h.cells id hid)
  refine ⟨⟨_, hslot⟩, ?_⟩
  unfold Frame.readCell
  rw [hslot]
  cases outcome with
  | ok v => exact .ok (h.slots _ hmem v rfl)
  | error d => exact .error (.plain rfl)

section Invoke

variable {deep : Prop} {other invoke : Closure → List (Value Closure) → Run (Value Closure)}
  (trip : Alarm → Halt) {vars : Shapes}

mutual

/-- **Shaped code is safe** in a frame that has what it reads. -/
theorem eval_safe (hinv : Value.InvokeSafe B deep other invoke) (h : frame.Offers B depth cells names)
    (hvars : frame.Sets B vars) :
    {c : Code Closure} → {σ : Shape} → c.Shaped cells names vars σ → c.nesting ≤ depth →
    Safe (EvalFault.Regular Closure) deep (Value.Shaped B σ) (Watched.eval trip other frame c)
      (frame.eval invoke c)
  | _, _, .var hmem, _ => by
    obtain ⟨v, hv, hshaped⟩ := hvars _ hmem
    unfold Watched.eval Frame.eval
    rw [hv]
    exact .pure hshaped
  | _, _, .param hname, _ => by
    obtain ⟨v, hv, hmem⟩ := exists_lookup_of_mem (h.names _ hname)
    unfold Watched.eval Frame.eval
    rw [hv]
    exact .pure (h.bound _ hmem).shaped
  | _, _, .cell hid, _ => by
    obtain ⟨⟨slot, hslot⟩, hread⟩ := h.readCell hid
    unfold Watched.eval Frame.eval
    rw [hslot]
    exact .ofExcept (hread.mono fun _ hv => hv.shaped)
  | _, _, .literal v, _ => .pure (Value.Fits.shaped (by cases v <;> constructor))
  | _, _, .text s, _ => .pure ⟨.text s, .text s⟩
  | _, _, .noBranch, _ => .pure ⟨.none, .noBranch⟩
  | _, _, .array hcs, hnesting => by
    unfold Watched.eval Frame.eval
    refine (evalAll_safe hinv h hvars hcs hnesting).bind fun _ hvs => .pure ⟨.stream ?_, .stream _⟩
    exact Builtin.fits_of_any hvs
  | _, _, .call hb hcs, hnesting => by
    unfold Watched.eval Frame.eval
    exact (evalAll_safe hinv h hvars hcs hnesting).bind fun _ hvs =>
      Builtin.watched_apply_safe hinv frame.settings trip hb hvs
  | _, _, .member attr hc, hnesting => by
    unfold Watched.eval Frame.eval
    exact (eval_safe hinv h hvars hc hnesting).bind fun _ hv =>
      .ofExcept ((hv.fits.member attr).mono fun _ hv => hv.shaped)
  | _, _, .lambda captures hbody hc, hnesting => by
    unfold Watched.eval Frame.eval
    refine Safe.newIdentity.bind fun i _ => .pure ⟨.function (.mk ?_ nofun), .function rfl⟩
    exact h.closes i _ _ _ _ _ hbody hc hnesting
  | _, _, .forget hc, hnesting => (eval_safe hinv h hvars hc hnesting).mono fun _ hv => hv.fits.shaped
  | _, _, .branch hc, hnesting => by
    refine (eval_safe hinv h hvars hc hnesting).mono fun v hv => ⟨hv.fits, ?_⟩
    cases hv.shape with
    | function harity => exact .branch harity

theorem evalAll_safe (hinv : Value.InvokeSafe B deep other invoke) (h : frame.Offers B depth cells names)
    (hvars : frame.Sets B vars) :
    {cs : List (Code Closure)} → {shapes : List Shape} → Code.ShapedAll cells names vars cs shapes →
    Code.nestingAll cs ≤ depth →
    Safe (EvalFault.Regular Closure) deep (List.Forall₂ (Value.Shaped B) shapes)
      (Watched.evalAll trip other frame cs) (frame.evalAll invoke cs)
  | _, _, .nil, _ => .pure .nil
  | _, _, .cons hc hcs, hnesting => by
    obtain ⟨hfirst, hrest⟩ := Nat.max_le.mp hnesting
    unfold Watched.evalAll Frame.evalAll
    exact (eval_safe hinv h hvars hc hfirst).bind fun _ hv =>
      (evalAll_safe hinv h hvars hcs hrest).bind fun _ hvs => .pure (.cons hv hvs)

end

/-- Shaped statements set their variables and leave the rest of the frame as it is. -/
theorem exec_safe (hinv : Value.InvokeSafe B deep other invoke) {vars' : Shapes}
    {body : Statements Closure} (h : frame.Offers B depth cells names) (hvars : frame.Sets B vars)
    (hbody : Code.ShapedBody cells names vars body vars') (hnesting : Code.nestingBody body ≤ depth) :
    Safe (EvalFault.Regular Closure) deep (fun f => f.Offers B depth cells names ∧ f.Sets B vars')
      (Watched.exec trip other frame body) (frame.exec invoke body) := by
  induction body generalizing vars frame with
  | nil =>
    cases hbody with
    | nil => exact .pure ⟨h, hvars⟩
  | cons statement body ih =>
    cases hbody with
    | cons hc hnew hbody =>
      obtain ⟨hfirst, hrest⟩ := Nat.max_le.mp hnesting
      unfold Watched.exec Frame.exec
      refine (eval_safe trip hinv h hvars hc hfirst).bind fun v hv => ?_
      refine ih ⟨h.closes, h.names, h.bound, h.cells, h.slots⟩ (fun p hp => ?_) hbody hrest
      rcases List.mem_cons.mp hp with rfl | hp
      · exact ⟨v, List.lookup_cons_self, hv⟩
      · obtain ⟨v', hv', hshaped⟩ := hvars p hp
        refine ⟨v', ?_, hshaped⟩
        rw [List.lookup_cons, beq_false_of_ne (hnew p hp)]
        exact hv'

/-- **Running shaped code is safe**, whatever variables were set before. -/
theorem run_safe (hinv : Value.InvokeSafe B deep other invoke) (h : frame.Offers B depth cells names)
    {body : Statements Closure} {result : Code Closure} (hbody : Code.ShapedBody cells names [] body vars)
    (hresult : result.Shaped cells names vars .any)
    (hnesting : max (Code.nestingBody body) result.nesting ≤ depth) :
    Safe (EvalFault.Regular Closure) deep (Value.Fits B) (Watched.run trip other frame body result)
      (frame.run invoke body result) := by
  obtain ⟨hstatements, hlast⟩ := Nat.max_le.mp hnesting
  exact (exec_safe trip hinv h (List.forall_mem_nil _) hbody hstatements).bind fun _ hf =>
    (eval_safe trip hinv hf.1 hf.2 hresult hlast).mono fun _ hv => hv.fits

end Invoke

end Frame

/-! ## Calls -/

namespace Frame

variable {B : Nat → Closure → Prop} {cells : Nat → Prop} {names params : List String}
  {args : List (Value Closure)} {bound : List (String × Value Closure)}

/-- Arguments add their names to those that are bound. -/
theorem names_bind (hcount : args.length = params.length) (hnames : ∀ name ∈ names, name ∈ bound.map (·.1)) :
    ∀ name ∈ names ++ params, name ∈ ((params.zip args).reverse ++ bound).map (·.1) := by
  intro name hname
  rw [List.map_append, List.map_reverse, List.map_fst_zip (Nat.le_of_eq hcount.symm)]
  rcases List.mem_append.mp hname with hname | hname
  · exact List.mem_append_right _ (hnames name hname)
  · exact List.mem_append_left _ (List.mem_reverse.mpr hname)

theorem fits_bind (hargs : ∀ v ∈ args, v.Fits B) (hbound : ∀ p ∈ bound, p.2.Fits B) :
    ∀ p ∈ (params.zip args).reverse ++ bound, p.2.Fits B := by
  intro p hp
  rcases List.mem_append.mp hp with hp | hp
  · exact hargs p.2 (List.of_mem_zip (List.mem_reverse.mp hp)).2
  · exact hbound p hp

/-- A frame whose functions are sound. -/
theorem offers_sound {frame : Frame} (hnames : ∀ name ∈ names, name ∈ frame.bound.map (·.1))
    (hbound : ∀ p ∈ frame.bound, p.2.Fits Closure.Sound)
    (hcells : ∀ id, cells id → id ∈ frame.cells.map (·.1))
    (hslots : ∀ p ∈ frame.cells, ∀ v, p.2.outcome = .ok v → v.Fits Closure.Sound) (depth : Nat) :
    frame.Offers Closure.Sound depth cells names :=
  ⟨fun _ _ _ _ _ _ hbody hresult _ => .mk hnames hbound hcells hslots hbody hresult, hnames, hbound,
    hcells, hslots⟩

end Frame

namespace Closure

/-- **Calls of sound closures are safe**, however deep they may be nested. -/
theorem invoke_safe (trip : Alarm → Halt) (depth : Nat) :
    Value.InvokeSafe Sound True (Watched.invoke trip depth) (invoke depth) := by
  induction depth with
  | zero => exact fun _ _ _ _ => .tooDeep trivial
  | succ depth ih =>
    intro c args hc hargs
    generalize hcount : args.length = count at hc
    cases hc with
    | mk hnames hbound hcells hslots hbody hresult =>
      unfold Watched.invoke invoke
      dsimp only
      rw [if_neg (not_not_intro hcount), if_neg (not_not_intro hcount)]
      refine Frame.run_safe trip ih (Frame.offers_sound ?_ ?_ hcells hslots _) hbody hresult (Nat.le_refl _)
      · exact Frame.names_bind hcount hnames
      · exact Frame.fits_bind hargs hbound

end Closure

end Cellbook
