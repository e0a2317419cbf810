import Cellbook.Proofs.Emission.Compiled
import Cellbook.Proofs.Formula.Says

/-!
# Code that calls no function

Code that only builds values evaluates in the same way however functions are called, and so at every depth of
calls. What is emitted for a formula that says a value is such code, and it evaluates to that value
(`Says.run_emit`).
-/

namespace Cellbook

open Run

/-! ## Idle code -/

/-- **Code that calls no function**: it makes no difference how functions are called. -/
def Code.Idle (c : Code Closure) : Prop :=
  ∀ (frame : Frame) (invoke invoke' : Closure → List (Value Closure) → Run (Value Closure)),
    frame.eval invoke c = frame.eval invoke' c

/-- Statements that call no function. -/
def Code.IdleBody (body : Statements Closure) : Prop :=
  ∀ (frame : Frame) (invoke invoke' : Closure → List (Value Closure) → Run (Value Closure)),
    frame.exec invoke body = frame.exec invoke' body

/-- The built-in functions that build values. -/
def Builtin.builds : Builtin → Bool
  | .stream | .map | .insert => true
  | _ => false

theorem Builtin.apply_of_builds {b : Builtin} (h : b.builds)
    (invoke invoke' : Closure → List (Value Closure) → Run (Value Closure)) (settings : Settings)
    (args : List (Value Closure)) : b.apply invoke settings args = b.apply invoke' settings args := by
  cases b with
  | stream => rcases args with _ | ⟨v, _ | _⟩ <;> first | rfl | (cases v <;> rfl)
  | map => rcases args with _ | ⟨v, _⟩ <;> rfl
  | insert => rcases args with _ | ⟨v, _ | ⟨_, _ | ⟨_, _ | _⟩⟩⟩ <;> first | rfl | (cases v <;> rfl)
  | _ => cases h

namespace Code

theorem evalAll_of_idle {cs : List (Code Closure)} (h : ∀ c ∈ cs, c.Idle) (frame : Frame)
    (invoke invoke' : Closure → List (Value Closure) → Run (Value Closure)) :
    frame.evalAll invoke cs = frame.evalAll invoke' cs := by
  induction cs with
  | nil => rfl
  | cons c cs ih =>
    obtain ⟨hc, hcs⟩ := List.forall_mem_cons.mp h
    rw [Frame.evalAll, Frame.evalAll, hc frame invoke invoke', ih hcs]

theorem idle_call {b : Builtin} (hb : b.builds) {args : List (Code Closure)} (h : ∀ c ∈ args, c.Idle) :
    (Code.call b args).Idle := by
  intro frame invoke invoke'
  rw [Frame.eval, Frame.eval, evalAll_of_idle h frame invoke invoke']
  simp only [Builtin.apply_of_builds hb invoke invoke']

theorem idle_array {items : List (Code Closure)} (h : ∀ c ∈ items, c.Idle) : (Code.array items).Idle := by
  intro frame invoke invoke'
  rw [Frame.eval, Frame.eval, evalAll_of_idle h frame invoke invoke']

theorem idle_literal (v : Value Closure) : (Code.literal v).Idle := fun _ _ _ => rfl

theorem idle_var (n : Nat) : (Code.var n).Idle := fun _ _ _ => rfl

theorem idleBody_nil : IdleBody [] := fun _ _ _ => rfl

theorem IdleBody.append {body body' : Statements Closure} (h : IdleBody body) (h' : IdleBody body') :
    IdleBody (body ++ body') := fun frame invoke invoke' => by
  rw [Frame.exec_append, Frame.exec_append, h frame invoke invoke']
  simp only [fun f : Frame => h' f invoke invoke']

theorem idleBody_single {n : Nat} {c : Code Closure} (h : c.Idle) : IdleBody [(n, c)] := fun frame invoke invoke' => by
  rw [Frame.exec, Frame.exec, h frame invoke invoke']
  rfl

end Code

/-! ## Idle emissions -/

/-- **An emission sets variables to idle code only**, and what it gives has a property. -/
def Emit.Idle {α : Type} (Q : α → Prop) (m : Emit (Code Closure) α) : Prop :=
  ∀ n, Code.IdleBody (m n).2.1 ∧ Q (m n).1

namespace Emit.Idle

variable {α β : Type} {P : α → Prop} {Q : β → Prop} {m : Emit (Code Closure) α}

theorem pure {a : α} (h : P a) : Emit.Idle P (Pure.pure a) := fun _ => ⟨Code.idleBody_nil, h⟩

theorem bind {f : α → Emit (Code Closure) β} (h : Emit.Idle P m) (hf : ∀ a, P a → Emit.Idle Q (f a)) :
    Emit.Idle Q (m >>= f) := fun n =>
  ⟨(h n).1.append (hf _ (h n).2 _).1, (hf _ (h n).2 _).2⟩

theorem call {b : Builtin} (hb : b.builds) {args : List (Code Closure)} (h : ∀ c ∈ args, c.Idle) :
    Emit.Idle Code.Idle (Emit.call .tree b args) := fun n =>
  ⟨Code.idleBody_single (Code.idle_call hb h), Code.idle_var n⟩

end Emit.Idle

namespace Formula

variable {φ : Type} (s : Scope)

mutual

theorem Says.emit_idle {v : Value φ} {f : Formula} (h : Says v f) : Emit.Idle Code.Idle (emit .tree s f) :=
  match h with
  | .scalar => .pure (Code.idle_literal _)
  | .stream hitems =>
    hitems.emit_idle.bind fun _ hcodes =>
      .call rfl (List.forall_mem_singleton.mpr (Code.idle_array hcodes))
  | .object hentries =>
    (Emit.Idle.call rfl (List.forall_mem_nil _)).bind fun _ hobject => hentries.emit_idle hobject

theorem AllSay.emit_idle {items : List (Value φ)} {fs : List Formula} (h : AllSay items fs) :
    Emit.Idle (fun cs => ∀ c ∈ cs, c.Idle) (emitAll .tree s fs) :=
  match h with
  | .nil => .pure (List.forall_mem_nil _)
  | .cons hv hvs =>
    hv.emit_idle.bind fun _ hcode => hvs.emit_idle.bind fun _ hcodes =>
      .pure (List.forall_mem_cons.mpr ⟨hcode, hcodes⟩)

theorem EntriesSay.emit_idle {entries : List (Value φ × Value φ)} {es : List Entry} (h : EntriesSay entries es)
    {object : Code Closure} (hobject : object.Idle) : Emit.Idle Code.Idle (emitEntries .tree s object es) :=
  match h with
  | .nil => .pure hobject
  | .cons hk hv hs =>
    hk.emit_idle.bind fun _ hkey => hv.emit_idle.bind fun _ hvalue =>
      (Emit.Idle.call rfl (by simp [hobject, hkey, hvalue])).bind fun _ hobject => hs.emit_idle hobject

end

/-- **Code of a formula that says a value** evaluates to the value at every depth, and takes no identity. -/
theorem Says.run_emit {cell : Nat} {v : Value Closure} {n : Node} {f : Formula} (h : Says v f)
    (hf : ofNode cell n = .ok f) (hkeyed : v.Keyed) (frame : Frame) (first depth : Nat) (i : Identity) :
    frame.run (Closure.invoke depth) (f.emit .tree s first).2.1 (f.emit .tree s first).1 i = .ok (v, i) := by
  obtain ⟨hbody, hresult⟩ := h.emit_idle s first
  have hrealizes := @emit_realizes cell frame s f h.plain (ofNode_wellFormed n hf)
  have hvalue : Ends (fun d => f.value (Closure.invoke d) frame s) i v i := ⟨0, congrFun (h.value_eq hkeyed) i⟩
  obtain ⟨d, hd⟩ := (hrealizes.ends_run_iff first frame.vars).mpr hvalue
  have hrun : frame.run (Closure.invoke depth) (f.emit .tree s first).2.1 (f.emit .tree s first).1 =
      frame.run (Closure.invoke d) (f.emit .tree s first).2.1 (f.emit .tree s first).1 := by
    unfold Frame.run
    rw [hbody frame (Closure.invoke depth) (Closure.invoke d)]
    simp only [fun f : Frame => hresult f (Closure.invoke depth) (Closure.invoke d)]
  rw [hrun]
  exact hd

end Formula

end Cellbook
