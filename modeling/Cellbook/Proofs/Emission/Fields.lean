import Cellbook.Proofs.Emission.Compiled
import Cellbook.Proofs.Value.Objects

/-!
# What the code of a container does

A container is emitted as an object into which its named cells are put one after the other. Running that
code reads these cells and inserts their values under their names (`Frame.insertFields`), and putting a value
under a name replaces one that is there. So the field of a name is the value of the last cell that is put
under it (`Frame.field?_of_insertFields`).
-/

namespace Cellbook

open Run

/-! ## Fields of containers -/

namespace Frame

/-- Puts the values of cells under names into an object, one after the other. -/
def insertFields (frame : Frame) (o : Object Closure) :
    List (String × Nat) → Except EvalFault (Object Closure)
  | [] => .ok o
  | (name, id) :: fields => do
    let v ← frame.readCell id
    insertFields frame (o.insert (.text name) v) fields

variable {frame : Frame}

theorem insertFields_cons_eq_ok {o o' : Object Closure} {name : String} {id : Nat}
    {fields : List (String × Nat)} (h : frame.insertFields o ((name, id) :: fields) = .ok o') :
    ∃ v, frame.readCell id = .ok v ∧ frame.insertFields (o.insert (.text name) v) fields = .ok o' := by
  unfold insertFields at h
  cases hv : frame.readCell id with
  | error e => rw [hv] at h; cases h
  | ok v => rw [hv] at h; exact ⟨v, rfl, h⟩

/-- What is under a name stays there if nothing else is put there. -/
theorem field?_of_insertFields_of_not_mem {o o' : Object Closure} {name : String}
    {fields : List (String × Nat)} (h : frame.insertFields o fields = .ok o')
    (hname : name ∉ fields.map (·.1)) : o'.field? name = o.field? name := by
  induction fields generalizing o with
  | nil =>
    obtain rfl : o = o' := Except.ok.inj h
    rfl
  | cons field fields ih =>
    obtain ⟨other, id⟩ := field
    rw [List.map_cons, List.mem_cons, not_or] at hname
    obtain ⟨v, -, h⟩ := insertFields_cons_eq_ok h
    rw [ih h hname.2, o.field?_insert_of_ne (Ne.symm hname.1)]

/-- **The field of a name** is the value of the last cell that is put under it. -/
theorem field?_of_insertFields {o o' : Object Closure} {front back : List (String × Nat)} {name : String}
    {id : Nat} (h : frame.insertFields o (front ++ (name, id) :: back) = .ok o')
    (hlast : name ∉ back.map (·.1)) : ∃ v, frame.readCell id = .ok v ∧ o'.field? name = some v := by
  induction front generalizing o with
  | nil =>
    obtain ⟨v, hv, h⟩ := insertFields_cons_eq_ok h
    refine ⟨v, hv, ?_⟩
    rw [field?_of_insertFields_of_not_mem h hlast, o.field?_insert_self]
  | cons field front ih =>
    obtain ⟨_, -, hrest⟩ := insertFields_cons_eq_ok h
    exact ih hrest

theorem ofExcept_insertFields_cons (o : Object Closure) (name : String) (id : Nat)
    (fields : List (String × Nat)) :
    Run.ofExcept (frame.insertFields o ((name, id) :: fields)) =
      Run.ofExcept (frame.readCell id) >>= fun v =>
        Run.ofExcept (frame.insertFields (o.insert (.text name) v) fields) := by
  rw [insertFields]
  cases frame.readCell id <;> rfl

end Frame

section Emission

variable {frame : Frame}

theorem realizes_cell (id : Nat) :
    Realizes frame (pure (.cell id)) (.code frame) fun _ => Run.ofExcept (frame.readCell id) :=
  .pure (fun _ => ⟨rfl, fun _ hx => (List.not_mem_nil hx).elim⟩) fun _ _ => Frame.reads_cell_iff

/-- **Code that puts cells into an object** realizes that their values are put there. -/
theorem emitFields_realizes (fields : List (String × Nat)) {m : Emit (Code Closure) (Code Closure)}
    {r : Nat → Run (Object Closure)}
    (h : Realizes frame m (.code frame) fun d => do return (← r d).toValue) :
    Realizes frame (do emitFields .tree (← m) fields) (.code frame) fun d => do
      let o ← r d
      return (← Run.ofExcept (frame.insertFields o fields)).toValue := by
  induction fields generalizing m r with
  | nil =>
    simp only [emitFields, bind_pure]
    exact h
  | cons field fields ih =>
    obtain ⟨name, id⟩ := field
    have hinsert := (h.prod (realizes_cell id)).call .insert
      (fun p => [p.1, .literal (.text name), p.2]) (fun w => [w.1, .text name, w.2])
      (fun n p hp => by simp [Code.areOperands, Code.isOperand, hp.1.1, hp.2.1])
      fun vars p vs => by simp [Reading.prod, Reading.code]
    simp only [bind_assoc, pure_bind] at hinsert
    have hrest := ih (r := fun d => do
      let o ← r d
      let v ← Run.ofExcept (frame.readCell id)
      return o.insert (.text name) v) (by
        simp only [bind_assoc, pure_bind]
        exact hinsert)
    simp only [bind_assoc, pure_bind] at hrest
    simp only [emitFields, bind_assoc, Frame.ofExcept_insertFields_cons]
    exact hrest

/-- A container realizes the object of its fields. -/
theorem Cell.emitValue_container_realizes {c : Cell} (hc : c.isContainer = true)
    (fields : List (String × Nat)) :
    Realizes frame (c.emitValue .tree fields) (.code frame) fun _ => do
      return (← Run.ofExcept (frame.insertFields .empty fields)).toValue := by
  have hempty : Realizes frame (Emit.call .tree .map []) (.code frame)
      fun _ => pure (Object.empty (φ := Closure)).toValue :=
    Formula.realizes_unit.call .map (fun _ => []) (fun _ => []) (fun _ _ _ => rfl)
      fun vars _ vs => by simp [Reading.unit]
  unfold emitValue
  rw [if_pos hc]
  exact emitFields_realizes fields (r := fun _ => pure Object.empty) hempty

end Emission

end Cellbook
