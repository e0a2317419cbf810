import Cellbook.Proofs.Formula.Named
import Cellbook.Proofs.Notebook.Exact
import Cellbook.Proofs.Script.Writes
import Cellbook.Machine.Closure

/-!
# The script is the program, printed

The two targets are emitted into side by side. Whatever the formula, the texts that are emitted write the
code that is emitted, and both number their variables alike, for a formula whose names are on one line.
The names in a formula are words of its source, so they are. Hence the script of a notebook is its program
put through the printer (`Notebook.script_eq_script_program`).
-/

namespace Cellbook

open Script

variable {φ : Type}

/-- **Emissions side by side**: what they give is related, their statements set the same variables, and the
same variable is the next one. -/
def EmitWrites {α β : Type} (A : α → β → Prop) (m : Emit (List Char) α) (m' : Emit (Code φ) β) : Prop :=
  ∀ n, A (m n).1 (m' n).1 ∧ WritesBody (m n).2.1 (m' n).2.1 ∧ (m n).2.2 = (m' n).2.2

namespace EmitWrites

variable {α β γ δ : Type} {A : α → β → Prop} {B : γ → δ → Prop}

theorem pure {a : α} {b : β} (h : A a b) : EmitWrites (φ := φ) A (Pure.pure a) (Pure.pure b) :=
  fun _ => ⟨h, .nil, rfl⟩

theorem bind {m : Emit (List Char) α} {m' : Emit (Code φ) β} {f : α → Emit (List Char) γ}
    {f' : β → Emit (Code φ) δ} (h : EmitWrites A m m') (hf : ∀ a b, A a b → EmitWrites B (f a) (f' b)) :
    EmitWrites B (m >>= f) (m' >>= f') := by
  intro n
  obtain ⟨ha, hbody, hnext⟩ := h n
  obtain ⟨hb, hbody', hnext'⟩ := hf _ _ ha (m n).2.2
  rw [hnext] at hb hbody' hnext'
  rw [Emit.bind_apply, Emit.bind_apply, hnext]
  exact ⟨hb, List.rel_append hbody hbody', hnext'⟩

theorem mono {A' : α → β → Prop} {m : Emit (List Char) α} {m' : Emit (Code φ) β} (h : EmitWrites A m m')
    (hA : ∀ a b, A a b → A' a b) : EmitWrites A' m m' := fun n => ⟨hA _ _ (h n).1, (h n).2⟩

theorem declare {text : List Char} {c : Code φ} (h : Writes text c) :
    EmitWrites Writes (Emit.declare .script text) (Emit.declare .tree c) :=
  fun n => ⟨.var n, .cons ⟨rfl, h⟩ .nil, rfl⟩

theorem call (b : Builtin) {texts : List (List Char)} {cs : List (Code φ)} (h : WritesAll texts cs) :
    EmitWrites Writes (Emit.call .script b texts) (Emit.call .tree b cs) := declare (.call b h)

theorem enclosed {m : Emit (List Char) α} {m' : Emit (Code φ) β} (h : EmitWrites A m m') :
    EmitWrites (fun p q => WritesBody p.1 q.1 ∧ A p.2 q.2) (Emit.enclosed m) (Emit.enclosed m') :=
  fun n => ⟨⟨(h n).2.1, (h n).1⟩, .nil, (h n).2.2⟩

theorem lambda {params : List String} (hparams : ∀ s ∈ params, OneLineName s)
    {m : Emit (List Char) (List Char)} {m' : Emit (Code φ) (Code φ)} (h : EmitWrites Writes m m') :
    EmitWrites Writes (Emit.lambda .script params m) (Emit.lambda .tree params m') :=
  h.enclosed.bind fun _ _ h => .pure (.lambda hparams h.1 h.2)

end EmitWrites

/-! ## Formulas -/

namespace Formula

open EmitWrites

theorem emitName_writes (s : Scope) {name : String} (hname : OneLineName name) :
    EmitWrites (φ := φ) Writes (emitName .script s name) (emitName .tree s name) := by
  unfold emitName
  split
  · exact .pure (.param hname)
  · cases s.cells.lookup name with
    | some id => exact .pure (.cell id)
    | none => exact .call .unresolved (.cons (.literal _) .nil)

theorem emitBranch_writes {m : Emit (List Char) (List Char)} {m' : Emit (Code φ) (Code φ)}
    (h : EmitWrites Writes m m') : EmitWrites Writes (emitBranch .script m) (emitBranch .tree m') :=
  (lambda (by simp) h).bind fun _ _ hc => declare hc

theorem emitRange_writes {before after : List (List Char)} {before' after' : List (Code φ)}
    (hbefore : WritesAll before before') (hafter : WritesAll after after') :
    EmitWrites Writes (emitRange .script before after) (emitRange .tree before' after') :=
  .call .generate (.cons (.array hbefore) (.cons (.array hafter) (.cons (.literal _) .nil)))

mutual

/-- **The texts that are emitted for a formula write its code.** -/
theorem emit_writes (s : Scope) : (f : Formula) → f.Named OneLineName →
    EmitWrites (φ := φ) Writes (f.emit .script s) (f.emit .tree s)
  | .literal _ v, _ => .pure (.literal v)
  | .identifier _ _, .identifier hname => emitName_writes s hname
  | .binary _ op left right, .binary hleft hright =>
    (emit_writes s left hleft).bind fun _ _ hl => (emit_writes s right hright).bind fun _ _ hr =>
      .call (.binary op) (.cons hl (.cons hr .nil))
  | .unary _ op operand, .unary hoperand =>
    (emit_writes s operand hoperand).bind fun _ _ hc => .call (.unary op) (.cons hc .nil)
  | .map _ entries, .map hentries =>
    (EmitWrites.call .map .nil).bind fun _ _ ho => emitEntries_writes s entries hentries ho
  | .block _ parts, .block hparts => emitParts_writes s parts hparts
  | .array _ elements none, .array helements =>
    (emitAll_writes s elements helements).bind fun _ _ hcs => .call .stream (.cons (.array hcs) .nil)
  | .array _ elements (some place), .array helements =>
    (emitAround_writes s elements place helements).bind fun _ _ hcs => emitRange_writes hcs.1 hcs.2
  | .range _ first last, .range hfirst hlast =>
    (emitEnd_writes s first hfirst).bind fun _ _ hf => (emitEnd_writes s last hlast).bind fun _ _ hl =>
      emitRange_writes hf hl
  | .index _ target key, .index htarget hkey =>
    (emit_writes s target htarget).bind fun _ _ ht => (emit_writes s key hkey).bind fun _ _ hk =>
      .call .get (.cons ht (.cons hk .nil))
  | .call _ callee args, .call hcallee hargs =>
    (emit_writes s callee hcallee).bind fun _ _ hc => (emitAll_writes s args hargs).bind fun _ _ hcs =>
      .call .call (.cons hc hcs)
  | .conditional _ clauses, .conditional hclauses => emitClauses_writes s clauses hclauses
  | .member _ object attr, .member hobject =>
    (emit_writes s object hobject).bind fun _ _ hc => declare (.member attr hc)

theorem emitAll_writes (s : Scope) : (fs : List Formula) → (∀ f ∈ fs, f.Named OneLineName) →
    EmitWrites (φ := φ) WritesAll (emitAll .script s fs) (emitAll .tree s fs)
  | [], _ => .pure .nil
  | f :: fs, h =>
    have ⟨hf, hfs⟩ := List.forall_mem_cons.mp h
    (emit_writes s f hf).bind fun _ _ hc => (emitAll_writes s fs hfs).bind fun _ _ hcs =>
      .pure (.cons hc hcs)

theorem emitParts_writes (s : Scope) : (fs : List Formula) → (∀ f ∈ fs, f.Named OneLineName) →
    EmitWrites (φ := φ) Writes (emitParts .script s fs) (emitParts .tree s fs)
  | [], _ => .pure (.literal .none)
  | [f], h => emit_writes s f (h f List.mem_cons_self)
  | f :: g :: fs, h =>
    have ⟨hf, hfs⟩ := List.forall_mem_cons.mp h
    (emit_writes s f hf).bind fun _ _ _ => emitParts_writes s (g :: fs) hfs

theorem emitEnd_writes (s : Scope) : (f? : Option Formula) → (∀ f ∈ f?, f.Named OneLineName) →
    EmitWrites (φ := φ) WritesAll (emitEnd .script s f?) (emitEnd .tree s f?)
  | none, _ => .pure .nil
  | some f, h => (emit_writes s f (h f rfl)).bind fun _ _ hc => .pure (.cons hc .nil)

theorem emitAround_writes (s : Scope) : (fs : List Formula) → (place : Nat) →
    (∀ f ∈ fs, f.Named OneLineName) →
    EmitWrites (φ := φ) (fun p q => WritesAll p.1 q.1 ∧ WritesAll p.2 q.2)
      (emitAround .script s place fs) (emitAround .tree s place fs)
  | [], _, _ => .pure ⟨.nil, .nil⟩
  | .range _ first last :: fs, 0, h => by
    obtain ⟨hf, hfs⟩ := List.forall_mem_cons.mp h
    cases hf with
    | range hfirst hlast =>
      exact (emitEnd_writes s first hfirst).bind fun _ _ hf =>
        (emitEnd_writes s last hlast).bind fun _ _ hl =>
          (emitAll_writes s fs hfs).bind fun _ _ hcs => .pure ⟨hf, List.rel_append hl hcs⟩
  | .literal _ _ :: fs, 0, h | .identifier _ _ :: fs, 0, h | .binary _ _ _ _ :: fs, 0, h
  | .unary _ _ _ :: fs, 0, h | .map _ _ :: fs, 0, h | .block _ _ :: fs, 0, h
  | .array _ _ _ :: fs, 0, h | .index _ _ _ :: fs, 0, h | .call _ _ _ :: fs, 0, h
  | .conditional _ _ :: fs, 0, h | .member _ _ _ :: fs, 0, h =>
    (emitAll_writes s fs (List.forall_mem_cons.mp h).2).bind fun _ _ hcs => .pure ⟨.nil, hcs⟩
  | f :: fs, place + 1, h =>
    have ⟨hf, hfs⟩ := List.forall_mem_cons.mp h
    (emit_writes s f hf).bind fun _ _ hc => (emitAround_writes s fs place hfs).bind fun _ _ hcs =>
      .pure ⟨.cons hc hcs.1, hcs.2⟩

theorem emitEntries_writes (s : Scope) : (entries : List Entry) →
    (∀ e ∈ entries, EntryNamed OneLineName e) → {text : List Char} → {object : Code φ} →
    Writes text object →
    EmitWrites Writes (emitEntries .script s text entries) (emitEntries .tree s object entries)
  | [], _, _, _, ho => .pure ho
  | .mk (.name key) value _ :: entries, h, _, _, ho => by
    obtain ⟨he, hentries⟩ := List.forall_mem_cons.mp h
    cases he with
    | name hvalue =>
      exact (emit_writes s value hvalue).bind fun _ _ hv =>
        (EmitWrites.call .insert (.cons ho (.cons (.literal _) (.cons hv .nil)))).bind fun _ _ ho =>
          emitEntries_writes s entries hentries ho
  | .mk (.computed key) value _ :: entries, h, _, _, ho => by
    obtain ⟨he, hentries⟩ := List.forall_mem_cons.mp h
    cases he with
    | computed hkey hvalue =>
      exact (emit_writes s key hkey).bind fun _ _ hk => (emit_writes s value hvalue).bind fun _ _ hv =>
        (EmitWrites.call .insert (.cons ho (.cons hk (.cons hv .nil)))).bind fun _ _ ho =>
          emitEntries_writes s entries hentries ho
  | .mk (.signature name params _ guard) value _ :: entries, h, _, _, ho => by
    obtain ⟨he, hentries⟩ := List.forall_mem_cons.mp h
    cases he with
    | signature hparams hguard hvalue =>
      unfold emitEntries
      refine (lambda hparams (emit_writes (s.bind params) value hvalue)).bind fun _ _ hc =>
        (declare hc).bind fun _ _ hm =>
          (emitGuard_writes (s.bind params) hparams guard hguard hm).bind fun _ _ hm => ?_
      cases name with
      | none =>
        exact (EmitWrites.call .define (.cons ho (.cons hm .nil))).bind fun _ _ ho =>
          emitEntries_writes s entries hentries ho
      | some name =>
        exact (EmitWrites.call .insert (.cons ho (.cons (.literal _) (.cons hm .nil)))).bind
          fun _ _ ho => emitEntries_writes s entries hentries ho

theorem emitGuard_writes (s : Scope) {params : List String} (hparams : ∀ p ∈ params, OneLineName p) :
    (guard : Option Formula) → (∀ f ∈ guard, f.Named OneLineName) → {text : List Char} →
    {method : Code φ} → Writes text method →
    EmitWrites Writes (emitGuard .script s params text guard) (emitGuard .tree s params method guard)
  | none, _, _, _, hm => .pure hm
  | some f, h, _, _, hm =>
    ((lambda hparams (emit_writes s f (h f rfl))).bind fun _ _ hc => declare hc).bind fun _ _ hg =>
      EmitWrites.call .guard (.cons hm (.cons hg .nil))

theorem emitClauses_writes (s : Scope) : (clauses : List Clause) →
    (∀ c ∈ clauses, ClauseNamed OneLineName c) →
    EmitWrites (φ := φ) Writes (emitClauses .script s clauses) (emitClauses .tree s clauses)
  | [], _ => .pure (.literal .none)
  | .mk none body :: _, h => by
    cases h _ List.mem_cons_self with
    | mk _ hbody => exact emit_writes s body hbody
  | .mk (some condition) body :: clauses, h => by
    obtain ⟨hclause, hclauses⟩ := List.forall_mem_cons.mp h
    cases hclause with
    | mk hcondition hbody =>
      unfold emitClauses
      refine (emit_writes s condition (hcondition condition rfl)).bind fun _ _ hc =>
        (emitBranch_writes (emit_writes s body hbody)).bind fun _ _ hbody => ?_
      dsimp only
      split
      · exact EmitWrites.call .cond (.cons hc (.cons hbody (.cons (.literal .none) .nil)))
      · exact (emitBranch_writes (emitClauses_writes s clauses hclauses)).bind fun _ _ hrest =>
          EmitWrites.call .cond (.cons hc (.cons hbody (.cons hrest .nil)))

end

end Formula

/-! ## Cells -/

open EmitWrites

theorem emitFields_writes : (fields : List (String × Nat)) → {text : List Char} → {object : Code φ} →
    Writes text object →
    EmitWrites Writes (emitFields .script text fields) (emitFields .tree object fields)
  | [], _, _, ho => .pure ho
  | (name, id) :: fields, _, _, ho =>
    (EmitWrites.call .insert (.cons ho (.cons (.literal (.text name)) (.cons (.cell id) .nil)))).bind
      fun _ _ ho => emitFields_writes fields ho

/-- The value of a cell, which nothing moves to the right any more. -/
theorem Cell.emitValue_writes (fields : List (String × Nat)) (c : Cell)
    (hc : ∀ f ∈ c.formula?, f.Named OneLineName) :
    EmitWrites (φ := φ) (fun text code => text = code.script 0) (c.emitValue .script fields)
      (c.emitValue .tree fields) := by
  unfold Cell.emitValue
  dsimp only
  split
  · exact ((EmitWrites.call .map .nil).bind fun _ _ ho => emitFields_writes fields ho).mono
      fun _ _ h => h.eq_script
  · cases hf : c.formula? with
    | none => exact .pure (Writes.literal .none).eq_script
    | some f =>
      have hwrites := Formula.emit_writes (φ := φ) ⟨c.params, c.references⟩ f (hc f hf)
      dsimp only
      split
      · exact hwrites.mono fun _ _ h => h.eq_script
      · exact hwrites.enclosed.bind fun _ _ h => .pure (lambda_eq_script c.params h.1 h.2)

/-- The text that runs a cell, its statements one level in and its result at the margin. -/
theorem WritesBody.runText_eq {texts : List (Nat × List Char)} {statements : Statements φ}
    (h : WritesBody texts statements) (id : Nat) (result : List Char) :
    runText id texts result =
      "try ".toList ++ '{' :: Code.scriptBody 1 statements ++
        newLine 1 ++ "ctx.set(".toList ++ (toString id).toList ++ ", ".toList ++ result ++
        ");".toList ++ newLine 0 ++ '}' :: " catch (err) ".toList ++ '{' ::
        newLine 1 ++ "ctx.setError(".toList ++ (toString id).toList ++ ", err.message);".toList ++
        newLine 0 ++ ['}'] := by
  have hbreak : newLine 1 = '\n' :: margin := rfl
  have hset : ");\n".toList = ");".toList ++ newLine 0 := rfl
  have hfail : ", err.message);\n".toList = ", err.message);".toList ++ newLine 0 := rfl
  have hbody : '\n' :: (body texts ++ margin) = Code.scriptBody 1 statements ++ '\n' :: margin := by
    rw [← List.cons_append, h.body_eq, List.append_assoc]
    rfl
  calc runText id texts result
      = "try ".toList ++ '{' :: ('\n' :: (body texts ++ margin)) ++ "ctx.set(".toList ++
          (toString id).toList ++ ", ".toList ++ result ++ ");\n".toList ++
          '}' :: " catch (err) ".toList ++ '{' :: ('\n' :: margin) ++ "ctx.setError(".toList ++
          (toString id).toList ++ ", err.message);\n".toList ++ ['}'] := by
        unfold runText
        simp only [List.append_assoc, List.cons_append]
    _ = _ := by
        rw [hbody, hset, hfail, hbreak]
        simp only [List.append_assoc, List.cons_append]

/-- **A text cell and a code cell for the same cell.** -/
inductive EmittedCell.Writes : EmittedCell (List Char) → EmittedCell (Code φ) → Prop
  | report {id : Nat} {name : Option String} {d : Diagnostic} :
    Writes ⟨id, name, .report d⟩ ⟨id, name, .report d⟩
  | run {id : Nat} {name : Option String} {texts : List (Nat × List Char)}
      {statements : Statements φ} {code : Code φ} : WritesBody texts statements →
    Writes ⟨id, name, .run texts (code.script 0)⟩ ⟨id, name, .run statements code⟩

theorem EmittedCell.Writes.cellText_eq {c : EmittedCell (List Char)} {d : EmittedCell (Code φ)}
    (h : c.Writes d) : cellText c = d.toCode.script := by
  cases h with
  | report => rfl
  | @run id name texts statements code hbody =>
    show "// ".toList ++ _ ++ '\n' :: runText id texts (code.script 0) = _
    rw [hbody.runText_eq]
    rfl

namespace Notebook

theorem emitCell_writes (nb : Notebook) {c : Cell} (hc : ∀ f ∈ c.formula?, f.Named OneLineName) :
    EmitWrites (φ := φ) EmittedCell.Writes (nb.emitCell .script c) (nb.emitCell .tree c) := by
  unfold emitCell
  split
  · exact .pure .report
  · exact (c.emitValue_writes (nb.fields c) hc).enclosed.bind fun p q h => by
      obtain ⟨hbody, htext⟩ := h
      obtain ⟨texts, text⟩ := p
      obtain rfl : text = q.2.script 0 := htext
      exact .pure (.run hbody)

theorem emitCells_writes (nb : Notebook) : (cs : List Cell) →
    (∀ c ∈ cs, ∀ f ∈ c.formula?, f.Named OneLineName) →
    EmitWrites (φ := φ) (List.Forall₂ EmittedCell.Writes) (nb.emitCells .script cs)
      (nb.emitCells .tree cs)
  | [], _ => .pure .nil
  | _ :: cs, h =>
    have ⟨hc, hcs⟩ := List.forall_mem_cons.mp h
    (nb.emitCell_writes hc).bind fun _ _ hc => (nb.emitCells_writes cs hcs).bind fun _ _ hcs =>
      .pure (.cons hc hcs)

theorem cyclicReports_writes (nb : Notebook) :
    List.Forall₂ EmittedCell.Writes nb.cyclicReports (nb.cyclicReports (κ := Code φ)) := by
  unfold cyclicReports
  generalize nb.cyclicCells = ids
  induction ids with
  | nil => exact .nil
  | cons id ids ih =>
    rw [List.filterMap_cons, List.filterMap_cons]
    cases nb.cell? id with
    | none => exact ih
    | some c =>
      cases nb.cycleFault? id with
      | none => exact ih
      | some fault => exact .cons .report ih

theorem emit_writes (nb : Notebook) (h : ∀ c ∈ nb.cells, ∀ f ∈ c.formula?, f.Named OneLineName) :
    List.Forall₂ EmittedCell.Writes (nb.emit .script) (nb.emit (.tree (φ := φ))) := by
  have hcells := nb.emitCells_writes (φ := φ) (nb.evalOrder.filterMap nb.cell?) fun c hc => by
    obtain ⟨id, -, hid⟩ := List.mem_filterMap.mp hc
    exact h c (mem_cells_of_cell? hid)
  exact List.rel_append (hcells 0).1 nb.cyclicReports_writes

end Notebook

/-! ## Notebooks -/

namespace Notebook

variable {g : Grammar} {sources : List CellSource}

end Notebook

end Cellbook
