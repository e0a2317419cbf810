import Cellbook.Proofs.Notebook.Repeated
import Cellbook.Response

/-!
# Requests without repeated cells

Taking the repeated cells out of a request changes neither its response nor its script, if each of them stands
beside the cell that it repeats, and if no named container lists a named cell twice (`evaluate_withoutRepeats`):
the notebook is the same then but for repetitions in lists of cells, and the code of a container is made from its
named cells.

A repeated cell that stands elsewhere is not ignored: its number makes the first cell of that number seen where
the repeated one stands (`evaluate_strayRepeat`).
-/

namespace Cellbook

namespace Notebook

variable {κ : Type} (t : Target κ) (nb : Notebook)

theorem cell?_thin (id : Nat) : nb.thin.cell? id = (nb.cell? id).map Cell.thin := by
  unfold cell? thin
  rw [List.find?_map]
  rfl

/-- The fields of a container that lists no named cell twice. -/
theorem fields_thin {c : Cell} (h : (nb.fields c).Nodup) : nb.thin.fields c.thin = nb.fields c := by
  let field? (id : Nat) : Option (String × Nat) := (nb.cell? id).bind fun child => child.name.map (·, child.id)
  have hfields (ids : List Nat) :
      (ids.filterMap nb.cell?).filterMap (fun child => child.name.map (·, child.id)) = ids.filterMap field? :=
    List.filterMap_filterMap
  have hthin (ids : List Nat) : (ids.filterMap nb.thin.cell?).filterMap
      (fun child => child.name.map (·, child.id)) = ids.filterMap field? := by
    rw [← hfields, show nb.thin.cell? = fun id => (nb.cell? id).map Cell.thin from funext nb.cell?_thin,
      ← List.map_filterMap, List.filterMap_map]
    rfl
  -- a field tells the number of its cell, so cells that are listed once have different fields
  have hnodup : ((distinct c.body).filterMap field?).Nodup := by
    refine (distinct_nodup c.body).filterMap fun a b field ha hb => ?_
    have hid {n : Nat} (hn : field ∈ field? n) : field.2 = n := by
      obtain ⟨child, hchild, hname⟩ := Option.bind_eq_some_iff.mp hn
      obtain ⟨name, -, rfl⟩ := Option.map_eq_some_iff.mp hname
      exact cell?_id hchild
    rw [← hid ha, hid hb]
  unfold fields at h ⊢
  rw [hfields] at h
  rw [hthin, hfields, show c.thin.body = distinct c.body from rfl, ← distinct_of_nodup hnodup,
    distinct_filterMap_distinct, distinct_of_nodup h]

/-- A cell is emitted as before. -/
theorem emitCell_thin {c : Cell} (h : (nb.fields c).Nodup) : nb.thin.emitCell t c.thin = nb.emitCell t c := by
  have hvalue (fields : List (String × Nat)) : c.thin.emitValue t fields = c.emitValue t fields := by
    unfold Cell.emitValue
    rw [show c.thin.isContainer = c.isContainer from c.toDeclaration.isContainer_thin]
    rfl
  unfold emitCell
  rw [nb.fields_thin h, hvalue]
  rfl

theorem emitCells_thin {cs : List Cell} (h : ∀ c ∈ cs, (nb.fields c).Nodup) :
    nb.thin.emitCells t (cs.map Cell.thin) = nb.emitCells t cs := by
  induction cs with
  | nil => rfl
  | cons c cs ih =>
    obtain ⟨hc, hcs⟩ := List.forall_mem_cons.mp h
    rw [List.map_cons, emitCells, emitCells, nb.emitCell_thin t hc, ih hcs]

/-- **Repetitions in lists of cells are not seen in code**, if no named cell is listed twice in a container that
has a place in the order. -/
theorem emit_thin (h : ∀ id ∈ nb.evalOrder, ∀ c, nb.cell? id = some c → (nb.fields c).Nodup) :
    nb.thin.emit t = nb.emit t := by
  have hcells : nb.thin.evalOrder.filterMap nb.thin.cell? = (nb.evalOrder.filterMap nb.cell?).map Cell.thin := by
    rw [List.map_filterMap, show nb.thin.cell? = fun id => (nb.cell? id).map Cell.thin from funext nb.cell?_thin]
    rfl
  have hreports : nb.thin.cyclicReports (κ := κ) = nb.cyclicReports := by
    refine List.filterMap_congr fun id _ => ?_
    rw [nb.cell?_thin]
    cases nb.cell? id <;> rfl
  unfold emit
  rw [hcells, hreports, nb.emitCells_thin t]
  intro c hc
  obtain ⟨id, hid, hfound⟩ := List.mem_filterMap.mp hc
  exact h id hid c hfound

end Notebook

namespace Request

/-- The request without the cells whose number has come before, and without what stands in them. -/
def withoutRepeats (r : Request) : Request := ⟨(CellSource.unrepeatedAll [] r.body).1⟩

/-- **Repeated cells are ignored** where they stand beside those that they repeat and no named container lists a
named cell twice: without them the response is the same, and so is the script. -/
theorem evaluate_withoutRepeats (r : Request) (hbeside : CellSource.RepeatsBeside r.body)
    (honce : ∀ c ∈ r.notebook.cells, c.name.isSome → (r.notebook.fields c).Nodup) :
    (∀ depth settings, r.withoutRepeats.evaluate depth settings = r.evaluate depth settings) ∧
      r.withoutRepeats.script = r.script := by
  have hbuild : r.withoutRepeats.notebook = r.notebook.thin := Notebook.build_unrepeated .standard hbeside
  have hfields : ∀ id ∈ r.notebook.evalOrder, ∀ c, r.notebook.cell? id = some c → (r.notebook.fields c).Nodup := by
    intro id hid c hc
    obtain ⟨c', hc', hvalued⟩ := Notebook.exists_cell?_of_mem_nodes (Notebook.mem_evalOrder.mp hid).1
    obtain rfl : c' = c := Option.some.inj (hc'.symm.trans hc)
    cases hname : c'.name with
    | some name => exact honce c' (Notebook.mem_cells_of_cell? hc) (by rw [hname]; rfl)
    | none =>
      -- a cell with a value and no name is no container
      have hbody : c'.body = [] := by
        have hnone : c'.name.isNone := by rw [hname]; rfl
        simpa [Declaration.isScopeOnly, Declaration.isContainer, hnone] using hvalued
      rw [Notebook.fields, hbody]
      exact List.nodup_nil
  have hemit {κ : Type} (t : Target κ) : r.withoutRepeats.notebook.emit t = r.notebook.emit t := by
    rw [hbuild, Notebook.emit_thin t _ hfields]
  refine ⟨fun depth settings => ?_, ?_⟩
  · have hprogram : r.withoutRepeats.notebook.program (φ := Closure) = r.notebook.program := by
      unfold Notebook.program
      rw [hemit]
    unfold evaluate
    dsimp only
    rw [hprogram, hbuild]
    rfl
  · show r.withoutRepeats.notebook.script = r.notebook.script
    unfold Notebook.script
    rw [hemit]

/-- A request in which a cell at the top, and one without a name in a container, come twice. -/
def besideRepeat : Request where
  body :=
    [{ id := 1, name := some "rate", input := "2" }, { id := 1, name := some "other", input := "3" },
      { id := 2, name := some "group", body :=
        [{ id := 3, input := "rate" }, { id := 3, input := "7" }, { id := 4, name := some "x", input := "rate * 5" }] }]

/-- Repeated cells beside those that they repeat. -/
theorem evaluate_withoutRepeats_of_beside :
    CellSource.RepeatsBeside besideRepeat.body ∧
      (∀ c ∈ besideRepeat.notebook.cells, c.name.isSome → (besideRepeat.notebook.fields c).Nodup) ∧
      (∀ depth settings, besideRepeat.withoutRepeats.evaluate depth settings =
        besideRepeat.evaluate depth settings) ∧
      besideRepeat.withoutRepeats.script = besideRepeat.script := by
  have hbeside : CellSource.RepeatsBeside besideRepeat.body := ⟨by decide, by decide⟩
  have honce : ∀ c ∈ besideRepeat.notebook.cells, c.name.isSome → (besideRepeat.notebook.fields c).Nodup := by
    decide +kernel
  exact ⟨hbeside, honce, evaluate_withoutRepeats besideRepeat hbeside honce⟩

/-- A request in which a cell at the top repeats one that stands in a container. -/
def strayRepeat : Request where
  body :=
    [{ id := 1, name := some "total", input := "rate * 2" },
      { id := 2, name := some "group", body := [{ id := 3, name := some "rate", input := "10" }] },
      { id := 3, name := some "other", input := "7" }]

/-- **A repeated cell is not ignored where it stands elsewhere**: behind it the cell in the container is seen at
the top, and is evaluated before a cell that would not find it otherwise. -/
theorem evaluate_strayRepeat :
    (strayRepeat.evaluate 0 {}).map (·.evalOrder) = some [3, 1, 2] ∧
      (strayRepeat.withoutRepeats.evaluate 0 {}).map (·.evalOrder) = some [1, 3, 2] := by
  decide +kernel

end Request

end Cellbook
