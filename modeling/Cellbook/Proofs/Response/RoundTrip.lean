import Cellbook.Proofs.Emission.Idle
import Cellbook.Proofs.Notebook.Program
import Cellbook.Response

/-!
# Text that evaluates to its value

The text of a readable value, taken as the input of a cell, evaluates to the value (`evaluate_toText`): its
characters are scanned to tokens that spell it, these are parsed to a tree that shows it, the tree is read as a
formula that says it, and the code of that formula evaluates to it.
-/

namespace Cellbook

/-- The text of a value writes a formula that says the value. -/
theorem Value.Readable.read_toText {φ : Type} [BEq φ] {v : Value φ} (h : v.Readable) (htext : v.kind ≠ .text)
    (cell : Nat) : ∃ tree f, Formula.read .standard cell v.toText = .ok (tree, f) ∧ Formula.ofNode cell tree = .ok f ∧
      Formula.Says v.reread f := by
  obtain ⟨ts, hscan, hts⟩ := h.scan_toText htext
  obtain ⟨tree, hparse, htree⟩ := Node.parse_shows hts
  obtain ⟨f, hf, hsaid⟩ := Formula.ofNode_shows htree
  refine ⟨tree, f, ?_, hf, hsaid⟩
  unfold Formula.read
  simp only [hscan, hparse, hf, bind, Except.bind]
  rfl

/-! ## Notebooks of one cell -/

/-- A cell without cells in it and without parameters. -/
def CellSource.single (id : Nat) (name : Option String) (input : String) : CellSource := { id, name, input }

theorem CellSource.content_toText {φ : Type} [BEq φ] {v : Value φ} (h : v.Readable) (htext : v.kind ≠ .text) (id : Nat)
    (name : Option String) : ∃ tree f, (single id name v.toText).content .standard = .formula tree f ∧
      Formula.ofNode id tree = .ok f ∧ Formula.Says v.reread f := by
  obtain ⟨tree, f, hread, hf, hsaid⟩ := h.read_toText htext id
  refine ⟨tree, f, ?_, hf, hsaid⟩
  have hblank : v.toText.toList.all Text.isBlank = false := by
    obtain ⟨c, cs, hchars, hc⟩ := h.head
    rw [Value.toText, Value.toChars, String.toList_ofList, Value.chars_of_kind htext, hchars, List.all_cons, hc]
    rfl
  -- the cell is neither a container nor blank
  have hskip : (!([] : List CellSource).isEmpty || v.toText.toList.all Text.isBlank) = false := by
    rw [hblank]
    rfl
  unfold content single
  dsimp only
  rw [hskip, hread]
  rfl

/-- A cell that holds no cells and whose formula names nothing reads no cell. -/
theorem Declaration.link_of_unnamed {d : Declaration} (hbody : d.body = []) (hnames : d.names = [])
    (cells : List Declaration) : d.link cells = { d with references := [], dependsOn := [] } := by
  have hvalued : d.isScopeOnly = false := by
    rw [isScopeOnly, isContainer, hbody]
    rfl
  have hreferences : d.references cells = [] := by
    rw [references, hvalued, hnames]
    rfl
  have hdepends : d.dependsOn cells = [] := by
    rw [dependsOn, hvalued, hreferences, namedChildren, hbody]
    rfl
  rw [link, hreferences, hdepends]

namespace Notebook

section Only

/-! Here `d` is the only cell that is declared. -/

variable {g : Grammar} {sources : List CellSource} {d : Declaration}
  (hdeclared : CellSource.declarations g sources = [d])

include hdeclared

theorem cell?_only : (build g sources).cell? d.id = some (d.link [d]) := by
  rw [cell?_build, hdeclared, findCell?, List.find?_singleton, beq_self_eq_true, if_pos rfl]
  rfl

variable (hbody : d.body = []) (hnames : d.names = [])

include hbody hnames

theorem cyclicCells_only : (build g sources).cyclicCells = [] := by
  refine List.eq_nil_iff_forall_not_mem.mpr fun a ha => ?_
  obtain ⟨b, -, hb⟩ := graph_sound.exists_dependsOn_of_mem_cyclic ha
  obtain ⟨c, hc, -, hb⟩ := dependsOn_graph_iff.mp hb
  obtain ⟨e, he, rfl⟩ := mem_cells.mp hc
  rw [hdeclared, List.mem_singleton] at he
  rw [he, Declaration.link_of_unnamed hbody hnames] at hb
  exact List.not_mem_nil hb

theorem evalOrder_only : (build g sources).evalOrder = [d.id] := by
  have hvalued : d.isScopeOnly = false := by
    rw [Declaration.isScopeOnly, Declaration.isContainer, hbody]
    rfl
  have hnodes : (build g sources).graph.nodes = [d.id] := by
    show (linkGraph (CellSource.declarations g sources)).nodes = _
    rw [hdeclared, nodes_linkGraph, valued, List.filter_singleton, hvalued]
    rfl
  have hperm : ((build g sources).evalOrder ++ (build g sources).cyclicCells).Perm (build g sources).graph.nodes :=
    (Graph.ordered_progress _).perm
  rw [cyclicCells_only hdeclared hbody hnames, List.append_nil, hnodes] at hperm
  exact List.perm_singleton.mp hperm

/-- The program of the only cell. -/
theorem program_only : (build g sources).program (φ := Closure) =
    [((build g sources).emitCell .tree (d.link [d]) 0).1.toCode] := by
  unfold program emit cyclicReports
  rw [evalOrder_only hdeclared hbody hnames, cyclicCells_only hdeclared hbody hnames,
    List.filterMap_cons_some (cell?_only hdeclared)]
  rfl

end Only

end Notebook

/-! ## The value of the only cell -/

/-- What is emitted for a cell with a formula and without parameters is what is emitted for the formula. -/
theorem Cell.emitValue_of_formula {κ : Type} (t : Target κ) (fields : List (String × Nat)) {c : Cell} {f : Formula}
    (hbody : c.body = []) (hparams : c.params = []) (hformula : c.formula? = some f) :
    c.emitValue t fields = f.emit t ⟨[], c.references⟩ := by
  have hnested : c.isContainer = false := by
    rw [Declaration.isContainer, hbody]
    rfl
  unfold emitValue
  rw [hnested, hformula, hparams]
  rfl

/-- A program of one cell whose code evaluates to a value. -/
theorem Program.run_single {c : CellCode Closure} {body : Statements Closure} {result : Code Closure}
    {reads : List Nat} (htask : c.task = .run body result reads) {depth : Nat} {v : Value Closure}
    (h : ∀ (frame : Frame) (i : Identity), frame.run (Closure.invoke depth) body result i = .ok (v, i))
    (settings : Settings) : Program.run [c] depth settings = some [⟨c.id, c.name, .ok v⟩] := by
  have hcell : Machine.start.runCell depth settings c = some (.ok v, Machine.start.nextIdentity c.id) := by
    unfold Machine.runCell
    rw [htask]
    dsimp only [StateT.run]
    rw [h]
  rw [run, Machine.runFrom, hcell]
  rfl

/-- **A formula that says a value**, in the only cell that is declared, evaluates to the value. -/
theorem Notebook.run_only {g : Grammar} {sources : List CellSource} {d : Declaration}
    (hdeclared : CellSource.declarations g sources = [d]) (hbody : d.body = []) (hparams : d.params = [])
    (hnames : d.names = []) {tree : Node} {f : Formula} (hcontent : d.content = .formula tree f) {cell : Nat}
    (hf : Formula.ofNode cell tree = .ok f) {v : Value Closure} (hsaid : Formula.Says v f) (hkeyed : v.Keyed)
    (depth : Nat) (settings : Settings) :
    (build g sources).program.run depth settings = some [⟨d.id, d.name, .ok v⟩] := by
  have hformula : d.formula? = some f := by rw [Declaration.formula?, hcontent]
  have htask := emitCell_of_value (build g sources) (c := d.link [d])
    (fun fault hfault => by cases hcontent.symm.trans hfault) 0
  rw [Cell.emitValue_of_formula .tree _ hbody hparams hformula] at htask
  rw [program_only hdeclared hbody hnames, Program.run_single htask fun frame i =>
    hsaid.run_emit _ hf hkeyed frame 0 depth i]
  have hid : ((build g sources).emitCell (.tree (φ := Closure)) (d.link [d]) 0).1.toCode.id = d.id := emitCell_id ..
  have hname : ((build g sources).emitCell (.tree (φ := Closure)) (d.link [d]) 0).1.toCode.name = d.name :=
    emitCell_name ..
  rw [hid, hname]

theorem CellSource.declarations_single (g : Grammar) (id : Nat) (name : Option String) (input : String) :
    declarations g [single id name input] = [(single id name input).declaration g none [[id]]] := rfl

open CellSource (single)

/-- **The text of a value evaluates to the value.** The only cell of a request says the text, and its outcome
is a value that is equal to the one that was written, at whatever depth of calls. -/
theorem Request.evaluate_toText {v : Value Closure} (h : v.Readable) (htext : v.kind ≠ .text) (id : Nat)
    (name : Option String) (depth : Nat) (settings : Settings) :
    ∃ w : Value Closure, (w == v) = true ∧
      (Request.mk [single id name v.toText]).evaluate depth settings =
        some ⟨[⟨id, name.filter (!·.isEmpty), .ok w⟩], [id], []⟩ := by
  obtain ⟨tree, f, hcontent, hf, hsaid⟩ := CellSource.content_toText h htext id name
  have hdeclared := CellSource.declarations_single .standard id name v.toText
  generalize hd : (single id name v.toText).declaration .standard none [[id]] = d at hdeclared
  have hid : d.id = id := hd ▸ rfl
  have hname : d.name = name.filter (!·.isEmpty) := hd ▸ rfl
  have hparams : d.params = [] := hd ▸ rfl
  have hbody : d.body = [] := hd ▸ rfl
  have hformula : d.content = .formula tree f := by
    rw [← hcontent, ← hd]
    rfl
  have hnames : d.names = [] := by
    rw [Declaration.names, Declaration.formula?, hformula]
    dsimp only
    rw [hsaid.freeNames_eq]
    rfl
  refine ⟨v.reread, h.reread_equal, ?_⟩
  unfold evaluate notebook
  dsimp only
  rw [Notebook.run_only hdeclared hbody hparams hnames hformula hf hsaid h.keyed,
    Notebook.evalOrder_only hdeclared hbody hnames, Notebook.cyclicCells_only hdeclared hbody hnames, hid, hname]
  rfl

/-- A stream under a text and a large number under an object. -/
theorem Request.evaluate_toText_of_nested :
    let x : Decimal := ⟨-25, -1, 50, by decide⟩
    let y : Decimal := ⟨1, 100, 50, by decide⟩
    let v : Value Closure := .object [(.text "a", .stream [.number x, .none]),
      (.object [(.boolean true, .text "\n\"")] [], .number y)] []
    v.Readable ∧ v.kind ≠ .text ∧ v.toText = "\x7b\"a\": [-2.5, none], \x7btrue: \"\\n\\\"\"\x7d: 1e100\x7d" ∧
      ∃ w : Value Closure, (w == v) = true ∧
        (Request.mk [single 1 (some "v") v.toText]).evaluate 0 ⟨50, 100⟩ = some ⟨[⟨1, some "v", .ok w⟩], [1], []⟩ := by
  intro x y v
  have hstream : Value.Readable (φ := Closure) (.stream [.number x, .none]) :=
    .stream (by simpa using ⟨.scalar (.number (by decide)), .scalar .none⟩)
  have hkey : Value.Readable (φ := Closure) (.object [(.boolean true, .text "\n\"")] []) :=
    .object (by simpa using .scalar (.boolean true))
      (by simpa using .scalar (.text (List.all_eq_true.mp (by decide)))) (by simp [Value.kind])
      (List.pairwise_singleton _ _)
  have hv : v.Readable := .object (by simpa using ⟨.scalar (.text (List.all_eq_true.mp (by decide))), hkey⟩)
    (by simpa using ⟨hstream, .scalar (.number (by decide))⟩) (by simp [Value.kind])
    (List.pairwise_pair.mpr rfl)
  exact ⟨hv, by decide, by decide, evaluate_toText hv (by decide) 1 (some "v") 0 ⟨50, 100⟩⟩

end Cellbook
