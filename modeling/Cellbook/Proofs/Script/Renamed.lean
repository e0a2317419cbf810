import Cellbook.Proofs.Notebook.Renamed
import Cellbook.Response

/-!
# The script of a cell under another name

A name that no formula says is told in the script in the comment with the label of its cell, which is the one
text there that is not quoted. As long as the label stays on its line, the name can be changed and the
script is the same but for that comment (`Request.keptLines_withName`). A name that holds a line feed ends the
comment, and what is behind the line feed is read as code (`Request.keptLines_injected`).
-/

namespace Cellbook

open CellSource

namespace Script

/-- What stands in the text of a cell behind the line of its label. -/
def codeText (c : EmittedCell (List Char)) : List Char :=
  match c.task with
  | .report d => reportText c.id d
  | .run statements result => runText c.id statements result

theorem cellText_eq (c : EmittedCell (List Char)) :
    cellText c = "// ".toList ++ c.label.toList ++ '\n' :: codeText c := rfl

/-- **Emitted cells with the same code**, whose labels are the same or hidden names. -/
structure SameCode (hidden : String → Prop) (a b : EmittedCell (List Char)) : Prop where
  codeText : codeText b = codeText a
  label : b.label = a.label ∨ hidden a.label ∧ hidden b.label

/-! ## Lines that are no comments -/

/-- **The lines of a text that are no comments**: it is cut at each character that ends a line, and a line is
a comment if it begins with `//`. -/
def keptLines (ends : Char → Bool) (text : List Char) : List (List Char) :=
  (text.splitOnP ends).filter fun line => !"//".toList.isPrefixOf line

variable {ends : Char → Bool} {hidden : String → Prop}

theorem keptLines_append_cons {sep : Char} (hsep : ends sep = true) (text rest : List Char) :
    keptLines ends (text ++ sep :: rest) = keptLines ends text ++ keptLines ends rest := by
  rw [keptLines, List.splitOnP_append_cons text rest hsep, List.filter_append]
  rfl

/-- A label on one line leaves nothing but the code behind it. -/
theorem keptLines_cellText (hfeed : ends '\n' = true) (hmark : ∀ x ∈ "// ".toList, ends x = false)
    {c : EmittedCell (List Char)} (hlabel : ∀ x ∈ c.label.toList, ends x = false) :
    keptLines ends (cellText c) = keptLines ends (codeText c) := by
  have hline : ∀ x ∈ "// ".toList ++ c.label.toList, ends x = false :=
    List.forall_mem_append.mpr ⟨hmark, hlabel⟩
  have hcomment : keptLines ends ("// ".toList ++ c.label.toList) = [] := by
    rw [keptLines, List.splitOnP_eq_singleton hline]
    rfl
  rw [cellText_eq, keptLines_append_cons hfeed, hcomment, List.nil_append]

section SameCode

variable (hfeed : ends '\n' = true) (hmark : ∀ x ∈ "// ".toList, ends x = false)
  (hhidden : ∀ name, hidden name → ∀ x ∈ name.toList, ends x = false)

include hfeed hmark hhidden

theorem SameCode.keptLines_eq {a b : EmittedCell (List Char)} (h : SameCode hidden a b) :
    keptLines ends (cellText b) = keptLines ends (cellText a) := by
  rcases h.label with hlabel | ⟨ha, hb⟩
  · rw [cellText_eq, cellText_eq, hlabel, h.codeText]
  · rw [keptLines_cellText hfeed hmark (hhidden _ ha), keptLines_cellText hfeed hmark (hhidden _ hb),
      h.codeText]

theorem keptLines_flatMap {as bs : List (EmittedCell (List Char))}
    (h : List.Forall₂ (SameCode hidden) as bs) :
    keptLines ends (bs.flatMap fun c => cellText c ++ ['\n']) =
      keptLines ends (as.flatMap fun c => cellText c ++ ['\n']) := by
  induction h with
  | nil => rfl
  | cons hab _ ih =>
    rw [List.flatMap_cons, List.flatMap_cons, List.append_assoc, List.append_assoc, List.singleton_append,
      List.singleton_append, keptLines_append_cons hfeed, keptLines_append_cons hfeed, ih,
      hab.keptLines_eq hfeed hmark hhidden]

end SameCode

end Script

/-! ## Notebooks -/

namespace Notebook

open Script

variable {hidden : String → Prop} {id : Nat} {nb nb' : Notebook}

/-- A cell under another name has another label only if both labels are hidden names. -/
theorem label_renamed {a b : Cell} (hab : a.Renamed hidden id b) :
    cellLabel b.name b.id = cellLabel a.name a.id ∨
      hidden (cellLabel a.name a.id) ∧ hidden (cellLabel b.name b.id) := by
  cases hab with
  | same => exact .inl rfl
  | renamed _ hold hnew hname =>
    refine .inr ⟨?_, hnew⟩
    rw [hname]
    exact hold

/-- The same is emitted for a cell under another name, and the same variable is the next one. -/
theorem emitCell_renamed {a b : Cell} (hab : a.Renamed hidden id b) (hfields : nb'.fields b = nb.fields a)
    (n : Nat) : SameCode hidden (nb.emitCell .script a n).1 (nb'.emitCell .script b n).1 ∧
      (nb'.emitCell .script b n).2 = (nb.emitCell .script a n).2 := by
  have hlabel := label_renamed hab
  have hshape : b = { a with name := b.name } := by cases hab <;> rfl
  unfold emitCell
  rw [hfields]
  -- the name is no part of what is emitted for the content
  obtain ⟨⟨_, _, _, _, _, _, content⟩, _, _⟩ := a
  generalize b.name = name at hshape
  subst hshape
  cases content <;> exact ⟨⟨rfl, hlabel⟩, rfl⟩

theorem emitCells_renamed {as bs : List Cell}
    (h : List.Forall₂ (fun a b => a.Renamed hidden id b ∧ nb'.fields b = nb.fields a) as bs) (n : Nat) :
    List.Forall₂ (SameCode hidden) (nb.emitCells .script as n).1 (nb'.emitCells .script bs n).1 := by
  induction h generalizing n with
  | nil => exact .nil
  | @cons a b as bs hab _ ih =>
    obtain ⟨hcode, hnext⟩ := emitCell_renamed hab.1 hab.2 n
    have hrest := ih (nb.emitCell .script a n).2.2
    show List.Forall₂ _ (_ :: (nb.emitCells .script as (nb.emitCell .script a n).2.2).1)
      (_ :: (nb'.emitCells .script bs (nb'.emitCell .script b n).2.2).1)
    rw [hnext]
    exact .cons hcode hrest

/-- The faults of the cells that cannot be evaluated are reported in the same texts. -/
theorem cyclicReports_renamed (h : nb.Renamed hidden id nb') :
    List.Forall₂ (SameCode hidden) nb.cyclicReports nb'.cyclicReports := by
  have hids : List.Forall₂ Eq nb.cyclicCells nb'.cyclicCells := by
    rw [h.cyclicCells]
    exact List.forall₂_same.mpr fun _ _ => rfl
  refine List.rel_filterMap ?_ hids
  rintro n _ rfl
  show Option.Rel (SameCode hidden)
    ((nb.cell? n).bind fun c =>
      (nb.cycleFault? n).bind fun fault => some ⟨c.id, c.name, .report fault.report⟩)
    ((nb'.cell? n).bind fun c =>
      (nb'.cycleFault? n).bind fun fault => some ⟨c.id, c.name, .report fault.report⟩)
  have hcell := cell?_renamed h.cells n
  have hreport := h.reports n
  generalize nb.cell? n = o at hcell ⊢
  generalize nb'.cell? n = o' at hcell ⊢
  generalize nb.cycleFault? n = fault at hreport ⊢
  generalize nb'.cycleFault? n = fault' at hreport ⊢
  cases hcell with
  | none => exact .none
  | @some a b hab =>
    cases fault with
    | none =>
      obtain rfl : fault' = none := Option.map_eq_none_iff.mp hreport
      exact .none
    | some fault =>
      obtain ⟨fault', rfl, htext⟩ := Option.map_eq_some_iff.mp hreport
      have hid : b.id = a.id := by cases hab <;> rfl
      have htext : fault'.report.toText = fault.report.toText := htext
      have hcode : reportText b.id fault'.report = reportText a.id fault.report := by
        unfold reportText
        rw [htext, hid]
      have hsame : SameCode hidden ⟨a.id, a.name, .report fault.report⟩
          ⟨b.id, b.name, .report fault'.report⟩ := ⟨hcode, label_renamed hab⟩
      exact .some hsame

/-- **The script of a cell under another name**: the codes are the same, one by one. -/
theorem emit_renamed (h : nb.Renamed hidden id nb') :
    List.Forall₂ (SameCode hidden) (nb.emit .script) (nb'.emit .script) := by
  have hids : List.Forall₂ Eq nb.evalOrder nb'.evalOrder := by
    rw [h.evalOrder]
    exact List.forall₂_same.mpr fun _ _ => rfl
  have hcells : List.Forall₂ (Cell.Renamed hidden id) (nb.evalOrder.filterMap nb.cell?)
      (nb'.evalOrder.filterMap nb'.cell?) :=
    List.rel_filterMap (fun n _ hn => hn ▸ cell?_renamed h.cells n) hids
  have hfields : ∀ a ∈ nb.evalOrder.filterMap nb.cell?, ∀ b, a.Renamed hidden id b →
      nb'.fields b = nb.fields a := by
    intro a ha b hab
    obtain ⟨n, -, hn⟩ := List.mem_filterMap.mp ha
    have hbody : nb'.fields b = nb'.fields a := by cases hab <;> rfl
    rw [hbody, h.fields a (List.mem_of_find?_eq_some hn)]
  have hboth := (List.forall₂_and_left _ _).mpr ⟨hfields, hcells⟩
  exact List.rel_append (emitCells_renamed (hboth.imp fun a b hab => ⟨hab.2, hab.1 b hab.2⟩) 0)
    (cyclicReports_renamed h)

theorem keptLines_script_renamed (h : nb.Renamed hidden id nb') {ends : Char → Bool}
    (hfeed : ends '\n' = true) (hmark : ∀ x ∈ "// ".toList, ends x = false)
    (hhidden : ∀ name, hidden name → ∀ x ∈ name.toList, ends x = false) :
    keptLines ends nb'.script.toList = keptLines ends nb.script.toList := by
  have hcells := emit_renamed h
  have hlines := keptLines_flatMap hfeed hmark hhidden hcells
  unfold script
  generalize nb.emit .script = as at hcells hlines
  generalize nb'.emit .script = bs at hcells hlines
  cases hcells with
  | nil => rfl
  | cons _ _ =>
    dsimp only
    rw [String.toList_ofList, String.toList_ofList, hlines]

end Notebook

namespace Request

open Script

/-- **A name on one line is not read as code**: if one cell at the top gets another name, if no formula says
either of the two, and if both are on one line, then the scripts have the same lines but for the comments.
The cell is not to be in a container, which a repeated number could put it in: there its name is quoted. -/
theorem keptLines_withName (front back : List CellSource) (c : CellSource) {name name' : String}
    (hname : name ≠ "") (hname' : name' ≠ "")
    (hsaid : name ∉ (notebook ⟨front ++ c.withName name :: back⟩).identifiers)
    (hsaid' : name' ∉ (notebook ⟨front ++ c.withName name :: back⟩).identifiers)
    (hinside : ∀ s ∈ sitesAll [] (front ++ c.withName name :: back), c.id ∉ s.source.body.map (·.id))
    {ends : Char → Bool} (hfeed : ends '\n' = true) (hmark : ∀ x ∈ "// ".toList, ends x = false)
    (hline : ∀ x ∈ name.toList, ends x = false) (hline' : ∀ x ∈ name'.toList, ends x = false) :
    keptLines ends (script ⟨front ++ c.withName name' :: back⟩).toList =
      keptLines ends (script ⟨front ++ c.withName name :: back⟩).toList := by
  have hrenamed := Notebook.build_renamed .standard front back c hname hname' hsaid hsaid' hinside
  refine Notebook.keptLines_script_renamed hrenamed hfeed hmark ?_
  rintro n (rfl | rfl)
  · exact hline
  · exact hline'

/-- A cell with the formula `1`. -/
def constantCell : CellSource := { id := 1, input := "1" }

/-- One cell under two names. -/
theorem keptLines_withName_constant :
    keptLines (· == '\n') (script ⟨[] ++ constantCell.withName "b" :: []⟩).toList =
      keptLines (· == '\n') (script ⟨[] ++ constantCell.withName "a" :: []⟩).toList :=
  keptLines_withName [] [] constantCell (by decide) (by decide) (by decide +kernel) (by decide +kernel)
    (by decide +kernel) rfl (by simp) (by simp) (by simp)

/-- **A name with a line feed is read as code**: the script has a line more than under a name without one. -/
theorem keptLines_injected :
    "a\nctx.set(1, 7);" ∉ (notebook ⟨[constantCell.withName "a"]⟩).identifiers ∧
      "a" ∉ (notebook ⟨[constantCell.withName "a"]⟩).identifiers ∧
      keptLines (· == '\n') (script ⟨[constantCell.withName "a\nctx.set(1, 7);"]⟩).toList =
        "ctx.set(1, 7);".toList :: keptLines (· == '\n') (script ⟨[constantCell.withName "a"]⟩).toList := by
  decide +kernel

end Request

end Cellbook
