import Mathlib.Data.List.Forall2
import Cellbook.Proofs.Notebook.Links

/-!
# Edits of a cell

To edit a cell is to write another text into it. The cells are declared as before, and what each of the
others says is the same (`declarations_sameBut`). A name means what it meant, since names are found among
the names of cells and not in what cells say. So every other cell keeps its links
(`Notebook.SameBut.cell?_eq`).
-/

namespace Cellbook

namespace CellSource

mutual

/-- **Edits the cell of a number**, be it this cell or one in it. -/
def withInput (id : Nat) (text : String) : CellSource → CellSource
  | ⟨n, name, input, body, params⟩ =>
    ⟨n, name, if n = id then text else input, withInputAll id text body, params⟩

def withInputAll (id : Nat) (text : String) : List CellSource → List CellSource
  | [] => []
  | c :: cs => withInput id text c :: withInputAll id text cs

end

theorem withInputAll_ids (id : Nat) (text : String) (cs : List CellSource) :
    (withInputAll id text cs).map (·.id) = cs.map (·.id) := by
  induction cs with
  | nil => rfl
  | cons c cs ih => 
    rw [withInputAll, List.map_cons, List.map_cons, ih]
    obtain ⟨n, name, input, body, params⟩ := c
    rw [withInput]

theorem withInputAll_isEmpty (id : Nat) (text : String) (cs : List CellSource) :
    (withInputAll id text cs).isEmpty = cs.isEmpty := by
  cases cs <;> rfl

end CellSource

/-- **Declarations that are the same** but for what they say, and that only if they have a certain
number. -/
structure Declaration.SameBut (id : Nat) (a b : Declaration) : Prop where
  shape : b = { a with content := b.content }
  same : a.id ≠ id → b = a

namespace Declaration.SameBut

variable {id : Nat} {a b : Declaration}

theorem id_eq (h : SameBut id a b) : b.id = a.id := by rw [h.shape]

theorem name_eq (h : SameBut id a b) : b.name = a.name := by rw [h.shape]

theorem label_eq (h : SameBut id a b) : b.label = a.label := by
  rw [label, label, h.name_eq, h.id_eq]

theorem isScopeOnly_eq (h : SameBut id a b) : b.isScopeOnly = a.isScopeOnly := by
  rw [h.shape]
  rfl

end Declaration.SameBut

namespace CellSource

variable (g : Grammar) (id : Nat) (text : String)

theorem declaration_sameBut (parent : Option Nat) (scopes : List (List Nat)) (c : CellSource) :
    Declaration.SameBut id (c.declaration g parent scopes)
      ((c.withInput id text).declaration g parent scopes) := by
  obtain ⟨n, name, input, body, params⟩ := c
  have hids := withInputAll_ids id text body
  refine ⟨?_, fun hn => ?_⟩
  · simp only [withInput, declaration, hids]
  · have hn : n ≠ id := hn
    simp only [withInput, declaration, hids, if_neg hn, content, withInputAll_isEmpty]

/-- Whether a number is declared is the same after an edit. -/
theorem any_id_eq {as bs : List Declaration} (h : List.Forall₂ (Declaration.SameBut id) as bs)
    (n : Nat) : bs.any (·.id == n) = as.any (·.id == n) := by
  induction h with
  | nil => rfl
  | cons hab _ ih => rw [List.any_cons, List.any_cons, ih, hab.id_eq]

mutual

theorem declare_sameBut (parent : Option Nat) (scopes : List (List Nat)) {as bs : List Declaration}
    (h : List.Forall₂ (Declaration.SameBut id) as bs) : (c : CellSource) →
    List.Forall₂ (Declaration.SameBut id) (declare g parent scopes as c)
      (declare g parent scopes bs (c.withInput id text))
  | ⟨n, name, input, body, params⟩ => by
    rw [withInput, declare, declare, any_id_eq id h]
    split
    · exact h
    · dsimp only
      rw [withInputAll_ids]
      refine declareAll_sameBut (some n) _ (List.rel_append h (.cons ?_ .nil)) body
      exact declaration_sameBut g id text parent scopes ⟨n, name, input, body, params⟩

theorem declareAll_sameBut (parent : Option Nat) (scopes : List (List Nat)) {as bs : List Declaration}
    (h : List.Forall₂ (Declaration.SameBut id) as bs) : (cs : List CellSource) →
    List.Forall₂ (Declaration.SameBut id) (declareAll g parent scopes as cs)
      (declareAll g parent scopes bs (withInputAll id text cs))
  | [] => h
  | c :: cs => declareAll_sameBut parent scopes (declare_sameBut parent scopes h c) cs

end

/-- **An edit changes what one declaration says**, and nothing else of any. -/
theorem declarations_sameBut (cs : List CellSource) :
    List.Forall₂ (Declaration.SameBut id) (declarations g cs)
      (declarations g (withInputAll id text cs)) := by
  unfold declarations
  rw [withInputAll_ids]
  exact declareAll_sameBut g id text none _ .nil cs

end CellSource

/-! ## Links -/

section Links

variable {id : Nat} {as bs : List Declaration}

/-- What is found in related lists by related tests is related. -/
theorem find?_related {α β : Type} {R : α → β → Prop} {p : α → Bool} {q : β → Bool}
    (hpq : ∀ a b, R a b → q b = p a) {xs : List α} {ys : List β} (h : List.Forall₂ R xs ys) :
    Option.Rel R (xs.find? p) (ys.find? q) := by
  induction h with
  | nil => exact .none
  | cons hab _ ih =>
    rw [List.find?_cons, List.find?_cons, hpq _ _ hab]
    split
    · exact .some hab
    · exact ih

theorem findCell?_sameBut (h : List.Forall₂ (Declaration.SameBut id) as bs) (n : Nat) :
    Option.Rel (Declaration.SameBut id) (findCell? as n) (findCell? bs n) :=
  find?_related (fun _ _ hab => by rw [hab.id_eq]) h

theorem findNamed?_eq (h : List.Forall₂ (Declaration.SameBut id) as bs) :
    findNamed? bs = findNamed? as := by
  funext name ids
  unfold findNamed?
  congr 1
  funext n
  have hfound := findCell?_sameBut h n
  generalize findCell? as n = o at hfound
  generalize findCell? bs n = o' at hfound
  cases hfound with
  | none => rfl
  | some hab => rw [Option.any_some, Option.any_some, hab.name_eq]

/-- **Names mean what they meant.** -/
theorem resolve?_eq (h : List.Forall₂ (Declaration.SameBut id) as bs) : resolve? bs = resolve? as := by
  funext scopes name
  rw [resolve?, resolve?, findNamed?_eq h]

theorem labelOf_eq (h : List.Forall₂ (Declaration.SameBut id) as bs) : labelOf bs = labelOf as := by
  funext n
  have hfound := findCell?_sameBut h n
  unfold labelOf
  generalize findCell? as n = o at hfound
  generalize findCell? bs n = o' at hfound
  cases hfound with
  | none => rfl
  | some hab => exact hab.label_eq

theorem references_eq (h : List.Forall₂ (Declaration.SameBut id) as bs) (d : Declaration) :
    d.references bs = d.references as := by
  rw [Declaration.references, Declaration.references, resolve?_eq h]

theorem namedChildren_sameBut (h : List.Forall₂ (Declaration.SameBut id) as bs) (d : Declaration) :
    List.Forall₂ (Declaration.SameBut id) (d.namedChildren as) (d.namedChildren bs) := by
  have hbody : List.Forall₂ Eq d.body d.body := List.forall₂_same.mpr fun _ _ => rfl
  have hfound : List.Forall₂ (Declaration.SameBut id) (d.body.filterMap (findCell? as))
      (d.body.filterMap (findCell? bs)) :=
    List.rel_filterMap (fun n _ hn => hn ▸ findCell?_sameBut h n) hbody
  refine List.rel_filter (fun a b hab => ?_) hfound
  show a.name.isSome ↔ b.name.isSome
  rw [hab.name_eq]

theorem sameBut_ids (h : List.Forall₂ (Declaration.SameBut id) as bs) :
    bs.map (·.id) = as.map (·.id) := by
  induction h with
  | nil => rfl
  | cons hab _ ih => rw [List.map_cons, List.map_cons, hab.id_eq, ih]

theorem dependsOn_eq (h : List.Forall₂ (Declaration.SameBut id) as bs) (d : Declaration) :
    d.dependsOn bs = d.dependsOn as := by
  rw [Declaration.dependsOn, Declaration.dependsOn, references_eq h,
    sameBut_ids (namedChildren_sameBut h d)]

end Links

/-! ## Linked cells -/

/-- Cells of two notebooks that are the same but for one of them. -/
def Cell.SameBut (id : Nat) (a b : Cell) : Prop :=
  Declaration.SameBut id a.toDeclaration b.toDeclaration ∧ (a.id ≠ id → b = a)

/-- **Notebooks that differ in one cell**, as far as the cells and the names go. -/
def Notebook.SameBut (id : Nat) (nb nb' : Notebook) : Prop :=
  List.Forall₂ (Cell.SameBut id) nb.cells nb'.cells

namespace Notebook

theorem build_sameBut (g : Grammar) (id : Nat) (text : String) (cs : List CellSource) :
    SameBut id (build g cs) (build g (CellSource.withInputAll id text cs)) := by
  have h := CellSource.declarations_sameBut g id text cs
  refine List.forall₂_map_left_iff.mpr (List.forall₂_map_right_iff.mpr ?_)
  refine h.imp fun a b hab => ⟨hab, fun hid => ?_⟩
  obtain rfl : b = a := hab.same hid
  unfold Declaration.link
  rw [references_eq h, dependsOn_eq h]

variable {id : Nat} {nb nb' : Notebook}

theorem SameBut.cell? (h : SameBut id nb nb') (n : Nat) :
    Option.Rel (Cell.SameBut id) (nb.cell? n) (nb'.cell? n) :=
  find?_related (fun _ _ hab => by rw [hab.1.id_eq]) h

/-- **Every other cell keeps what it says and what it reads.** -/
theorem SameBut.cell?_eq (h : SameBut id nb nb') {n : Nat} (hn : n ≠ id) :
    nb'.cell? n = nb.cell? n := by
  have hrel := h.cell? n
  have hid (c : Cell) : nb.cell? n = some c → c.id = n := cell?_id
  generalize nb.cell? n = o at hrel hid
  generalize nb'.cell? n = o' at hrel
  cases hrel with
  | none => rfl
  | some hab => rw [hab.2 (hid _ rfl ▸ hn)]

theorem SameBut.fields_eq (h : SameBut id nb nb') (c : Cell) : nb'.fields c = nb.fields c := by
  unfold fields
  induction c.body with
  | nil => rfl
  | cons n ns ih =>
    have hrel := h.cell? n
    rw [List.filterMap_cons, List.filterMap_cons]
    generalize nb.cell? n = o at hrel
    generalize nb'.cell? n = o' at hrel
    cases hrel with
    | none => exact ih
    | some hab =>
      rw [List.filterMap_cons, List.filterMap_cons, hab.1.name_eq, hab.1.id_eq, ih]

end Notebook

end Cellbook
