import Mathlib.Data.List.Nodup
import Cellbook.Proofs.Notebook.Links

/-!
# Where cells stand

The cells of a request, each with the cells that it stands in, in the order in which they are written
(`CellSource.sites`). Of these a notebook keeps the first one with each number, and of a cell that it does
not keep nothing inside either (`CellSource.kept`); if no two cells have the same number it keeps them all
(`kept_eq_sites`).

The declarations of a notebook are those of the cells that it keeps (`declarations_eq_kept`): what a
declaration says about the place of its cell, the container and the scopes, is told by the cells around it.
-/

namespace Cellbook

namespace CellSource

/-- The name of a cell; an empty one is none. -/
def givenName? (c : CellSource) : Option String := c.name.filter (!·.isEmpty)

/-- Whether a cell only groups the cells in it: it has some, and no name. -/
def groups (c : CellSource) : Bool := !c.body.isEmpty && c.givenName?.isNone

end CellSource

/-- **A cell and the cells around it**, from the inside out. -/
structure Site where
  source : CellSource
  around : List CellSource

namespace Site

/-- The lists of cells among which a name is looked up from a site: the cell and those beside it, and so
outward to the cells of the request, `top`. -/
def levels (top : List CellSource) (s : Site) : List (List CellSource) := s.around.map (·.body) ++ [top]

/-- The declaration of a cell by its site. -/
def declaration (g : Grammar) (top : List CellSource) (s : Site) : Declaration :=
  s.source.declaration g (s.around.head?.map (·.id)) ((s.levels top).map (·.map (·.id)))

/-- The cells that have no value are those that only group others. -/
theorem declaration_isScopeOnly (g : Grammar) (top : List CellSource) (s : Site) :
    (s.declaration g top).isScopeOnly = s.source.groups := by
  show (!(s.source.body.map (·.id)).isEmpty && s.source.givenName?.isNone) = s.source.groups
  rw [List.isEmpty_map]
  rfl

end Site

namespace CellSource

mutual

/-- A cell and the cells in it, in the order in which they are written. -/
def sites (around : List CellSource) : CellSource → List Site
  | ⟨id, name, input, body, params⟩ =>
    let c : CellSource := ⟨id, name, input, body, params⟩
    ⟨c, around⟩ :: sitesAll (c :: around) body

/-- **The sites of cells** that stand beside each other. -/
def sitesAll (around : List CellSource) : List CellSource → List Site
  | [] => []
  | c :: cs => sites around c ++ sitesAll around cs

end

theorem sitesAll_eq_flatMap (around cs : List CellSource) : sitesAll around cs = cs.flatMap (sites around) := by
  induction cs with
  | nil => rfl
  | cons c cs ih => rw [sitesAll, List.flatMap_cons, ih]

theorem mem_sitesAll_of_mem {around cs : List CellSource} {c : CellSource} (h : c ∈ cs) :
    ⟨c, around⟩ ∈ sitesAll around cs := by
  rw [sitesAll_eq_flatMap]
  refine List.mem_flatMap.mpr ⟨c, h, ?_⟩
  obtain ⟨id, name, input, body, params⟩ := c
  exact List.mem_cons_self

/-- The numbers of sites. -/
def idsOf (ss : List Site) : List Nat := ss.map (·.source.id)

@[simp] theorem idsOf_append (ss ts : List Site) : idsOf (ss ++ ts) = idsOf ss ++ idsOf ts :=
  List.map_append

@[simp] theorem idsOf_cons (s : Site) (ss : List Site) : idsOf (s :: ss) = s.source.id :: idsOf ss := rfl

mutual

/-- What is kept of a cell and the cells in it, if some numbers have been seen. -/
def kept (around : List CellSource) (seen : List Nat) : CellSource → List Site
  | ⟨id, name, input, body, params⟩ =>
    let c : CellSource := ⟨id, name, input, body, params⟩
    if id ∈ seen then [] else ⟨c, around⟩ :: keptAll (c :: around) (seen ++ [id]) body

/-- **The cells that are kept**: of those with one number the first, and nothing that stands in one that is
not kept. -/
def keptAll (around : List CellSource) (seen : List Nat) : List CellSource → List Site
  | [] => []
  | c :: cs =>
    kept around seen c ++ keptAll around (seen ++ idsOf (kept around seen c)) cs

end

/-! ## Distinct numbers -/

mutual

/-- Where no number comes twice, and none has been seen, everything is kept. -/
theorem kept_eq_sites (around : List CellSource) {seen : List Nat} : (c : CellSource) →
    (seen ++ idsOf (sites around c)).Nodup → kept around seen c = sites around c
  | ⟨id, name, input, body, params⟩, h => by
    rw [sites, idsOf_cons] at h
    have hnew : id ∉ seen := by
      intro hid
      exact (List.nodup_append.mp h).2.2 id hid id List.mem_cons_self rfl
    rw [kept, sites, if_neg hnew, keptAll_eq_sitesAll]
    rw [List.append_assoc]
    exact h

theorem keptAll_eq_sitesAll (around : List CellSource) {seen : List Nat} : (cs : List CellSource) →
    (seen ++ idsOf (sitesAll around cs)).Nodup → keptAll around seen cs = sitesAll around cs
  | [], _ => rfl
  | c :: cs, h => by
    rw [sitesAll, idsOf_append, ← List.append_assoc] at h
    have hc := kept_eq_sites around c (List.nodup_append.mp h).1
    rw [keptAll, sitesAll, hc, keptAll_eq_sitesAll around cs h]

end

/-! ## Declarations -/

theorem any_id_iff {declared : List Declaration} {id : Nat} :
    declared.any (·.id == id) = true ↔ id ∈ declared.map (·.id) := by
  simp only [List.any_eq_true, beq_iff_eq, List.mem_map]

section Declarations

variable (g : Grammar) (top : List CellSource)

/-- The scopes of the cells that stand in some others. -/
def scopesIn (around : List CellSource) : List (List Nat) :=
  (around.map (·.body) ++ [top]).map (·.map (·.id))

theorem map_declaration_id (ss : List Site) :
    (ss.map (Site.declaration g top)).map (·.id) = idsOf ss := by
  rw [List.map_map]
  rfl

mutual

theorem declare_eq_kept (around : List CellSource) (declared : List Declaration) : (c : CellSource) →
    declare g (around.head?.map (·.id)) (scopesIn top around) declared c =
      declared ++ (kept around (declared.map (·.id)) c).map (Site.declaration g top)
  | ⟨id, name, input, body, params⟩ => by
    let c : CellSource := ⟨id, name, input, body, params⟩
    rw [declare, kept]
    by_cases hid : id ∈ declared.map (·.id)
    · rw [if_pos (any_id_iff.mpr hid), if_pos hid, List.map_nil, List.append_nil]
    · rw [if_neg (mt any_id_iff.mp hid), if_neg hid]
      have hdeclared : (declared ++ [Site.declaration g top ⟨c, around⟩]).map (·.id) =
          declared.map (·.id) ++ [id] := List.map_append
      have hinside := declareAll_eq_kept (c :: around)
        (declared ++ [Site.declaration g top ⟨c, around⟩]) body
      rw [hdeclared, List.append_assoc] at hinside
      exact hinside

theorem declareAll_eq_kept (around : List CellSource) (declared : List Declaration) :
    (cs : List CellSource) →
    declareAll g (around.head?.map (·.id)) (scopesIn top around) declared cs =
      declared ++ (keptAll around (declared.map (·.id)) cs).map (Site.declaration g top)
  | [] => (List.append_nil declared).symm
  | c :: cs => by
    rw [declareAll, declare_eq_kept around declared c, declareAll_eq_kept around _ cs, keptAll,
      List.map_append, List.map_append, map_declaration_id, List.append_assoc]

end

/-- **The declarations of a notebook** are those of the cells that are kept. -/
theorem declarations_eq_kept :
    declarations g top = (keptAll [] [] top).map (Site.declaration g top) :=
  declareAll_eq_kept g top [] [] top

end Declarations

end CellSource

end Cellbook
