import Cellbook.Proofs.Graph.Building
import Cellbook.Proofs.Graph.Search

/-!
# What the cycles of a graph are

`Graph.cycles` is compared with the components of a relation: among given vertices, those belong together
that depend on each other through others of them (`Graph.IsComponent`), and a component has a cycle if it
has several members or one that depends on itself.

The search speaks of places in the list of given vertices, and finds the classes of places that have a cycle
(`mem_cyclicComponents_iff`). Where no vertex is given twice, places and vertices correspond, and the classes
of places are the components.

**The law** (`cycles_exact`): the cycles are the components that have a cycle, each once, with nothing in
common. A cycle comes behind those that it depends on (`cycles_ordered`).
-/

namespace Cellbook.Graph

open Relation

/-! ## Components -/

/-- Dependency among given vertices. -/
def DependsWithin (g : Graph) (ids : List Nat) (a b : Nat) : Prop :=
  a ∈ ids ∧ b ∈ ids ∧ g.DependsOn a b

/-- Each of two vertices depends on the other through given ones, or they are the same. -/
def Connected (g : Graph) (ids : List Nat) (a b : Nat) : Prop :=
  ReflTransGen (g.DependsWithin ids) a b ∧ ReflTransGen (g.DependsWithin ids) b a

/-- **A strongly connected component** of the given vertices, its members in the order in which they were
given. -/
structure IsComponent (g : Graph) (ids members : List Nat) : Prop where
  sublist : members.Sublist ids
  nonempty : members ≠ []
  mem_iff : ∀ a ∈ members, ∀ b, b ∈ members ↔ b ∈ ids ∧ g.Connected ids a b

/-- A component has a cycle: it has two members or more, or one that depends on itself. -/
def HasCycle (g : Graph) (members : List Nat) : Prop :=
  2 ≤ members.length ∨ ∃ a, members = [a] ∧ g.DependsOn a a

/-! ## From places to vertices -/

section Places

variable {g : Graph} {ids : List Nat}

theorem place_unique (hnodup : ids.Nodup) {p q id : Nat} (hp : ids[p]? = some id)
    (hq : ids[q]? = some id) : p = q := by
  obtain ⟨hlt, -⟩ := List.getElem?_eq_some_iff.mp hp
  exact (List.getElem?_inj hlt hnodup).mp (hp.trans hq.symm)

theorem lastPlace?_eq_some_iff (hnodup : ids.Nodup) {id q : Nat} :
    lastPlace? ids id = some q ↔ ids[q]? = some id := by
  unfold lastPlace?
  rw [List.findRev?_eq_find?_reverse, Option.map_eq_some_iff]
  constructor
  · rintro ⟨⟨id', p⟩, hfind, rfl⟩
    have hmem := List.mem_reverse.mp (List.mem_of_find?_eq_some hfind)
    have hid : id' = id := by simpa using List.find?_some hfind
    rw [← hid]
    exact List.mk_mem_zipIdx_iff_getElem?.mp hmem
  · intro hq
    have hmem : (id, q) ∈ ids.zipIdx.reverse :=
      List.mem_reverse.mpr (List.mk_mem_zipIdx_iff_getElem?.mpr hq)
    cases hfind : ids.zipIdx.reverse.find? (·.1 == id) with
    | none => exact absurd (List.find?_eq_none.mp hfind _ hmem) (by simp)
    | some found =>
      obtain ⟨id', p⟩ := found
      have hid : id' = id := by simpa using List.find?_some hfind
      have hp := List.mk_mem_zipIdx_iff_getElem?.mp
        (List.mem_reverse.mp (List.mem_of_find?_eq_some hfind))
      exact ⟨_, rfl, place_unique hnodup (hid ▸ hp) hq⟩

/-- A place comes next to another one if its vertex is a dependency of the other's. -/
theorem next_iff (hnodup : ids.Nodup) {p q : Nat} :
    Next (g.nextPlaces ids) p q ↔
      ∃ a b, ids[p]? = some a ∧ ids[q]? = some b ∧ g.DependsOn a b := by
  unfold Next nextPlaces
  cases hp : ids[p]? with
  | none => simp
  | some a => simp [List.mem_filterMap, lastPlace?_eq_some_iff hnodup, DependsOn, and_comm]

theorem nextPlaces_lt (hnodup : ids.Nodup) : ∀ p, ∀ q ∈ g.nextPlaces ids p, q < ids.length := by
  intro p q hq
  obtain ⟨-, b, -, hb, -⟩ := (next_iff hnodup).mp hq
  exact (List.getElem?_eq_some_iff.mp hb).1

/-- A chain of places is a chain of their vertices. -/
theorem reach_iff (hnodup : ids.Nodup) {p q a b : Nat} (hp : ids[p]? = some a)
    (hq : ids[q]? = some b) :
    ReflTransGen (Next (g.nextPlaces ids)) p q ↔ ReflTransGen (g.DependsWithin ids) a b := by
  constructor
  · intro h
    induction h generalizing b with
    | refl => rw [Option.some.inj (hp.symm.trans hq)]
    | tail _ hnext ih =>
      obtain ⟨c, d, hc, hd, hcd⟩ := (next_iff hnodup).mp hnext
      rw [← Option.some.inj (hd.symm.trans hq)]
      exact (ih hc).tail ⟨List.mem_of_getElem? hc, List.mem_of_getElem? hd, hcd⟩
  · intro h
    induction h generalizing q with
    | refl => rw [place_unique hnodup hp hq]
    | tail _ hdep ih =>
      obtain ⟨hc, -, hcd⟩ := hdep
      obtain ⟨r, hr⟩ := List.mem_iff_getElem?.mp hc
      exact (ih hr).tail ((next_iff hnodup).mpr ⟨_, _, hr, hq, hcd⟩)

theorem mutual_iff (hnodup : ids.Nodup) {p q a b : Nat} (hp : ids[p]? = some a)
    (hq : ids[q]? = some b) : Mutual (g.nextPlaces ids) p q ↔ g.Connected ids a b :=
  and_congr (reach_iff hnodup hp hq) (reach_iff hnodup hq hp)

/-- The vertices at places. -/
def idsAt (ids places : List Nat) : List Nat := places.filterMap (ids[·]?)

theorem mem_idsAt {places : List Nat} {a : Nat} :
    a ∈ idsAt ids places ↔ ∃ p ∈ places, ids[p]? = some a := List.mem_filterMap

theorem idsAt_range (ids : List Nat) : idsAt ids (List.range ids.length) = ids := by
  induction ids with
  | nil => rfl
  | cons a ids ih =>
    rw [idsAt, List.length_cons, List.range_succ_eq_map, List.filterMap_cons]
    simp only [List.getElem?_cons_zero, List.filterMap_map]
    exact congrArg (a :: ·) ih

theorem length_idsAt {places : List Nat} (h : ∀ p ∈ places, p < ids.length) :
    (idsAt ids places).length = places.length := by
  induction places with
  | nil => rfl
  | cons p places ih =>
    have hp := List.getElem?_eq_getElem (h p List.mem_cons_self)
    rw [idsAt, List.filterMap_cons_some hp, List.length_cons, List.length_cons]
    exact congrArg (· + 1) (ih fun q hq => h q (List.mem_cons_of_mem p hq))

/-- **A class of places is a component of vertices.** -/
theorem IsClass.isComponent (hnodup : ids.Nodup) {places : List Nat}
    (h : IsClass (g.nextPlaces ids) ids.length places) : g.IsComponent ids (idsAt ids places) where
  sublist := by
    have hsub := h.sublist.filterMap (ids[·]?)
    rwa [← idsAt, ← idsAt, idsAt_range] at hsub
  nonempty hnil := by
    have hlen := length_idsAt fun p hp => h.lt hp
    rw [hnil] at hlen
    exact h.nonempty (List.length_eq_zero_iff.mp hlen.symm)
  mem_iff a ha b := by
    obtain ⟨p, hp, hpa⟩ := mem_idsAt.mp ha
    rw [mem_idsAt]
    constructor
    · rintro ⟨q, hq, hqb⟩
      exact ⟨List.mem_of_getElem? hqb,
        (mutual_iff hnodup hpa hqb).mp ((h.mem_iff p hp q).mp hq).2⟩
    · rintro ⟨hb, hab⟩
      obtain ⟨q, hqb⟩ := List.mem_iff_getElem?.mp hb
      have hlt := (List.getElem?_eq_some_iff.mp hqb).1
      exact ⟨q, (h.mem_iff p hp q).mpr ⟨hlt, (mutual_iff hnodup hpa hqb).mpr hab⟩, hqb⟩

theorem IsComponent.unique (hnodup : ids.Nodup) {as bs : List Nat} (ha : g.IsComponent ids as)
    (hb : g.IsComponent ids bs) {a : Nat} (haa : a ∈ as) (hab : a ∈ bs) : as = bs :=
  sublist_unique hnodup ha.sublist hb.sublist fun x =>
    (ha.mem_iff a haa x).trans (hb.mem_iff a hab x).symm

/-- **A component of vertices is a class of places**, those of its members. -/
theorem IsComponent.exists_isClass (hnodup : ids.Nodup) {members : List Nat} (h : g.IsComponent ids members) :
    ∃ places, IsClass (g.nextPlaces ids) ids.length places ∧ idsAt ids places = members := by
  let places := (List.range ids.length).filter fun p => ids[p]?.any members.contains
  have hmem : ∀ p, p ∈ places ↔ ∃ a, ids[p]? = some a ∧ a ∈ members := by
    intro p
    simp only [places, List.mem_filter, List.mem_range, Option.any_eq_true, List.contains_iff_mem]
    exact ⟨And.right, fun ⟨a, hpa, ha⟩ => ⟨(List.getElem?_eq_some_iff.mp hpa).1, a, hpa, ha⟩⟩
  obtain ⟨a, ha⟩ := List.exists_mem_of_ne_nil _ h.nonempty
  obtain ⟨p, hpa⟩ := List.mem_iff_getElem?.mp (h.sublist.subset ha)
  have hp : p ∈ places := (hmem p).mpr ⟨a, hpa, ha⟩
  have hclass : IsClass (g.nextPlaces ids) ids.length places := by
    refine ⟨List.filter_sublist, List.ne_nil_of_mem hp, fun q hq r => ?_⟩
    obtain ⟨b, hqb, hb⟩ := (hmem q).mp hq
    rw [hmem]
    constructor
    · rintro ⟨c, hrc, hc⟩
      exact ⟨(List.getElem?_eq_some_iff.mp hrc).1, (mutual_iff hnodup hqb hrc).mpr ((h.mem_iff b hb c).mp hc).2⟩
    · rintro ⟨hr, hqr⟩
      have hrc := List.getElem?_eq_getElem hr
      exact ⟨ids[r], hrc,
        (h.mem_iff b hb ids[r]).mpr ⟨List.getElem_mem hr, (mutual_iff hnodup hqb hrc).mp hqr⟩⟩
  exact ⟨places, hclass, (hclass.isComponent hnodup).unique hnodup h (mem_idsAt.mpr ⟨p, hp, hpa⟩) ha⟩

end Places

/-! ## The cycles -/

theorem loopsAt_iff {g : Graph} {ids : List Nat} {p : Nat} :
    g.loopsAt ids p = true ↔ ∃ a, ids[p]? = some a ∧ g.DependsOn a a := by
  simp only [loopsAt, Option.any_eq_true, List.contains_iff_mem, DependsOn]

theorem cyclic_iff {g : Graph} {ids places : List Nat} (h : IsClass (g.nextPlaces ids) ids.length places) :
    Cyclic (g.loopsAt ids) places ↔ g.HasCycle (idsAt ids places) := by
  have hlen := length_idsAt fun p hp => h.lt hp
  rw [Cyclic, HasCycle, hlen]
  constructor
  · rintro (hmany | ⟨p, hp, hloops⟩)
    · exact .inl hmany
    · obtain ⟨a, ha, haa⟩ := loopsAt_iff.mp hloops
      have hmem : a ∈ idsAt ids places := mem_idsAt.mpr ⟨p, hp, ha⟩
      by_cases hmany : 2 ≤ places.length
      · exact .inl hmany
      · obtain ⟨b, hb⟩ := List.length_eq_one_iff.mp
          (show (idsAt ids places).length = 1 by have := List.length_pos_of_mem hmem; omega)
        rw [hb] at hmem ⊢
        exact .inr ⟨a, by rw [List.mem_singleton.mp hmem], haa⟩
  · rintro (hmany | ⟨a, ha, haa⟩)
    · exact .inl hmany
    · obtain ⟨p, hp, hpa⟩ := mem_idsAt.mp (show a ∈ idsAt ids places by simp [ha])
      exact .inr ⟨p, hp, loopsAt_iff.mpr ⟨a, hpa, haa⟩⟩

section Given

variable {g : Graph} {ids : List Nat} (hnodup : ids.Nodup)

include hnodup

theorem mem_cycles_iff {members : List Nat} :
    members ∈ g.cycles ids ↔ g.IsComponent ids members ∧ g.HasCycle members := by
  have hnext := nextPlaces_lt (g := g) hnodup
  rw [cycles, List.mem_map]
  constructor
  · rintro ⟨places, hplaces, rfl⟩
    obtain ⟨hclass, hcyclic⟩ := (mem_cyclicComponents_iff hnext).mp hplaces
    exact ⟨hclass.isComponent hnodup, (cyclic_iff hclass).mp hcyclic⟩
  · rintro ⟨hcomp, hcycle⟩
    obtain ⟨places, hclass, rfl⟩ := hcomp.exists_isClass hnodup
    exact ⟨places, (mem_cyclicComponents_iff hnext).mpr ⟨hclass, (cyclic_iff hclass).mpr hcycle⟩, rfl⟩

/-- **A cycle comes behind those that it depends on**: no member of a cycle depends on one of a later cycle. -/
theorem cycles_ordered : (g.cycles ids).Pairwise fun members others =>
    ∀ a ∈ members, ∀ b ∈ others, ¬ReflTransGen (g.DependsWithin ids) a b := by
  refine List.pairwise_map.mpr ((cyclicComponents_ordered (nextPlaces_lt hnodup)).imp fun hbehind a ha b hb hab => ?_)
  obtain ⟨p, hp, hpa⟩ := mem_idsAt.mp ha
  obtain ⟨q, hq, hqb⟩ := mem_idsAt.mp hb
  exact hbehind p hp q hq ((reach_iff hnodup hpa hqb).mpr hab)

theorem cycles_disjoint : (g.cycles ids).Pairwise List.Disjoint :=
  (cycles_ordered hnodup).imp fun hbehind a ha ha' => hbehind a ha a ha' .refl

/-- The cycle that a vertex is on, if there is one, is the one that is found by it. -/
theorem find?_cycles_eq_some_iff {members : List Nat} {a : Nat} :
    (g.cycles ids).find? (·.contains a) = some members ↔ members ∈ g.cycles ids ∧ a ∈ members := by
  have hdisjoint := cycles_disjoint (g := g) hnodup
  generalize g.cycles ids = found at hdisjoint
  constructor
  · intro h
    refine ⟨List.mem_of_find?_eq_some h, ?_⟩
    simpa only [List.contains_iff_mem] using List.find?_some h
  · rintro ⟨hmem, ha⟩
    induction found with
    | nil => exact (List.not_mem_nil hmem).elim
    | cons other found ih =>
      obtain ⟨hother, hdisjoint⟩ := List.pairwise_cons.mp hdisjoint
      rw [List.find?_cons]
      rcases List.mem_cons.mp hmem with rfl | hmem
      · rw [List.contains_iff_mem.mpr ha]
      · have hnot : a ∉ other := fun h => hother members hmem h ha
        rw [Bool.eq_false_iff.mpr (mt List.contains_iff_mem.mp hnot)]
        exact ih hdisjoint hmem

end Given

/-- **The cycles among vertices that are given once each** are the components that have a cycle. Each
comes once, and no vertex is in two of them. -/
theorem cycles_exact (g : Graph) (ids : List Nat) (hnodup : ids.Nodup) :
    (∀ members, members ∈ g.cycles ids ↔ g.IsComponent ids members ∧ g.HasCycle members) ∧
      (g.cycles ids).Nodup ∧ (g.cycles ids).Pairwise List.Disjoint := by
  have hdisjoint := cycles_disjoint (g := g) hnodup
  refine ⟨fun _ => mem_cycles_iff hnodup, ?_, hdisjoint⟩
  refine hdisjoint.imp_of_mem fun hl _ hdis heq => ?_
  -- a component that is disjoint from itself would be empty
  obtain ⟨a, ha⟩ := List.exists_mem_of_ne_nil _ ((mem_cycles_iff hnodup).mp hl).1.nonempty
  exact hdis ha (heq ▸ ha)

/-- Of two vertices that depend on each other, a third that waits for them and a fourth that depends on
itself, the first two are a component with a cycle, in the order in which they are given. -/
theorem cycles_exact_of_two :
    [3, 2, 1, 4].Nodup ∧
      (build [.edge 2 1, .edge 1 2, .edge 1 3, .edge 4 4]).IsComponent [3, 2, 1, 4] [2, 1] ∧
      (build [.edge 2 1, .edge 1 2, .edge 1 3, .edge 4 4]).HasCycle [2, 1] :=
  ⟨by decide, ((cycles_exact _ _ (by decide)).1 [2, 1]).mp (by decide)⟩

end Cellbook.Graph
