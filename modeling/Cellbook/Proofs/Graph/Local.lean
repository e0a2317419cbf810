import Cellbook.Proofs.Graph.Cycles
import Cellbook.Proofs.Graph.Order

/-!
# What of a graph a vertex can see

Two graphs may differ far away from some vertices: those depend on each other only, and on the same ones in
both graphs (`Graph.AgreeOn`). Then these vertices lie on the same cycles in both. The order finds a
place for the same of them (`AgreeOn.mem_cyclic_iff`), and a cycle of one of them has the same members
in the same order (`AgreeOn.find?_cycles_eq`).
-/

namespace Cellbook.Graph

open Relation

/-- **Graphs with the same vertices that agree on some**, which depend on no others. -/
structure AgreeOn (S : Nat → Prop) (g g' : Graph) : Prop where
  nodes : g'.nodes = g.nodes
  closed : ∀ a, S a → ∀ b, g.DependsOn a b → S b
  dependencies : ∀ a, S a → g'.dependencies a = g.dependencies a

/-- A chain of steps that never leave a set is one of other steps if each of its steps is. -/
theorem reflTransGen_within {S : Nat → Prop} {r r' : Nat → Nat → Prop}
    (h : ∀ a b, S a → r a b → S b ∧ r' a b) {a b : Nat} (ha : S a) (hab : ReflTransGen r a b) :
    S b ∧ ReflTransGen r' a b := by
  induction hab with
  | refl => exact ⟨ha, .refl⟩
  | tail _ hbc ih =>
    obtain ⟨hc, hbc'⟩ := h _ _ ih.1 hbc
    exact ⟨hc, ih.2.tail hbc'⟩

namespace AgreeOn

variable {S : Nat → Prop} {g g' : Graph} {a : Nat}

theorem dependsOn_iff (h : AgreeOn S g g') (ha : S a) (b : Nat) :
    g'.DependsOn a b ↔ g.DependsOn a b := by
  rw [DependsOn, DependsOn, h.dependencies a ha]

theorem symm (h : AgreeOn S g g') : AgreeOn S g' g where
  nodes := h.nodes.symm
  closed a ha b hab := h.closed a ha b ((h.dependsOn_iff ha b).mp hab)
  dependencies a ha := (h.dependencies a ha).symm

theorem step (h : AgreeOn S g g') (a b : Nat) (ha : S a) (hab : g.DependsOn a b) :
    S b ∧ g'.DependsOn a b :=
  ⟨h.closed a ha b hab, (h.dependsOn_iff ha b).mpr hab⟩

theorem onCycle (h : AgreeOn S g g') (ha : S a) (hcycle : g.OnCycle a) : g'.OnCycle a := by
  obtain ⟨b, hab, hba⟩ := TransGen.head'_iff.mp hcycle
  obtain ⟨hb, hab'⟩ := h.step a b ha hab
  exact TransGen.head'_iff.mpr ⟨b, hab', (reflTransGen_within h.step hb hba).2⟩

theorem reachesCycle (h : AgreeOn S g g') (ha : S a) (hreaches : g.ReachesCycle a) :
    g'.ReachesCycle a := by
  obtain ⟨c, hac, hcycle⟩ := hreaches
  obtain ⟨hc, hac'⟩ := reflTransGen_within h.step ha hac
  exact ⟨c, hac', h.onCycle hc hcycle⟩

/-- **Of the vertices on which graphs agree**, the same ones have no place in the order. -/
theorem mem_cyclic_iff (h : AgreeOn S g g') (hg : g.Sound) (hg' : g'.Sound) (ha : S a) :
    a ∈ g'.ordered.cyclic ↔ a ∈ g.ordered.cyclic := by
  rw [hg.mem_cyclic_iff, hg'.mem_cyclic_iff]
  exact ⟨h.symm.reachesCycle ha, h.reachesCycle ha⟩

/-! ## Cycles -/

section Sound

variable (h : AgreeOn S g g') (hg : g.Sound) (hg' : g'.Sound)

include h hg hg'

theorem within (a b : Nat) (ha : S a) (hab : g.DependsWithin g.ordered.cyclic a b) :
    S b ∧ g'.DependsWithin g'.ordered.cyclic a b := by
  obtain ⟨haleft, hbleft, hdep⟩ := hab
  obtain ⟨hb, hdep'⟩ := h.step a b ha hdep
  exact ⟨hb, (h.mem_cyclic_iff hg hg' ha).mpr haleft, (h.mem_cyclic_iff hg hg' hb).mpr hbleft, hdep'⟩

theorem connected {b : Nat} (ha : S a) (hab : g.Connected g.ordered.cyclic a b) :
    S b ∧ g'.Connected g'.ordered.cyclic a b := by
  obtain ⟨hb, hab'⟩ := reflTransGen_within (h.within hg hg') ha hab.1
  exact ⟨hb, hab', (reflTransGen_within (h.within hg hg') hb hab.2).2⟩

/-- A component that holds a vertex on which the graphs agree is one in both. -/
theorem isComponent {members : List Nat} (hcomp : g.IsComponent g.ordered.cyclic members)
    (hmem : a ∈ members) (ha : S a) :
    (∀ b ∈ members, S b) ∧ g'.IsComponent g'.ordered.cyclic members := by
  have hall : ∀ b ∈ members, S b := fun b hb =>
    (h.connected hg hg' ha ((hcomp.mem_iff a hmem b).mp hb).2).1
  have hleft : ∀ b ∈ members, b ∈ g'.ordered.cyclic := fun b hb =>
    (h.mem_cyclic_iff hg hg' (hall b hb)).mpr (hcomp.sublist.subset hb)
  refine ⟨hall, ?_, hcomp.nonempty, fun x hx b => ?_⟩
  · -- what is left keeps the order of the vertices in both graphs
    have hnodes := h.nodes ▸ g'.ordered_progress.sublist
    have heq : members = g'.ordered.cyclic.filter (members.contains ·) := by
      refine sublist_unique hg.nodup (hcomp.sublist.trans g.ordered_progress.sublist)
        (List.filter_sublist.trans hnodes) fun b => ?_
      rw [List.mem_filter, List.contains_iff_mem]
      exact ⟨fun hb => ⟨hleft b hb, hb⟩, And.right⟩
    rw [heq]
    exact List.filter_sublist
  · have hxs := hall x hx
    rw [hcomp.mem_iff x hx b]
    constructor
    · rintro ⟨hb, hxb⟩
      obtain ⟨hbs, hxb'⟩ := h.connected hg hg' hxs hxb
      exact ⟨(h.mem_cyclic_iff hg hg' hbs).mpr hb, hxb'⟩
    · rintro ⟨hb, hxb⟩
      obtain ⟨hbs, hxb'⟩ := h.symm.connected hg' hg hxs hxb
      exact ⟨(h.mem_cyclic_iff hg hg' hbs).mp hb, hxb'⟩

theorem mem_cycles {members : List Nat} (hmem : a ∈ members) (ha : S a)
    (hcycle : members ∈ g.cycles g.ordered.cyclic) : members ∈ g'.cycles g'.ordered.cyclic := by
  obtain ⟨hcomp, hhas⟩ := (mem_cycles_iff hg.cyclic_nodup).mp hcycle
  obtain ⟨hall, hcomp'⟩ := h.isComponent hg hg' hcomp hmem ha
  refine (mem_cycles_iff hg'.cyclic_nodup).mpr ⟨hcomp', ?_⟩
  rcases hhas with hmany | ⟨b, hb, hbb⟩
  · exact .inl hmany
  · exact .inr ⟨b, hb, (h.step b b (hall b (hb ▸ List.mem_singleton_self b)) hbb).2⟩

/-- **The cycle of a vertex on which graphs agree** is the same in both. -/
theorem find?_cycles_eq (ha : S a) :
    (g'.cycles g'.ordered.cyclic).find? (·.contains a) =
      (g.cycles g.ordered.cyclic).find? (·.contains a) := by
  ext members
  rw [find?_cycles_eq_some_iff hg.cyclic_nodup, find?_cycles_eq_some_iff hg'.cyclic_nodup]
  constructor
  · rintro ⟨hcycle, hmem⟩
    exact ⟨h.symm.mem_cycles hg' hg hmem ha hcycle, hmem⟩
  · rintro ⟨hcycle, hmem⟩
    exact ⟨h.mem_cycles hg hg' hmem ha hcycle, hmem⟩

end Sound

end AgreeOn

end Cellbook.Graph
