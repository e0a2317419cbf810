import Cellbook.Proofs.Graph.Cycles
import Cellbook.Proofs.Graph.Order

/-!
# The same graph in another order

Two graphs may have the same vertices and dependencies, and the vertices in different orders
(`Graph.Reordered`). Since the vertices without a place are those that reach a cycle, they are the same ones
in both, and so are the others (`cyclic_perm`, `order_perm`). A cycle of one graph is a cycle of the other,
but its members may come in another order (`find?_cycles_rel`).
-/

namespace Cellbook.Graph

open Relation

/-- **The same graph**, but for the order of its vertices. -/
structure Reordered (g g' : Graph) : Prop where
  nodes : g'.nodes.Perm g.nodes
  dependencies : ∀ a, g'.dependencies a = g.dependencies a

namespace Reordered

variable {g g' : Graph} (h : g.Reordered g')

include h

theorem symm : g'.Reordered g where
  nodes := h.nodes.symm
  dependencies a := (h.dependencies a).symm

theorem dependsOn_eq : g'.DependsOn = g.DependsOn := by
  funext a b
  rw [DependsOn, DependsOn, h.dependencies a]

theorem reachesCycle_iff (a : Nat) : g'.ReachesCycle a ↔ g.ReachesCycle a := by
  simp only [ReachesCycle, OnCycle, h.dependsOn_eq]

section Sound

variable (hg : g.Sound) (hg' : g'.Sound)

include hg hg'

theorem mem_cyclic_iff (a : Nat) : a ∈ g'.ordered.cyclic ↔ a ∈ g.ordered.cyclic := by
  rw [hg'.mem_cyclic_iff, hg.mem_cyclic_iff, h.reachesCycle_iff]

/-- **The same vertices have no place in the order.** -/
theorem cyclic_perm : g'.ordered.cyclic.Perm g.ordered.cyclic :=
  (List.perm_ext_iff_of_nodup hg'.cyclic_nodup hg.cyclic_nodup).mpr (h.mem_cyclic_iff hg hg')

/-- **The same vertices have one.** -/
theorem order_perm : g'.ordered.order.Perm g.ordered.order := by
  have hall : (g'.ordered.order ++ g'.ordered.cyclic).Perm (g.ordered.order ++ g.ordered.cyclic) :=
    (g'.ordered_progress.perm.trans h.nodes).trans g.ordered_progress.perm.symm
  refine (List.perm_append_right_iff g.ordered.cyclic).mp (.trans ?_ hall)
  exact (h.cyclic_perm hg hg').symm.append_left _

theorem connected_eq : g'.Connected g'.ordered.cyclic = g.Connected g.ordered.cyclic := by
  have hwithin : g'.DependsWithin g'.ordered.cyclic = g.DependsWithin g.ordered.cyclic := by
    funext a b
    simp only [DependsWithin, h.mem_cyclic_iff hg hg', h.dependsOn_eq]
  funext a b
  rw [Connected, Connected, hwithin]

/-- A component of one graph, its members in the order of the other, is a component of the other. -/
theorem isComponent {members : List Nat} (hcomp : g.IsComponent g.ordered.cyclic members) :
    g'.IsComponent g'.ordered.cyclic (g'.ordered.cyclic.filter (members.contains ·)) := by
  have hmem (b : Nat) : b ∈ g'.ordered.cyclic.filter (members.contains ·) ↔ b ∈ members := by
    rw [List.mem_filter, List.contains_iff_mem, h.mem_cyclic_iff hg hg']
    exact ⟨And.right, fun hb => ⟨hcomp.sublist.subset hb, hb⟩⟩
  refine ⟨List.filter_sublist, ?_, fun a ha b => ?_⟩
  · obtain ⟨a, ha⟩ := List.exists_mem_of_ne_nil _ hcomp.nonempty
    exact List.ne_nil_of_mem ((hmem a).mpr ha)
  · rw [hmem b, hcomp.mem_iff a ((hmem a).mp ha) b, h.mem_cyclic_iff hg hg', h.connected_eq hg hg']

theorem exists_mem_cycles {members : List Nat} (hcycle : members ∈ g.cycles g.ordered.cyclic) :
    ∃ members' ∈ g'.cycles g'.ordered.cyclic, members.Perm members' := by
  obtain ⟨hcomp, hhas⟩ := (mem_cycles_iff hg.cyclic_nodup).mp hcycle
  have hcomp' := h.isComponent hg hg' hcomp
  have hperm : members.Perm (g'.ordered.cyclic.filter (members.contains ·)) := by
    refine (List.perm_ext_iff_of_nodup (hcomp.sublist.nodup hg.cyclic_nodup)
      (hg'.cyclic_nodup.filter _)).mpr fun b => ?_
    rw [List.mem_filter, List.contains_iff_mem, h.mem_cyclic_iff hg hg']
    exact ⟨fun hb => ⟨hcomp.sublist.subset hb, hb⟩, And.right⟩
  refine ⟨_, (mem_cycles_iff hg'.cyclic_nodup).mpr ⟨hcomp', ?_⟩, hperm⟩
  rcases hhas with hmany | ⟨a, rfl, haa⟩
  · exact .inl (hperm.length_eq ▸ hmany)
  · exact .inr ⟨a, List.perm_singleton.mp hperm.symm, h.dependsOn_eq ▸ haa⟩

/-- **The cycle of a vertex** has the same members in both graphs. -/
theorem find?_cycles_rel (a : Nat) :
    Option.Rel List.Perm ((g.cycles g.ordered.cyclic).find? (·.contains a))
      ((g'.cycles g'.ordered.cyclic).find? (·.contains a)) := by
  cases hfind : (g.cycles g.ordered.cyclic).find? (·.contains a) with
  | some members =>
    obtain ⟨hcycle, ha⟩ := (find?_cycles_eq_some_iff hg.cyclic_nodup).mp hfind
    obtain ⟨members', hcycle', hperm⟩ := h.exists_mem_cycles hg hg' hcycle
    rw [(find?_cycles_eq_some_iff hg'.cyclic_nodup).mpr ⟨hcycle', hperm.mem_iff.mp ha⟩]
    exact .some hperm
  | none =>
    cases hfind' : (g'.cycles g'.ordered.cyclic).find? (·.contains a) with
    | none => exact .none
    | some members' =>
      -- a cycle in the second graph would be one in the first
      obtain ⟨hcycle', ha⟩ := (find?_cycles_eq_some_iff hg'.cyclic_nodup).mp hfind'
      obtain ⟨members, hcycle, hperm⟩ := h.symm.exists_mem_cycles hg' hg hcycle'
      rw [(find?_cycles_eq_some_iff hg.cyclic_nodup).mpr ⟨hcycle, hperm.mem_iff.mp ha⟩] at hfind
      cases hfind

end Sound

end Reordered

end Cellbook.Graph
