import Cellbook.Proofs.Graph.Cycles
import Cellbook.Proofs.Graph.Order

/-!
# Vertices without a place

What the order of a graph leaves over lies on a cycle or waits for one. The cycles are searched among what is
left over, and this restriction loses nothing: a chain of dependencies that ends in a vertex without a place
runs through such vertices only (`Sound.connected_iff`). So a vertex on a cycle is found together with all that
it depends on and that depend on it (`Sound.find?_cycles_of_onCycle`), a vertex that waits is found in no cycle
(`Sound.find?_cycles_eq_none`), and it depends on another vertex without a place (`Sound.exists_blocker`).
-/

namespace Cellbook.Graph

open Relation

/-- Each of two vertices depends on the other through a chain, or they are the same. -/
def Entangled (g : Graph) (a b : Nat) : Prop :=
  ReflTransGen g.DependsOn a b ∧ ReflTransGen g.DependsOn b a

variable {g : Graph} {a b : Nat}

theorem Entangled.symm (h : g.Entangled a b) : g.Entangled b a := ⟨h.2, h.1⟩

theorem Entangled.trans {c : Nat} (h : g.Entangled a b) (h' : g.Entangled b c) : g.Entangled a c :=
  ⟨h.1.trans h'.1, h'.2.trans h.2⟩

theorem OnCycle.reachesCycle (h : g.OnCycle a) : g.ReachesCycle a := ⟨a, .refl, h⟩

theorem ReachesCycle.of_reach (h : g.ReachesCycle b) (hab : ReflTransGen g.DependsOn a b) : g.ReachesCycle a :=
  let ⟨c, hbc, hc⟩ := h
  ⟨c, hab.trans hbc, hc⟩

/-- Two vertices that depend on each other, or one that depends on itself, lie on a cycle. -/
theorem onCycle_of_ne (hab : g.Entangled a b) (hne : a ≠ b) : g.OnCycle a := by
  rcases reflTransGen_iff_eq_or_transGen.mp hab.1 with rfl | h
  · exact absurd rfl hne
  · exact h.trans_left hab.2

/-- What is entangled with a vertex on a cycle lies on a cycle. -/
theorem OnCycle.of_entangled (h : g.OnCycle a) (hab : g.Entangled a b) : g.OnCycle b :=
  TransGen.trans_right hab.2 (h.trans_left hab.1)

section Sound

variable (hg : g.Sound)

include hg

theorem Sound.mem_cyclic_of_onCycle (h : g.OnCycle a) : a ∈ g.ordered.cyclic :=
  hg.mem_cyclic_iff.mpr h.reachesCycle

/-- **A chain that ends without a place** has none anywhere on the way. -/
theorem Sound.reach_within (hb : b ∈ g.ordered.cyclic) (hab : ReflTransGen g.DependsOn a b) :
    ReflTransGen (g.DependsWithin g.ordered.cyclic) a b := by
  have hleft {x : Nat} (hxb : ReflTransGen g.DependsOn x b) : x ∈ g.ordered.cyclic :=
    hg.mem_cyclic_iff.mpr ((hg.mem_cyclic_iff.mp hb).of_reach hxb)
  induction hab using ReflTransGen.head_induction_on with
  | refl => exact .refl
  | head hac hcb ih => exact .head ⟨hleft (.head hac hcb), hleft hcb, hac⟩ ih

/-- **Searching among the vertices without a place** connects the vertices that are entangled in the whole
graph. -/
theorem Sound.connected_iff (ha : a ∈ g.ordered.cyclic) (hb : b ∈ g.ordered.cyclic) :
    g.Connected g.ordered.cyclic a b ↔ g.Entangled a b := by
  have hle : g.DependsWithin g.ordered.cyclic ≤ g.DependsOn := fun _ _ hxy => hxy.2.2
  have hmono {x y : Nat} (h : ReflTransGen (g.DependsWithin g.ordered.cyclic) x y) :
      ReflTransGen g.DependsOn x y := ReflTransGen.mono hle x y h
  exact ⟨fun h => ⟨hmono h.1, hmono h.2⟩, fun h => ⟨hg.reach_within hb h.1, hg.reach_within ha h.2⟩⟩

theorem Sound.mem_component_iff {members : List Nat} (h : g.IsComponent g.ordered.cyclic members)
    (ha : a ∈ members) : b ∈ members ↔ b ∈ g.ordered.cyclic ∧ g.Entangled a b := by
  rw [h.mem_iff a ha b]
  exact and_congr_right fun hb => hg.connected_iff (h.sublist.subset ha) hb

/-- The vertices that are entangled with one on a cycle are a component with a cycle. -/
theorem Sound.exists_component (h : g.OnCycle a) : ∃ members,
    g.IsComponent g.ordered.cyclic members ∧ g.HasCycle members ∧ a ∈ members := by
  classical
  let members := g.ordered.cyclic.filter fun b => g.Entangled a b
  have hmem (b : Nat) : b ∈ members ↔ b ∈ g.ordered.cyclic ∧ g.Entangled a b := by simp [members]
  have ha : a ∈ members := (hmem a).mpr ⟨hg.mem_cyclic_of_onCycle h, .refl, .refl⟩
  refine ⟨members, ⟨List.filter_sublist, List.ne_nil_of_mem ha, fun b hb c => ?_⟩, ?_, ha⟩
  · obtain ⟨hbleft, hab⟩ := (hmem b).mp hb
    rw [hmem c]
    refine and_congr_right fun hc => ?_
    rw [hg.connected_iff hbleft hc]
    exact ⟨hab.symm.trans, hab.trans⟩
  · by_cases hmany : 2 ≤ members.length
    · exact .inl hmany
    · obtain ⟨c, hc⟩ := List.length_eq_one_iff.mp
        (show members.length = 1 by have := List.length_pos_of_mem ha; omega)
      -- the next vertex on the cycle is a member, so it is the only one
      obtain ⟨b, hab, hba⟩ := TransGen.head'_iff.mp h
      have hb : b ∈ members := (hmem b).mpr
        ⟨hg.mem_cyclic_iff.mpr (h.reachesCycle.of_reach hba), .single hab, hba⟩
      have hba' : b = a := by
        rw [hc, List.mem_singleton] at ha hb
        rw [ha, hb]
      exact .inr ⟨a, by rw [hc] at ha ⊢; rw [List.mem_singleton.mp ha], hba' ▸ hab⟩

/-- A member of a component with a cycle lies on one. -/
theorem Sound.onCycle_of_mem_component {members : List Nat} (h : g.IsComponent g.ordered.cyclic members)
    (hcycle : g.HasCycle members) (ha : a ∈ members) : g.OnCycle a := by
  rcases hcycle with hmany | ⟨b, rfl, hbb⟩
  · obtain ⟨b, hb, hne⟩ : ∃ b ∈ members, a ≠ b := by
      by_contra hall
      push Not at hall
      have hone : members.length ≤ 1 := by
        have hsub : members ⊆ [a] := fun b hb => List.mem_singleton.mpr (hall b hb).symm
        exact (List.subperm_of_subset (h.sublist.nodup hg.cyclic_nodup) hsub).length_le
      omega
    exact onCycle_of_ne ((hg.mem_component_iff h ha).mp hb).2 hne
  · rw [List.mem_singleton.mp ha]
    exact .single hbb

/-- **The cycle of a vertex** holds exactly what is entangled with it, in the order of the graph. -/
theorem Sound.find?_cycles_of_onCycle (h : g.OnCycle a) : ∃ members,
    (g.cycles g.ordered.cyclic).find? (·.contains a) = some members ∧ members.Sublist g.nodes ∧
      ∀ b, b ∈ members ↔ g.Entangled a b := by
  obtain ⟨members, hcomp, hcycle, ha⟩ := hg.exists_component h
  refine ⟨members, (find?_cycles_eq_some_iff hg.cyclic_nodup).mpr
    ⟨(mem_cycles_iff hg.cyclic_nodup).mpr ⟨hcomp, hcycle⟩, ha⟩,
    hcomp.sublist.trans g.ordered_progress.sublist, fun b => ?_⟩
  rw [hg.mem_component_iff hcomp ha]
  exact ⟨And.right, fun hab => ⟨hg.mem_cyclic_of_onCycle (h.of_entangled hab), hab⟩⟩

/-- **A vertex on no cycle** is found in none. -/
theorem Sound.find?_cycles_eq_none (h : ¬ g.OnCycle a) :
    (g.cycles g.ordered.cyclic).find? (·.contains a) = none := by
  cases hfind : (g.cycles g.ordered.cyclic).find? (·.contains a) with
  | none => rfl
  | some members =>
    obtain ⟨hcycle, ha⟩ := (find?_cycles_eq_some_iff hg.cyclic_nodup).mp hfind
    obtain ⟨hcomp, hhas⟩ := (mem_cycles_iff hg.cyclic_nodup).mp hcycle
    exact absurd (hg.onCycle_of_mem_component hcomp hhas ha) h

/-- **A vertex without a place** depends on another one, and the first such dependency is found. -/
theorem Sound.exists_blocker (h : a ∈ g.ordered.cyclic) : ∃ front b back,
    g.dependencies a = front ++ b :: back ∧ (∀ n ∈ front, n ∉ g.ordered.cyclic) ∧ b ∈ g.ordered.cyclic ∧
      (g.dependencies a).find? g.ordered.cyclic.contains = some b := by
  obtain ⟨d, hd, had⟩ := hg.exists_dependsOn_of_mem_cyclic h
  obtain ⟨b, hb⟩ : ∃ b, (g.dependencies a).find? g.ordered.cyclic.contains = some b :=
    Option.isSome_iff_exists.mp (List.find?_isSome.mpr ⟨d, had, List.contains_iff_mem.mpr hd⟩)
  obtain ⟨hbleft, front, back, heq, hfront⟩ := List.find?_eq_some_iff_append.mp hb
  refine ⟨front, b, back, heq, fun n hn => ?_, List.contains_iff_mem.mp hbleft, hb⟩
  simpa using hfront n hn

end Sound

end Cellbook.Graph
