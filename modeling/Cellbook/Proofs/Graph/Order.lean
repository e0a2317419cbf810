import Mathlib.Data.Fintype.EquivFin
import Mathlib.Order.WellFounded
import Cellbook.Graph.Order
import Cellbook.Proofs.Graph.Building

/-!
# What the order of a graph is

The rounds of `Graph.ordered` keep an invariant (`Graph.Progress`): what is taken and what is left are
together the vertices, what is taken stands behind all that it depends on, and what is left keeps its
order. They end with a round that takes nothing, and then everything that is left depends on something
that is left.

**The law** (`ordered_exact`): what is left at the end is what reaches a cycle. In one direction, going
on from one dependency to the next among finitely many vertices comes back to where it was. In the
other, a vertex that was taken stands behind all that it reaches, so it neither lies on a cycle nor
reaches one.
-/

namespace Cellbook

open Relation

namespace Graph

/-- Every vertex of the list stands behind all that it depends on. -/
def Respects (g : Graph) (order : List Nat) : Prop :=
  ∀ front id back, order = front ++ id :: back → ∀ d, g.DependsOn id d → d ∈ front

theorem respects_concat {g : Graph} {order : List Nat} {id : Nat} (h : g.Respects order)
    (hid : ∀ d, g.DependsOn id d → d ∈ order) : g.Respects (order ++ [id]) := by
  intro front x back heq d hd
  rcases List.eq_nil_or_concat back with rfl | ⟨back, y, rfl⟩
  · obtain ⟨rfl, hx⟩ := List.append_inj' heq rfl
    cases hx
    exact hid d hd
  · have heq' : order ++ [id] = (front ++ x :: back) ++ [y] := by simpa using heq
    obtain ⟨rfl, -⟩ := List.append_inj' heq' rfl
    exact h front x back rfl d hd

theorem isReady_iff {g : Graph} {taken : List Nat} {id : Nat} :
    g.isReady taken id = true ↔ ∀ d, g.DependsOn id d → d ∈ taken := by
  simp [isReady, DependsOn, List.all_eq_true]

/-! ## One round -/

/-- **What a round does**: it moves some of the vertices behind those that were taken, and leaves the
others in their order. -/
theorem round_spec (g : Graph) (left taken : List Nat) :
    ∃ new, (g.round left taken).order = taken ++ new ∧
      (new ++ (g.round left taken).cyclic).Perm left ∧
      (g.round left taken).cyclic.Sublist left := by
  induction left generalizing taken with
  | nil => exact ⟨[], by simp [round], by simp [round], by simp [round]⟩
  | cons id left ih =>
    unfold round
    split
    · obtain ⟨new, horder, hperm, hsub⟩ := ih (taken ++ [id])
      exact ⟨id :: new, by simp [horder], hperm.cons id, hsub.cons id⟩
    · obtain ⟨new, horder, hperm, hsub⟩ := ih taken
      refine ⟨new, horder, ?_, hsub.cons_cons id⟩
      exact List.perm_middle.trans (hperm.cons id)

theorem round_respects {g : Graph} (left : List Nat) {taken : List Nat} (h : g.Respects taken) :
    g.Respects (g.round left taken).order := by
  induction left generalizing taken with
  | nil => exact h
  | cons id left ih =>
    unfold round
    split
    next hready => exact ih (respects_concat h (isReady_iff.mp hready))
    next => exact ih h

/-- What a round leaves was not ready when the round began. -/
theorem not_ready_of_mem_round {g : Graph} {left taken : List Nat} {id : Nat}
    (h : id ∈ (g.round left taken).cyclic) : ¬ ∀ d, g.DependsOn id d → d ∈ taken := by
  induction left generalizing taken with
  | nil => exact absurd h List.not_mem_nil
  | cons x left ih =>
    unfold round at h
    split at h
    next => exact fun hall => ih h fun d hd => List.mem_append_left _ (hall d hd)
    next hready =>
      rcases List.mem_cons.mp h with rfl | h
      · exact fun hall => hready (isReady_iff.mpr hall)
      · exact ih h

/-! ## All rounds -/

theorem rounds_succ (g : Graph) (n : Nat) (o : Ordered) :
    g.rounds (n + 1) o =
      if (g.round o.cyclic o.order).cyclic.length = o.cyclic.length then g.round o.cyclic o.order
      else g.rounds n (g.round o.cyclic o.order) := rfl

/-- What the rounds keep. -/
structure Progress (g : Graph) (o : Ordered) : Prop where
  perm : (o.order ++ o.cyclic).Perm g.nodes
  respects : g.Respects o.order
  sublist : o.cyclic.Sublist g.nodes

theorem Progress.start (g : Graph) : g.Progress ⟨[], g.nodes⟩ where
  perm := List.Perm.refl _
  respects front id back h := by simp at h
  sublist := List.Sublist.refl _

theorem Progress.round {g : Graph} {o : Ordered} (h : g.Progress o) :
    g.Progress (g.round o.cyclic o.order) := by
  obtain ⟨new, horder, hperm, hsub⟩ := round_spec g o.cyclic o.order
  refine ⟨?_, round_respects _ h.respects, hsub.trans h.sublist⟩
  rw [horder, List.append_assoc]
  exact (hperm.append_left o.order).trans h.perm

theorem Progress.rounds {g : Graph} (n : Nat) {o : Ordered} (h : g.Progress o) :
    g.Progress (g.rounds n o) := by
  induction n generalizing o with
  | zero => exact h
  | succ n ih =>
    rw [rounds_succ]
    split
    · exact h.round
    · exact ih h.round

/-- With a round for each vertex that is left and one more, the last one takes nothing: what it leaves
is not ready. -/
theorem not_ready_of_mem_rounds {g : Graph} {n : Nat} {o : Ordered} (hn : o.cyclic.length < n)
    {id : Nat} (h : id ∈ (g.rounds n o).cyclic) :
    ¬ ∀ d, g.DependsOn id d → d ∈ (g.rounds n o).order := by
  induction n generalizing o with
  | zero => exact absurd hn (Nat.not_lt_zero _)
  | succ n ih =>
    obtain ⟨new, horder, hperm, hsub⟩ := round_spec g o.cyclic o.order
    rw [rounds_succ] at h ⊢
    split at h
    next hlen =>
      rw [if_pos hlen]
      have hnew : new = [] := by
        have := hperm.length_eq
        rw [List.length_append] at this
        exact List.length_eq_zero_iff.mp (by omega)
      rw [horder, hnew, List.append_nil]
      exact not_ready_of_mem_round h
    next hlen =>
      rw [if_neg hlen]
      have := hsub.length_le
      exact ih (by omega) h

/-! ## What is left and what is taken -/

/-- Among finitely many vertices each of which depends on one of them, every one reaches a cycle:
otherwise dependency would be well-founded on what it reaches. -/
theorem reachesCycle_of_unending {g : Graph} {ids : List Nat}
    (hnext : ∀ a ∈ ids, ∃ b ∈ ids, g.DependsOn a b) {a : Nat} (ha : a ∈ ids) : g.ReachesCycle a := by
  classical
  by_contra hno
  let Reached : Type := {x // x ∈ ids.toFinset.filter fun x => ReflTransGen g.DependsOn a x}
  let after (x y : Reached) : Prop := TransGen g.DependsOn y.1 x.1
  have hreached (x : Reached) : x.1 ∈ ids ∧ ReflTransGen g.DependsOn a x.1 := by
    simpa only [Finset.mem_filter, List.mem_toFinset] using x.2
  have : IsTrans Reached after := ⟨fun _ _ _ hxy hyz => hyz.trans hxy⟩
  have : Std.Irrefl after := ⟨fun x hx => hno ⟨x.1, (hreached x).2, hx⟩⟩
  have hwf : WellFounded after := Finite.wellFounded_of_trans_of_irrefl after
  let first : Reached := ⟨a, by simpa using ⟨ha, ReflTransGen.refl⟩⟩
  obtain ⟨m, -, hmin⟩ := hwf.has_min Set.univ ⟨first, trivial⟩
  obtain ⟨b, hb, hmb⟩ := hnext m.1 (hreached m).1
  have hab : ReflTransGen g.DependsOn a b := (hreached m).2.tail hmb
  exact hmin ⟨b, by simpa using ⟨hb, hab⟩⟩ trivial (TransGen.single hmb)

/-- A vertex of an order that respects the dependencies stands behind all that it reaches. -/
theorem Respects.mem_front {g : Graph} {order front back : List Nat} {a b : Nat}
    (h : g.Respects order) (heq : order = front ++ a :: back) (hab : TransGen g.DependsOn a b) :
    b ∈ front := by
  induction hab with
  | single hd => exact h front a back heq _ hd
  | tail _ hd ih =>
    obtain ⟨front₁, front₂, rfl⟩ := List.append_of_mem ih
    refine List.mem_append_left _ (h front₁ _ (front₂ ++ a :: back) ?_ _ hd)
    rw [heq, List.append_assoc, List.cons_append]

theorem Respects.mem_of_dependsOn {g : Graph} {order : List Nat} {a d : Nat} (h : g.Respects order)
    (ha : a ∈ order) (hd : g.DependsOn a d) : d ∈ order := by
  obtain ⟨front, back, rfl⟩ := List.append_of_mem ha
  exact List.mem_append_left _ (h front a back rfl d hd)

/-- **What is so of a vertex once it is so of all that it depends on** is so of every vertex of such an
order. -/
theorem Respects.induction {g : Graph} {order : List Nat} (h : g.Respects order) {P : Nat → Prop}
    (step : ∀ id ∈ order, (∀ d, g.DependsOn id d → P d) → P id) : ∀ id ∈ order, P id := by
  suffices ∀ n front id back, order = front ++ id :: back → front.length = n → P id by
    intro id hid
    obtain ⟨front, back, heq⟩ := List.append_of_mem hid
    exact this _ front id back heq rfl
  intro n
  induction n using Nat.strong_induction_on with
  | _ n ih =>
    intro front id back heq hlength
    have hid : id ∈ order := by
      rw [heq]
      exact List.mem_append_right front List.mem_cons_self
    refine step id hid fun d hd => ?_
    obtain ⟨front₁, front₂, hfront⟩ := List.append_of_mem (h front id back heq d hd)
    have hshorter : front₁.length < n := by
      rw [← hlength, hfront, List.length_append, List.length_cons]
      omega
    refine ih _ hshorter front₁ d (front₂ ++ id :: back) ?_ rfl
    rw [heq, hfront, List.append_assoc, List.cons_append]

theorem Respects.not_reachesCycle {g : Graph} {order : List Nat} {a : Nat} (h : g.Respects order)
    (hnodup : order.Nodup) (ha : a ∈ order) : ¬ g.ReachesCycle a := by
  rintro ⟨c, hac, hcycle⟩
  obtain ⟨front, back, heq⟩ := List.append_of_mem ha
  have hc : c ∈ order := by
    rcases reflTransGen_iff_eq_or_transGen.mp hac with rfl | hac
    · exact ha
    · rw [heq]
      exact List.mem_append_left _ (h.mem_front heq hac)
  obtain ⟨front, back, rfl⟩ := List.append_of_mem hc
  have hfront := h.mem_front rfl hcycle
  exact (List.nodup_append.mp hnodup).2.2 c hfront c List.mem_cons_self rfl

theorem mem_nodes_of_reachesCycle {g : Graph} {a : Nat} (h : g.ReachesCycle a) : a ∈ g.nodes := by
  obtain ⟨c, hac, hcycle⟩ := h
  rcases ReflTransGen.cases_head hac with rfl | ⟨b, hab, -⟩
  · exact mem_nodes_of_onCycle hcycle
  · exact mem_nodes_of_dependsOn hab

theorem ordered_progress (g : Graph) : g.Progress g.ordered := (Progress.start g).rounds _

theorem Sound.ordered_nodup {g : Graph} (h : g.Sound) :
    (g.ordered.order ++ g.ordered.cyclic).Nodup := g.ordered_progress.perm.nodup_iff.mpr h.nodup

theorem Sound.cyclic_nodup {g : Graph} (h : g.Sound) : g.ordered.cyclic.Nodup :=
  (List.nodup_append.mp h.ordered_nodup).2.1

/-- What is left depends on something that is left. -/
theorem Sound.exists_dependsOn_of_mem_cyclic {g : Graph} (h : g.Sound) {a : Nat}
    (ha : a ∈ g.ordered.cyclic) : ∃ b ∈ g.ordered.cyclic, g.DependsOn a b := by
  have hready : ¬ ∀ d, g.DependsOn a d → d ∈ g.ordered.order :=
    not_ready_of_mem_rounds (Nat.lt_succ_self _) ha
  push Not at hready
  obtain ⟨d, hd, hnot⟩ := hready
  have hmem : d ∈ g.ordered.order ++ g.ordered.cyclic :=
    g.ordered_progress.perm.mem_iff.mpr (h.closed a d hd)
  exact ⟨d, (List.mem_append.mp hmem).resolve_left hnot, hd⟩

theorem Sound.mem_cyclic_iff {g : Graph} (h : g.Sound) {a : Nat} :
    a ∈ g.ordered.cyclic ↔ g.ReachesCycle a := by
  constructor
  · exact reachesCycle_of_unending fun _ => h.exists_dependsOn_of_mem_cyclic
  · intro ha
    have hmem : a ∈ g.ordered.order ++ g.ordered.cyclic :=
      g.ordered_progress.perm.mem_iff.mpr (mem_nodes_of_reachesCycle ha)
    refine (List.mem_append.mp hmem).resolve_left fun horder => ?_
    exact g.ordered_progress.respects.not_reachesCycle
      (List.nodup_append.mp h.ordered_nodup).1 horder ha

/-- **The order of a graph that was built in any way.** Order and leftover are together the vertices,
each once; every vertex of the order stands behind all that it depends on; the leftover keeps the order
of the graph, and it holds exactly the vertices that reach a cycle. -/
theorem ordered_exact (steps : List GraphStep) :
    let g := build steps
    (g.ordered.order ++ g.ordered.cyclic).Perm g.nodes ∧
      (g.ordered.order ++ g.ordered.cyclic).Nodup ∧
      g.Respects g.ordered.order ∧
      g.ordered.cyclic.Sublist g.nodes ∧
      ∀ id, id ∈ g.ordered.cyclic ↔ g.ReachesCycle id := by
  intro g
  have h : g.Sound := build_sound steps
  have hp := g.ordered_progress
  exact ⟨hp.perm, h.ordered_nodup, hp.respects, hp.sublist, fun _ => h.mem_cyclic_iff⟩

end Graph

end Cellbook
