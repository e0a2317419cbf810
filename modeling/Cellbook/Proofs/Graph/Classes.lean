import Mathlib.Data.List.Perm.Basic
import Mathlib.Data.List.Range
import Mathlib.Data.List.Sort
import Mathlib.Logic.Relation
import Cellbook.Ascending

/-!
# Classes of places that reach each other

A search goes from place to place, along the places that come next to each. Places belong together that reach
each other (`Graph.IsClass`); a class has a cycle if it has several places, or one that loops.

A search gives its classes away one after the other. What it has given away is told by the places that it is
done with (`Graph.Collected`), and one more class may be added if nothing leads from its places but to
themselves and to places that are done (`Collected.close`).
-/

namespace Cellbook.Graph

open Relation

/-! ## Classes of places -/

/-- A place comes next to another one. -/
def Next (next : Nat → List Nat) (a b : Nat) : Prop := b ∈ next a

/-- Each of two places reaches the other. -/
def Mutual (next : Nat → List Nat) (a b : Nat) : Prop :=
  ReflTransGen (Next next) a b ∧ ReflTransGen (Next next) b a

theorem Mutual.symm {next : Nat → List Nat} {a b : Nat} (h : Mutual next a b) : Mutual next b a :=
  ⟨h.2, h.1⟩

theorem Mutual.trans {next : Nat → List Nat} {a b c : Nat} (h : Mutual next a b)
    (h' : Mutual next b c) : Mutual next a c :=
  ⟨h.1.trans h'.1, h'.2.trans h.2⟩

/-- A class of mutual reach among the places below `count`. -/
structure IsClass (next : Nat → List Nat) (count : Nat) (places : List Nat) : Prop where
  sublist : places.Sublist (List.range count)
  nonempty : places ≠ []
  mem_iff : ∀ a ∈ places, ∀ b, b ∈ places ↔ b < count ∧ Mutual next a b

/-- A class has a cycle: it has several places, or one that loops. -/
def Cyclic (loops : Nat → Bool) (places : List Nat) : Prop :=
  1 < places.length ∨ ∃ p ∈ places, loops p = true

/-- Two parts of a list without repetitions that have the same members are the same. -/
theorem sublist_unique {as bs all : List Nat} (hnodup : all.Nodup) (ha : as.Sublist all)
    (hb : bs.Sublist all) (hmem : ∀ x, x ∈ as ↔ x ∈ bs) : as = bs := by
  have hfilter : ∀ {cs : List Nat}, cs.Sublist all → cs = all.filter (cs.contains ·) := by
    intro cs hc
    clear ha hb hmem
    induction hc with
    | slnil => rfl
    | @cons cs all x hc ih =>
      obtain ⟨hx, hall⟩ := List.nodup_cons.mp hnodup
      rw [List.filter_cons_of_neg]
      · exact ih hall
      · simpa only [List.contains_iff_mem] using fun hxc => hx (hc.subset hxc)
    | @cons_cons cs all x hc ih =>
      obtain ⟨hx, hall⟩ := List.nodup_cons.mp hnodup
      rw [List.filter_cons_of_pos (by simp)]
      refine congrArg (x :: ·) ((ih hall).trans (List.filter_congr fun y hy => ?_))
      have hyx : y ≠ x := fun e => hx (e ▸ hy)
      simp [hyx]
  rw [hfilter ha, hfilter hb]
  refine List.filter_congr fun x _ => ?_
  rw [Bool.eq_iff_iff, List.contains_iff_mem, List.contains_iff_mem]
  exact hmem x

section Classes

variable {next : Nat → List Nat} {count : Nat}

theorem IsClass.lt {places : List Nat} (h : IsClass next count places) {a : Nat} (ha : a ∈ places) :
    a < count :=
  List.mem_range.mp (h.sublist.subset ha)

/-- Classes with a common place are the same. -/
theorem IsClass.unique {places others : List Nat} (h : IsClass next count places)
    (h' : IsClass next count others) {a : Nat} (ha : a ∈ places) (ha' : a ∈ others) : places = others :=
  sublist_unique List.nodup_range h.sublist h'.sublist fun b =>
    (h.mem_iff a ha b).trans (h'.mem_iff a ha' b).symm

end Classes

/-! ## What is collected -/

/-- **The classes that are collected** when all that can be said of some places is known: the places `done` reach
nothing else, their classes are in the list if they have a cycle, and a class comes behind those that it reaches. -/
structure Collected (next : Nat → List Nat) (loops : Nat → Bool) (count : Nat) (done : Nat → Prop)
    (found : List (List Nat)) : Prop where
  isClass : ∀ places ∈ found, IsClass next count places ∧ Cyclic loops places
  of_found : ∀ places ∈ found, ∀ p ∈ places, done p
  closed : ∀ p, done p → ∀ q ∈ next p, done q
  complete : ∀ places, IsClass next count places → Cyclic loops places → ∀ p ∈ places, done p → places ∈ found
  ordered : found.Pairwise fun places others =>
    ∀ p ∈ places, ∀ q ∈ others, ¬ReflTransGen (Next next) p q

section Collecting

variable {next : Nat → List Nat} {loops : Nat → Bool} {count : Nat} {done done' : Nat → Prop}
  {found : List (List Nat)}

theorem Collected.congr (h : Collected next loops count done found) (hdone : ∀ p, done' p ↔ done p) :
    Collected next loops count done' found := by
  rwa [show done' = done from funext fun p => propext (hdone p)]

/-- What is reached from a place that the search is done with is done. -/
theorem Collected.reached (h : Collected next loops count done found) {p q : Nat} (hp : done p)
    (hpq : ReflTransGen (Next next) p q) : done q := by
  induction hpq with
  | refl => exact hp
  | tail _ hqr ih => exact h.closed _ ih _ hqr

theorem length_ascending {members : List Nat} (h : members.Nodup) :
    (ascending members).length = members.length :=
  ((List.perm_ext_iff_of_nodup (ascending_pairwise.imp Nat.ne_of_lt) h).mpr fun _ => mem_ascending).length_eq

/-- The test of a component, which is for its last member on the stack. -/
theorem cyclic_ascending_iff (loops : Nat → Bool) {above : List Nat} {place : Nat} (h : (above ++ [place]).Nodup) :
    Cyclic loops (ascending (above ++ [place])) ↔
      (decide (1 < (above ++ [place]).length) || loops place) = true := by
  rw [Cyclic, length_ascending h, Bool.or_eq_true, decide_eq_true_iff]
  constructor
  · rintro (hmany | ⟨p, hp, hloops⟩)
    · exact .inl hmany
    · rcases List.mem_append.mp (mem_ascending.mp hp) with hp | hp
      · exact .inl (by rw [List.length_append]; exact Nat.lt_add_of_pos_left (List.length_pos_of_mem hp))
      · exact .inr (List.mem_singleton.mp hp ▸ hloops)
  · exact Or.imp_right fun hloops => ⟨place, mem_ascending.mpr (by simp), hloops⟩

/-- **Places that reach each other are a class**, if nothing leads from them but to themselves and to places that
are done. -/
theorem Collected.isClass_ascending (h : Collected next loops count done found) {members : List Nat} {a : Nat}
    (ha : a ∈ members) (hlt : ∀ b ∈ members, b < count) (hjoined : ∀ b ∈ members, Mutual next a b)
    (hclosed : ∀ b ∈ members, ∀ c ∈ next b, c ∈ members ∨ done c) (hnew : ¬done a) :
    IsClass next count (ascending members) := by
  have hreached : ∀ b, ReflTransGen (Next next) a b → b ∈ members ∨ done b := by
    intro b hab
    induction hab with
    | refl => exact .inl ha
    | tail _ hbc ih =>
      rcases ih with hb | hb
      · exact hclosed _ hb _ hbc
      · exact .inr (h.closed _ hb _ hbc)
  refine ⟨?_, List.ne_nil_of_mem (mem_ascending.mpr ha), fun b hb c => ?_⟩
  · refine List.sublist_of_subperm_of_pairwise ?_ ascending_pairwise List.pairwise_lt_range
    exact List.subperm_of_subset (ascending_pairwise.imp Nat.ne_of_lt) fun b hb =>
      List.mem_range.mpr (hlt b (mem_ascending.mp hb))
  · have hab := hjoined b (mem_ascending.mp hb)
    rw [mem_ascending]
    constructor
    · exact fun hc => ⟨hlt c hc, hab.symm.trans (hjoined c hc)⟩
    · rintro ⟨-, hbc⟩
      have hac := hab.trans hbc
      exact (hreached c hac.1).resolve_right fun hc => hnew (h.reached hc hac.2)

/-- **A class is collected** when the search is done with it, if it has a cycle. -/
theorem Collected.close (h : Collected next loops count done found) {above : List Nat} {place : Nat}
    (hnodup : (above ++ [place]).Nodup) (hlt : ∀ p ∈ above ++ [place], p < count)
    (hjoined : ∀ p ∈ above ++ [place], Mutual next place p)
    (hclosed : ∀ p ∈ above ++ [place], ∀ q ∈ next p, q ∈ above ++ [place] ∨ done q) (hnew : ¬done place) :
    Collected next loops count (fun p => p ∈ above ++ [place] ∨ done p)
      (if 1 < (above ++ [place]).length || loops place then found ++ [ascending (above ++ [place])]
        else found) := by
  have hclass := h.isClass_ascending (by simp) hlt hjoined hclosed hnew
  have htest := cyclic_ascending_iff loops hnodup
  generalize above ++ [place] = members at hclass htest hjoined hclosed
  generalize (decide (1 < members.length) || loops place) = test at htest
  have hmem : ∀ places, places ∈ (if test then found ++ [ascending members] else found) ↔
      places ∈ found ∨ Cyclic loops (ascending members) ∧ places = ascending members := by
    intro places
    rw [htest]
    cases test <;> simp
  refine ⟨fun places hplaces => ?_, fun places hplaces p hp => ?_, fun p hp q hq => ?_,
    fun places hplaces hcyclic p hp hdone => ?_, ?_⟩
  · rcases (hmem places).mp hplaces with hplaces | ⟨hcyclic, rfl⟩
    · exact h.isClass places hplaces
    · exact ⟨hclass, hcyclic⟩
  · rcases (hmem places).mp hplaces with hplaces | ⟨-, rfl⟩
    · exact .inr (h.of_found places hplaces p hp)
    · exact .inl (mem_ascending.mp hp)
  · rcases hp with hp | hp
    · exact hclosed p hp q hq
    · exact .inr (h.closed p hp q hq)
  · refine (hmem places).mpr ?_
    rcases hdone with hdone | hdone
    · have heq := hplaces.unique hclass hp (mem_ascending.mpr hdone)
      exact .inr ⟨heq ▸ hcyclic, heq⟩
    · exact .inl (h.complete places hplaces hcyclic p hp hdone)
  · split
    · refine List.pairwise_append.mpr ⟨h.ordered, List.pairwise_singleton _ _, fun places hplaces others ho => ?_⟩
      obtain rfl := List.mem_singleton.mp ho
      -- what is done reaches nothing else, so it does not reach the place of the new class
      intro p hp q hq hpq
      have hplace := (hjoined q (mem_ascending.mp hq)).2
      exact hnew (h.reached (h.of_found places hplaces p hp) (hpq.trans hplace))
    · exact h.ordered

end Collecting

end Cellbook.Graph
