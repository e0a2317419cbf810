import Cellbook.Graph.Cycles
import Cellbook.Proofs.Graph.Classes

/-!
# The stack of the search for components

Two things are kept of the stack. Its places are marked in the tables, and each was entered behind those below
it (`Search.Tabled`). And it lies in layers, one for each place that the search is in (`Search.Layered`): that
place with the places above it that were entered from it and left. All of a layer reach each other, and what
comes next to one of them was entered, no earlier on the stack than the low link of the layer says.

So a step of the search is about the top layer: a place in it is looked at (`Layer.advance`, `Layer.lower`), it
gets a new one on top (`Layered.push`), it is joined with the one below (`Layer.join`), or it is taken away.
The layers below stay as they are (`Layered.mono`).
-/

namespace Cellbook.Graph

open Relation

namespace Search

/-! ## The tables -/

theorem getD_setIfInBounds {α : Type} (xs : Array α) (i j : Nat) (a d : α) :
    (xs.setIfInBounds i a).getD j d = if i = j ∧ j < xs.size then a else xs.getD j d := by
  simp only [Array.getD_eq_getD_getElem?, Array.getElem?_setIfInBounds]
  split
  next h =>
    subst h
    split
    next hlt => rw [if_pos ⟨rfl, hlt⟩, Option.getD_some]
    next hlt => rw [if_neg fun h => hlt h.2, Array.getElem?_eq_none (Nat.le_of_not_lt hlt)]
  next h => rw [if_neg fun h' => h h'.1]

/-- An entry of a table that has one for each place. -/
theorem getD_entry {α : Type} {xs : Array α} {count i : Nat} (hsize : xs.size = count) (hi : i < count)
    (j : Nat) (a d : α) : (xs.setIfInBounds i a).getD j d = if i = j then a else xs.getD j d := by
  rw [getD_setIfInBounds]
  exact if_congr ⟨And.left, fun h => ⟨h, by omega⟩⟩ rfl rfl

/-- A place was entered behind another one. -/
def Later (s : Search) (p q : Nat) : Prop :=
  ∃ i j, s.indexOf p = some i ∧ s.indexOf q = some j ∧ j < i

/-- **The tables agree**: they have an entry for each place, and mark the places of the stack, each of which was
entered behind those below it. -/
structure Tabled (count : Nat) (s : Search) : Prop where
  index_size : s.index.size = count
  lowlink_size : s.lowlink.size = count
  onStack_size : s.onStack.size = count
  isOnStack_iff : ∀ p, s.isOnStack p = true ↔ p ∈ s.stack
  index_lt : ∀ p i, s.indexOf p = some i → i < s.entered
  index_stack : ∀ p ∈ s.stack, ∃ i, s.indexOf p = some i
  later : s.stack.Pairwise s.Later

/-- **What a step keeps** of the places that were entered: their index, and none of them comes back to the
stack. -/
structure Keeps (s s' : Search) : Prop where
  index : ∀ p i, s.indexOf p = some i → s'.indexOf p = some i
  stack : ∀ p i, s.indexOf p = some i → p ∈ s'.stack → p ∈ s.stack

section Tables

variable {count : Nat} {s s' : Search}

theorem Tabled.lt (ht : Tabled count s) {p i : Nat} (hp : s.indexOf p = some i) : p < count := by
  by_contra hlt
  rw [indexOf, Array.getD_eq_getD_getElem?, Array.getElem?_eq_none (by rw [ht.index_size]; omega)] at hp
  cases hp

theorem Later.lt {p q i j : Nat} (h : s.Later p q) (hp : s.indexOf p = some i) (hq : s.indexOf q = some j) :
    j < i := by
  obtain ⟨i', j', hi, hj, hlt⟩ := h
  rw [hp] at hi
  rw [hq] at hj
  cases hi
  cases hj
  exact hlt

theorem Later.ne {p q : Nat} (h : s.Later p q) : p ≠ q := by
  have ⟨i, _, hi, _⟩ := h
  rintro rfl
  exact (h.lt hi hi).false

theorem Tabled.nodup (ht : Tabled count s) : s.stack.Nodup := ht.later.imp Later.ne

/-- What is above a place on the stack was entered behind it, what is below it before it. -/
theorem Tabled.around (ht : Tabled count s) {front below : List Nat} {p : Nat}
    (hs : s.stack = front ++ p :: below) :
    (∀ q ∈ front, s.Later q p) ∧ ∀ q ∈ below, s.Later p q := by
  have hlater := ht.later
  rw [hs] at hlater
  obtain ⟨-, hback, hacross⟩ := List.pairwise_append.mp hlater
  exact ⟨fun q hq => hacross q hq p List.mem_cons_self, (List.pairwise_cons.mp hback).1⟩

theorem Keeps.rfl : Keeps s s := ⟨fun _ _ h => h, fun _ _ _ h => h⟩

theorem Later.mono {p q : Nat} (h : s.Later p q) (hk : Keeps s s') : s'.Later p q :=
  let ⟨i, j, hi, hj, hlt⟩ := h
  ⟨i, j, hk.index p i hi, hk.index q j hj, hlt⟩

/-- The places that the search is in are not in the tables. -/
theorem Tabled.withWork (ht : Tabled count s) (work : List Visit) : Tabled count { s with work } where
  index_size := ht.index_size
  lowlink_size := ht.lowlink_size
  onStack_size := ht.onStack_size
  isOnStack_iff := ht.isOnStack_iff
  index_lt := ht.index_lt
  index_stack := ht.index_stack
  later := ht.later

theorem Keeps.withWork (work : List Visit) : Keeps s { s with work } := ⟨fun _ _ h => h, fun _ _ _ h => h⟩

/-! ### Entering a place -/

variable {next : Nat → List Nat} {place : Nat}

theorem indexOf_enter (ht : Tabled count s) (hplace : place < count) (p : Nat) :
    (s.enter next place).indexOf p = if place = p then some s.entered else s.indexOf p := by
  rw [indexOf, enter, getD_entry ht.index_size hplace]
  rfl

theorem lowlinkOf_enter (ht : Tabled count s) (hplace : place < count) (p : Nat) :
    (s.enter next place).lowlinkOf p = if place = p then s.entered else s.lowlinkOf p := by
  rw [lowlinkOf, enter, getD_entry ht.lowlink_size hplace]
  rfl

theorem isOnStack_enter (ht : Tabled count s) (hplace : place < count) (p : Nat) :
    (s.enter next place).isOnStack p = if place = p then true else s.isOnStack p := by
  rw [isOnStack, enter, getD_entry ht.onStack_size hplace]
  rfl

/-- Another place was entered, if it has an index. -/
theorem ne_of_indexOf {p i : Nat} (hnew : s.indexOf place = none) (hp : s.indexOf p = some i) : place ≠ p := by
  rintro rfl
  rw [hnew] at hp
  cases hp

theorem Keeps.enter (ht : Tabled count s) (hplace : place < count) (hnew : s.indexOf place = none) :
    Keeps s (s.enter next place) where
  index p i hp := by rw [indexOf_enter ht hplace, if_neg (ne_of_indexOf hnew hp), hp]
  stack p i hp hmem := (List.mem_cons.mp hmem).resolve_left (ne_of_indexOf hnew hp).symm

theorem Tabled.enter (ht : Tabled count s) (hplace : place < count) (hnew : s.indexOf place = none) :
    Tabled count (s.enter next place) where
  index_size := by rw [Search.enter, Array.size_setIfInBounds, ht.index_size]
  lowlink_size := by rw [Search.enter, Array.size_setIfInBounds, ht.lowlink_size]
  onStack_size := by rw [Search.enter, Array.size_setIfInBounds, ht.onStack_size]
  isOnStack_iff p := by
    rw [isOnStack_enter ht hplace]
    split
    next h => simp [Search.enter, h]
    next h => rw [ht.isOnStack_iff, Search.enter, List.mem_cons, or_iff_right (Ne.symm h)]
  index_lt p i hp := by
    rw [indexOf_enter ht hplace] at hp
    split at hp
    · cases hp
      exact Nat.lt_succ_self _
    · exact Nat.lt_succ_of_lt (ht.index_lt p i hp)
  index_stack p hp := by
    rw [indexOf_enter ht hplace]
    split
    · exact ⟨_, rfl⟩
    next h => exact ht.index_stack p ((List.mem_cons.mp hp).resolve_left (Ne.symm h))
  later := by
    refine List.pairwise_cons.mpr ⟨fun p hp => ?_, ht.later.imp fun h => h.mono (.enter ht hplace hnew)⟩
    obtain ⟨i, hi⟩ := ht.index_stack p hp
    refine ⟨s.entered, i, ?_, (Keeps.enter ht hplace hnew).index p i hi, ht.index_lt p i hi⟩
    rw [indexOf_enter ht hplace, if_pos rfl]

/-! ### Lowering a low link -/

theorem lowlinkOf_lower (ht : Tabled count s) (hplace : place < count) (n p : Nat) :
    (s.lower place n).lowlinkOf p = if place = p then min (s.lowlinkOf place) n else s.lowlinkOf p := by
  rw [lowlinkOf, lower, getD_entry ht.lowlink_size hplace]
  rfl

theorem Keeps.lower (n : Nat) : Keeps s (s.lower place n) := ⟨fun _ _ h => h, fun _ _ _ h => h⟩

theorem Tabled.lower (ht : Tabled count s) (n : Nat) : Tabled count (s.lower place n) where
  index_size := ht.index_size
  lowlink_size := by rw [Search.lower, Array.size_setIfInBounds, ht.lowlink_size]
  onStack_size := ht.onStack_size
  isOnStack_iff := ht.isOnStack_iff
  index_lt := ht.index_lt
  index_stack := ht.index_stack
  later := ht.later

/-! ### Taking a component from the stack -/

theorem popDownTo_append {above below : List Nat} (h : place ∉ above) :
    popDownTo place (above ++ place :: below) = (above ++ [place], below) := by
  induction above with
  | nil => rw [List.nil_append, popDownTo, if_pos rfl, List.nil_append]
  | cons top above ih =>
    obtain ⟨htop, habove⟩ := not_or.mp (mt List.mem_cons.mpr h)
    rw [List.cons_append, popDownTo, if_neg (Ne.symm htop), ih habove, List.cons_append]

/-- The marks of the places that are taken are cleared. -/
theorem getD_foldl_clear (members : List Nat) (marks : Array Bool) (p : Nat) :
    (members.foldl (·.setIfInBounds · false) marks).getD p false = true ↔
      marks.getD p false = true ∧ p ∉ members := by
  induction members generalizing marks with
  | nil => simp
  | cons m members ih =>
    rw [List.foldl_cons, ih, getD_setIfInBounds, List.mem_cons]
    by_cases hp : m = p
    · subst hp
      by_cases hlt : m < marks.size
      · simp [hlt]
      · simp [Array.getD, hlt]
    · rw [if_neg fun h => hp h.1]
      tauto

theorem size_foldl_clear (members : List Nat) (marks : Array Bool) :
    (members.foldl (·.setIfInBounds · false) marks).size = marks.size := by
  induction members generalizing marks with
  | nil => rfl
  | cons m members ih => rw [List.foldl_cons, ih, Array.size_setIfInBounds]

variable {loops : Nat → Bool} {above below : List Nat}

theorem Tabled.popDownTo_eq (ht : Tabled count s) (hs : s.stack = above ++ place :: below) :
    popDownTo place s.stack = (above ++ [place], below) := by
  have hnodup := ht.nodup
  rw [hs] at hnodup ⊢
  exact popDownTo_append fun h => List.disjoint_of_nodup_append hnodup h List.mem_cons_self

theorem stack_close (ht : Tabled count s) (hs : s.stack = above ++ place :: below) :
    (s.close loops place).stack = below := by
  rw [close, ht.popDownTo_eq hs]

theorem Keeps.close (ht : Tabled count s) (hs : s.stack = above ++ place :: below) :
    Keeps s (s.close loops place) where
  index _ _ h := h
  stack p _ _ h := by
    rw [stack_close ht hs] at h
    rw [hs]
    exact List.mem_append_right _ (List.mem_cons_of_mem _ h)

theorem Tabled.close (ht : Tabled count s) (hs : s.stack = above ++ place :: below) :
    Tabled count (s.close loops place) where
  index_size := ht.index_size
  lowlink_size := ht.lowlink_size
  onStack_size := by rw [Search.close, size_foldl_clear, ht.onStack_size]
  isOnStack_iff p := by
    have hnodup := ht.nodup
    rw [hs, List.append_cons] at hnodup
    have hdisjoint := List.disjoint_of_nodup_append hnodup
    rw [isOnStack, Search.close, ht.popDownTo_eq hs, getD_foldl_clear, ← isOnStack, ht.isOnStack_iff, hs,
      List.append_cons, List.mem_append]
    exact ⟨fun h => h.1.resolve_left h.2, fun h => ⟨.inr h, fun h' => hdisjoint h' h⟩⟩
  index_lt := ht.index_lt
  index_stack p hp := ht.index_stack p (by
    rw [stack_close ht hs] at hp
    rw [hs]
    exact List.mem_append_right _ (List.mem_cons_of_mem _ hp))
  later := by
    have hlater := ht.later
    rw [hs, List.append_cons] at hlater
    rw [stack_close ht hs]
    exact (List.pairwise_append.mp hlater).2.1

end Tables

/-! ## The layers of the stack -/

/-- A place was entered, no earlier on the stack than the low link of the layer of `top` says. -/
def Looked (s : Search) (top p : Nat) : Prop :=
  ∃ i, s.indexOf p = some i ∧ (p ∈ s.stack → s.lowlinkOf top ≤ i)

/-- **A layer of the stack**: a place that the search is in, and what is above it up to the next such place. -/
structure Layer (next : Nat → List Nat) (s : Search) (v : Visit) (above below : List Nat) : Prop where
  joined : ∀ p ∈ above, Mutual next p v.place
  low : ∃ p ∈ v.place :: below, s.indexOf p = some (s.lowlinkOf v.place) ∧
    ReflTransGen (Next next) v.place p
  looked : ∀ p ∈ v.place :: above, ∀ q ∈ next p, s.Looked v.place q ∨ p = v.place ∧ q ∈ v.ahead
  ahead : ∀ q ∈ v.ahead, q ∈ next v.place

/-- **The layers of a stack**, one for each place that the search is in; each of these places comes next to the
one before it. -/
def Layered (next : Nat → List Nat) (s : Search) : List Visit → List Nat → Prop
  | [], stack => stack = []
  | v :: work, stack =>
    ∃ above below, stack = above ++ v.place :: below ∧ Layer next s v above below ∧
      (∀ u ∈ work.head?, v.place ∈ next u.place) ∧ Layered next s work below

section Layers

variable {next : Nat → List Nat} {count : Nat} {s s' : Search} {v : Visit} {above below : List Nat}

theorem Looked.mono {top top' p : Nat} (h : s.Looked top p) (hk : Keeps s s')
    (hlow : s'.lowlinkOf top' ≤ s.lowlinkOf top) : s'.Looked top' p :=
  let ⟨i, hi, hle⟩ := h
  ⟨i, hk.index p i hi, fun hmem => hlow.trans (hle (hk.stack p i hi hmem))⟩

theorem Layer.mono (h : Layer next s v above below) (hk : Keeps s s')
    (hlow : s'.lowlinkOf v.place = s.lowlinkOf v.place) : Layer next s' v above below where
  joined := h.joined
  low :=
    let ⟨p, hp, hindex, hreach⟩ := h.low
    ⟨p, hp, hlow ▸ hk.index p _ hindex, hreach⟩
  looked p hp q hq := (h.looked p hp q hq).imp_left fun h => h.mono hk hlow.le
  ahead := h.ahead

/-- Layers stay if no low link on them changes. -/
theorem Layered.mono {work : List Visit} {stack : List Nat} (h : Layered next s work stack) (hk : Keeps s s')
    (hlow : ∀ p ∈ stack, s'.lowlinkOf p = s.lowlinkOf p) : Layered next s' work stack := by
  induction work generalizing stack with
  | nil => exact h
  | cons v work ih =>
    obtain ⟨above, below, rfl, hlayer, hedge, hrest⟩ := h
    refine ⟨above, below, rfl, hlayer.mono hk (hlow _ (by simp)), hedge, ih hrest fun p hp => hlow p ?_⟩
    exact List.mem_append_right _ (List.mem_cons_of_mem _ hp)

/-- All of a stack reaches the innermost place that the search is in. -/
theorem Layered.reaches {work : List Visit} {stack : List Nat} (h : Layered next s (v :: work) stack) :
    ∀ p ∈ stack, ReflTransGen (Next next) p v.place := by
  induction work generalizing v stack with
  | nil =>
    obtain ⟨above, below, rfl, hlayer, -, rfl⟩ := h
    intro p hp
    rcases List.mem_append.mp hp with hp | hp
    · exact (hlayer.joined p hp).1
    · exact List.mem_singleton.mp hp ▸ .refl
  | cons u work ih =>
    obtain ⟨above, below, rfl, hlayer, hedge, hrest⟩ := h
    intro p hp
    rcases List.mem_append.mp hp with hp | hp
    · exact (hlayer.joined p hp).1
    · rcases List.mem_cons.mp hp with rfl | hp
      · exact .refl
      · exact (ih hrest p hp).tail (hedge u rfl)

/-- A low link is no more than the index of its place. -/
theorem Layer.low_le (h : Layer next s v above below) (ht : Tabled count s) {front : List Nat}
    (hs : s.stack = front ++ v.place :: below) :
    ∃ i, s.indexOf v.place = some i ∧ s.lowlinkOf v.place ≤ i := by
  obtain ⟨p, hp, hlow, -⟩ := h.low
  rcases List.mem_cons.mp hp with rfl | hp
  · exact ⟨_, hlow, le_rfl⟩
  · have hlater := (ht.around hs).2 p hp
    have ⟨i, _, hi, _⟩ := hlater
    exact ⟨i, hi, (hlater.lt hi hlow).le⟩

/-- A place that was looked at is one less to look at. -/
theorem Layer.advance {place q : Nat} {ahead : List Nat} (h : Layer next s ⟨place, q :: ahead⟩ above below)
    (hq : s.Looked place q) : Layer next s ⟨place, ahead⟩ above below where
  joined := h.joined
  low := h.low
  looked p hp r hr := by
    rcases h.looked p hp r hr with hr | ⟨hp, hr⟩
    · exact .inl hr
    · rcases List.mem_cons.mp hr with rfl | hr
      · exact .inl hq
      · exact .inr ⟨hp, hr⟩
  ahead r hr := h.ahead r (List.mem_cons_of_mem q hr)

theorem Layered.advance {place q : Nat} {ahead : List Nat} {work : List Visit} {stack : List Nat}
    (h : Layered next s (⟨place, q :: ahead⟩ :: work) stack) (hq : s.Looked place q) :
    Layered next s (⟨place, ahead⟩ :: work) stack :=
  let ⟨above, below, hs, hlayer, hrest⟩ := h
  ⟨above, below, hs, hlayer.advance hq, hrest⟩

/-- **A low link may be lowered** to the index of a place on the stack that is reached. -/
theorem Layer.lower (h : Layer next s v above below) (ht : Tabled count s) {front : List Nat}
    (hs : s.stack = front ++ v.place :: below) {p n : Nat} (hp : p ∈ s.stack) (hn : s.indexOf p = some n)
    (hreach : ReflTransGen (Next next) v.place p) : Layer next (s.lower v.place n) v above below := by
  obtain ⟨i, hi, hle⟩ := h.low_le ht hs
  have hlow : (s.lower v.place n).lowlinkOf v.place = min (s.lowlinkOf v.place) n := by
    rw [lowlinkOf_lower ht (ht.lt hi), if_pos rfl]
  refine ⟨h.joined, ?_, fun p hp q hq => ?_, h.ahead⟩
  · rw [hlow]
    rcases Nat.le_total (s.lowlinkOf v.place) n with hmin | hmin
    · rw [Nat.min_eq_left hmin]
      exact h.low
    · -- what is above the layer has a greater index than its place
      rw [Nat.min_eq_right hmin]
      rw [hs] at hp
      rcases List.mem_append.mp hp with hp | hp
      · have := ((ht.around hs).1 p hp).lt hn hi
        omega
      · exact ⟨p, hp, hn, hreach⟩
  · exact (h.looked p hp q hq).imp_left fun h => h.mono (.lower n) (by rw [hlow]; exact Nat.min_le_left ..)

theorem Layered.lower {work : List Visit} {stack front : List Nat} (h : Layered next s (v :: work) stack)
    (ht : Tabled count s) (hs : s.stack = front ++ stack) {p n : Nat} (hp : p ∈ s.stack)
    (hn : s.indexOf p = some n) (hreach : ReflTransGen (Next next) v.place p) :
    Layered next (s.lower v.place n) (v :: work) stack ∧ (s.lower v.place n).lowlinkOf v.place ≤ n := by
  obtain ⟨above, below, rfl, hlayer, hedge, hrest⟩ := h
  rw [← List.append_assoc] at hs
  obtain ⟨i, hi, -⟩ := hlayer.low_le ht hs
  refine ⟨⟨above, below, rfl, hlayer.lower ht hs hp hn hreach, hedge, hrest.mono (.lower n) fun q hq => ?_⟩, ?_⟩
  · rw [lowlinkOf_lower ht (ht.lt hi), if_neg ((ht.around hs).2 q hq).ne]
  · rw [lowlinkOf_lower ht (ht.lt hi), if_pos rfl]
    exact Nat.min_le_right ..

/-- **Two layers are joined** when the place of the upper one is left. -/
theorem Layer.join {place : Nat} {joined : List Nat}
    (h : Layer next s v above below) (hupper : Layer next s ⟨place, []⟩ joined (above ++ v.place :: below))
    (hle : s.lowlinkOf v.place ≤ s.lowlinkOf place) (hmutual : Mutual next place v.place) :
    Layer next s v (joined ++ place :: above) below where
  joined p hp := by
    rcases List.mem_append.mp hp with hp | hp
    · exact (hupper.joined p hp).trans hmutual
    · rcases List.mem_cons.mp hp with rfl | hp
      · exact hmutual
      · exact h.joined p hp
  low := h.low
  looked p hp q hq := by
    have hp : p ∈ v.place :: above ∨ p ∈ place :: joined := by
      simp only [List.mem_cons, List.mem_append] at hp ⊢
      tauto
    rcases hp with hp | hp
    · exact h.looked p hp q hq
    · rcases hupper.looked p hp q hq with hq | ⟨-, hq⟩
      · exact .inl (hq.mono .rfl hle)
      · exact absurd hq List.not_mem_nil
  ahead := h.ahead

/-- A place that has just been entered is a layer of its own. -/
theorem Layered.push {work : List Visit} {stack : List Nat} {place : Nat} (h : Layered next s work stack)
    (hlow : s.indexOf place = some (s.lowlinkOf place)) (hedge : ∀ u ∈ work.head?, place ∈ next u.place) :
    Layered next s (⟨place, next place⟩ :: work) (place :: stack) := by
  refine ⟨[], stack, rfl, ⟨by simp, ⟨place, List.mem_cons_self, hlow, .refl⟩, fun p hp q hq => ?_, fun _ h => h⟩,
    hedge, h⟩
  obtain rfl := List.mem_singleton.mp hp
  exact .inr ⟨rfl, hq⟩

end Layers

end Search

end Cellbook.Graph
