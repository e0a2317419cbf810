import Mathlib.Data.List.Flatten
import Cellbook.Proofs.Graph.Layers

/-!
# What the search for components finds

Every step of the search keeps that the stack lies in layers and that what was given away is told by the places
that the search is done with (`Search.Invariant`): a place that is left whose low link is its own index is the
first of a class that lies on the stack down to it, and every other place that is left belongs to the layer of
the place that it was entered from.

The number of steps is never short: each takes one from what is left to do (`Search.weight`).

**The law** (`mem_cyclicComponents_iff`): what is found at the end are the classes that have a cycle. A class
comes behind those that it reaches (`cyclicComponents_ordered`).
-/

namespace Cellbook.Graph

open Relation

namespace Search

/-- The search is done with a place: it was entered, and its class is known. -/
def Done (s : Search) (p : Nat) : Prop := (∃ i, s.indexOf p = some i) ∧ p ∉ s.stack

/-- **What the search keeps**, where `work` are the places that it is in. -/
structure Invariant (next : Nat → List Nat) (loops : Nat → Bool) (count : Nat) (work : List Visit)
    (s : Search) : Prop where
  tabled : Tabled count s
  layered : Layered next s work s.stack
  collected : Collected next loops count s.Done s.found.toList

section Steps

variable {next : Nat → List Nat} {loops : Nat → Bool} {count : Nat} {work : List Visit} {s : Search}

/-- The places that the search is in are kept apart from what is said of them. -/
theorem Invariant.withWork (h : Invariant next loops count work s) (work' : List Visit) :
    Invariant next loops count work { s with work := work' } where
  tabled := h.tabled.withWork work'
  layered := h.layered.mono (.withWork work') fun _ _ => rfl
  collected := h.collected

/-! ## Entering a place -/

theorem done_enter_iff {place : Nat} (ht : Tabled count s) (hplace : place < count)
    (hnew : s.indexOf place = none) (p : Nat) : (s.enter next place).Done p ↔ s.Done p := by
  have hentered : place ∈ (s.enter next place).stack := List.mem_cons_self
  unfold Done
  rw [indexOf_enter ht hplace]
  split
  next h =>
    subst h
    exact iff_of_false (fun h => h.2 hentered) fun ⟨⟨i, hi⟩, _⟩ => ne_of_indexOf hnew hi rfl
  next h => rw [enter, List.mem_cons, or_iff_right (Ne.symm h)]

/-- The layers stay when a place is entered. -/
theorem Layered.enter {place : Nat} (h : Layered next s work s.stack) (ht : Tabled count s)
    (hplace : place < count) (hnew : s.indexOf place = none) :
    Layered next (s.enter next place) work s.stack :=
  h.mono (.enter ht hplace hnew) fun p hp => by
    obtain ⟨i, hi⟩ := ht.index_stack p hp
    rw [lowlinkOf_enter ht hplace, if_neg (ne_of_indexOf hnew hi)]

/-- A place that has been entered gets a layer of its own. -/
theorem Invariant.push {place : Nat} (ht : Tabled count s)
    (hcollected : Collected next loops count s.Done s.found.toList) (hplace : place < count)
    (hnew : s.indexOf place = none) (hlayered : Layered next (s.enter next place) s.work s.stack)
    (hedge : ∀ u ∈ s.work.head?, place ∈ next u.place) :
    Invariant next loops count (s.enter next place).work (s.enter next place) where
  tabled := ht.enter hplace hnew
  layered := hlayered.push (by rw [indexOf_enter ht hplace, lowlinkOf_enter ht hplace, if_pos rfl, if_pos rfl]) hedge
  collected := hcollected.congr (done_enter_iff ht hplace hnew)

/-- The search goes into a place from outside. -/
theorem Invariant.root {root : Nat} (h : Invariant next loops count s.work s) (hwork : s.work = [])
    (hroot : root < count) (hnew : s.indexOf root = none) :
    Invariant next loops count (s.enter next root).work (s.enter next root) :=
  .push h.tabled h.collected hroot hnew (h.layered.enter h.tabled hroot hnew) (by simp [hwork])

/-! ## Looking at a place -/

/-- **A look at a place** that comes next to the innermost one. -/
theorem Invariant.look {place other : Nat} {ahead : List Nat}
    (h : Invariant next loops count (⟨place, other :: ahead⟩ :: work) s)
    (hnext : ∀ a, ∀ b ∈ next a, b < count) (hwork : s.work = ⟨place, ahead⟩ :: work) :
    Invariant next loops count (s.look next place other).work (s.look next place other) := by
  obtain ⟨ht, hlayered, hcollected⟩ := h
  have ⟨above, below, hs, hlayer, _⟩ := hlayered
  have hother : other ∈ next place := hlayer.ahead other List.mem_cons_self
  unfold Search.look
  split
  next hnew =>
    have hlt := hnext place other hother
    -- the place has been looked at once the other one has its index, which is greater than all others
    have hlooked : (s.enter next other).Looked place other := by
      obtain ⟨i, hi, hle⟩ := hlayer.low_le ht hs
      refine ⟨s.entered, by rw [indexOf_enter ht hlt, if_pos rfl], fun _ => ?_⟩
      rw [lowlinkOf_enter ht hlt, if_neg (ne_of_indexOf hnew hi)]
      exact hle.trans (ht.index_lt place i hi).le
    refine .push ht hcollected hlt hnew ?_ fun u hu => ?_
    · rw [hwork]
      exact (hlayered.enter ht hlt hnew).advance hlooked
    · rw [hwork] at hu
      cases hu
      exact hother
  next i hi =>
    split
    next hon =>
      obtain ⟨hlowered, hle⟩ := hlayered.lower ht (show s.stack = [] ++ s.stack from rfl)
        ((ht.isOnStack_iff other).mp hon) hi (.single hother)
      exact ⟨ht.lower i, hwork ▸ hlowered.advance ⟨i, hi, fun _ => hle⟩, hcollected⟩
    next hoff =>
      have hlooked : s.Looked place other := ⟨i, hi, fun hmem => absurd ((ht.isOnStack_iff other).mpr hmem) hoff⟩
      exact ⟨ht, hwork ▸ hlayered.advance hlooked, hcollected⟩

/-! ## Leaving a place -/

/-- Handing the low link up changes the layer of the place that it is handed to. -/
theorem Invariant.handUp {place : Nat} (h : Invariant next loops count (⟨place, []⟩ :: s.work) s) :
    Invariant next loops count (⟨place, []⟩ :: s.work) (s.handUp place) ∧ (s.handUp place).work = s.work ∧
      ∀ v ∈ s.work.head?, (s.handUp place).lowlinkOf v.place ≤ (s.handUp place).lowlinkOf place := by
  obtain ⟨ht, hlayered, hcollected⟩ := h
  unfold Search.handUp
  split
  next v work hwork =>
    rw [hwork] at hlayered ⊢
    obtain ⟨above, below, hs, hlayer, hedge, hrest⟩ := hlayered
    obtain ⟨p, hp, hlow, hreach⟩ := hlayer.low
    obtain ⟨hlowered, hle⟩ := hrest.lower ht (hs.trans (List.append_cons ..))
      (hs ▸ List.mem_append_right above hp) hlow (.head (hedge v rfl) hreach)
    have hv : v.place ∈ below := by
      obtain ⟨_, _, rfl, -⟩ := hrest
      simp
    have hlater := (ht.around hs).2 v.place hv
    have ⟨_, j, _, hj, _⟩ := hlater
    have hsame : (s.lower v.place (s.lowlinkOf place)).lowlinkOf place = s.lowlinkOf place := by
      rw [lowlinkOf_lower ht (ht.lt hj), if_neg hlater.ne.symm]
    refine ⟨⟨ht.lower _, ⟨above, _, hs, hlayer.mono (.lower _) hsame, hedge, hlowered⟩, hcollected⟩, hwork, ?_⟩
    rintro u hu
    cases hu
    rw [hsame]
    exact hle
  next hwork => exact ⟨⟨ht, hlayered, hcollected⟩, rfl, by simp [hwork]⟩

section Closing

variable {place : Nat} {above below : List Nat}

theorem mem_stack_iff (hs : s.stack = above ++ place :: below) (p : Nat) :
    p ∈ s.stack ↔ p ∈ above ++ [place] ∨ p ∈ below := by
  rw [hs, List.append_cons, List.mem_append]

theorem done_close_iff (ht : Tabled count s) (hs : s.stack = above ++ place :: below) (p : Nat) :
    (s.close loops place).Done p ↔ p ∈ above ++ [place] ∨ s.Done p := by
  have hnodup := ht.nodup
  rw [hs, List.append_cons] at hnodup
  have hdisjoint := List.disjoint_of_nodup_append hnodup
  unfold Done
  rw [stack_close ht hs, mem_stack_iff hs]
  constructor
  · rintro ⟨hp, hbelow⟩
    by_cases hmember : p ∈ above ++ [place]
    · exact .inl hmember
    · exact .inr ⟨hp, not_or.mpr ⟨hmember, hbelow⟩⟩
  · rintro (hmember | ⟨hp, hstack⟩)
    · exact ⟨ht.index_stack p ((mem_stack_iff hs p).mpr (.inl hmember)), hdisjoint hmember⟩
    · exact ⟨hp, (not_or.mp hstack).2⟩

theorem found_close (ht : Tabled count s) (hs : s.stack = above ++ place :: below) :
    (s.close loops place).found.toList =
      if 1 < (above ++ [place]).length || loops place then s.found.toList ++ [ascending (above ++ [place])]
      else s.found.toList := by
  rw [Search.close, ht.popDownTo_eq hs]
  split
  · exact Array.toList_push
  · rfl

/-- Nothing leads from a layer to what is below it, if the low link of its place is its own index and all has been
looked at. -/
theorem Layer.closed (h : Layer next s ⟨place, []⟩ above below) (ht : Tabled count s)
    (hs : s.stack = above ++ place :: below) (hlow : s.indexOf place = some (s.lowlinkOf place)) :
    ∀ p ∈ above ++ [place], ∀ q ∈ next p, q ∈ above ++ [place] ∨ s.Done q := by
  intro p hp q hq
  have hp : p ∈ place :: above := by simpa [or_comm] using hp
  obtain ⟨i, hi, hle⟩ := (h.looked p hp q hq).resolve_right fun hahead => List.not_mem_nil hahead.2
  by_cases hstack : q ∈ s.stack
  · refine .inl (((mem_stack_iff hs q).mp hstack).resolve_right fun hbelow => ?_)
    -- what is below the place has a smaller index than the low link allows
    exact (((ht.around hs).2 q hbelow).lt hlow hi).not_ge (hle hstack)
  · exact .inr ⟨⟨i, hi⟩, hstack⟩

end Closing

/-- **A place whose low link is its own index** is the first of a class, which is taken from the stack. -/
theorem Invariant.close {place : Nat} (h : Invariant next loops count (⟨place, []⟩ :: work) s)
    (hlow : s.indexOf place = some (s.lowlinkOf place)) :
    Invariant next loops count work (s.close loops place) := by
  obtain ⟨ht, ⟨above, below, hs, hlayer, -, hrest⟩, hcollected⟩ := h
  have hs : s.stack = above ++ place :: below := hs
  have hmem : ∀ p ∈ above ++ [place], p ∈ s.stack := fun p hp => (mem_stack_iff hs p).mpr (.inl hp)
  have hnodup := ht.nodup
  rw [hs, List.append_cons] at hnodup
  have hlt : ∀ p ∈ above ++ [place], p < count := fun p hp =>
    (ht.index_stack p (hmem p hp)).elim fun _ hi => ht.lt hi
  have hjoined : ∀ p ∈ above ++ [place], Mutual next place p := by
    intro p hp
    rcases List.mem_append.mp hp with hp | hp
    · exact (hlayer.joined p hp).symm
    · exact List.mem_singleton.mp hp ▸ ⟨.refl, .refl⟩
  have hnew : ¬s.Done place := fun h => h.2 (hmem place (by simp))
  refine ⟨ht.close hs, ?_, ?_⟩
  · rw [stack_close ht hs]
    exact hrest.mono (.close ht hs) fun _ _ => rfl
  · rw [found_close ht hs]
    exact (hcollected.close (List.nodup_append.mp hnodup).1 hlt hjoined (hlayer.closed ht hs hlow) hnew).congr
      (done_close_iff ht hs)

/-- **Another place that is left** reaches back to what lies below it on the stack. -/
theorem Invariant.join {place : Nat} (h : Invariant next loops count (⟨place, []⟩ :: work) s)
    (hlow : s.indexOf place ≠ some (s.lowlinkOf place))
    (hle : ∀ v ∈ work.head?, s.lowlinkOf v.place ≤ s.lowlinkOf place) :
    Invariant next loops count work s := by
  obtain ⟨ht, ⟨above, below, hs, hlayer, hedge, hrest⟩, hcollected⟩ := h
  obtain ⟨p, hp, hindex, hreach⟩ := hlayer.low
  have hp : p ∈ below := (List.mem_cons.mp hp).resolve_left (by rintro rfl; exact hlow hindex)
  refine ⟨ht, ?_, hcollected⟩
  cases work with
  | nil =>
    obtain rfl : below = [] := hrest
    exact absurd hp List.not_mem_nil
  | cons v work =>
    have hmutual : Mutual next place v.place := ⟨hreach.trans (hrest.reaches p hp), .single (hedge v rfl)⟩
    obtain ⟨joined, rest, rfl, hv, hvedge, hvrest⟩ := hrest
    exact ⟨above ++ place :: joined, rest, by rw [hs]; simp, hv.join hlayer (hle v rfl) hmutual, hvedge, hvrest⟩

theorem Invariant.leave {place : Nat} (h : Invariant next loops count (⟨place, []⟩ :: s.work) s) :
    Invariant next loops count (s.leave loops place).work (s.leave loops place) := by
  obtain ⟨hup, hwork, hle⟩ := h.handUp
  rw [Search.leave]
  split
  next hlow => exact (show ((s.handUp place).close loops place).work = s.work from hwork) ▸ hup.close hlow
  next hlow => exact hwork ▸ hup.join hlow hle

/-! ## Steps -/

/-- **Every step keeps it.** -/
theorem Invariant.step (h : Invariant next loops count s.work s) (hnext : ∀ a, ∀ b ∈ next a, b < count) :
    Invariant next loops count (s.step next loops).work (s.step next loops) := by
  unfold Search.step
  split
  next place other ahead work hwork => exact ((hwork ▸ h).withWork _).look hnext rfl
  next place work hwork => exact ((hwork ▸ h).withWork work).leave
  next => exact h

/-! ## The steps are enough -/

/-- The steps for the places that the search is in: one for each, and one for each that is to be looked at. -/
def waiting (work : List Visit) : Nat := (work.flatMap fun v => v.place :: v.ahead).length

/-- The steps for the places that were not entered: one for each, and one for each that comes next to it. -/
def unentered (next : Nat → List Nat) (index : Array (Option Nat)) (places : List Nat) : Nat :=
  (places.flatMap fun p => if (index.getD p none).isSome then [] else p :: next p).length

/-- What is left to do. -/
def weight (next : Nat → List Nat) (count : Nat) (s : Search) : Nat :=
  waiting s.work + unentered next s.index (List.range count)

theorem waiting_cons (v : Visit) (work : List Visit) :
    waiting (v :: work) = v.ahead.length + 1 + waiting work := by
  rw [waiting, List.flatMap_cons, List.length_append, List.length_cons, waiting]

theorem unentered_cons (index : Array (Option Nat)) (p : Nat) (places : List Nat) :
    unentered next index (p :: places) =
      (if (index.getD p none).isSome then 0 else (next p).length + 1) + unentered next index places := by
  rw [unentered, List.flatMap_cons, List.length_append, apply_ite List.length, List.length_cons, List.length_nil,
    unentered]

theorem unentered_le (index : Array (Option Nat)) (places : List Nat) :
    unentered next index places ≤ (places.flatMap fun p => p :: next p).length := by
  refine (List.Sublist.flatMap_right places fun p _ => ?_).length_le
  split
  · exact List.nil_sublist _
  · exact .refl _

/-- What there is to do for a place is the same before it is entered and then. -/
theorem weight_enter {place : Nat} (ht : Tabled count s) (hplace : place < count)
    (hnew : s.indexOf place = none) : (s.enter next place).weight next count = s.weight next count := by
  have hsplit (index : Array (Option Nat)) : unentered next index (List.range count) =
      unentered next index (place :: (List.range count).erase place) :=
    ((List.perm_cons_erase (List.mem_range.mpr hplace)).flatMap_right _).length_eq
  have hothers : unentered next (s.enter next place).index ((List.range count).erase place) =
      unentered next s.index ((List.range count).erase place) := by
    refine congrArg List.length (List.flatMap_congr fun p hp => ?_)
    rw [← indexOf, ← indexOf, indexOf_enter ht hplace, if_neg (List.nodup_range.mem_erase_iff.mp hp).1.symm]
  have hwork : (s.enter next place).work = ⟨place, next place⟩ :: s.work := rfl
  rw [weight, weight, hsplit, hsplit, unentered_cons, unentered_cons, hothers, hwork, waiting_cons, ← indexOf,
    ← indexOf, indexOf_enter ht hplace, if_pos rfl, hnew]
  simp only [Option.isSome_some, Option.isSome_none, Bool.false_eq_true, if_true, if_false]
  omega

/-- A look at a place enters it, or it enters none. -/
theorem look_cases (next : Nat → List Nat) (s : Search) (place other : Nat) :
    s.indexOf other = none ∧ s.look next place other = s.enter next other ∨
      (s.look next place other).index = s.index ∧ (s.look next place other).work = s.work := by
  unfold Search.look
  split
  next hnew => exact .inl ⟨hnew, rfl⟩
  next => split <;> exact .inr ⟨rfl, rfl⟩

/-- Leaving a place enters none. -/
theorem index_leave (loops : Nat → Bool) (s : Search) (place : Nat) :
    (s.leave loops place).index = s.index ∧ (s.leave loops place).work = s.work := by
  rw [Search.leave, Search.handUp]
  split <;> split <;> exact ⟨rfl, rfl⟩

/-- **Every step takes one** from what is left to do, and changes no index. -/
theorem step_progress (h : Invariant next loops count s.work s) (hnext : ∀ a, ∀ b ∈ next a, b < count)
    (hwork : s.work ≠ []) : (s.step next loops).weight next count + 1 = s.weight next count ∧
      ∀ p i, s.indexOf p = some i → (s.step next loops).indexOf p = some i := by
  unfold Search.step
  split
  next place other ahead work hs =>
    have hless : weight next count { s with work := ⟨place, ahead⟩ :: work } + 1 = s.weight next count := by
      simp only [weight, hs, waiting_cons, List.length_cons]
      omega
    rw [← hless]
    have hlayered := h.layered
    rw [hs] at hlayered
    obtain ⟨above, below, -, hlayer, -⟩ := hlayered
    have hlt := hnext place other (hlayer.ahead other List.mem_cons_self)
    have ht := h.tabled.withWork (⟨place, ahead⟩ :: work)
    obtain ⟨hnew, heq⟩ | ⟨hindex, hwork⟩ :=
      look_cases next { s with work := ⟨place, ahead⟩ :: work } place other
    · rw [heq, weight_enter ht hlt hnew]
      exact ⟨rfl, (Keeps.enter ht hlt hnew).index⟩
    · simp only [weight, indexOf, hindex, hwork]
      exact ⟨trivial, fun _ _ h => h⟩
  next place work hs =>
    obtain ⟨hindex, hwork⟩ := index_leave loops { s with work } place
    simp only [weight, indexOf, hindex, hwork, hs, waiting_cons, List.length_nil]
    exact ⟨by omega, fun _ _ h => h⟩
  next hs => exact absurd hs hwork

/-- **A search has ended**, in no place, and has kept the indexes that there were. -/
structure Ended (next : Nat → List Nat) (loops : Nat → Bool) (count : Nat) (s s' : Search) : Prop where
  invariant : Invariant next loops count s'.work s'
  work : s'.work = []
  index : ∀ p i, s.indexOf p = some i → s'.indexOf p = some i

/-- **A run ends**, if the steps are enough for what is left to do. -/
theorem Invariant.run (h : Invariant next loops count s.work s) (hnext : ∀ a, ∀ b ∈ next a, b < count)
    {steps : Nat} (hsteps : s.weight next count ≤ steps) :
    Ended next loops count s (s.run next loops steps) := by
  induction steps generalizing s with
  | zero =>
    refine ⟨h, ?_, fun _ _ h => h⟩
    rw [Search.run]
    cases hwork : s.work with
    | nil => rfl
    | cons v work =>
      rw [weight, hwork, waiting_cons] at hsteps
      omega
  | succ steps ih =>
    rw [Search.run]
    split
    next hempty => exact ⟨h, List.isEmpty_iff.mp hempty, fun _ _ h => h⟩
    next hwork =>
      obtain ⟨hless, hindex⟩ := step_progress h hnext (mt List.isEmpty_iff.mpr hwork)
      obtain ⟨hrun, hend, hkept⟩ := ih (h.step hnext) (by omega)
      exact ⟨hrun, hend, fun p i hp => hkept p i (hindex p i hp)⟩

/-! ## All places -/

theorem Invariant.explore (h : Invariant next loops count s.work s) (hwork : s.work = [])
    (hnext : ∀ a, ∀ b ∈ next a, b < count) {root : Nat} (hroot : root < count) :
    Ended next loops count s (s.explore next loops (searchSteps next count) root) ∧
      ∃ i, (s.explore next loops (searchSteps next count) root).indexOf root = some i := by
  unfold Search.explore
  split
  next hentered => exact ⟨⟨h, hwork, fun _ _ h => h⟩, Option.isSome_iff_exists.mp hentered⟩
  next hnew =>
    have hnew : s.indexOf root = none := by simpa using hnew
    have hsteps : (s.enter next root).weight next count ≤ searchSteps next count := by
      rw [weight_enter h.tabled hroot hnew, weight, hwork, show waiting [] = 0 from rfl, Nat.zero_add]
      exact unentered_le s.index (List.range count)
    obtain ⟨hrun, hend, hkept⟩ := (h.root hwork hroot hnew).run hnext hsteps
    refine ⟨⟨hrun, hend, fun p i hp => hkept p i ((Keeps.enter h.tabled hroot hnew).index p i hp)⟩,
      s.entered, hkept root s.entered ?_⟩
    rw [indexOf_enter h.tabled hroot, if_pos rfl]

theorem Invariant.exploreAll (h : Invariant next loops count s.work s) (hwork : s.work = [])
    (hnext : ∀ a, ∀ b ∈ next a, b < count) {roots : List Nat} (hroots : ∀ root ∈ roots, root < count) :
    Ended next loops count s (roots.foldl (Search.explore next loops (searchSteps next count)) s) ∧
      ∀ root ∈ roots,
        ∃ i, (roots.foldl (Search.explore next loops (searchSteps next count)) s).indexOf root = some i := by
  induction roots generalizing s with
  | nil => exact ⟨⟨h, hwork, fun _ _ h => h⟩, fun _ h => absurd h List.not_mem_nil⟩
  | cons root roots ih =>
    obtain ⟨⟨hone, hone_work, hone_index⟩, i, hi⟩ := h.explore hwork hnext (hroots root List.mem_cons_self)
    obtain ⟨⟨hall, hall_work, hall_index⟩, hentered⟩ :=
      ih hone hone_work fun r hr => hroots r (List.mem_cons_of_mem root hr)
    refine ⟨⟨hall, hall_work, fun p j hp => hall_index p j (hone_index p j hp)⟩, fun r hr => ?_⟩
    rcases List.mem_cons.mp hr with rfl | hr
    · exact ⟨i, hall_index r i hi⟩
    · exact hentered r hr

theorem indexOf_start (count p : Nat) : (start count).indexOf p = none := by
  rw [indexOf, start, Array.getD_eq_getD_getElem?, Array.getElem?_replicate]
  split <;> rfl

theorem isOnStack_start (count p : Nat) : (start count).isOnStack p = false := by
  rw [isOnStack, start, Array.getD_eq_getD_getElem?, Array.getElem?_replicate]
  split <;> rfl

theorem invariant_start (next : Nat → List Nat) (loops : Nat → Bool) (count : Nat) :
    Invariant next loops count (start count).work (start count) where
  tabled :=
    { index_size := Array.size_replicate
      lowlink_size := Array.size_replicate
      onStack_size := Array.size_replicate
      isOnStack_iff p := by rw [isOnStack_start]; exact iff_of_false Bool.false_ne_true List.not_mem_nil
      index_lt p i hp := by simp [indexOf_start] at hp
      index_stack p hp := absurd hp List.not_mem_nil
      later := .nil }
  layered := rfl
  collected :=
    { isClass places h := absurd h List.not_mem_nil
      of_found places h := absurd h List.not_mem_nil
      closed p hp := by simp [Done, indexOf_start] at hp
      complete places _ _ p _ hp := by simp [Done, indexOf_start] at hp
      ordered := .nil }

end Steps

end Search

/-! ## What is found -/

section Found

variable {next : Nat → List Nat} {loops : Nat → Bool} {count : Nat}

/-- At the end the search is done with all places. -/
theorem collected_cyclicComponents (hnext : ∀ a, ∀ b ∈ next a, b < count) :
    Collected next loops count (· < count) (cyclicComponents next loops count) := by
  obtain ⟨⟨⟨htabled, hlayered, hcollected⟩, hwork, -⟩, hentered⟩ :=
    (Search.invariant_start next loops count).exploreAll rfl hnext
      (show ∀ root ∈ List.range count, root < count from fun _ h => List.mem_range.mp h)
  -- the search is in no place, so nothing is on the stack
  rw [hwork] at hlayered
  have hempty : _ = [] := hlayered
  refine hcollected.congr fun p => ⟨fun hp => ⟨hentered p (List.mem_range.mpr hp), ?_⟩, ?_⟩
  · rw [hempty]
    exact List.not_mem_nil
  · rintro ⟨⟨_, hi⟩, -⟩
    exact htabled.lt hi

/-- **The components that are found are the classes that have a cycle.** -/
theorem mem_cyclicComponents_iff (hnext : ∀ a, ∀ b ∈ next a, b < count) {places : List Nat} :
    places ∈ cyclicComponents next loops count ↔ IsClass next count places ∧ Cyclic loops places := by
  have hall : Collected next loops count (· < count) _ := collected_cyclicComponents hnext
  constructor
  · exact hall.isClass places
  · rintro ⟨hclass, hcyclic⟩
    obtain ⟨p, hp⟩ := List.exists_mem_of_ne_nil _ hclass.nonempty
    exact hall.complete places hclass hcyclic p hp (hclass.lt hp)

/-- **A component comes behind those that it reaches.** -/
theorem cyclicComponents_ordered (hnext : ∀ a, ∀ b ∈ next a, b < count) :
    (cyclicComponents next loops count).Pairwise fun places others =>
      ∀ p ∈ places, ∀ q ∈ others, ¬ReflTransGen (Next next) p q :=
  (collected_cyclicComponents hnext).ordered

end Found

end Cellbook.Graph
