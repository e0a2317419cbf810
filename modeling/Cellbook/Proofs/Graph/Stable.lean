import Mathlib.Data.List.Pairwise
import Cellbook.Proofs.Graph.Order

/-!
# Which of two vertices comes first

Ties in the order of a graph go by declaration, but a round takes a vertex together with the
dependencies that it has taken just before: of two vertices that depend on the same one, the one that
is declared second may come first. So the order is told by the round that takes a vertex (`Graph.turn`).
It is the latest that its dependencies ask for, and a dependency asks for its own round where it is
declared before the vertex, and for the one after where it is declared behind it.

**The law** (`ordered_stable`): the order holds exactly the vertices that reach no cycle, by their round
and within a round by declaration. What carries it is an invariant of a round under way
(`Graph.Scan`): what is taken are the vertices of earlier rounds and those of this round that have been
passed, and these are declared before all that is still ahead.
-/

namespace Cellbook

open Relation

namespace Graph

/-- The place of a vertex among the declared ones. -/
def place (g : Graph) (id : Nat) : Nat := g.nodes.idxOf id

/-- The first round in which a vertex can be taken whose dependency is taken in the given one. -/
def roundAfter (g : Graph) (id dependency round : Nat) : Nat :=
  if g.place dependency < g.place id then round else round + 1

/-- The round that takes a vertex, found by going so many dependencies deep. -/
def turnWithin (g : Graph) : (depth id : Nat) → Nat
  | 0, _ => 1
  | depth + 1, id => ((g.dependencies id).map fun d => g.roundAfter id d (turnWithin g depth d)).foldr max 1

/-- **The round that takes a vertex**, if one does: no chain of dependencies is longer than there are
vertices. -/
def turn (g : Graph) (id : Nat) : Nat := g.turnWithin g.nodes.length id

/-- The one vertex is taken in an earlier round, or in the same one and is declared before the other. -/
def ComesBefore (g : Graph) (a b : Nat) : Prop :=
  g.turn a < g.turn b ∨ g.turn a = g.turn b ∧ g.place a < g.place b

/-- A vertex that a round takes: it does not reach a cycle. -/
def Takeable (g : Graph) (id : Nat) : Prop := id ∈ g.nodes ∧ ¬ g.ReachesCycle id

/-! ## The round of a vertex -/

theorem foldr_max_le_iff {ns : List Nat} {low k : Nat} :
    ns.foldr max low ≤ k ↔ low ≤ k ∧ ∀ n ∈ ns, n ≤ k := by
  induction ns with
  | nil => simp
  | cons n ns ih => simp only [List.foldr_cons, max_le_iff, ih, List.forall_mem_cons]; tauto

theorem turnWithin_le_iff {g : Graph} {depth id k : Nat} :
    g.turnWithin (depth + 1) id ≤ k ↔
      1 ≤ k ∧ ∀ d, g.DependsOn id d → g.roundAfter id d (g.turnWithin depth d) ≤ k := by
  rw [turnWithin, foldr_max_le_iff, List.forall_mem_map]
  rfl

theorem one_le_turn (g : Graph) (id : Nat) : 1 ≤ g.turn id := by
  unfold turn
  cases g.nodes.length with
  | zero => exact Nat.le_refl 1
  | succ depth => exact (turnWithin_le_iff.mp (Nat.le_refl _)).1

theorem turnWithin_of_no_dependencies {g : Graph} {id : Nat} (h : g.dependencies id = []) (n : Nat) :
    g.turnWithin n id = 1 := by
  cases n with
  | zero => rfl
  | succ n => rw [turnWithin, h, List.map_nil, List.foldr_nil]

theorem Respects.dependencies_eq_nil {g : Graph} {order back : List Nat} {id : Nat} (h : g.Respects order)
    (heq : order = id :: back) : g.dependencies id = [] :=
  List.eq_nil_iff_forall_not_mem.mpr fun d hd => List.not_mem_nil (h [] id back heq d hd)

/-- Going deeper than the place of a vertex in an order finds nothing more. -/
theorem Respects.turnWithin_eq {g : Graph} {order : List Nat} (h : g.Respects order) {m : Nat} :
    ∀ {n : Nat} {front back : List Nat} {id : Nat}, order = front ++ id :: back →
      front.length ≤ m → front.length ≤ n → g.turnWithin m id = g.turnWithin n id := by
  induction m with
  | zero =>
    intro n front back id heq hm hn
    obtain rfl := List.length_eq_zero_iff.mp (Nat.le_zero.mp hm)
    rw [turnWithin_of_no_dependencies (h.dependencies_eq_nil heq) n]
    rfl
  | succ m ih =>
    intro n front back id heq hm hn
    cases n with
    | zero =>
      obtain rfl := List.length_eq_zero_iff.mp (Nat.le_zero.mp hn)
      rw [turnWithin_of_no_dependencies (h.dependencies_eq_nil heq) (m + 1)]
      rfl
    | succ n =>
      rw [turnWithin, turnWithin]
      congr 1
      refine List.map_congr_left fun d hd => ?_
      -- a dependency stands further in front, so the two depths are enough for it
      obtain ⟨front₁, front₂, hfront⟩ := List.append_of_mem (h front id back heq d hd)
      have hlength : front₁.length < front.length := by
        rw [hfront, List.length_append, List.length_cons]
        omega
      have heq' : order = front₁ ++ d :: (front₂ ++ id :: back) := by
        rw [heq, hfront, List.append_assoc, List.cons_append]
      have hsame : g.turnWithin m d = g.turnWithin n d := ih heq' (by omega) (by omega)
      rw [hsame]

theorem Sound.takeable_iff {g : Graph} (h : g.Sound) {id : Nat} : g.Takeable id ↔ id ∈ g.ordered.order := by
  have hmem : id ∈ g.ordered.order ++ g.ordered.cyclic ↔ id ∈ g.nodes :=
    g.ordered_progress.perm.mem_iff
  rw [Takeable, ← hmem, ← h.mem_cyclic_iff, List.mem_append]
  have hdisjoint := (List.nodup_append.mp h.ordered_nodup).2.2
  constructor
  · rintro ⟨horder | hcyclic, hnot⟩
    · exact horder
    · exact absurd hcyclic hnot
  · exact fun horder => ⟨.inl horder, fun hcyclic => hdisjoint id horder id hcyclic rfl⟩

/-- **The round of a vertex is the latest that its dependencies ask for.** -/
theorem Sound.turn_eq {g : Graph} (h : g.Sound) {id : Nat} (hid : g.Takeable id) :
    g.turn id = ((g.dependencies id).map fun d => g.roundAfter id d (g.turn d)).foldr max 1 := by
  obtain ⟨front, back, heq⟩ := List.append_of_mem (h.takeable_iff.mp hid)
  have hlength : front.length ≤ g.nodes.length := by
    have := g.ordered_progress.perm.length_eq
    rw [heq, List.length_append, List.length_append, List.length_cons] at this
    omega
  have hrespects := g.ordered_progress.respects
  have hdeeper := hrespects.turnWithin_eq heq hlength (Nat.le_succ_of_le hlength)
  rw [turn, hdeeper, turnWithin]
  rfl

theorem Sound.turn_le_iff {g : Graph} (h : g.Sound) {id k : Nat} (hid : g.Takeable id) :
    g.turn id ≤ k ↔ 1 ≤ k ∧ ∀ d, g.DependsOn id d → g.roundAfter id d (g.turn d) ≤ k := by
  rw [h.turn_eq hid, foldr_max_le_iff, List.forall_mem_map]
  rfl

/-- A vertex can be taken when all that it depends on can. -/
theorem Takeable.of_dependencies {g : Graph} {id : Nat} (hid : id ∈ g.nodes)
    (hdeps : ∀ d, g.DependsOn id d → g.Takeable d) : g.Takeable id := by
  refine ⟨hid, fun ⟨c, hreach, hcycle⟩ => ?_⟩
  rcases ReflTransGen.cases_head hreach with rfl | ⟨d, hd, hrest⟩
  · obtain ⟨d, hd, hback⟩ := TransGen.head'_iff.mp hcycle
    exact (hdeps d hd).2 ⟨id, hback, hcycle⟩
  · exact (hdeps d hd).2 ⟨c, hrest, hcycle⟩

theorem Sound.takeable_dependency {g : Graph} (h : g.Sound) {id d : Nat} (hid : g.Takeable id)
    (hd : g.DependsOn id d) : g.Takeable d :=
  ⟨h.closed id d hd, fun ⟨c, hreach, hcycle⟩ => hid.2 ⟨c, hreach.head hd, hcycle⟩⟩

/-! ## A round under way -/

/-- What holds while the round `k` goes through the vertices, with `left` still ahead of it. -/
structure Scan (g : Graph) (k : Nat) (left taken : List Nat) : Prop where
  mem_taken : ∀ c, c ∈ taken ↔ g.Takeable c ∧ (g.turn c < k ∨ g.turn c = k ∧ c ∉ left)
  mem_nodes : ∀ c ∈ left, c ∈ g.nodes
  untaken : ∀ c ∈ left, c ∉ taken
  ahead : left.Pairwise fun a b => g.place a < g.place b
  passed : ∀ a ∈ taken, g.turn a = k → ∀ c ∈ left, g.place a < g.place c
  sorted : taken.Pairwise g.ComesBefore

/-- The vertex that the round `k` comes to is ready exactly when `k` is its round. -/
theorem Scan.isReady_iff {g : Graph} (h : g.Sound) {k id : Nat} {left taken : List Nat}
    (scan : g.Scan k (id :: left) taken) (hk : 1 ≤ k) :
    g.isReady taken id = true ↔ g.Takeable id ∧ g.turn id = k := by
  have huntaken : id ∉ taken := scan.untaken id List.mem_cons_self
  rw [Graph.isReady_iff]
  constructor
  · intro hready
    have hdeps : ∀ d, g.DependsOn id d → g.Takeable d := fun d hd =>
      ((scan.mem_taken d).mp (hready d hd)).1
    have hid : g.Takeable id :=
      Takeable.of_dependencies (scan.mem_nodes id List.mem_cons_self) hdeps
    have hle : g.turn id ≤ k := by
      refine (h.turn_le_iff hid).mpr ⟨hk, fun d hd => ?_⟩
      have htaken := hready d hd
      unfold roundAfter
      rcases ((scan.mem_taken d).mp htaken).2 with hlt | ⟨heq, -⟩
      · split <;> omega
      · rw [if_pos (scan.passed d htaken heq id List.mem_cons_self)]
        omega
    have hge : ¬ g.turn id < k := fun hlt => huntaken ((scan.mem_taken id).mpr ⟨hid, .inl hlt⟩)
    exact ⟨hid, by omega⟩
  · rintro ⟨hid, hturn⟩ d hd
    refine (scan.mem_taken d).mpr ⟨h.takeable_dependency hid hd, ?_⟩
    have hafter := ((h.turn_le_iff hid).mp (Nat.le_of_eq hturn)).2 d hd
    unfold roundAfter at hafter
    split at hafter
    next hplace =>
      rcases Nat.lt_or_eq_of_le hafter with hlt | heq
      · exact .inl hlt
      · refine .inr ⟨heq, fun hmem => ?_⟩
        -- what is still ahead is declared behind this vertex
        rcases List.mem_cons.mp hmem with rfl | hmem
        · exact Nat.lt_irrefl _ hplace
        · have := (List.pairwise_cons.mp scan.ahead).1 d hmem
          omega
    next => exact .inl hafter

/-- **One step of a round**, for a vertex whose round it is. -/
theorem Scan.take {g : Graph} {k id : Nat} {left taken : List Nat} (scan : g.Scan k (id :: left) taken)
    (hid : g.Takeable id) (hturn : g.turn id = k) : g.Scan k left (taken ++ [id]) := by
  have hahead := List.pairwise_cons.mp scan.ahead
  have hnot : id ∉ left := fun hmem => Nat.lt_irrefl _ (hahead.1 id hmem)
  refine ⟨fun c => ?_, fun c hc => scan.mem_nodes c (List.mem_cons_of_mem _ hc), fun c hc => ?_,
    hahead.2, ?_, ?_⟩
  · rw [List.mem_append, List.mem_singleton, scan.mem_taken c, List.mem_cons]
    by_cases heq : c = id
    · subst heq
      simp [hid, hturn, hnot]
    · simp [heq]
  · rw [List.mem_append, List.mem_singleton]
    rintro (htaken | rfl)
    · exact scan.untaken c (List.mem_cons_of_mem _ hc) htaken
    · exact hnot hc
  · intro a ha hk c hc
    rcases List.mem_append.mp ha with ha | ha
    · exact scan.passed a ha hk c (List.mem_cons_of_mem _ hc)
    · rw [List.mem_singleton.mp ha]
      exact hahead.1 c hc
  · refine List.pairwise_append.mpr ⟨scan.sorted, List.pairwise_singleton _ _, fun a ha b hb => ?_⟩
    rw [List.mem_singleton.mp hb, ComesBefore, hturn]
    rcases ((scan.mem_taken a).mp ha).2 with hlt | ⟨heq, -⟩
    · exact .inl hlt
    · exact .inr ⟨heq, scan.passed a ha heq id List.mem_cons_self⟩

/-- **One step of a round**, for a vertex whose round it is not. -/
theorem Scan.skip {g : Graph} {k id : Nat} {left taken : List Nat} (scan : g.Scan k (id :: left) taken)
    (hid : ¬ (g.Takeable id ∧ g.turn id = k)) : g.Scan k left taken := by
  refine ⟨fun c => ?_, fun c hc => scan.mem_nodes c (List.mem_cons_of_mem _ hc),
    fun c hc => scan.untaken c (List.mem_cons_of_mem _ hc), (List.pairwise_cons.mp scan.ahead).2,
    fun a ha hk c hc => scan.passed a ha hk c (List.mem_cons_of_mem _ hc), scan.sorted⟩
  rw [scan.mem_taken c, List.mem_cons]
  by_cases heq : c = id
  · subst heq
    have hround : ¬ (g.Takeable c ∧ g.turn c = k ∧ c ∉ left) := fun hc => hid ⟨hc.1, hc.2.1⟩
    simp only [true_or, not_true_eq_false, and_false, or_false]
    tauto
  · simp only [heq, false_or]

/-- A whole round, to its end. -/
theorem Scan.round {g : Graph} (h : g.Sound) {k : Nat} (hk : 1 ≤ k) {left taken : List Nat}
    (scan : g.Scan k left taken) : g.Scan k [] (g.round left taken).order := by
  induction left generalizing taken with
  | nil => exact scan
  | cons id left ih =>
    have hready := scan.isReady_iff h hk
    unfold Graph.round
    split
    next hr =>
      obtain ⟨hid, hturn⟩ := hready.mp hr
      exact ih (scan.take hid hturn)
    next hr => exact ih (scan.skip fun hid => hr (hready.mpr hid))

/-! ## All rounds -/

theorem place_pairwise {g : Graph} (h : g.Sound) : g.nodes.Pairwise fun a b => g.place a < g.place b := by
  rw [List.pairwise_iff_getElem]
  intro i j hi hj hij
  unfold place
  rwa [h.nodup.idxOf_getElem i hi, h.nodup.idxOf_getElem j hj]

theorem Scan.start {g : Graph} (h : g.Sound) : g.Scan 1 g.nodes [] where
  mem_taken c := by
    have := g.one_le_turn c
    simp only [List.not_mem_nil, false_iff]
    rintro ⟨hc, hlt | ⟨-, hnot⟩⟩
    · omega
    · exact hnot hc.1
  mem_nodes _ hc := hc
  untaken _ _ := List.not_mem_nil
  ahead := place_pairwise h
  passed _ ha := absurd ha List.not_mem_nil
  sorted := List.Pairwise.nil

/-- After one round the next begins, with what it has left. -/
theorem Scan.next {g : Graph} (h : g.Sound) {k : Nat} {o : Ordered} (hp : g.Progress o)
    (scan : g.Scan k [] o.order) : g.Scan (k + 1) o.cyclic o.order := by
  have hnodup : (o.order ++ o.cyclic).Nodup := hp.perm.nodup_iff.mpr h.nodup
  have huntaken : ∀ c ∈ o.cyclic, c ∉ o.order := fun c hc ho =>
    (List.nodup_append.mp hnodup).2.2 c ho c hc rfl
  have hmem : ∀ c, c ∈ o.order ↔ g.Takeable c ∧ g.turn c ≤ k := fun c => by
    rw [scan.mem_taken c, Nat.le_iff_lt_or_eq]
    simp
  refine ⟨fun c => ?_, fun c hc => hp.sublist.subset hc, huntaken, (place_pairwise h).sublist hp.sublist,
    fun a ha heq => ?_, scan.sorted⟩
  · rw [hmem]
    constructor
    · exact fun ⟨hc, hle⟩ => ⟨hc, .inl (by omega)⟩
    · rintro ⟨hc, hlt | ⟨heq, hnot⟩⟩
      · exact ⟨hc, by omega⟩
      · -- what is not left has been taken, so its round is over
        have : c ∈ o.order ++ o.cyclic := hp.perm.mem_iff.mpr hc.1
        have := ((hmem c).mp ((List.mem_append.mp this).resolve_right hnot)).2
        omega
  · have := ((hmem a).mp ha).2
    omega

theorem Scan.rounds {g : Graph} (h : g.Sound) {n k : Nat} (hk : 1 ≤ k) {o : Ordered} (hp : g.Progress o)
    (scan : g.Scan k o.cyclic o.order) : (g.rounds n o).order.Pairwise g.ComesBefore := by
  induction n generalizing k o with
  | zero => exact scan.sorted
  | succ n ih =>
    have hdone := scan.round h hk
    rw [rounds_succ]
    split
    · exact hdone.sorted
    · exact ih (Nat.le_add_left 1 k) hp.round (hdone.next h hp.round)

theorem Sound.ordered_pairwise {g : Graph} (h : g.Sound) : g.ordered.order.Pairwise g.ComesBefore :=
  (Scan.start h).rounds h (Nat.le_refl 1) (Progress.start g)

/-- **Stability of the order**, for a graph that was built in any way. A vertex that reaches no cycle
has a round: the latest that its dependencies ask for, and 1 if none does. The order holds exactly these
vertices, the earlier round first and within a round the one that is declared first. -/
theorem ordered_stable (steps : List GraphStep) :
    let g := build steps
    (∀ id, id ∈ g.nodes → ¬ g.ReachesCycle id →
      g.turn id = ((g.dependencies id).map fun d =>
        if g.nodes.idxOf d < g.nodes.idxOf id then g.turn d else g.turn d + 1).foldr max 1) ∧
      (∀ id, id ∈ g.ordered.order ↔ id ∈ g.nodes ∧ ¬ g.ReachesCycle id) ∧
      g.ordered.order.Pairwise fun a b =>
        g.turn a < g.turn b ∨ g.turn a = g.turn b ∧ g.nodes.idxOf a < g.nodes.idxOf b := by
  intro g
  have h : g.Sound := build_sound steps
  exact ⟨fun id hid hcycle => h.turn_eq ⟨hid, hcycle⟩, fun id => h.takeable_iff.symm, h.ordered_pairwise⟩

/-- Two vertices with the same dependency, which stands between them: the second one comes first. -/
example : (build [.node 1, .node 2, .node 3, .edge 2 1, .edge 2 3]).ordered.order = [2, 3, 1] := by decide

end Graph

end Cellbook
