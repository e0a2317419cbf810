/-!
# Ascending lists

Finite sets of numbers, written as ascending lists without repetitions, so that equal sets are equal
lists.
-/

namespace Cellbook

/-- Adds a number to an ascending list, unless it is there. -/
def insertAscending (n : Nat) : List Nat → List Nat
  | [] => [n]
  | m :: rest =>
    if n < m then n :: m :: rest
    else if n = m then m :: rest
    else m :: insertAscending n rest

/-- The numbers of a list, ascending and without repetitions. -/
def ascending (ns : List Nat) : List Nat := ns.foldr insertAscending []

theorem mem_insertAscending {a n : Nat} {ns : List Nat} :
    a ∈ insertAscending n ns ↔ a = n ∨ a ∈ ns := by
  induction ns with
  | nil => simp [insertAscending]
  | cons m rest ih =>
    simp only [insertAscending]
    split
    · simp
    · split
      · next h => subst h; simp
      · simp only [List.mem_cons, ih]
        grind

theorem insertAscending_pairwise {n : Nat} {ns : List Nat} (h : ns.Pairwise (· < ·)) :
    (insertAscending n ns).Pairwise (· < ·) := by
  induction ns with
  | nil => exact List.pairwise_singleton _ _
  | cons m rest ih =>
    obtain ⟨hm, hrest⟩ := List.pairwise_cons.mp h
    unfold insertAscending
    split
    next hlt => exact .cons (fun a ha => (List.mem_cons.mp ha).elim (· ▸ hlt) fun ha => Nat.lt_trans hlt (hm a ha)) h
    next hle =>
      split
      · exact h
      next hne =>
        refine .cons (fun a ha => ?_) (ih hrest)
        rcases mem_insertAscending.mp ha with rfl | ha
        · omega
        · exact hm a ha

theorem mem_ascending {a : Nat} {ns : List Nat} : a ∈ ascending ns ↔ a ∈ ns := by
  induction ns with
  | nil => simp [ascending]
  | cons n rest ih =>
    have h : ascending (n :: rest) = insertAscending n (ascending rest) := rfl
    simp [h, mem_insertAscending, ih]

theorem ascending_pairwise {ns : List Nat} : (ascending ns).Pairwise (· < ·) := by
  induction ns with
  | nil => exact .nil
  | cons n rest ih => exact insertAscending_pairwise ih

end Cellbook
