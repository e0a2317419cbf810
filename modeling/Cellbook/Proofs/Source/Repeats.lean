import Cellbook.Source.Node.Parse

/-!
# Reading again

Where an expression has been read, it is read again in the same way: with the source ending elsewhere, with more
tokens behind those that were taken, and with any number of steps from four for each token on
(`expression_repeats`). Of what stands behind, a reader looks at the next token only. If it has taken all tokens,
the next one is new, and then it must be one that ends an item.

The six readers call each other with one step less. What is shown of all of them for a number of steps follows from
what is known for one step less, reader by reader; the rules for it are those of a postcondition that relates two
runs (`Again`).
-/

namespace Cellbook

namespace Node

variable {α β : Type} {X : List Token}

/-! ## Two runs -/

/-- Tokens that may stand behind those that a reader has left, as far as it has left any: none, or one that ends an
item. -/
def Behind (X : List Token) (power : Nat) (left : List Token) : Prop :=
  left = [] → X = [] ∨ (10 ≤ power ∧ nextName X ∈ [")", "]", ","])

/-- **A second run gives what a first one gave.** The first run of a reader begins with the tokens `ts` and takes at
least `low` of them; the second run has `X` behind them and steps for the tokens taken as the budget says. -/
def Again (X : List Token) (power low budget : Nat) (ts : List Token) (x x' : Except Stop (α × List Token)) : Prop :=
  ∀ a left, x = .ok (a, left) → left.length + low ≤ ts.length ∧
    (4 * ts.length < 4 * left.length + budget → Behind X power left → x' = .ok (a, left ++ X))

namespace Again

variable {power low budget : Nat} {ts : List Token} {x x' : Except Stop (α × List Token)}

theorem throw {e : Stop} : Again X power low budget ts (throw e : Except Stop (α × List Token)) x' :=
  fun _ _ h => nomatch h

theorem pure {a : α} : Again X power 0 budget ts (pure (a, ts)) (Pure.pure (a, ts ++ X)) := by
  rintro _ _ ⟨rfl⟩
  exact ⟨Nat.le_refl _, fun _ _ => rfl⟩

theorem mono {power' low' budget' : Nat} (h : Again X power low budget ts x x') (hpower : 10 ≤ power' → 10 ≤ power)
    (hlow : low' ≤ low) (hbudget : budget' ≤ budget) : Again X power' low' budget' ts x x' := by
  intro a left hx
  obtain ⟨hlength, hagain⟩ := h a left hx
  refine ⟨by omega, fun hsteps hbehind => hagain (by omega) fun hnil => ?_⟩
  exact (hbehind hnil).imp_right fun ⟨hpower', hX⟩ => ⟨hpower hpower', hX⟩

/-- A token in front is taken. -/
theorem cons {t : Token} {low' budget' : Nat} (h : Again X power low budget ts x x') (hlow : low' ≤ low + 1)
    (hbudget : budget' ≤ budget + 4) : Again X power low' budget' (t :: ts) x x' := by
  intro a left hx
  obtain ⟨hlength, hagain⟩ := h a left hx
  rw [List.length_cons]
  exact ⟨by omega, fun hsteps => hagain (by omega)⟩

/-- **One reader after another.** The first may stop where nothing is left only if what may stand there ends it. -/
theorem bind {f f' : α × List Token → Except Stop (β × List Token)} {power' low₁ low₂ budget₁ budget₂ : Nat}
    (hx : Again X power' low₁ budget₁ ts x x')
    (hf : ∀ a left, Again X power low₂ budget₂ left (f (a, left)) (f' (a, left ++ X)))
    (hbudget₁ : budget ≤ budget₁ + 4 * low₂) (hbudget₂ : budget ≤ budget₂ + 4 * low₁) (hlow : low ≤ low₁ + low₂)
    (hend : 10 ≤ power' ∨ 0 < low₂) : Again X power low budget ts (x >>= f) (x' >>= f') := by
  intro b left' h
  cases x with
  | error e => cases h
  | ok r =>
    obtain ⟨a, left⟩ := r
    obtain ⟨hlength₁, hagain₁⟩ := hx a left rfl
    obtain ⟨hlength₂, hagain₂⟩ := hf a left b left' h
    refine ⟨by omega, fun hsteps hbehind => ?_⟩
    have hbehind₁ : Behind X power' left := by
      rintro rfl
      rw [List.length_nil] at hlength₂
      have hnil : left' = [] := List.length_eq_zero_iff.mp (by omega)
      exact (hbehind hnil).imp_right fun ⟨_, hX⟩ => ⟨by omega, hX⟩
    rw [hagain₁ (by omega) hbehind₁]
    exact hagain₂ (by omega) hbehind

/-- It is enough to look at second runs with a step to take, if without one the budget is too small for any. -/
theorem steps (low slack : Nat) {y : Nat → Except Stop (α × List Token)}
    (h : ∀ steps, Again X power low (steps + 1 + slack) ts x (y (steps + 1))) (hslack : slack ≤ 4 * low) (steps : Nat) :
    Again X power low (steps + slack) ts x (y steps) := by
  cases steps with
  | succ steps => exact h steps
  | zero =>
    intro a left hx
    have hlength := (h 0 a left hx).1
    exact ⟨hlength, fun hsteps => by omega⟩

end Again

theorem expect_again {stop stop' power budget : Nat} {name : String} {ts : List Token} :
    Again X power 1 budget ts (expect stop name ts) (expect stop' name (ts ++ X)) := by
  intro t left h
  unfold expect at h
  split at h
  · cases h
  next t' rest =>
  split at h
  next hname =>
    cases h
    exact ⟨Nat.le_refl _, fun _ _ => if_pos hname⟩
  next => cases h

/-- A mark, and what is made of it. -/
theorem expect_bind {stop stop' budget : Nat} {name : String} {ts : List Token}
    {f f' : Token × List Token → Except Stop (β × List Token)}
    (hf : ∀ t left, Again X 10 0 budget left (f (t, left)) (f' (t, left ++ X))) :
    Again X 10 1 budget ts (expect stop name ts >>= f) (expect stop' name (ts ++ X) >>= f') :=
  Again.bind (expect_again : Again X 10 1 budget ts _ _) hf (Nat.le_refl _) (Nat.le_add_right _ _) (Nat.le_refl _)
    (.inl (Nat.le_refl _))

/-! ## The six readers -/

variable {stop stop' : Nat}

/-- **The readers repeat** what they do with so many steps. -/
structure Repeats (X : List Token) (stop stop' steps : Nat) : Prop where
  expression : ∀ power ts steps', Again X power 1 (steps' + 3) ts (expression .standard stop steps power ts)
    (expression .standard stop' steps' power (ts ++ X))
  follow : ∀ power left ts steps', Again X power 0 steps' ts (follow .standard stop steps power left ts)
    (follow .standard stop' steps' power left (ts ++ X))
  lead : ∀ leading t ts steps', Again X 10 0 steps' ts (lead .standard stop steps leading t ts)
    (lead .standard stop' steps' leading t (ts ++ X))
  join : ∀ trailing power t left ts steps', 10 ≤ power → (trailing = .binaryRight → 11 ≤ power) →
    Again X 10 0 steps' ts (join .standard stop steps trailing power t left ts)
      (join .standard stop' steps' trailing power t left (ts ++ X))
  itemList : ∀ close ts steps', Again X 10 1 (steps' + 1) ts (itemList .standard stop steps close ts)
    (itemList .standard stop' steps' close (ts ++ X))
  moreItems : ∀ close ts steps', Again X 10 1 (steps' + 2) ts (moreItems .standard stop steps close ts)
    (moreItems .standard stop' steps' close (ts ++ X))

namespace Repeats

theorem zero : Repeats X stop stop' 0 where
  expression _ _ _ := .throw
  follow _ _ _ _ := .throw
  lead _ _ _ _ := .throw
  join _ _ _ _ _ _ _ _ := .throw
  itemList _ _ _ := .throw
  moreItems _ _ _ := .throw

variable {steps : Nat}

/-- The next name is that of the next token, and so is the next keyword. -/
theorem nextName_append (t : Token) (rest : List Token) : nextName (t :: rest ++ X) = nextName (t :: rest) := rfl

theorem nextKeyword?_append {g : Grammar} (t : Token) (rest : List Token) :
    nextKeyword? g (t :: rest ++ X) = nextKeyword? g (t :: rest) := rfl

theorem expression_succ (h : Repeats X stop stop' steps) (power : Nat) (ts : List Token) (steps' : Nat) :
    Again X power 1 (steps' + 3) ts (Node.expression .standard stop (steps + 1) power ts)
      (Node.expression .standard stop' steps' power (ts ++ X)) := by
  revert steps'
  refine Again.steps 1 3 (fun steps' => ?_) (by decide)
  unfold Node.expression
  rcases ts with - | ⟨t, rest⟩
  · exact .throw
  rw [nextKeyword?_append, List.cons_append]
  cases (nextKeyword? .standard (t :: rest)).bind (·.leading) with
  | none => exact .throw
  | some leading =>
    refine Again.cons (?_ : Again X power 0 steps' rest _ _) (Nat.le_refl _) (Nat.le_refl _)
    exact (h.lead leading t rest steps').bind (fun left rest => h.follow power left rest steps')
      (Nat.le_refl _) (Nat.le_refl _) (Nat.zero_le _) (.inl (Nat.le_refl _))

/-- Nothing that may stand behind what was read binds it. -/
theorem nextPower_le_of_behind {power : Nat} (h : Behind X power []) : nextPower .standard X ≤ power := by
  rcases h rfl with rfl | ⟨hpower, hX⟩
  · exact Nat.zero_le _
  · have hall : [")", "]", ","].all fun name => ((Grammar.standard.get? name).map (·.power)).getD 0 ≤ 10 := by
      decide +kernel
    exact Nat.le_trans (of_decide_eq_true (List.all_eq_true.mp hall _ hX)) hpower

/-- What may stand behind an expression binds at least as tightly as an item is bound. -/
theorem power_of_trailing {ts : List Token} {trailing : Trailing}
    (h : (nextKeyword? .standard ts).bind (·.trailing) = some trailing) :
    10 ≤ nextPower .standard ts ∧ (trailing = .binaryRight → 11 ≤ nextPower .standard ts) := by
  have hall : Grammar.standard.keywords.all fun k => k.trailing.all fun trailing =>
      decide (10 ≤ k.power ∧ (trailing = .binaryRight → 11 ≤ k.power)) := by decide +kernel
  obtain ⟨k, hk, htrailing⟩ := Option.bind_eq_some_iff.mp h
  have hpower : nextPower .standard ts = k.power := by rw [nextPower, hk]; rfl
  have hmem : k ∈ Grammar.standard.keywords := by
    rw [nextKeyword?, Grammar.get?] at hk
    exact List.mem_of_find?_eq_some hk
  have hbound := List.all_eq_true.mp hall k hmem
  rw [htrailing, Option.all_some, decide_eq_true_eq] at hbound
  rwa [hpower]

theorem follow_succ (h : Repeats X stop stop' steps) (power : Nat) (left : Node) (ts : List Token) (steps' : Nat) :
    Again X power 0 steps' ts (Node.follow .standard stop (steps + 1) power left ts)
      (Node.follow .standard stop' steps' power left (ts ++ X)) := by
  revert steps'
  refine Again.steps 0 0 (fun steps' => ?_) (by decide)
  rcases ts with - | ⟨t, rest⟩
  · -- the tokens are at their end, and the first of those behind them ends the expression
    have hstops : Node.follow .standard stop (steps + 1) power left [] = .ok (left, []) := by
      unfold Node.follow
      split <;> rfl
    rw [hstops]
    rintro _ _ ⟨rfl⟩
    refine ⟨Nat.le_refl _, fun _ hbehind => ?_⟩
    unfold Node.follow
    exact if_pos (nextPower_le_of_behind hbehind)
  unfold Node.follow
  have hpower : nextPower .standard (t :: rest ++ X) = nextPower .standard (t :: rest) := rfl
  rw [hpower, nextKeyword?_append, List.cons_append]
  split
  · exact Again.pure
  dsimp only
  cases htrailing : (nextKeyword? .standard (t :: rest)).bind (·.trailing) with
  | none => exact .throw
  | some trailing =>
    obtain ⟨hten, heleven⟩ := power_of_trailing htrailing
    refine Again.cons (?_ : Again X power 0 steps' rest _ _) (Nat.zero_le _) (by omega)
    exact (h.join trailing (nextPower .standard (t :: rest)) t left rest steps' hten heleven).bind
      (fun left rest => h.follow power left rest steps') (Nat.le_refl _) (Nat.le_refl _) (Nat.zero_le _)
      (.inl (Nat.le_refl _))

/-- An open range ends in front of what may stand behind an item. -/
theorem rangeEndsHere_of_behind {power : Nat} (h : Behind X power []) : rangeEndsHere X = true := by
  rcases h rfl with rfl | ⟨-, hX⟩
  · rfl
  · have hmem : ["]", ",", ")", Grammar.newlineName, Grammar.dedentName].contains (nextName X) := by
      simp only [List.mem_cons, List.not_mem_nil, or_false] at hX
      rcases hX with hX | hX | hX <;> rw [hX] <;> decide
    rw [rangeEndsHere, hmem, Bool.or_true]

theorem range_again {budget : Nat} {node : Node} {ts : List Token} {x x' : Except Stop (Node × List Token)}
    (h : Again X 10 0 budget ts x x') :
    Again X 10 0 budget ts (if rangeEndsHere ts then pure (node, ts) else x)
      (if rangeEndsHere (ts ++ X) then pure (node, ts ++ X) else x') := by
  rcases ts with - | ⟨t, rest⟩
  · rintro _ _ ⟨rfl⟩
    exact ⟨Nat.le_refl _, fun _ hbehind => if_pos (rangeEndsHere_of_behind hbehind)⟩
  · have hends : rangeEndsHere (t :: rest ++ X) = rangeEndsHere (t :: rest) := rfl
    rw [hends]
    split
    · exact .pure
    · exact h

/-- An operand, and what is made of it. -/
theorem operand (h : Repeats X stop stop' steps) {power : Nat} (hpower : 10 ≤ power) (ts : List Token) (steps' : Nat)
    {f f' : Node × List Token → Except Stop (Node × List Token)}
    (hf : ∀ n left, Again X 10 0 (steps' + 7) left (f (n, left)) (f' (n, left ++ X))) :
    Again X 10 0 (steps' + 1) ts (Node.expression .standard stop steps power ts >>= f)
      (Node.expression .standard stop' steps' power (ts ++ X) >>= f') :=
  (h.expression power ts steps').bind hf (by omega) (by omega) (Nat.zero_le _) (.inl hpower)

/-- Something in brackets, and what is made of it. -/
theorem enclosed (h : Repeats X stop stop' steps) (power : Nat) (ts : List Token) (steps' : Nat)
    {f f' : Node × List Token → Except Stop (Node × List Token)}
    (hf : ∀ n left, Again X 10 1 (steps' + 1) left (f (n, left)) (f' (n, left ++ X))) :
    Again X 10 0 (steps' + 1) ts (Node.expression .standard stop steps power ts >>= f)
      (Node.expression .standard stop' steps' power (ts ++ X) >>= f') :=
  (h.expression power ts steps').bind hf (by omega) (by omega) (Nat.zero_le _) (.inr Nat.one_pos)

/-- Items in brackets, and what is made of them. -/
theorem listed (h : Repeats X stop stop' steps) (close : String) (ts : List Token) (steps' : Nat)
    {f f' : (List Node × Span) × List Token → Except Stop (Node × List Token)}
    (hf : ∀ nodes span left, Again X 10 0 (steps' + 1) left (f ((nodes, span), left)) (f' ((nodes, span), left ++ X))) :
    Again X 10 0 (steps' + 1) ts (Node.itemList .standard stop steps close ts >>= f)
      (Node.itemList .standard stop' steps' close (ts ++ X) >>= f') :=
  (h.itemList close ts steps').bind (fun (nodes, span) => hf nodes span) (Nat.le_refl _) (Nat.le_add_right _ _)
    (Nat.zero_le _) (.inl (Nat.le_refl _))

theorem expression_nil (g : Grammar) (stop steps power : Nat) :
    ∃ e, Node.expression g stop steps power [] = .error e := by
  cases steps with
  | zero => exact ⟨_, rfl⟩
  | succ steps =>
    unfold Node.expression
    cases (nextKeyword? g []).bind (·.leading) <;> exact ⟨_, rfl⟩

theorem lead_succ (h : Repeats X stop stop' steps) (leading : Leading) (t : Token) (ts : List Token) (steps' : Nat) :
    Again X 10 0 steps' ts (Node.lead .standard stop (steps + 1) leading t ts)
      (Node.lead .standard stop' steps' leading t (ts ++ X)) := by
  revert steps'
  refine Again.steps 0 0 (fun steps' => ?_) (by decide)
  unfold Node.lead
  cases leading with
  | literal =>
    dsimp only
    cases t.kind with
    | literal v => exact .pure
    | _ => exact .throw
  | identifier => exact .pure
  | unary => exact h.operand (by decide) ts steps' fun n left => .pure
  | plus => exact (h.expression unaryPower ts steps').mono (fun _ => by decide) (Nat.zero_le _) (by omega)
  | group => exact h.listed ")" ts steps' fun _ _ _ => .pure
  | array => exact h.listed "]" ts steps' fun _ _ _ => .pure
  | brace =>
    rcases ts with - | ⟨t', rest⟩
    · obtain ⟨e, he⟩ := expression_nil .standard stop steps 0
      dsimp only
      rw [if_neg (by decide), he]
      exact .throw
    · dsimp only
      rw [nextName_append]
      split
      · refine Again.mono (?_ : Again X 10 1 (steps' + 1) _ _ _) id (Nat.zero_le _) (Nat.le_refl _)
        exact expect_bind fun _ _ => .pure
      · exact h.enclosed 0 (t' :: rest) steps' fun _ _ => expect_bind fun _ _ => .pure
  | block => exact h.enclosed 0 ts steps' fun _ _ => expect_bind fun _ _ => .pure
  | ifHeader => exact h.operand (by decide) ts steps' fun n left => .pure
  | elseHeader =>
    rcases ts with - | ⟨t', rest⟩
    · rintro _ _ ⟨rfl⟩
      refine ⟨Nat.le_refl _, fun _ hbehind => if_neg ?_⟩
      rcases hbehind rfl with rfl | ⟨-, hX⟩
      · decide
      · rintro hif
        rw [List.nil_append] at hif
        rw [hif] at hX
        revert hX
        decide
    · dsimp only
      rw [nextName_append]
      split
      · refine Again.cons (?_ : Again X 10 0 (steps' + 1) rest _ _) (Nat.zero_le _) (Nat.le_add_right _ _)
        exact h.operand (by decide) rest steps' fun n left => .pure
      · exact .pure
  | range => exact range_again (h.operand (by decide) ts steps' fun n left => .pure)

theorem join_succ (h : Repeats X stop stop' steps) (trailing : Trailing) (power : Nat) (t : Token) (left : Node)
    (ts : List Token) (steps' : Nat) (hpower : 10 ≤ power) (hright : trailing = .binaryRight → 11 ≤ power) :
    Again X 10 0 steps' ts (Node.join .standard stop (steps + 1) trailing power t left ts)
      (Node.join .standard stop' steps' trailing power t left (ts ++ X)) := by
  revert steps'
  refine Again.steps 0 0 (fun steps' => ?_) (by decide)
  unfold Node.join
  cases trailing with
  | binary => exact h.operand hpower ts steps' fun n left => .pure
  | binaryRight => exact h.operand (Nat.le_sub_one_of_lt (hright rfl)) ts steps' fun n left => .pure
  | notIn =>
    refine Again.mono (?_ : Again X 10 1 (steps' + 1) _ _ _) id (Nat.zero_le _) (Nat.le_refl _)
    exact expect_bind fun _ left => h.operand hpower left steps' fun n left => .pure
  | call => exact h.listed ")" ts steps' fun _ _ _ => .pure
  | index => exact h.enclosed itemPower ts steps' fun _ _ => expect_bind fun _ _ => .pure
  | member =>
    rcases ts with - | ⟨name, rest⟩
    · exact .throw
    · dsimp only [List.cons_append]
      split
      · exact Again.cons .pure (Nat.zero_le _) (Nat.le_add_right _ _)
      · exact .throw
  | entry => exact h.operand (by decide) ts steps' fun n left => .pure
  | continuation =>
    refine h.operand hpower ts steps' fun n left => ?_
    dsimp only
    split
    · exact .pure
    · exact .throw
  | guard =>
    dsimp only
    split
    · exact h.operand hpower ts steps' fun n left => .pure
    · exact .throw
  | range => exact range_again (h.operand hpower ts steps' fun n left => .pure)

theorem moreItems_succ (h : Repeats X stop stop' steps) (close : String) (ts : List Token) (steps' : Nat) :
    Again X 10 1 (steps' + 2) ts (Node.moreItems .standard stop (steps + 1) close ts)
      (Node.moreItems .standard stop' steps' close (ts ++ X)) := by
  revert steps'
  refine Again.steps 1 2 (fun steps' => ?_) (by decide)
  unfold Node.moreItems
  refine (h.expression itemPower ts steps').bind (fun n left => (?_ : Again X 10 1 (steps' + 1) left _ _)) (by omega)
    (by omega) (Nat.le_add_left _ _) (.inr Nat.one_pos)
  rcases left with - | ⟨t, rest⟩
  · exact .throw
  · dsimp only
    rw [nextName_append]
    split
    · refine Again.cons (?_ : Again X 10 1 (steps' + 2) rest _ _) (Nat.le_succ _) (by omega)
      exact (h.moreItems close rest steps').bind (fun (nodes, span) left => .pure) (Nat.le_refl _)
        (Nat.le_add_right _ _) (Nat.le_refl _) (.inl (Nat.le_refl _))
    · exact expect_bind fun _ _ => .pure

theorem itemList_succ (h : Repeats X stop stop' steps) (close : String) (ts : List Token) (steps' : Nat) :
    Again X 10 1 (steps' + 1) ts (Node.itemList .standard stop (steps + 1) close ts)
      (Node.itemList .standard stop' steps' close (ts ++ X)) := by
  revert steps'
  refine Again.steps 1 1 (fun steps' => ?_) (by decide)
  unfold Node.itemList
  rcases ts with - | ⟨t, rest⟩
  · -- without tokens there is no closing mark and no item
    intro a left hx
    split at hx
    · cases hx
    · exact absurd (h.moreItems close [] 0 a left hx).1 (Nat.not_succ_le_zero _)
  · rw [nextName_append]
    split
    · exact expect_bind fun _ _ => .pure
    · exact h.moreItems close (t :: rest) steps'

end Repeats

/-- **The readers repeat** what they do with any number of steps. -/
theorem repeats (X : List Token) (stop stop' steps : Nat) : Repeats X stop stop' steps := by
  induction steps with
  | zero => exact .zero
  | succ steps ih =>
    exact ⟨ih.expression_succ, ih.follow_succ, ih.lead_succ,
      fun trailing power t left ts steps' => ih.join_succ trailing power t left ts steps', ih.itemList_succ,
      ih.moreItems_succ⟩

/-- **An expression is read again** as it was read, with any number of steps from four for each token on. -/
theorem expression_repeats {stop steps power : Nat} {ts left : List Token} {n : Node}
    (h : expression .standard stop steps power ts = .ok (n, left)) (stop' : Nat) {steps' : Nat}
    (hsteps : 4 * ts.length ≤ steps') (hbehind : Behind X power left) :
    expression .standard stop' steps' power (ts ++ X) = .ok (n, left ++ X) :=
  ((repeats X stop stop' steps).expression power ts steps' n left h).2 (by omega) hbehind

end Node

end Cellbook
