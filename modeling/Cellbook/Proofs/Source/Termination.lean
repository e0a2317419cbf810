import Cellbook.Proofs.Results
import Cellbook.Source.Node.Parse

/-!
# Reading a tree ends

A tree is read in the steps that `Node.enoughSteps` counts, and any number beyond them changes nothing
(`Node.parse_terminates`), so the number of steps is no part of what is read. This holds under every grammar: a
keyword may bind as tightly as it likes and do anything in front of an expression or behind one, also where it is the
end of the source or a line break.

**The measure** is the number of tokens ahead. Every reader leaves a part of them at the end (`Node.Leaves`), and an
expression takes one of them at least. The grammar has no say in that: an expression, and whatever is joined to one,
begins with a token that is taken, or is not read. Of four calls inside each other one is a call for an expression
(`Node.expression_leaves`), so the steps that are needed go down with the tokens.
-/

namespace Cellbook

namespace Node

variable {α β : Type}

/-! ## More steps change nothing -/

/-- **A reading and the same reading with more steps**: the result stays, unless the steps had run out. -/
def Settles (x y : Except Stop α) : Prop := x ≠ .error .exhausted → y = x

namespace Settles

variable {x y z : Except Stop α}

theorem refl (x : Except Stop α) : Settles x x := fun _ => rfl

theorem exhausted (y : Except Stop α) : Settles (throw .exhausted) y := fun h => absurd rfl h

theorem trans (h : Settles x y) (h' : Settles y z) : Settles x z := by
  intro hx
  have hy := h hx
  exact (h' (hy ▸ hx)).trans hy

theorem bind {k k' : α → Except Stop β} (h : Settles x y) (hk : ∀ a, Settles (k a) (k' a)) :
    Settles (x >>= k) (y >>= k') := by
  cases x with
  | error e =>
    intro he
    rw [h fun hx => he (hx ▸ rfl)]
    rfl
  | ok a =>
    rw [h nofun]
    exact hk a

/-- What stays with one step more stays with any number of them. -/
theorem of_le {read : Nat → Except Stop α} (h : ∀ n, Settles (read n) (read (n + 1))) {m n : Nat} (hle : m ≤ n) :
    Settles (read m) (read n) := by
  induction hle with
  | refl => exact .refl _
  | step _ ih => exact ih.trans (h _)

end Settles

section

variable (g : Grammar) (stop : Nat)

-- every reader hands on the steps that it has but one, so each stays if those that it calls do
mutual

theorem expression_settles : (steps power : Nat) → (ts : List Token) →
    Settles (expression g stop steps power ts) (expression g stop (steps + 1) power ts)
  | 0, _, _ => .exhausted _
  | steps + 1, power, ts => by
    unfold expression
    split
    · exact (lead_settles steps _ _ _).bind fun r => follow_settles steps power r.1 r.2
    · exact .refl _

theorem follow_settles : (steps power : Nat) → (left : Node) → (ts : List Token) →
    Settles (follow g stop steps power left ts) (follow g stop (steps + 1) power left ts)
  | 0, _, _, _ => .exhausted _
  | steps + 1, power, left, ts => by
    unfold follow
    split
    · exact .refl _
    · cases ts with
      | nil => exact .refl _
      | cons t rest =>
        dsimp only
        split
        · exact .refl _
        · exact (join_settles steps _ _ t left rest).bind fun r => follow_settles steps power r.1 r.2

theorem lead_settles : (steps : Nat) → (leading : Leading) → (t : Token) → (ts : List Token) →
    Settles (lead g stop steps leading t ts) (lead g stop (steps + 1) leading t ts)
  | 0, _, _, _ => .exhausted _
  | steps + 1, leading, t, ts => by
    unfold lead
    cases leading with
    | literal => exact .refl _
    | identifier => exact .refl _
    | unary => exact (expression_settles steps _ ts).bind fun _ => .refl _
    | plus => exact expression_settles steps _ ts
    | group => exact (itemList_settles steps _ ts).bind fun _ => .refl _
    | array => exact (itemList_settles steps _ ts).bind fun _ => .refl _
    | brace =>
      dsimp only
      split
      · exact .refl _
      · exact (expression_settles steps _ ts).bind fun _ => .refl _
    | block => exact (expression_settles steps _ ts).bind fun _ => .refl _
    | ifHeader => exact (expression_settles steps _ ts).bind fun _ => .refl _
    | elseHeader =>
      dsimp only
      split
      · exact (expression_settles steps _ _).bind fun _ => .refl _
      · exact .refl _
    | range =>
      dsimp only
      split
      · exact .refl _
      · exact (expression_settles steps _ ts).bind fun _ => .refl _

theorem join_settles : (steps : Nat) → (trailing : Trailing) → (power : Nat) → (t : Token) → (left : Node) →
    (ts : List Token) →
    Settles (join g stop steps trailing power t left ts) (join g stop (steps + 1) trailing power t left ts)
  | 0, _, _, _, _, _ => .exhausted _
  | steps + 1, trailing, power, t, left, ts => by
    unfold join
    cases trailing with
    | binary => exact (expression_settles steps _ ts).bind fun _ => .refl _
    | binaryRight => exact (expression_settles steps _ ts).bind fun _ => .refl _
    | notIn => exact (Settles.refl _).bind fun r => (expression_settles steps _ r.2).bind fun _ => .refl _
    | call => exact (itemList_settles steps _ ts).bind fun _ => .refl _
    | index => exact (expression_settles steps _ ts).bind fun _ => .refl _
    | member => exact .refl _
    | entry => exact (expression_settles steps _ ts).bind fun _ => .refl _
    | continuation => exact (expression_settles steps _ ts).bind fun _ => .refl _
    | guard =>
      dsimp only
      split
      · exact (expression_settles steps _ ts).bind fun _ => .refl _
      · exact .refl _
    | range =>
      dsimp only
      split
      · exact .refl _
      · exact (expression_settles steps _ ts).bind fun _ => .refl _

theorem itemList_settles : (steps : Nat) → (close : String) → (ts : List Token) →
    Settles (itemList g stop steps close ts) (itemList g stop (steps + 1) close ts)
  | 0, _, _ => .exhausted _
  | steps + 1, close, ts => by
    unfold itemList
    split
    · exact .refl _
    · exact moreItems_settles steps close ts

theorem moreItems_settles : (steps : Nat) → (close : String) → (ts : List Token) →
    Settles (moreItems g stop steps close ts) (moreItems g stop (steps + 1) close ts)
  | 0, _, _ => .exhausted _
  | steps + 1, close, ts => by
    unfold moreItems
    refine (expression_settles steps _ ts).bind fun r => ?_
    dsimp only
    split
    · exact (moreItems_settles steps close _).bind fun _ => .refl _
    · exact .refl _

end

end

/-! ## Tokens are taken -/

/-- **The tokens that are left** of those ahead when one of them at least is taken: the last ones. -/
structure ProperTail (ts rest : List Token) : Prop where
  suffix : rest <:+ ts
  length_lt : rest.length < ts.length

/-- **A reader ends**, with a result of which `P` holds or with a fault: it has the steps that it needs. -/
abbrev Finishes (P : α → Prop) (x : Except Stop α) : Prop := EndsIn (· ≠ .exhausted) P x

/-- **A reader ends** and leaves tokens of which `P` holds, if it does not end with a fault. -/
abbrev Leaves (P : List Token → Prop) (x : Except Stop (α × List Token)) : Prop := Finishes (fun r => P r.2) x

section

variable {P : α → Prop} {ts us rest : List Token} {stop : Nat}

theorem ProperTail.cons {t : Token} (h : rest <:+ ts) : ProperTail (t :: ts) rest :=
  ⟨h.trans (List.suffix_cons t ts), Nat.lt_succ_of_le h.length_le⟩

theorem Finishes.fault {f : SourceFault} : Finishes P (throw (.fault f)) := .error nofun

theorem Finishes.unexpected : Finishes P (throw (unexpected stop ts)) := by
  cases ts <;> exact Finishes.fault

theorem expect_leaves {name : String} (h : ts <:+ us) : Leaves (· <:+ us) (expect stop name ts) := by
  unfold expect
  cases ts with
  | nil => exact Finishes.fault
  | cons t ts =>
    dsimp only
    split
    · exact .ok ((List.suffix_cons t ts).trans h)
    · exact Finishes.fault

end

section

variable (g : Grammar) (stop : Nat)

-- An expression with `n` tokens ahead calls for what leads it with `n - 1` of them, that for a list, that for the items
-- in it, and those for an expression again. So the four need 1, 4, 3 and 2 steps more than `4 * n`.
mutual

theorem expression_leaves : (steps power : Nat) → {ts : List Token} → 4 * ts.length + 1 ≤ steps →
    Leaves (ProperTail ts) (expression g stop steps power ts)
  | 0, _, _, h => absurd h (Nat.not_succ_le_zero _)
  | steps + 1, power, ts, h => by
    unfold expression
    split
    next leading t us _ =>
      rw [List.length_cons] at h
      refine (lead_leaves steps leading t (by omega)).bind fun r hr => ?_
      have hlength := hr.length_le
      exact (follow_leaves steps power r.1 (by omega)).mono fun _ hrest => .cons (hrest.trans hr)
    next => exact Finishes.unexpected

theorem follow_leaves : (steps power : Nat) → (left : Node) → {ts : List Token} → 4 * ts.length + 1 ≤ steps →
    Leaves (· <:+ ts) (follow g stop steps power left ts)
  | 0, _, _, _, h => absurd h (Nat.not_succ_le_zero _)
  | steps + 1, power, left, ts, h => by
    unfold follow
    split
    · exact .ok (List.suffix_refl ts)
    · cases ts with
      | nil => exact .ok (List.suffix_refl [])
      | cons t us =>
        rw [List.length_cons] at h
        dsimp only
        split
        · exact Finishes.unexpected
        · refine (join_leaves steps _ _ t left (by omega)).bind fun r hr => ?_
          have hlength := hr.length_le
          exact (follow_leaves steps power r.1 (by omega)).mono fun _ hrest =>
            (hrest.trans hr).trans (List.suffix_cons t us)

theorem lead_leaves : (steps : Nat) → (leading : Leading) → (t : Token) → {ts : List Token} →
    4 * ts.length + 4 ≤ steps → Leaves (· <:+ ts) (lead g stop steps leading t ts)
  | 0, _, _, _, h => absurd h (Nat.not_succ_le_zero _)
  | steps + 1, leading, t, ts, h => by
    have hexpression : ∀ power, Leaves (ProperTail ts) (expression g stop steps power ts) :=
      fun power => expression_leaves steps power (by omega)
    have hitems : ∀ close, Leaves (· <:+ ts) (itemList g stop steps close ts) :=
      fun close => itemList_leaves steps close (by omega)
    unfold lead
    cases leading with
    | literal =>
      dsimp only
      split
      · exact .ok (List.suffix_refl ts)
      · exact Finishes.fault
    | identifier => exact .ok (List.suffix_refl ts)
    | unary => exact (hexpression _).bind fun _ hr => .ok hr.suffix
    | plus => exact (hexpression _).mono fun _ hr => hr.suffix
    | group => exact (hitems _).bind fun _ hr => .ok hr
    | array => exact (hitems _).bind fun _ hr => .ok hr
    | brace =>
      dsimp only
      split
      · exact (expect_leaves (List.suffix_refl ts)).bind fun _ hr => .ok hr
      · exact (hexpression _).bind fun _ hr => (expect_leaves hr.suffix).bind fun _ hr => .ok hr
    | block => exact (hexpression _).bind fun _ hr => (expect_leaves hr.suffix).bind fun _ hr => .ok hr
    | ifHeader => exact (hexpression _).bind fun _ hr => .ok hr.suffix
    | elseHeader =>
      dsimp only
      split
      · have hlength := (List.drop_suffix 1 ts).length_le
        exact (expression_leaves steps _ (by omega)).bind fun _ hr => .ok (hr.suffix.trans (List.drop_suffix 1 ts))
      · exact .ok (List.suffix_refl ts)
    | range =>
      dsimp only
      split
      · exact .ok (List.suffix_refl ts)
      · exact (hexpression _).bind fun _ hr => .ok hr.suffix

theorem join_leaves : (steps : Nat) → (trailing : Trailing) → (power : Nat) → (t : Token) → (left : Node) →
    {ts : List Token} → 4 * ts.length + 4 ≤ steps →
    Leaves (· <:+ ts) (join g stop steps trailing power t left ts)
  | 0, _, _, _, _, _, h => absurd h (Nat.not_succ_le_zero _)
  | steps + 1, trailing, power, t, left, ts, h => by
    have hexpression : ∀ power, Leaves (ProperTail ts) (expression g stop steps power ts) :=
      fun power => expression_leaves steps power (by omega)
    unfold join
    cases trailing with
    | binary => exact (hexpression _).bind fun _ hr => .ok hr.suffix
    | binaryRight => exact (hexpression _).bind fun _ hr => .ok hr.suffix
    | notIn =>
      refine (expect_leaves (List.suffix_refl ts)).bind fun r hr => ?_
      have hlength := hr.length_le
      exact (expression_leaves steps _ (by omega)).bind fun _ hrest => .ok (hrest.suffix.trans hr)
    | call => exact (itemList_leaves steps _ (by omega)).bind fun _ hr => .ok hr
    | index => exact (hexpression _).bind fun _ hr => (expect_leaves hr.suffix).bind fun _ hr => .ok hr
    | member =>
      match ts with
      | [] => exact Finishes.fault
      | name :: us =>
        dsimp only
        split
        · exact .ok (List.suffix_cons name us)
        · exact Finishes.unexpected
    | entry => exact (hexpression _).bind fun _ hr => .ok hr.suffix
    | continuation =>
      refine (hexpression _).bind fun _ hr => ?_
      dsimp only
      split
      · exact .ok hr.suffix
      · exact Finishes.fault
    | guard =>
      dsimp only
      split
      · exact (hexpression _).bind fun _ hr => .ok hr.suffix
      · exact Finishes.fault
    | range =>
      dsimp only
      split
      · exact .ok (List.suffix_refl ts)
      · exact (hexpression _).bind fun _ hr => .ok hr.suffix

theorem itemList_leaves : (steps : Nat) → (close : String) → {ts : List Token} → 4 * ts.length + 3 ≤ steps →
    Leaves (· <:+ ts) (itemList g stop steps close ts)
  | 0, _, _, h => absurd h (Nat.not_succ_le_zero _)
  | steps + 1, close, ts, h => by
    unfold itemList
    split
    · exact (expect_leaves (List.suffix_refl ts)).bind fun _ hr => .ok hr
    · exact moreItems_leaves steps close (by omega)

theorem moreItems_leaves : (steps : Nat) → (close : String) → {ts : List Token} → 4 * ts.length + 2 ≤ steps →
    Leaves (· <:+ ts) (moreItems g stop steps close ts)
  | 0, _, _, h => absurd h (Nat.not_succ_le_zero _)
  | steps + 1, close, ts, h => by
    unfold moreItems
    refine (expression_leaves steps _ (by omega)).bind fun r hr => ?_
    dsimp only
    split
    · -- the item has taken a token, so the steps are enough for the items behind it
      have hdrop := List.drop_suffix 1 r.2
      have hlength := hdrop.length_le
      have hlt := hr.length_lt
      exact (moreItems_leaves steps close (by omega)).bind fun _ hrest => .ok ((hrest.trans hdrop).trans hr.suffix)
    · exact (expect_leaves hr.suffix).bind fun _ hrest => .ok hrest

end

end

/-! ## The whole -/

variable {g : Grammar} {stop : Nat} {ts rest : List Token} {node : Node}

/-- **An expression takes a token**, with however many steps it is read. -/
theorem properTail_of_expression {steps power : Nat} (h : expression g stop steps power ts = .ok (node, rest)) :
    ProperTail ts rest := by
  have hmore := Settles.of_le (fun n => expression_settles g stop n power ts)
    (Nat.le_add_right steps (4 * ts.length + 1))
  have hread : expression g stop (steps + (4 * ts.length + 1)) power ts = .ok (node, rest) :=
    (hmore (h ▸ nofun)).trans h
  exact (expression_leaves g stop _ power (Nat.le_add_left _ _)).of_eq_ok hread

/-- The place of what is left of the tokens behind a place. -/
theorem ProperTail.exists_place {place : Nat} (h : ProperTail (ts.drop place) rest) :
    ∃ next, place < next ∧ next ≤ ts.length ∧ rest = ts.drop next := by
  have hlt := h.length_lt
  rw [List.length_drop] at hlt
  refine ⟨ts.length - rest.length, by omega, Nat.sub_le _ _, ?_⟩
  exact List.suffix_iff_eq_drop.mp (h.suffix.trans (List.drop_suffix place ts))

/-- The steps that are enough are so: a tree is read, or there is a fault. -/
theorem parseWith_finishes (g : Grammar) (ts : List Token) :
    Finishes (fun _ => True) (parseWith g (enoughSteps ts) ts) := by
  have hsteps : 4 * ts.length + 1 ≤ enoughSteps ts := Nat.add_le_add_left (by decide) _
  refine (expression_leaves g (endOf ts) _ 0 hsteps).bind fun r _ => ?_
  dsimp only
  split
  · exact .ok trivial
  · exact Finishes.unexpected

theorem parseWith_enoughSteps (g : Grammar) (ts : List Token) :
    parseWith g (enoughSteps ts) ts = (parse g ts).mapError Stop.fault := by
  have hends := parseWith_finishes g ts
  unfold parse
  cases hread : parseWith g (enoughSteps ts) ts with
  | ok node => rfl
  | error e =>
    cases e with
    | fault f => rfl
    | exhausted => exact absurd rfl (hends.of_eq_error hread)

theorem parseWith_of_enough {steps : Nat} (h : enoughSteps ts ≤ steps) :
    parseWith g steps ts = (parse g ts).mapError Stop.fault := by
  rw [← parseWith_enoughSteps]
  have hsettles : Settles (parseWith g (enoughSteps ts) ts) (parseWith g steps ts) :=
    (Settles.of_le (fun n => expression_settles g (endOf ts) n 0 ts) h).bind fun _ => .refl _
  exact hsettles fun hread => (parseWith_finishes g ts).of_eq_error hread rfl

/-- Of a tree that is read no token is left. -/
theorem expression_of_parseWith {steps : Nat} (h : parseWith g steps ts = .ok node) :
    expression g (endOf ts) steps 0 ts = .ok (node, []) := by
  unfold parseWith at h
  cases hread : expression g (endOf ts) steps 0 ts with
  | error e =>
    rw [hread] at h
    cases h
  | ok r =>
    obtain ⟨n, rest⟩ := r
    rw [hread] at h
    cases rest with
    | nil => cases h; rfl
    | cons t us => cases h

/-- **Reading ends**, under every grammar and for every list of tokens. With so many steps as are enough, and with any
number beyond them, it comes to the same tree or the same fault; an expression that is read anywhere takes a token at
least, and ends within the tokens; and a tree takes all of them. -/
theorem parse_terminates (g : Grammar) (ts : List Token) :
    (∀ steps, enoughSteps ts ≤ steps → parseWith g steps ts = (parse g ts).mapError Stop.fault) ∧
      (∀ stop steps power place node rest, expression g stop steps power (ts.drop place) = .ok (node, rest) →
        ∃ next, place < next ∧ next ≤ ts.length ∧ rest = ts.drop next) ∧
      ∀ node, parse g ts = .ok node →
        ∀ steps, enoughSteps ts ≤ steps → expression g (endOf ts) steps 0 ts = .ok (node, []) := by
  refine ⟨fun _ => parseWith_of_enough, fun _ _ _ _ _ _ h => (properTail_of_expression h).exists_place, ?_⟩
  intro node hparse steps hsteps
  have hread := parseWith_of_enough (g := g) hsteps
  rw [hparse] at hread
  exact expression_of_parseWith hread

/-- The end of the source leads an expression and binds tightly: one word is read, and nothing behind it. -/
theorem parse_terminates_of_bindingEnd :
    let g := ((Grammar.empty.withLeading Grammar.identifierName .identifier false).withLeading Grammar.endName .unary
      true).withTrailing Grammar.endName 200 .binary true
    let ts : List Token := [⟨"x", .identifier, ⟨0, 1⟩⟩]
    let node := leaf Grammar.identifierName .identifier ⟨0, 1⟩ (.name "x")
    nextPower g [] = 200 ∧ parseWith g 1000 ts = .ok node ∧ expression g 1 1000 0 ts = .ok (node, []) ∧
      ∃ next, 0 < next ∧ next ≤ 1 ∧ [] = ts.drop next := by
  intro g ts node
  obtain ⟨hends, htakes, hall⟩ := parse_terminates g ts
  have hparse : parse g ts = .ok node := rfl
  have hread : expression g 1 1000 0 ts = .ok (node, []) := hall node hparse 1000 (by decide)
  refine ⟨rfl, ?_, hread, htakes 1 1000 0 0 node [] hread⟩
  rw [hends 1000 (by decide), hparse]
  rfl

end Node

end Cellbook
