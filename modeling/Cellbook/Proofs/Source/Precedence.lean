import Cellbook.Operator
import Cellbook.Proofs.Source.Operands

/-!
# Precedence

Operands with operators between them, as they stand (`Chain`), can be grouped in many ways (`OperatorTree`). One
of them only groups as the operators bind (`OperatorTree.Grouped`), and that one is read (`parse_chain`).

How operators bind is said by their levels and by the side to which they group. The reader goes by two numbers of
each operator instead: its power, and the power that it hands on to what stands on its right. An operator may stand
on the left of another if the power of that one is no more than what it hands on, and on the right of another if
its own power is more than that one hands on (`admitsLeft_iff`, `admitsRight_iff`). So of two operators in a row
exactly one may be below the other, which makes the grouping unique, and adding an operator at the right end moves
it up past those that it may not stand below.
-/

namespace Cellbook

/-! ## How operators bind -/

namespace BinaryOp

/-- How tightly an operator binds: the higher, the more tightly. -/
def level : BinaryOp → Nat
  | .or => 1
  | .and => 2
  | .eq | .ne | .lt | .le | .gt | .ge => 3
  | .isIn | .is | .notIn => 4
  | .add | .sub => 5
  | .mul | .div | .rem => 6
  | .pow => 7

/-- Whether operators of the same level group to the right. -/
def groupsRight : BinaryOp → Bool
  | .or | .and | .pow => true
  | _ => false

/-- An operator may stand below another one on its left. -/
def AdmitsLeft (i j : BinaryOp) : Prop := i.level < j.level ∨ (i.level = j.level ∧ j.groupsRight = false)

/-- An operator may stand below another one on its right. -/
def AdmitsRight (i j : BinaryOp) : Prop := i.level < j.level ∨ (i.level = j.level ∧ j.groupsRight = true)

instance (i j : BinaryOp) : Decidable (AdmitsLeft i j) := inferInstanceAs (Decidable (_ ∨ _))

instance (i j : BinaryOp) : Decidable (AdmitsRight i j) := inferInstanceAs (Decidable (_ ∨ _))

/-- The binding power of an operator in the grammar. -/
def power : BinaryOp → Nat
  | .or => 30
  | .and => 40
  | .eq | .ne | .lt | .le | .gt | .ge => 45
  | .isIn | .is | .notIn => 47
  | .add | .sub => 50
  | .mul | .div | .rem => 60
  | .pow => 70

/-- The binding power that an operator hands on to what stands on its right. -/
def rightPower (op : BinaryOp) : Nat := if op.groupsRight then op.power - 1 else op.power

theorem admitsLeft_iff (i j : BinaryOp) : AdmitsLeft i j ↔ i.power ≤ j.rightPower := by
  have hall : all.all fun i => all.all fun j => decide (AdmitsLeft i j ↔ i.power ≤ j.rightPower) := by decide +kernel
  exact of_decide_eq_true (List.all_eq_true.mp (List.all_eq_true.mp hall i (mem_all i)) j (mem_all j))

theorem admitsRight_iff (i j : BinaryOp) : AdmitsRight i j ↔ i.rightPower < j.power := by
  have hall : all.all fun i => all.all fun j => decide (AdmitsRight i j ↔ i.rightPower < j.power) := by decide +kernel
  exact of_decide_eq_true (List.all_eq_true.mp (List.all_eq_true.mp hall i (mem_all i)) j (mem_all j))

theorem power_bounds (op : BinaryOp) : 0 < op.power ∧ op.power ≤ Node.unaryPower ∧ op.rightPower ≤ op.power ∧
    op.power ≤ op.rightPower + 1 := by
  cases op <;> decide

/-- An operator that may stand on the left of one may stand on the left of what is on the left of that. -/
theorem AdmitsLeft.trans {i j k : BinaryOp} (hij : AdmitsLeft i j) (hjk : AdmitsLeft j k) : AdmitsLeft i k := by
  rw [admitsLeft_iff] at hij hjk ⊢
  have := j.power_bounds
  omega

theorem AdmitsLeft.trans_right {i j k : BinaryOp} (hij : AdmitsLeft i j) (hjk : AdmitsRight j k) :
    AdmitsLeft i k := by
  rw [admitsLeft_iff] at hij ⊢
  rw [admitsRight_iff] at hjk
  have := k.power_bounds
  omega

/-- Of two operators in a row one may stand below the other. -/
theorem admitsLeft_iff_not_admitsRight (i j : BinaryOp) : AdmitsLeft j i ↔ ¬ AdmitsRight i j := by
  rw [admitsLeft_iff, admitsRight_iff, Nat.not_lt]

end BinaryOp

namespace Node

/-! ## Operators between operands -/

/-- **An operator between two operands**, with its token or its two tokens. -/
inductive Connective where
  | word (op : BinaryOp) (hop : op ≠ .notIn) (mark : Mark op.symbol)
  | notIn (no : Mark "not") (within : Mark "in")

namespace Connective

def op : Connective → BinaryOp
  | word op _ _ => op
  | notIn _ _ => .notIn

def tokens : Connective → List Token
  | word _ _ mark => [mark.token]
  | notIn no within => [no.token, within.token]

/-- The place of an operator is that of its first token. -/
def span : Connective → Span
  | word _ _ mark => mark.token.span
  | notIn no _ => no.token.span

/-- The tree of an operator with its operands. -/
def node (i : Connective) (left right : Node) : Node :=
  ((leaf i.op.symbol .binary i.span).withLeft left).withRight right

end Connective

/-- **Operands with operators between them**, as they stand. -/
structure Chain where
  first : Operand
  more : List (Connective × Operand)

namespace Chain

def moreTokens (more : List (Connective × Operand)) : List Token := more.flatMap fun (i, x) => i.tokens ++ x.tokens

def tokens (c : Chain) : List Token := c.first.tokens ++ moreTokens c.more

end Chain

/-- **A grouping of operands.** -/
inductive OperatorTree where
  | operand (x : Operand)
  | join (i : Connective) (left right : OperatorTree)

namespace OperatorTree

/-- What a grouping groups, read from left to right. -/
def chain : OperatorTree → Chain
  | operand x => ⟨x, []⟩
  | join i left right => ⟨left.chain.first, left.chain.more ++ (i, right.chain.first) :: right.chain.more⟩

/-- The operators in a grouping. -/
def operators (t : OperatorTree) : List BinaryOp := t.chain.more.map (·.1.op)

/-- The tree of a grouping. -/
def node : OperatorTree → Node
  | operand x => x.node
  | join i left right => i.node left.node right.node

/-- **Operands are grouped as the operators between them bind**: below each operator stand only those that bind more
tightly, or as tightly and group to that side. -/
inductive Grouped : OperatorTree → Prop
  | operand (x : Operand) : Grouped (operand x)
  | join {i : Connective} {left right : OperatorTree} (hleft : ∀ j ∈ left.operators, i.op.AdmitsLeft j)
      (hright : ∀ j ∈ right.operators, i.op.AdmitsRight j) (hl : Grouped left) (hr : Grouped right) :
    Grouped (join i left right)

theorem operators_join (i : Connective) (left right : OperatorTree) :
    (join i left right).operators = left.operators ++ i.op :: right.operators := by
  rw [operators, chain, List.map_append, List.map_cons]
  rfl

/-! ## There is one grouping -/

/-- A further operand at the right end. -/
def extend (t : OperatorTree) (i : Connective) (x : Operand) : OperatorTree :=
  match t with
  | operand y => join i (operand y) (operand x)
  | join j left right =>
    if j.op.AdmitsRight i.op then join j left (right.extend i x) else join i (join j left right) (operand x)

theorem chain_extend (t : OperatorTree) (i : Connective) (x : Operand) :
    (t.extend i x).chain = ⟨t.chain.first, t.chain.more ++ [(i, x)]⟩ := by
  induction t with
  | operand y => rfl
  | join j left right _ ih =>
    unfold extend
    split
    · rw [chain, ih, chain, List.append_assoc, List.cons_append]
    · rfl

theorem operators_extend (t : OperatorTree) (i : Connective) (x : Operand) :
    (t.extend i x).operators = t.operators ++ [i.op] := by
  rw [operators, chain_extend, List.map_append]
  rfl

theorem Grouped.extend {t : OperatorTree} (h : t.Grouped) (i : Connective) (x : Operand) : (t.extend i x).Grouped := by
  induction h with
  | operand y => exact .join (fun _ h => nomatch h) (fun _ h => nomatch h) (.operand y) (.operand x)
  | @join j left right hleft hright hl hr _ ih =>
    unfold OperatorTree.extend
    split
    next hadmits =>
      refine .join hleft (fun k hk => ?_) hl ih
      rw [operators_extend, List.mem_append, List.mem_singleton] at hk
      rcases hk with hk | rfl
      · exact hright k hk
      · exact hadmits
    next hadmits =>
      -- what is below an operator that the new one takes on its left may stand there with it
      have hj := (BinaryOp.admitsLeft_iff_not_admitsRight j.op i.op).mpr hadmits
      refine .join (fun k hk => ?_) (fun _ h => nomatch h) (.join hleft hright hl hr) (.operand x)
      rw [operators_join, List.mem_append, List.mem_cons] at hk
      rcases hk with hk | rfl | hk
      · exact hj.trans (hleft k hk)
      · exact hj
      · exact hj.trans_right (hright k hk)

/-- **Every chain can be grouped** as its operators bind. -/
theorem exists_grouped (c : Chain) : ∃ t : OperatorTree, t.chain = c ∧ t.Grouped := by
  obtain ⟨first, more⟩ := c
  have hextend (more : List (Connective × Operand)) (t : OperatorTree) (h : t.Grouped) :
      ∃ t' : OperatorTree, t'.chain = ⟨t.chain.first, t.chain.more ++ more⟩ ∧ t'.Grouped := by
    induction more generalizing t with
    | nil => exact ⟨t, by rw [List.append_nil], h⟩
    | cons further more ih =>
      obtain ⟨t', hchain, hgrouped⟩ := ih (t.extend further.1 further.2) (h.extend _ _)
      refine ⟨t', ?_, hgrouped⟩
      rw [hchain, chain_extend, List.append_assoc, List.singleton_append]
  exact hextend more (operand first) (.operand first)

/-- Where a list is split at an element in two ways, they are the same, or each element is on the other side of the
other one. -/
theorem append_cons_cases {α : Type} {as bs as' bs' : List α} {a b : α} (h : as ++ a :: bs = as' ++ b :: bs') :
    (as = as' ∧ a = b ∧ bs = bs') ∨ (b ∈ bs ∧ a ∈ as') ∨ (a ∈ bs' ∧ b ∈ as) := by
  induction as generalizing as' with
  | nil =>
    rcases as' with - | ⟨c, as'⟩
    · obtain ⟨hab, hbs⟩ := List.cons.inj h
      exact .inl ⟨rfl, hab, hbs⟩
    · obtain ⟨rfl, rfl⟩ := List.cons.inj h
      exact .inr (.inl ⟨by simp, List.mem_cons_self⟩)
  | cons c as ih =>
    rcases as' with - | ⟨d, as'⟩
    · obtain ⟨rfl, rfl⟩ := List.cons.inj h
      exact .inr (.inr ⟨by simp, List.mem_cons_self⟩)
    · obtain ⟨rfl, htail⟩ := List.cons.inj h
      rcases ih htail with ⟨rfl, hab, hbs⟩ | ⟨hb, ha⟩ | ⟨ha, hb⟩
      · exact .inl ⟨rfl, hab, hbs⟩
      · exact .inr (.inl ⟨hb, List.mem_cons_of_mem _ ha⟩)
      · exact .inr (.inr ⟨ha, List.mem_cons_of_mem _ hb⟩)

/-- Two groupings of one chain do not have different operators at the top. -/
theorem Grouped.not_mem_of_mem {i j : Connective} {x y : Operand} {left right left' right' : OperatorTree}
    (h : (OperatorTree.join i left right).Grouped) (h' : (OperatorTree.join j left' right').Grouped)
    (hj : (j, y) ∈ right.chain.more) :
    (i, x) ∉ left'.chain.more := by
  intro hi
  cases h with
  | join _ hright _ _ =>
  cases h' with
  | join hleft _ _ _ =>
  have hbelow := hright j.op (List.mem_map_of_mem hj)
  have habove := hleft i.op (List.mem_map_of_mem hi)
  exact (BinaryOp.admitsLeft_iff_not_admitsRight i.op j.op).mp habove hbelow

/-- **A chain is grouped in one way only.** -/
theorem Grouped.unique {t t' : OperatorTree} (h : t.Grouped) (h' : t'.Grouped) (hchain : t.chain = t'.chain) :
    t = t' := by
  induction h generalizing t' with
  | operand x =>
    cases h' with
    | operand y => exact congrArg OperatorTree.operand (congrArg Chain.first hchain)
    | join => simp [chain] at hchain
  | @join i left right hleft hright hl hr ihl ihr =>
    cases h' with
    | operand y => simp [chain] at hchain
    | @join j left' right' hleft' hright' hl' hr' =>
      have h := Grouped.join hleft hright hl hr
      have h' := Grouped.join hleft' hright' hl' hr'
      obtain ⟨hfirst, hmore⟩ := Chain.mk.inj hchain
      rcases append_cons_cases hmore with ⟨hl₁, htop, hr₁⟩ | ⟨hj, hi⟩ | ⟨hi, hj⟩
      · obtain ⟨rfl, hsecond⟩ := Prod.mk.inj htop
        rw [ihl hl' (congrArg₂ Chain.mk hfirst hl₁), ihr hr' (congrArg₂ Chain.mk hsecond hr₁)]
      · exact absurd hi (h.not_mem_of_mem h' hj)
      · exact absurd hj (h'.not_mem_of_mem h hi)

end OperatorTree

/-! ## Reading a grouping -/

variable {stop power : Nat} {ts rest left : List Token} {n : Node}

namespace Connective

theorem get?_word (op : BinaryOp) (h : op ≠ .notIn) : ∃ k, Grammar.standard.get? op.symbol = some k ∧
    k.trailing = some (if op.groupsRight then .binaryRight else .binary) ∧ k.power = op.power := by
  have hall : BinaryOp.all.all fun op => op = .notIn || (Grammar.standard.get? op.symbol).any fun k =>
      decide (k.trailing = some (if op.groupsRight then .binaryRight else .binary) ∧ k.power = op.power) := by
    decide +kernel
  have hop := List.all_eq_true.mp hall op (BinaryOp.mem_all op)
  rw [decide_eq_false h, Bool.false_or, Option.any_eq_true] at hop
  obtain ⟨k, hk, hkeyword⟩ := hop
  exact ⟨k, hk, of_decide_eq_true hkeyword⟩

theorem get?_not : Grammar.standard.get? "not" =
    some { name := "not", power := BinaryOp.notIn.power, leading := some .unary, trailing := some .notIn,
           isOperator := true } := by decide +kernel

/-- In front of an operator stands its power. -/
theorem nextPower_tokens (i : Connective) (rest : List Token) :
    nextPower .standard (i.tokens ++ rest) = i.op.power := by
  cases i with
  | word op hop mark =>
    obtain ⟨k, hk, -, hpower⟩ := get?_word op hop
    show nextPower .standard (mark.token :: rest) = op.power
    rw [nextPower, nextKeyword?_of_spells mark.spells, hk, ← hpower]
    rfl
  | notIn no within =>
    show nextPower .standard (no.token :: within.token :: rest) = BinaryOp.notIn.power
    rw [nextPower, nextKeyword?_of_spells no.spells, get?_not]
    rfl

end Connective

/-- **An operator takes its right operand**, read with the power that it hands on, and what follows binds both. -/
theorem Following.connective (i : Connective) {before right : Node} (hpower : power < i.op.power)
    (hright : Reading stop i.op.rightPower ts right rest) (h : Following stop power (i.node before right) rest n left) :
    Following stop power before (i.tokens ++ ts) n left := by
  cases i with
  | word op hop mark =>
    obtain ⟨k, hk, htrailing, hkpower⟩ := Connective.get?_word op hop
    show Following stop power before (mark.token :: ts) n left
    refine .of_join ((nextKeyword?_of_spells mark.spells).trans hk) htrailing (hkpower ▸ hpower)
      (fun steps hsteps => ?_) (Nat.le_of_lt hright.length_lt) h
    have hread : expression .standard stop steps op.rightPower ts = .ok (right, rest) := hright steps hsteps
    have hnode : leaf mark.token.lexeme .binary mark.token.span = leaf op.symbol .binary mark.token.span := by
      rw [mark.spells.2]
    rw [BinaryOp.rightPower] at hread
    rw [hkpower]
    unfold join
    cases hgroups : op.groupsRight with
    | true =>
      rw [hgroups, if_pos rfl] at hread
      simp only [if_true, hread, bind, Except.bind, hnode]
      rfl
    | false =>
      rw [hgroups, if_neg Bool.false_ne_true] at hread
      simp only [Bool.false_eq_true, if_false, hread, bind, Except.bind, hnode]
      rfl
  | notIn no within =>
    show Following stop power before (no.token :: within.token :: ts) n left
    refine .of_join ((nextKeyword?_of_spells no.spells).trans Connective.get?_not) rfl hpower
      (fun steps hsteps => ?_) (Nat.le_of_lt (Nat.lt_succ_of_lt hright.length_lt)) h
    have hread : expression .standard stop steps BinaryOp.notIn.power ts = .ok (right, rest) :=
      hright steps (Nat.le_trans (Nat.mul_le_mul_left 4 (Nat.le_succ _)) hsteps)
    have hexpect : expect stop "in" (within.token :: ts) = .ok (within.token, ts) := expect_of_spells within.spells
    unfold join
    simp only [hexpect, hread, bind, Except.bind]
    rfl

namespace OperatorTree

theorem tokens_join (i : Connective) (left right : OperatorTree) :
    (join i left right).chain.tokens = left.chain.tokens ++ (i.tokens ++ right.chain.tokens) := by
  simp [chain, Chain.tokens, Chain.moreTokens]

/-- **A grouping is read** where all its operators bind more tightly than what stands in front, and what stands behind
binds no more tightly than any of them hands on. -/
theorem Grouped.reading {t : OperatorTree} (h : t.Grouped) (hpower : power ≤ unaryPower)
    (htighter : ∀ j ∈ t.operators, power < j.power) (hrest : nextPower .standard rest ≤ unaryPower)
    (hlooser : ∀ j ∈ t.operators, nextPower .standard rest ≤ j.rightPower)
    (hfollows : Following stop power t.node rest n left) :
    Reading stop power (t.chain.tokens ++ rest) n left := by
  induction h generalizing power rest n left with
  | operand x =>
    have htokens : (OperatorTree.operand x).chain.tokens = x.tokens := List.append_nil _
    rw [htokens]
    exact reading_operand x hpower hrest hfollows
  | @join i l r hleft hright _ _ ihl ihr =>
    rw [operators_join] at htighter hlooser
    simp only [List.forall_mem_append, List.forall_mem_cons] at htighter hlooser
    obtain ⟨htighterl, htighteri, htighterr⟩ := htighter
    obtain ⟨hlooserl, hlooseri, hlooserr⟩ := hlooser
    have hbounds := i.op.power_bounds
    -- the right operand is read with the power that the operator hands on, and ends where the grouping does
    have hreadr : Reading stop i.op.rightPower (r.chain.tokens ++ rest) r.node rest :=
      ihr (by omega) (fun j hj => (BinaryOp.admitsRight_iff i.op j).mp (hright j hj)) hrest hlooserr (.ends hlooseri)
    rw [tokens_join, List.append_assoc, List.append_assoc]
    refine ihl hpower htighterl ?_ (fun j hj => ?_) (.connective i htighteri hreadr hfollows)
    · rw [Connective.nextPower_tokens]
      exact hbounds.2.1
    · rw [Connective.nextPower_tokens]
      exact (BinaryOp.admitsLeft_iff i.op j).mp (hleft j hj)

end OperatorTree

/-- **Operator precedence.** -/
theorem parse_chain (c : Chain) : ∃ t : OperatorTree, t.chain = c ∧ t.Grouped ∧
    (∀ t' : OperatorTree, t'.chain = c → t'.Grouped → t' = t) ∧ parse .standard c.tokens = .ok t.node := by
  obtain ⟨t, rfl, hgrouped⟩ := OperatorTree.exists_grouped c
  refine ⟨t, rfl, hgrouped, fun t' hchain h' => h'.unique hgrouped hchain, ?_⟩
  have hnil : nextPower .standard [] = 0 := nextPower_nil
  have hread : Reading (endOf t.chain.tokens) 0 (t.chain.tokens ++ []) t.node [] :=
    hgrouped.reading (Nat.zero_le _) (fun j _ => j.power_bounds.1) (by rw [hnil]; exact Nat.zero_le _)
      (fun j _ => by rw [hnil]; exact Nat.zero_le _) (.ends (Nat.le_of_eq hnil))
  rw [List.append_nil] at hread
  unfold parse parseWith
  simp only [hread (enoughSteps t.chain.tokens) (Nat.le_add_right _ _), bind, Except.bind]
  rfl

end Node

end Cellbook
