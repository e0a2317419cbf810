import Cellbook.Proofs.Source.Repeats
import Cellbook.Proofs.Source.Trees

/-!
# Operands

What stands between two operators that take two operands: a literal or a name, any number of minus signs and `not`
in front of it, and any number of members, calls and indexes behind it (`Operand`). Every such operand is read, and
its tree is `Operand.node`: what stands in front applies to all that stands behind (`reading_operand`).

An argument of a call or an index may be anything that is read as an item by itself. Readings are stated for all
numbers of steps that the tokens allow, so they follow one another without a count.
-/

namespace Cellbook

namespace Node

variable {stop power : Nat} {t : Token} {ts rest left : List Token} {name : String} {n : Node}

/-! ## Readings -/

/-- **Tokens are read as an expression** with steps enough for them. -/
def Reading (stop power : Nat) (ts : List Token) (n : Node) (left : List Token) : Prop :=
  ∀ steps, 4 * ts.length ≤ steps → expression .standard stop steps power ts = .ok (n, left)

/-- **An expression goes on** with tokens, with steps enough for them. -/
def Following (stop power : Nat) (before : Node) (ts : List Token) (n : Node) (left : List Token) : Prop :=
  ∀ steps, 4 * ts.length < steps → follow .standard stop steps power before ts = .ok (n, left)

/-- An expression ends in front of what binds no more tightly. -/
theorem Following.ends (h : nextPower .standard rest ≤ power) : Following stop power n rest n rest := by
  intro steps hsteps
  obtain ⟨steps, rfl⟩ := Nat.exists_eq_add_of_lt (Nat.zero_lt_of_lt hsteps)
  rw [Nat.zero_add]
  exact follow_of_le h

/-- Reading takes a token. -/
theorem Reading.length_lt (h : Reading stop power ts n left) : left.length < ts.length :=
  ((repeats [] stop stop _).expression power ts 0 n left (h _ (Nat.le_refl _))).1

/-- What a keyword leads, and what follows it. -/
theorem Reading.of_lead {k : Keyword} {leading : Leading} {first : Node}
    (hk : nextKeyword? .standard (t :: ts) = some k) (hleading : k.leading = some leading)
    (hlead : ∀ steps, 4 * ts.length ≤ steps → lead .standard stop (steps + 1) leading t ts = .ok (first, rest))
    (hlength : rest.length ≤ ts.length) (h : Following stop power first rest n left) :
    Reading stop power (t :: ts) n left := by
  intro steps hsteps
  rw [List.length_cons] at hsteps
  obtain ⟨steps, rfl⟩ := Nat.exists_eq_add_of_le' (Nat.le_trans (by omega : 2 ≤ 4 * (ts.length + 1)) hsteps)
  rw [expression_of_lead hk hleading (hlead steps (by omega))]
  exact h (steps + 1) (by omega)

/-- What a keyword makes of the expression before it, and what follows that. -/
theorem Following.of_join {k : Keyword} {trailing : Trailing} {before joined : Node}
    (hk : nextKeyword? .standard (t :: ts) = some k) (htrailing : k.trailing = some trailing)
    (hpower : power < k.power)
    (hjoin : ∀ steps, 4 * ts.length ≤ steps →
      join .standard stop (steps + 1) trailing k.power t before ts = .ok (joined, rest))
    (hlength : rest.length ≤ ts.length) (h : Following stop power joined rest n left) :
    Following stop power before (t :: ts) n left := by
  intro steps hsteps
  rw [List.length_cons] at hsteps
  obtain ⟨steps, rfl⟩ :=
    Nat.exists_eq_add_of_le' (Nat.le_trans (by omega : 2 ≤ 4 * (ts.length + 1)) (Nat.le_of_lt hsteps))
  rw [follow_of_join hk htrailing hpower (hjoin steps (by omega))]
  exact h (steps + 1) (by omega)

/-! ## Operands and their trees -/

/-- A token that is a mark or an operator of that name. -/
structure Mark (name : String) where
  token : Token
  spells : token.Spells name

/-- **An item**: tokens that are read as one by themselves. -/
structure Item where
  tokens : List Token
  node : Node
  read : ∃ steps, expression .standard (endOf tokens) steps itemPower tokens = .ok (node, [])

/-- Items with commas between them, or none. -/
inductive Arguments where
  | none
  | some (first : Item) (more : List (Mark "," × Item))

namespace Arguments

/-- Further items, each behind its comma. -/
def moreTokens (more : List (Mark "," × Item)) : List Token :=
  more.flatMap fun (comma, item) => comma.token :: item.tokens

theorem moreTokens_cons (comma : Mark ",") (item : Item) (more : List (Mark "," × Item)) :
    moreTokens ((comma, item) :: more) = comma.token :: item.tokens ++ moreTokens more := rfl

def tokens : Arguments → List Token
  | none => []
  | some first more => first.tokens ++ moreTokens more

def nodes : Arguments → List Node
  | none => []
  | some first more => first.node :: more.map (·.2.node)

end Arguments

/-- **A trailer**: a member, a call or an index, which binds the expression before it. -/
inductive Trailer where
  | member (dot : Mark ".") (name : Token) (isName : name.kind = .identifier)
  | call (opening : Mark "(") (arguments : Arguments) (closing : Mark ")")
  | index (opening : Mark "[") (key : Item) (closing : Mark "]")

namespace Trailer

def tokens : Trailer → List Token
  | member dot name _ => [dot.token, name]
  | call opening arguments closing => opening.token :: (arguments.tokens ++ [closing.token])
  | index opening key closing => opening.token :: (key.tokens ++ [closing.token])

/-- The tree of an expression with a trailer. -/
def node (before : Node) : Trailer → Node
  | member dot name _ =>
    ((leaf "." .member dot.token.span).withLeft before).withRight
      (leaf Grammar.identifierName .identifier name.span (.name name.lexeme))
  | call opening arguments closing =>
    (leaf "(" .apply (opening.token.span.join closing.token.span) (.items arguments.nodes)).withLeft before
  | index opening key closing =>
    (leaf "[" .index (opening.token.span.join closing.token.span) (.items [key.node])).withLeft before

end Trailer

/-- A minus sign or a `not` in front of an expression. -/
structure Negation where
  token : Token
  spells : token.Spells "-" ∨ token.Spells "not"

/-- The tree of an expression with a negation. -/
def Negation.node (m : Negation) (operand : Node) : Node := (leaf m.token.lexeme .unary m.token.span).withRight operand

/-- A literal or a name. -/
inductive Atom where
  | literal (token : Token) (v : Scalar) (isLiteral : token.kind = .literal v)
  | identifier (token : Token) (isName : token.kind = .identifier)

namespace Atom

def token : Atom → Token
  | literal t _ _ => t
  | identifier t _ => t

def node : Atom → Node
  | literal t v _ => leaf Grammar.literalName .literal t.span (.scalar v)
  | identifier t _ => leaf Grammar.identifierName .identifier t.span (.name t.lexeme)

end Atom

/-- **An operand.** -/
structure Operand where
  negations : List Negation
  atom : Atom
  trailers : List Trailer

namespace Operand

def tokens (x : Operand) : List Token :=
  x.negations.map (·.token) ++ x.atom.token :: x.trailers.flatMap Trailer.tokens

/-- **The tree of an operand**: the negations apply outside the trailers. -/
def node (x : Operand) : Node := x.negations.foldr Negation.node (x.trailers.foldl Trailer.node x.atom.node)

end Operand

/-! ## Reading operands -/

theorem get?_opening : Grammar.standard.get? "(" =
    some { name := "(", power := 150, leading := some .group, trailing := some .call } := by decide +kernel

theorem get?_dot : Grammar.standard.get? "." =
    some { name := ".", power := 150, trailing := some .member } := by decide +kernel

theorem get?_identifier : Grammar.standard.get? Grammar.identifierName =
    some { name := Grammar.identifierName, leading := some .identifier } := by decide +kernel

/-- An expression begins with a keyword that leads one. -/
theorem leading_of_expression {steps : Nat} (h : expression .standard stop steps power ts = .ok (n, left)) :
    ∃ t rest, ts = t :: rest ∧ ∃ leading, (nextKeyword? .standard ts).bind (·.leading) = some leading := by
  cases steps with
  | zero => cases h
  | succ steps =>
    unfold expression at h
    split at h
    next leading t rest hleading => exact ⟨t, rest, rfl, leading, hleading⟩
    next => cases h

/-- An item is read in front of what may stand behind one. -/
theorem Item.expression_eq (i : Item) (stop : Nat) {steps : Nat} (hsteps : 4 * i.tokens.length ≤ steps) {X : List Token}
    (hX : nextName X ∈ [")", "]", ","]) :
    expression .standard stop steps itemPower (i.tokens ++ X) = .ok (i.node, X) := by
  obtain ⟨_, hread⟩ := i.read
  exact expression_repeats hread stop hsteps fun _ => .inr ⟨Nat.le_refl _, hX⟩

/-- An item does not begin with what ends a list. -/
theorem Item.nextName_ne (i : Item) (rest : List Token) : nextName (i.tokens ++ rest) ≠ ")" := by
  obtain ⟨steps, hread⟩ := i.read
  obtain ⟨t, ts, htokens, leading, hleading⟩ := leading_of_expression hread
  have hname : nextName (i.tokens ++ rest) = nextName i.tokens := by rw [htokens]; rfl
  rw [hname]
  intro hclosing
  have hnone : (Grammar.standard.get? ")").bind (·.leading) = none := by decide +kernel
  rw [nextKeyword?, hclosing, hnone] at hleading
  cases hleading

/-- **Items are read** up to the mark behind them. -/
theorem moreItems_arguments (first : Item) (more : List (Mark "," × Item)) (closing : Mark ")") (rest : List Token)
    {steps : Nat} (hsteps : 4 * (first.tokens ++ Arguments.moreTokens more).length < steps) :
    moreItems .standard stop steps ")" (first.tokens ++ (Arguments.moreTokens more ++ closing.token :: rest)) =
      .ok ((first.node :: more.map (·.2.node), closing.token.span), rest) := by
  induction more generalizing first steps with
  | nil =>
    obtain ⟨steps, rfl⟩ := Nat.exists_eq_add_of_le' (Nat.one_le_of_lt hsteps)
    simp only [Arguments.moreTokens, List.flatMap_nil, List.append_nil] at hsteps
    have hname : nextName (closing.token :: rest) = ")" := nextName_of_spells closing.spells
    have hfirst := first.expression_eq stop (X := closing.token :: rest) (Nat.le_of_lt_succ hsteps) (by simp [hname])
    unfold moreItems
    simp only [Arguments.moreTokens, List.flatMap_nil, List.nil_append, hfirst, bind, Except.bind, hname,
      expect_of_spells closing.spells]
    rfl
  | cons further more ih =>
    obtain ⟨comma, item⟩ := further
    obtain ⟨steps, rfl⟩ := Nat.exists_eq_add_of_le' (Nat.one_le_of_lt hsteps)
    rw [Arguments.moreTokens_cons] at hsteps ⊢
    rw [List.cons_append, List.cons_append, List.append_assoc]
    generalize hinner : item.tokens ++ (Arguments.moreTokens more ++ closing.token :: rest) = inner
    simp only [List.length_append, List.length_cons] at hsteps
    have hname : nextName (comma.token :: inner) = "," := nextName_of_spells comma.spells
    have hfirst : expression .standard stop steps itemPower (first.tokens ++ comma.token :: inner) =
        .ok (first.node, comma.token :: inner) := first.expression_eq stop (by omega) (by simp [hname])
    have hmore : moreItems .standard stop steps ")" inner =
        .ok ((item.node :: more.map (·.2.node), closing.token.span), rest) :=
      hinner ▸ ih item (by rw [List.length_append]; omega)
    unfold moreItems
    simp only [hfirst, bind, Except.bind, hname, if_true, List.drop_succ_cons, List.drop_zero, hmore]
    rfl

/-- **Arguments are read** up to the mark behind them. -/
theorem itemList_arguments (arguments : Arguments) (closing : Mark ")") (rest : List Token) {steps : Nat}
    (hsteps : 4 * arguments.tokens.length + 1 < steps) :
    itemList .standard stop steps ")" (arguments.tokens ++ closing.token :: rest) =
      .ok ((arguments.nodes, closing.token.span), rest) := by
  obtain ⟨steps, rfl⟩ := Nat.exists_eq_add_of_le' (Nat.one_le_of_lt hsteps)
  unfold itemList
  cases arguments with
  | none =>
    rw [Arguments.tokens, List.nil_append, if_pos (nextName_of_spells closing.spells),
      expect_of_spells closing.spells]
    rfl
  | some first more =>
    rw [Arguments.tokens] at hsteps ⊢
    rw [List.append_assoc, if_neg (first.nextName_ne _), moreItems_arguments first more closing rest (by omega)]
    rfl

/-- **A trailer binds** the expression before it. -/
theorem Following.trailer (x : Trailer) {before : Node} (hpower : power < 150)
    (h : Following stop power (x.node before) rest n left) :
    Following stop power before (x.tokens ++ rest) n left := by
  cases x with
  | member dot name hname =>
    refine .of_join ((nextKeyword?_of_spells dot.spells).trans get?_dot) rfl hpower (fun steps _ => ?_)
      (Nat.le_succ rest.length) h
    unfold join
    exact if_pos hname
  | call opening arguments closing =>
    rw [Trailer.tokens, List.cons_append, List.append_assoc, List.singleton_append]
    refine .of_join ((nextKeyword?_of_spells opening.spells).trans get?_opening) rfl hpower (fun steps hsteps => ?_)
      (by simp only [List.length_append, List.length_cons]; omega) h
    simp only [List.length_append, List.length_cons] at hsteps
    unfold join
    simp only [itemList_arguments arguments closing rest (by omega : 4 * arguments.tokens.length + 1 < steps), bind,
      Except.bind]
    rfl
  | index opening key closing =>
    rw [Trailer.tokens, List.cons_append, List.append_assoc, List.singleton_append]
    refine .of_join ((nextKeyword?_of_spells opening.spells).trans get?_bracket) rfl hpower (fun steps hsteps => ?_)
      (by simp only [List.length_append, List.length_cons]; omega) h
    simp only [List.length_append, List.length_cons] at hsteps
    have hname : nextName (closing.token :: rest) = "]" := nextName_of_spells closing.spells
    have hkey : expression .standard stop steps itemPower (key.tokens ++ closing.token :: rest) =
        .ok (key.node, closing.token :: rest) := key.expression_eq stop (by omega) (by simp [hname])
    unfold join
    simp only [hkey, bind, Except.bind, expect_of_spells closing.spells]
    rfl

theorem Following.trailers (xs : List Trailer) {before : Node} (hpower : power < 150)
    (h : Following stop power (xs.foldl Trailer.node before) rest n left) :
    Following stop power before (xs.flatMap Trailer.tokens ++ rest) n left := by
  induction xs generalizing before with
  | nil => exact h
  | cons x xs ih =>
    rw [List.flatMap_cons, List.append_assoc]
    exact .trailer x hpower (ih h)

/-- A literal or a name, and what follows it. -/
theorem Reading.atom (x : Atom) (h : Following stop power x.node rest n left) :
    Reading stop power (x.token :: rest) n left := by
  cases x with
  | literal t v ht =>
    refine .of_lead ((nextKeyword?_of_literal ht).trans get?_literal) rfl (fun steps _ => ?_) (Nat.le_refl _) h
    show lead .standard stop (steps + 1) .literal t rest = _
    unfold lead
    simp only [ht]
    rfl
  | identifier t ht =>
    have hk : nextKeyword? .standard (t :: rest) = Grammar.standard.get? Grammar.identifierName := by
      unfold nextKeyword? nextName
      dsimp only
      rw [ht]
    exact .of_lead (hk.trans get?_identifier) rfl (fun steps _ => rfl) (Nat.le_refl _) h

/-- **A negation** takes the operand behind it, and what follows binds both. -/
theorem Reading.negation (m : Negation) {operand : Node} (hoperand : Reading stop unaryPower ts operand rest)
    (h : Following stop power (m.node operand) rest n left) : Reading stop power (m.token :: ts) n left := by
  have hleading : (nextKeyword? .standard (m.token :: ts)).bind (·.leading) = some .unary := by
    rcases m.spells with hm | hm <;> rw [nextKeyword?_of_spells hm] <;> decide +kernel
  obtain ⟨k, hk, hleading⟩ := Option.bind_eq_some_iff.mp hleading
  refine .of_lead hk hleading (fun steps hsteps => ?_) (Nat.le_of_lt hoperand.length_lt) h
  unfold lead
  simp only [hoperand steps hsteps, bind, Except.bind]
  rfl

/-- **An operand is read**, and what follows it binds all of it. -/
theorem reading_operand (x : Operand) (hpower : power ≤ unaryPower) (hrest : nextPower .standard rest ≤ unaryPower)
    (h : Following stop power x.node rest n left) : Reading stop power (x.tokens ++ rest) n left := by
  obtain ⟨negations, atom, trailers⟩ := x
  have hbase {power : Nat} {n : Node} {left : List Token} (hpower : power ≤ unaryPower)
      (h : Following stop power (trailers.foldl Trailer.node atom.node) rest n left) :
      Reading stop power (atom.token :: (trailers.flatMap Trailer.tokens ++ rest)) n left :=
    .atom atom (.trailers trailers (Nat.lt_of_le_of_lt hpower (by decide)) h)
  rw [Operand.tokens, List.append_assoc, List.cons_append]
  show Reading stop power (negations.map (·.token) ++ atom.token :: (trailers.flatMap Trailer.tokens ++ rest)) n left
  change Following stop power (negations.foldr Negation.node (trailers.foldl Trailer.node atom.node)) rest n left at h
  induction negations generalizing power n left with
  | nil => exact hbase hpower h
  | cons m negations ih => exact .negation m (ih (Nat.le_refl _) (.ends hrest)) h

end Node

end Cellbook
