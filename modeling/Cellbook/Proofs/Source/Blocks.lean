import Cellbook.Proofs.Formula.Bare
import Cellbook.Proofs.Source.Outline
import Cellbook.Proofs.Source.Precedence

/-!
# Indented and braced blocks mean the same

A block tree on lines and the same block tree on one line in braces are read with the same tree but for its places,
and so they are the same formula or have the same flaw (`Outline.read_onLines_inBraces`).

That the two trees are the same needs no look at the trees: what is read on lines is read in braces
(`Node.parse_braced`). It remains to see that every block tree is read at all, in both ways. The reader knows of a
block only what its marks do: the separator between two entries joins a further one to those before it, and the
block ends in front of what binds nothing.
-/

namespace Cellbook

namespace Node

open Token (look braced)
open Outline (mark opLooks parameterLooks Style)

variable {stop power : Nat} {t : Token} {ts rest left : List Token} {n before : Node}

/-! ## Expressions -/

theorem spells_of_operator {name : String} (h : look t = Outline.operator name) : t.Spells name :=
  ⟨.inl (congrArg Prod.fst h), congrArg Prod.snd h⟩

theorem spells_of_mark {name : String} (h : look t = mark name) : t.Spells name :=
  ⟨.inr (congrArg Prod.fst h), congrArg Prod.snd h⟩

/-- Tokens that look like an atom, or like an operand, are those of one. -/
theorem exists_atom {x : Outline.Atom} (h : look t = x.look) : ∃ y : Atom, y.token = t := by
  cases x with
  | literal v w => exact ⟨.literal t v (congrArg Prod.fst h), rfl⟩
  | name w => exact ⟨.identifier t (congrArg Prod.fst h), rfl⟩

theorem exists_negations {ops : List UnaryOp} (h : ts.map look = ops.map (Outline.operator ·.symbol)) :
    ∃ ms : List Negation, ms.map (·.token) = ts := by
  induction ops generalizing ts with
  | nil => exact ⟨[], (List.map_eq_nil_iff.mp h).symm⟩
  | cons op ops ih =>
    obtain ⟨t, ts, rfl, ht, hts⟩ := List.map_eq_cons_iff.mp h
    obtain ⟨ms, rfl⟩ := ih hts
    have hspells := spells_of_operator ht
    refine ⟨⟨t, ?_⟩ :: ms, rfl⟩
    cases op with
    | neg => exact .inl hspells
    | not => exact .inr hspells

theorem exists_operand {x : Outline.Operand} (h : ts.map look = x.looks) : ∃ y : Operand, y.tokens = ts := by
  obtain ⟨front, back, rfl, hfront, hback⟩ := List.map_eq_append_iff.mp h
  obtain ⟨t, rfl, ht⟩ := List.map_eq_singleton_iff.mp hback
  obtain ⟨ms, rfl⟩ := exists_negations hfront
  obtain ⟨atom, rfl⟩ := exists_atom ht
  exact ⟨⟨ms, atom, []⟩, rfl⟩

theorem exists_connective {op : BinaryOp} (h : ts.map look = opLooks op) : ∃ i : Connective, i.tokens = ts := by
  by_cases hop : op = .notIn
  · subst hop
    obtain ⟨no, us, rfl, hno, hus⟩ := List.map_eq_cons_iff.mp h
    obtain ⟨within, rfl, hwithin⟩ := List.map_eq_singleton_iff.mp hus
    exact ⟨.notIn ⟨no, spells_of_operator hno⟩ ⟨within, spells_of_operator hwithin⟩, rfl⟩
  · have hlooks : opLooks op = [Outline.operator op.symbol] := by
      cases op <;> first | rfl | exact absurd rfl hop
    rw [hlooks] at h
    obtain ⟨t, rfl, ht⟩ := List.map_eq_singleton_iff.mp h
    exact ⟨.word op hop ⟨t, spells_of_operator ht⟩, rfl⟩

theorem exists_moreTokens {more : List (BinaryOp × Outline.Operand)}
    (h : ts.map look = more.flatMap fun (op, y) => opLooks op ++ y.looks) :
    ∃ ys : List (Connective × Operand), Chain.moreTokens ys = ts := by
  induction more generalizing ts with
  | nil => exact ⟨[], (List.map_eq_nil_iff.mp h).symm⟩
  | cons further more ih =>
    rw [List.flatMap_cons] at h
    obtain ⟨us, vs, rfl, hus, hvs⟩ := List.map_eq_append_iff.mp h
    obtain ⟨us, us', rfl, hus, hus'⟩ := List.map_eq_append_iff.mp hus
    obtain ⟨i, rfl⟩ := exists_connective hus
    obtain ⟨y, rfl⟩ := exists_operand hus'
    obtain ⟨ys, rfl⟩ := ih hvs
    exact ⟨(i, y) :: ys, rfl⟩

/-- Tokens that look like an expression are a chain of operands. -/
theorem exists_chain {x : Outline.Expression} (h : ts.map look = x.looks) : ∃ c : Chain, c.tokens = ts := by
  obtain ⟨us, vs, rfl, hus, hvs⟩ := List.map_eq_append_iff.mp h
  obtain ⟨y, rfl⟩ := exists_operand hus
  obtain ⟨ys, rfl⟩ := exists_moreTokens hvs
  exact ⟨⟨y, ys⟩, rfl⟩

theorem power_bounds_of_op (op : BinaryOp) : 30 ≤ op.power ∧ 29 ≤ op.rightPower := by
  cases op <;> decide

/-- **An expression is read** where no operator binds in front of it, up to what binds no more tightly. -/
theorem reading_expression {x : Outline.Expression} (h : ts.map look = x.looks) (stop : Nat) :
    ∃ n, ∀ {power : Nat} {rest : List Token}, power < 30 → nextPower .standard rest ≤ power →
      Reading stop power (ts ++ rest) n rest := by
  obtain ⟨c, rfl⟩ := exists_chain h
  obtain ⟨t, rfl, hgrouped⟩ := OperatorTree.exists_grouped c
  refine ⟨t.node, fun {power rest} hpower hrest => ?_⟩
  have hunary : power ≤ unaryPower := Nat.le_trans (Nat.le_of_lt hpower) (by decide)
  refine hgrouped.reading hunary (fun j _ => ?_) (Nat.le_trans hrest hunary) (fun j _ => ?_) (.ends hrest)
  · exact Nat.lt_of_lt_of_le hpower (power_bounds_of_op j).1
  · exact Nat.le_trans (Nat.le_trans hrest (Nat.le_of_lt_succ hpower)) (power_bounds_of_op j).2

/-! ## Keys -/

/-- A name is an item. -/
theorem exists_nameItem {w : Word .identifier} (h : look t = w.look) : ∃ i : Item, i.tokens = [t] := by
  have hread : Reading (endOf [t]) itemPower [t] _ [] :=
    Reading.atom (.identifier t (congrArg Prod.fst h)) (.ends (by rw [nextPower_nil]; exact Nat.zero_le _))
  exact ⟨⟨[t], _, 4, hread 4 (Nat.le_refl _)⟩, rfl⟩

theorem exists_moreItems {ps : List (Word .identifier)}
    (h : ts.map look = ps.flatMap fun q => [mark ",", q.look]) :
    ∃ more : List (Mark "," × Item), Arguments.moreTokens more = ts := by
  induction ps generalizing ts with
  | nil => exact ⟨[], (List.map_eq_nil_iff.mp h).symm⟩
  | cons q ps ih =>
    rw [List.flatMap_cons] at h
    obtain ⟨comma, us, rfl, hcomma, hus⟩ := List.map_eq_cons_iff.mp h
    obtain ⟨t, us, rfl, ht, hus⟩ := List.map_eq_cons_iff.mp hus
    obtain ⟨item, hitem⟩ := exists_nameItem ht
    obtain ⟨more, rfl⟩ := ih hus
    refine ⟨(⟨comma, spells_of_mark hcomma⟩, item) :: more, ?_⟩
    rw [Arguments.moreTokens_cons, hitem]
    rfl

/-- Tokens that look like names in parentheses are arguments in parentheses. -/
theorem exists_arguments {params : List (Word .identifier)} (h : ts.map look = parameterLooks params) :
    ∃ (opening : Mark "(") (arguments : Arguments) (closing : Mark ")"),
      ts = opening.token :: (arguments.tokens ++ [closing.token]) := by
  obtain ⟨opening, us, rfl, hopening, hus⟩ := List.map_eq_cons_iff.mp h
  obtain ⟨inner, last, rfl, hinner, hlast⟩ := List.map_eq_append_iff.mp hus
  obtain ⟨closing, rfl, hclosing⟩ := List.map_eq_singleton_iff.mp hlast
  have harguments : ∃ arguments : Arguments, arguments.tokens = inner := by
    cases params with
    | nil => exact ⟨.none, (List.map_eq_nil_iff.mp hinner).symm⟩
    | cons p ps =>
      obtain ⟨t, vs, rfl, ht, hvs⟩ := List.map_eq_cons_iff.mp hinner
      obtain ⟨first, hfirst⟩ := exists_nameItem ht
      obtain ⟨more, rfl⟩ := exists_moreItems hvs
      exact ⟨.some first more, by rw [Arguments.tokens, hfirst]; rfl⟩
  obtain ⟨arguments, rfl⟩ := harguments
  exact ⟨⟨opening, spells_of_mark hopening⟩, arguments, ⟨closing, spells_of_mark hclosing⟩, rfl⟩

/-- **Items in parentheses** where an expression begins. -/
theorem Reading.group (opening : Mark "(") (arguments : Arguments) (closing : Mark ")")
    (h : Following stop power
      (leaf "(" .grouping (opening.token.span.join closing.token.span) (.items arguments.nodes)) rest n left) :
    Reading stop power (opening.token :: (arguments.tokens ++ closing.token :: rest)) n left := by
  refine .of_lead ((nextKeyword?_of_spells opening.spells).trans get?_opening) rfl (fun steps hsteps => ?_)
    (by simp only [List.length_append, List.length_cons]; omega) h
  simp only [List.length_append, List.length_cons] at hsteps
  unfold lead
  simp only [itemList_arguments arguments closing rest (by omega : 4 * arguments.tokens.length + 1 < steps), bind,
    Except.bind]
  rfl

theorem get?_if : Grammar.standard.get? "if" =
    some { name := "if", power := 25, leading := some .ifHeader, trailing := some .guard, isOperator := true } := by
  decide +kernel

theorem get?_else : Grammar.standard.get? "else" =
    some { name := "else", leading := some .elseHeader, isOperator := true } := by decide +kernel

/-- A guard behind items in parentheses. -/
theorem Following.guard {condition : Node} (ht : t.Spells "if") (hpower : power < 25)
    (hbefore : before.kind = .grouping) (hcondition : Reading stop 25 ts condition rest)
    (h : Following stop power (((leaf "if" .guard t.span).withLeft before).withRight condition) rest n left) :
    Following stop power before (t :: ts) n left := by
  refine .of_join ((nextKeyword?_of_spells ht).trans get?_if) rfl hpower (fun steps hsteps => ?_)
    (Nat.le_of_lt hcondition.length_lt) h
  unfold join
  simp only [hbefore, if_true, hcondition steps hsteps, bind, Except.bind]
  rfl

/-- The head of a conditional entry. -/
theorem Reading.ifHeader {condition : Node} (ht : t.Spells "if")
    (hcondition : Reading stop conditionPower ts condition rest)
    (h : Following stop power ((leaf "if" .ifHeader t.span).withLeft condition) rest n left) :
    Reading stop power (t :: ts) n left := by
  refine .of_lead ((nextKeyword?_of_spells ht).trans get?_if) rfl (fun steps hsteps => ?_)
    (Nat.le_of_lt hcondition.length_lt) h
  unfold lead
  simp only [hcondition steps hsteps, bind, Except.bind]
  rfl

/-- The head of an alternative entry with a condition. -/
theorem Reading.elseIfHeader {u : Token} {condition : Node} (ht : t.Spells "else") (hu : u.Spells "if")
    (hcondition : Reading stop conditionPower ts condition rest)
    (h : Following stop power ((leaf "else if" .elseIfHeader t.span).withLeft condition) rest n left) :
    Reading stop power (t :: u :: ts) n left := by
  refine .of_lead ((nextKeyword?_of_spells ht).trans get?_else) rfl (fun steps hsteps => ?_)
    (Nat.le_succ_of_le (Nat.le_of_lt hcondition.length_lt)) h
  have hread : expression .standard stop steps conditionPower ((u :: ts).drop 1) = .ok (condition, rest) :=
    hcondition steps (Nat.le_trans (Nat.mul_le_mul_left 4 (Nat.le_succ _)) hsteps)
  unfold lead
  simp only [nextName_of_spells hu, if_true, hread, bind, Except.bind]
  rfl

/-- The head of an alternative entry without a condition. -/
theorem Reading.elseHeader (ht : t.Spells "else") (hrest : nextName rest ≠ "if")
    (h : Following stop power (leaf "else" .elseHeader t.span) rest n left) :
    Reading stop power (t :: rest) n left := by
  refine .of_lead ((nextKeyword?_of_spells ht).trans get?_else) rfl (fun steps hsteps => ?_) (Nat.le_refl _) h
  unfold lead
  exact if_neg hrest

theorem nextPower_of_colon (h : t.Spells ":") : nextPower .standard (t :: rest) = 20 := by
  rw [nextPower, nextKeyword?_of_spells h, get?_colon]
  rfl

/-- **A key is read** up to its colon. -/
theorem reading_key {k : Outline.Key} (h : ts.map look = k.looks) (stop : Nat) :
    ∃ key, ∀ {power : Nat} {colon : Token} {us : List Token} {n : Node} {left : List Token}, colon.Spells ":" →
      power < 20 → Following stop power key (colon :: us) n left → Reading stop power (ts ++ colon :: us) n left := by
  cases k with
  | atom x =>
    obtain ⟨t, rfl, ht⟩ := List.map_eq_singleton_iff.mp h
    obtain ⟨y, rfl⟩ := exists_atom ht
    exact ⟨y.node, fun _ _ hfollows => .atom y hfollows⟩
  | parameters params =>
    obtain ⟨opening, arguments, closing, rfl⟩ := exists_arguments h
    refine ⟨leaf "(" .grouping (opening.token.span.join closing.token.span) (.items arguments.nodes),
      fun _ _ hfollows => ?_⟩
    rw [List.cons_append, List.append_assoc]
    exact .group opening arguments closing hfollows
  | guarded params guard =>
    obtain ⟨us, vs, rfl, hus, hvs⟩ := List.map_eq_append_iff.mp h
    obtain ⟨t, vs, rfl, ht, hvs⟩ := List.map_eq_cons_iff.mp hvs
    obtain ⟨opening, arguments, closing, rfl⟩ := exists_arguments hus
    obtain ⟨condition, hcondition⟩ := reading_expression hvs stop
    refine ⟨((leaf "if" .guard t.span).withLeft
      (leaf "(" .grouping (opening.token.span.join closing.token.span) (.items arguments.nodes))).withRight condition,
      fun hcolon hpower hfollows => ?_⟩
    rw [List.append_assoc, List.cons_append, List.append_assoc]
    refine .group opening arguments closing (.guard (spells_of_operator ht) (by omega) rfl ?_ hfollows)
    exact hcondition (by decide) (by rw [nextPower_of_colon hcolon]; decide)
  | signature name params =>
    obtain ⟨t, us, rfl, ht, hus⟩ := List.map_eq_cons_iff.mp h
    obtain ⟨opening, arguments, closing, rfl⟩ := exists_arguments hus
    let callee : Atom := .identifier t (congrArg Prod.fst ht)
    let call : Trailer := .call opening arguments closing
    exact ⟨call.node callee.node, fun _ hpower hfollows => .atom callee (.trailer call (by omega) hfollows)⟩
  | ifThen x =>
    obtain ⟨t, us, rfl, ht, hus⟩ := List.map_eq_cons_iff.mp h
    obtain ⟨condition, hcondition⟩ := reading_expression hus stop
    refine ⟨(leaf "if" .ifHeader t.span).withLeft condition,
      fun hcolon _ hfollows => .ifHeader (spells_of_operator ht) ?_ hfollows⟩
    exact hcondition (by decide) (by rw [nextPower_of_colon hcolon]; decide)
  | elseIf x =>
    obtain ⟨t, us, rfl, ht, hus⟩ := List.map_eq_cons_iff.mp h
    obtain ⟨u, us, rfl, hu, hus⟩ := List.map_eq_cons_iff.mp hus
    obtain ⟨condition, hcondition⟩ := reading_expression hus stop
    refine ⟨(leaf "else if" .elseIfHeader t.span).withLeft condition, fun hcolon _ hfollows =>
      .elseIfHeader (spells_of_operator ht) (spells_of_operator hu) ?_ hfollows⟩
    exact hcondition (by decide) (by rw [nextPower_of_colon hcolon]; decide)
  | otherwise =>
    obtain ⟨t, rfl, ht⟩ := List.map_eq_singleton_iff.mp h
    refine ⟨_, fun {_ colon us _ _} hcolon _ hfollows => .elseHeader (spells_of_operator ht) ?_ hfollows⟩
    have hname : nextName (colon :: us) = ":" := nextName_of_spells hcolon
    exact fun hif => absurd (hname.symm.trans hif) (by decide)

/-! ## Blocks -/

/-- **A key takes its value** and is an entry. -/
theorem Following.entry {value : Node} (ht : t.Spells ":") (hpower : power < 20)
    (hvalue : Reading stop valuePower ts value rest)
    (h : Following stop power
      (leaf ":" .entry ((t.span.join before.span).join value.span) (.items [before, value])) rest n left) :
    Following stop power before (t :: ts) n left := by
  refine .of_join ((nextKeyword?_of_spells ht).trans get?_colon) rfl hpower (fun steps hsteps => ?_)
    (Nat.le_of_lt hvalue.length_lt) h
  unfold join
  simp only [hvalue steps hsteps, bind, Except.bind]
  rfl

theorem nextKeyword?_separator {σ : Style} (h : look t = σ.separator) :
    ∃ k, nextKeyword? .standard (t :: rest) = some k ∧ k.trailing = some .continuation ∧ k.power = 10 := by
  obtain ⟨lexeme, kind, span⟩ := t
  cases σ with
  | lines =>
    obtain ⟨rfl, rfl⟩ := Prod.mk.inj h
    have hk : Grammar.standard.get? Grammar.newlineName =
        some { name := Grammar.newlineName, power := 10, trailing := some .continuation } := by decide +kernel
    exact ⟨_, hk, rfl, rfl⟩
  | braces =>
    obtain ⟨rfl, rfl⟩ := Prod.mk.inj h
    exact ⟨_, get?_comma, rfl, rfl⟩

theorem nextPower_separator {σ : Style} (h : look t = σ.separator) : nextPower .standard (t :: rest) = 10 := by
  obtain ⟨k, hk, -, hpower⟩ := nextKeyword?_separator h
  rw [nextPower, hk, Option.map_some, Option.getD_some, hpower]

/-- The end of a block binds nothing. -/
theorem nextPower_closing {σ : Style} (h : look t = σ.closing) : nextPower .standard (t :: rest) = 0 := by
  obtain ⟨lexeme, kind, span⟩ := t
  cases σ with
  | lines =>
    obtain ⟨rfl, rfl⟩ := Prod.mk.inj h
    exact (by decide +kernel : ((Grammar.standard.get? Grammar.dedentName).map (·.power)).getD 0 = 0)
  | braces =>
    obtain ⟨rfl, rfl⟩ := Prod.mk.inj h
    exact (by decide +kernel : ((Grammar.standard.get? "\x7d").map (·.power)).getD 0 = 0)

/-- An entry joins those before it. -/
theorem exists_addEntry? {entry : Node} (hbefore : before.kind = .entry ∨ before.kind = .entries)
    (hentry : entry.kind = .entry) (span : Span) :
    ∃ joined, addEntry? span before entry = some joined ∧ joined.kind = .entries := by
  unfold addEntry?
  rcases hbefore with hbefore | hbefore
  · rw [hentry, hbefore]
    exact ⟨_, rfl, rfl⟩
  · rw [hentry, hbefore]
    cases before.content <;> exact ⟨_, rfl, rfl⟩

/-- **A separator joins the entry behind it** to those before it. -/
theorem Following.separator {σ : Style} {entry joined : Node} (ht : look t = σ.separator)
    (hread : Reading stop 10 ts entry rest)
    (hadd : addEntry? ((t.span.join before.span).join entry.span) before entry = some joined)
    (h : Following stop 0 joined rest n left) : Following stop 0 before (t :: ts) n left := by
  obtain ⟨k, hk, htrailing, hpower⟩ := nextKeyword?_separator ht
  refine .of_join hk htrailing (by omega) (fun steps hsteps => ?_) (Nat.le_of_lt hread.length_lt) h
  rw [hpower]
  unfold join
  simp only [hread steps hsteps, bind, Except.bind, hadd]
  rfl

/-- **A block is read** with what is between its marks. -/
theorem Reading.block {σ : Style} {opening closing : Token} {inner : Node} (hopening : look opening = σ.opening)
    (hclosing : look closing = σ.closing) (hinner : Reading stop 0 (ts ++ closing :: rest) inner (closing :: rest))
    (h : Following stop power inner rest n left) :
    Reading stop power (opening :: (ts ++ closing :: rest)) n left := by
  obtain ⟨lexeme, kind, span⟩ := opening
  obtain ⟨lexeme', kind', span'⟩ := closing
  have hlength : rest.length ≤ (ts ++ (⟨lexeme', kind', span'⟩ : Token) :: rest).length := by
    rw [List.length_append, List.length_cons]
    omega
  cases σ with
  | lines =>
    obtain ⟨rfl, rfl⟩ := Prod.mk.inj hopening
    obtain ⟨rfl, rfl⟩ := Prod.mk.inj hclosing
    have hk : Grammar.standard.get? Grammar.indentName =
        some { name := Grammar.indentName, leading := some .block } := by decide +kernel
    refine .of_lead hk rfl (fun steps hsteps => ?_) hlength h
    unfold lead
    simp only [hinner steps hsteps, bind, Except.bind]
    rfl
  | braces =>
    obtain ⟨rfl, rfl⟩ := Prod.mk.inj hopening
    obtain ⟨rfl, rfl⟩ := Prod.mk.inj hclosing
    have hname : nextName (ts ++ (⟨"\x7d", .delimiter, span'⟩ : Token) :: rest) ≠ "\x7d" := by
      intro hname
      obtain ⟨_, _, -, leading, hleading⟩ := leading_of_expression (hinner _ (Nat.le_refl _))
      have hnone : (Grammar.standard.get? "\x7d").bind (·.leading) = none := by decide +kernel
      rw [nextKeyword?, hname, hnone] at hleading
      cases hleading
    refine .of_lead get?_brace rfl (fun steps hsteps => ?_) hlength h
    unfold lead
    simp only [if_neg hname, hinner steps hsteps, bind, Except.bind]
    rfl

/-- **An entry is read** from a key and a value that are. -/
theorem reading_entry {k : Outline.Key} {colon : Token} {us vs : List Token} (hus : us.map look = k.looks)
    (hcolon : look colon = mark ":") {value : Node} (hvalue : ∀ {rest : List Token},
      nextPower .standard rest ≤ valuePower → Reading stop valuePower (vs ++ rest) value rest) :
    ∃ entry : Node, entry.kind = .entry ∧ ∀ {power : Nat} {rest : List Token} {n : Node} {left : List Token},
      power < 20 → nextPower .standard rest ≤ valuePower → Following stop power entry rest n left →
      Reading stop power (us ++ colon :: (vs ++ rest)) n left := by
  obtain ⟨key, hkey⟩ := reading_key hus stop
  have hspells := spells_of_mark hcolon
  exact ⟨leaf ":" .entry ((colon.span.join key.span).join value.span) (.items [key, value]), rfl,
    fun hpower hrest hfollows => hkey hspells hpower (.entry hspells hpower (hvalue hrest) hfollows)⟩

section Tokens

variable {σ : Style} {key : Outline.Key} {value : Outline.Value} {further : Outline}

/-- The tokens of a last entry. -/
theorem tokens_last (h : ts.map look = (Outline.last key value).looks σ) : ∃ us colon vs, ts = us ++ colon :: vs ∧
    us.map look = key.looks ∧ look colon = mark ":" ∧ vs.map look = value.looks σ := by
  obtain ⟨us, ws, rfl, hus, hws⟩ := List.map_eq_append_iff.mp h
  obtain ⟨colon, vs, rfl, hcolon, hvs⟩ := List.map_eq_cons_iff.mp hws
  exact ⟨us, colon, vs, rfl, hus, hcolon, hvs⟩

/-- The tokens of an entry and of those behind it. -/
theorem tokens_more (h : ts.map look = (Outline.more key value further).looks σ) : ∃ us colon vs separator ws,
    ts = us ++ colon :: (vs ++ separator :: ws) ∧ us.map look = key.looks ∧ look colon = mark ":" ∧
      vs.map look = value.looks σ ∧ look separator = σ.separator ∧ ws.map look = further.looks σ := by
  obtain ⟨us, xs, rfl, hus, hxs⟩ := List.map_eq_append_iff.mp h
  obtain ⟨colon, ys, rfl, hcolon, hys⟩ := List.map_eq_cons_iff.mp hxs
  obtain ⟨vs, zs, rfl, hvs, hzs⟩ := List.map_eq_append_iff.mp hys
  obtain ⟨separator, ws, rfl, hseparator, hws⟩ := List.map_eq_cons_iff.mp hzs
  exact ⟨us, colon, vs, separator, ws, rfl, hus, hcolon, hvs, hseparator, hws⟩

end Tokens

mutual

/-- **A value is read** up to what does not belong to an entry. -/
theorem reading_value (σ : Style) (stop : Nat) : (v : Outline.Value) → {ts : List Token} → ts.map look = v.looks σ →
    ∃ n, ∀ {rest : List Token}, nextPower .standard rest ≤ valuePower → Reading stop valuePower (ts ++ rest) n rest
  | .expression x, ts, h => by
    obtain ⟨n, hn⟩ := reading_expression h stop
    exact ⟨n, fun hrest => hn (by decide) hrest⟩
  | .block _ entries, ts, h => by
    obtain ⟨opening, ws, rfl, hopening, hws⟩ := List.map_eq_cons_iff.mp h
    obtain ⟨us, vs, rfl, hus, hvs⟩ := List.map_eq_append_iff.mp hws
    obtain ⟨closing, rfl, hclosing⟩ := List.map_eq_singleton_iff.mp hvs
    obtain ⟨n, hn⟩ := reading_outline σ stop entries hus
    refine ⟨n, fun hrest => ?_⟩
    rw [List.cons_append, List.append_assoc]
    exact .block hopening hclosing (hn (nextPower_closing hclosing)) (.ends hrest)

/-- **The entries of a block are read**, up to the end of the block. -/
theorem reading_outline (σ : Style) (stop : Nat) : (o : Outline) → {ts : List Token} → ts.map look = o.looks σ →
    ∃ n, ∀ {rest : List Token}, nextPower .standard rest = 0 → Reading stop 0 (ts ++ rest) n rest
  | .last key value, ts, h => by
    obtain ⟨us, colon, vs, rfl, hus, hcolon, hvs⟩ := tokens_last h
    obtain ⟨v, hv⟩ := reading_value σ stop value hvs
    obtain ⟨entry, -, hread⟩ := reading_entry hus hcolon hv
    refine ⟨entry, fun {rest} hrest => ?_⟩
    rw [List.append_assoc, List.cons_append]
    exact hread (by decide) (by omega) (.ends (Nat.le_of_eq hrest))
  | .more key value further, ts, h => by
    obtain ⟨us, colon, vs, separator, ws, rfl, hus, hcolon, hvs, hseparator, hws⟩ := tokens_more h
    obtain ⟨v, hv⟩ := reading_value σ stop value hvs
    obtain ⟨entry, hentry, hread⟩ := reading_entry hus hcolon hv
    obtain ⟨n, hn⟩ := following_outline σ stop further hseparator hws entry (.inl hentry)
    refine ⟨n, fun {rest} hrest => ?_⟩
    rw [List.append_assoc, List.cons_append, List.append_assoc, List.cons_append]
    exact hread (by decide) (by rw [nextPower_separator hseparator]; decide) (hn hrest)

/-- **Further entries are read** behind those that were. -/
theorem following_outline (σ : Style) (stop : Nat) : (o : Outline) → {separator : Token} → {ts : List Token} →
    look separator = σ.separator → ts.map look = o.looks σ → (before : Node) →
    (before.kind = .entry ∨ before.kind = .entries) → ∃ n, ∀ {rest : List Token}, nextPower .standard rest = 0 →
      Following stop 0 before (separator :: (ts ++ rest)) n rest
  | .last key value, t, ts, ht, h, before, hbefore => by
    obtain ⟨us, colon, vs, rfl, hus, hcolon, hvs⟩ := tokens_last h
    obtain ⟨v, hv⟩ := reading_value σ stop value hvs
    obtain ⟨entry, hentry, hread⟩ := reading_entry hus hcolon hv
    obtain ⟨joined, hadd, -⟩ := exists_addEntry? hbefore hentry ((t.span.join before.span).join entry.span)
    refine ⟨joined, fun {rest} hrest => .separator ht ?_ hadd (.ends (Nat.le_of_eq hrest))⟩
    rw [List.append_assoc, List.cons_append]
    exact hread (by decide) (by omega) (.ends (by omega))
  | .more key value further, t, ts, ht, h, before, hbefore => by
    obtain ⟨us, colon, vs, separator, ws, rfl, hus, hcolon, hvs, hseparator, hws⟩ := tokens_more h
    obtain ⟨v, hv⟩ := reading_value σ stop value hvs
    obtain ⟨entry, hentry, hread⟩ := reading_entry hus hcolon hv
    obtain ⟨joined, hadd, hkind⟩ := exists_addEntry? hbefore hentry ((t.span.join before.span).join entry.span)
    obtain ⟨n, hn⟩ := following_outline σ stop further hseparator hws joined (.inr hkind)
    refine ⟨n, fun {rest} hrest => .separator ht ?_ hadd (hn hrest)⟩
    have hten : nextPower .standard (separator :: (ws ++ rest)) = 10 := nextPower_separator hseparator
    rw [List.append_assoc, List.cons_append, List.append_assoc, List.cons_append]
    exact hread (by decide) (by rw [hten]; decide) (.ends (Nat.le_of_eq hten))

end

end Node

namespace Outline

open Token (look braced Plain)

/-! ## The two ways of writing -/

/-- What has this look is no range, and is taken for the indentation of a line only if it is. -/
def PlainLook (l : Look) : Prop := l.1 = .operator ∨ l.1 = .delimiter →
  l.2 ∉ ["..", Grammar.newlineName, Grammar.indentName, Grammar.dedentName]

theorem plainLook_of_ne {l : Look} (h : l.1 ≠ .operator ∧ l.1 ≠ .delimiter) : PlainLook l := fun hkind =>
  (hkind.elim h.1 h.2).elim

theorem Atom.plainLook (x : Atom) : PlainLook x.look := by
  cases x <;> exact plainLook_of_ne ⟨nofun, nofun⟩

theorem plainLook_name (w : Word .identifier) : PlainLook w.look := (Atom.name w).plainLook

theorem Operand.plainLooks (x : Operand) : ∀ l ∈ x.looks, PlainLook l := by
  refine List.forall_mem_append.mpr ⟨fun l hl => ?_, List.forall_mem_singleton.mpr x.atom.plainLook⟩
  obtain ⟨op, -, rfl⟩ := List.mem_map.mp hl
  exact fun _ => by cases op <;> decide

theorem plainLook_opLooks (op : BinaryOp) : ∀ l ∈ opLooks op, PlainLook l := by
  have hall : ∀ op ∈ BinaryOp.all, ∀ l ∈ opLooks op,
      l.2 ∉ ["..", Grammar.newlineName, Grammar.indentName, Grammar.dedentName] := by decide
  exact fun l hl _ => hall op (BinaryOp.mem_all op) l hl

theorem Expression.plainLooks (x : Expression) : ∀ l ∈ x.looks, PlainLook l := by
  refine List.forall_mem_append.mpr ⟨x.first.plainLooks, fun l hl => ?_⟩
  obtain ⟨further, -, hl⟩ := List.mem_flatMap.mp hl
  exact (List.mem_append.mp hl).elim (plainLook_opLooks further.1 l) (further.2.plainLooks l)

theorem plainLook_parameterLooks (params : List (Word .identifier)) : ∀ l ∈ parameterLooks params, PlainLook l := by
  have hopening : PlainLook (mark "(") := fun _ => by decide
  have hclosing : PlainLook (mark ")") := fun _ => by decide
  have hcomma : PlainLook (mark ",") := fun _ => by decide
  unfold parameterLooks
  refine List.forall_mem_cons.mpr ⟨hopening, List.forall_mem_append.mpr ⟨?_, List.forall_mem_singleton.mpr hclosing⟩⟩
  cases params with
  | nil => nofun
  | cons p ps =>
    refine List.forall_mem_cons.mpr ⟨plainLook_name p, fun l hl => ?_⟩
    obtain ⟨q, -, hl⟩ := List.mem_flatMap.mp hl
    exact List.forall_mem_cons.mpr ⟨hcomma, List.forall_mem_singleton.mpr (plainLook_name q)⟩ l hl

theorem Key.plainLooks (k : Key) : ∀ l ∈ k.looks, PlainLook l := by
  have hif : PlainLook (operator "if") := fun _ => by decide
  have helse : PlainLook (operator "else") := fun _ => by decide
  cases k with
  | atom x => exact List.forall_mem_singleton.mpr x.plainLook
  | parameters params => exact plainLook_parameterLooks params
  | guarded params guard =>
    exact List.forall_mem_append.mpr ⟨plainLook_parameterLooks params,
      List.forall_mem_cons.mpr ⟨hif, guard.plainLooks⟩⟩
  | signature name params => exact List.forall_mem_cons.mpr ⟨plainLook_name name, plainLook_parameterLooks params⟩
  | ifThen condition => exact List.forall_mem_cons.mpr ⟨hif, condition.plainLooks⟩
  | elseIf condition =>
    exact List.forall_mem_cons.mpr ⟨helse, List.forall_mem_cons.mpr ⟨hif, condition.plainLooks⟩⟩
  | otherwise => exact List.forall_mem_singleton.mpr helse

theorem plainLook_colon : PlainLook (mark ":") := fun _ => by decide

/-- The marks of a style are plain. -/
theorem Style.plainLook (σ : Style) : PlainLook σ.separator ∧ PlainLook σ.opening ∧ PlainLook σ.closing := by
  cases σ with
  | lines => exact ⟨plainLook_of_ne ⟨nofun, nofun⟩, plainLook_of_ne ⟨nofun, nofun⟩, plainLook_of_ne ⟨nofun, nofun⟩⟩
  | braces => exact ⟨fun _ => by decide, fun _ => by decide, fun _ => by decide⟩

mutual

/-- **No token of a block tree is a range.** -/
theorem plainLooks (σ : Style) : (o : Outline) → ∀ l ∈ o.looks σ, PlainLook l
  | last key value => List.forall_mem_append.mpr ⟨key.plainLooks,
      List.forall_mem_cons.mpr ⟨plainLook_colon, value.plainLooks σ⟩⟩
  | more key value rest => List.forall_mem_append.mpr ⟨key.plainLooks, List.forall_mem_cons.mpr ⟨plainLook_colon,
      List.forall_mem_append.mpr ⟨value.plainLooks σ,
        List.forall_mem_cons.mpr ⟨σ.plainLook.1, rest.plainLooks σ⟩⟩⟩⟩

theorem Value.plainLooks (σ : Style) : (v : Value) → ∀ l ∈ v.looks σ, PlainLook l
  | .expression x => x.plainLooks
  | .block _ entries => List.forall_mem_cons.mpr ⟨σ.plainLook.2.1,
      List.forall_mem_append.mpr ⟨entries.plainLooks σ, List.forall_mem_singleton.mpr σ.plainLook.2.2⟩⟩

end

/-- The tokens of a block tree are those of no range. -/
theorem plain_of_looks {o : Outline} {σ : Style} {ts : List Token} (h : ts.map look = o.looks σ) :
    ∀ t ∈ ts, t.Plain := fun t ht => o.plainLooks σ (look t) (h ▸ List.mem_map_of_mem ht)

/-- What a token of this look is in braces. -/
def bracedLook (l : Look) : Token := braced ⟨l.2, l.1, .nowhere⟩

theorem map_braced (ts : List Token) : ts.map braced = (ts.map look).map bracedLook := by
  rw [List.map_map]
  refine List.map_congr_left fun t _ => ?_
  obtain ⟨lexeme, kind, span⟩ := t
  cases kind <;> rfl

mutual

/-- **In braces** the tokens of both ways of writing are the same. -/
theorem bracedLooks (σ : Style) : (o : Outline) → (o.looks σ).map bracedLook = (o.looks .braces).map bracedLook
  | last key value => by
    simp only [looks, List.map_append, List.map_cons, value.bracedLooks σ]
  | more key value rest => by
    have hseparator : bracedLook σ.separator = bracedLook Style.braces.separator := by cases σ <;> rfl
    simp only [looks, List.map_append, List.map_cons, value.bracedLooks σ, rest.bracedLooks σ, hseparator]

theorem Value.bracedLooks (σ : Style) :
    (v : Value) → (v.looks σ).map bracedLook = (v.looks .braces).map bracedLook
  | .expression _ => rfl
  | .block _ entries => by
    have hopening : bracedLook σ.opening = bracedLook Style.braces.opening := by cases σ <;> rfl
    have hclosing : bracedLook σ.closing = bracedLook Style.braces.closing := by cases σ <;> rfl
    simp only [Value.looks, List.map_append, List.map_cons, List.map_nil, entries.bracedLooks σ, hopening, hclosing]

end

/-- **The tokens of a block tree are read**, in either way of writing. -/
theorem parse_looks {o : Outline} {σ : Style} {ts : List Token} (h : ts.map look = o.looks σ) :
    ∃ n, Node.parse .standard ts = .ok n := by
  obtain ⟨n, hn⟩ := Node.reading_outline σ (Node.endOf ts) o h
  have hread : Node.Reading (Node.endOf ts) 0 (ts ++ []) n [] := hn Node.nextPower_nil
  rw [List.append_nil] at hread
  exact ⟨n, Node.parse_of_expression (hread (Node.enoughSteps ts) (Nat.le_add_right _ _))⟩

/-- **Blocks on lines and blocks in braces mean the same.** A block tree is read in both ways of writing, with the
same tree but for its places, and the two trees are the same formula but for its places or are faulty for the same
cause. -/
theorem read_onLines_inBraces (o : Outline) (margin : Nat) : ∃ ts ts' n n',
    Token.scan .standard (o.onLines margin) = .ok ts ∧ Node.parse .standard ts = .ok n ∧
    Token.scan .standard o.inBraces = .ok ts' ∧ Node.parse .standard ts' = .ok n' ∧ n.bare = n'.bare ∧
    ∀ cell, bareResult Formula.bare (Formula.ofNode cell n) = bareResult Formula.bare (Formula.ofNode cell n') := by
  obtain ⟨ts, hscan, hlooks⟩ := o.scan_onLines margin
  obtain ⟨ts', hscan', hlooks'⟩ := o.scan_inBraces
  obtain ⟨n, hparse⟩ := parse_looks hlooks
  obtain ⟨n', hparse'⟩ := parse_looks hlooks'
  have htokens : ts.map braced = ts'.map braced := by
    rw [map_braced, map_braced, hlooks, hlooks', o.bracedLooks .lines]
  have hbare : n.bare = n'.bare := by
    have hbraced := Node.parse_braced (plain_of_looks hlooks) hparse
    have hbraced' := Node.parse_braced (plain_of_looks hlooks') hparse'
    rw [htokens] at hbraced
    exact Except.ok.inj (hbraced.symm.trans hbraced')
  refine ⟨ts, ts', n, n', hscan, hparse, hscan', hparse', hbare, fun cell => ?_⟩
  rw [← Formula.ofNode_bare, ← Formula.ofNode_bare, hbare]

end Outline

end Cellbook
