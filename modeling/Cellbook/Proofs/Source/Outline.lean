import Cellbook.Operator
import Cellbook.Proofs.Source.Respaced

/-!
# Outlines

A block tree (`Outline`) is written in two ways: on lines, one entry a line and each nested block on further lines
that are deeper indented, and on one line, with commas between entries and nested blocks in braces. Both ways
are scanned to the same lexemes, with tokens of indentation in the one where commas and braces stand in the
other (`Outline.scan_onLines`, `Outline.scan_inBraces`).

On lines the end of a block leaves no trace: the next line closes it, together with those inside of it, or else
the end of the source does. So what is scanned of a block lacks its end, and the ends of all blocks that are done
are owed (`Outline.ends_lines`).
-/

namespace Cellbook

open Token (look)

/-- How a token looks: its kind, with the value of a literal, and how it reads. -/
abbrev Look : Type := TokenKind × String

/-- **A word of a kind**, as it is written: where an operand may begin the scanner cuts it off whole. -/
structure Word (kind : TokenKind) where
  head : Char
  tail : List Char
  not_blank : Text.isBlank head = false
  next_eq : Lexeme.next .standard false head tail 0 = .ok ⟨tail.length + 1, kind, head :: tail⟩

def Word.look {kind : TokenKind} (w : Word kind) : Look := (kind, String.ofList (w.head :: w.tail))

namespace Outline

/-! ## Outlines -/

def mark (name : String) : Look := (.delimiter, name)

def operator (name : String) : Look := (.operator, name)

/-- A literal or a name. -/
inductive Atom where
  | literal (v : Scalar) (w : Word (.literal v))
  | name (w : Word .identifier)

def Atom.look : Atom → Look
  | literal _ w => w.look
  | name w => w.look

/-- A literal or a name with prefix operators in front. -/
structure Operand where
  negations : List UnaryOp
  atom : Atom

def Operand.looks (x : Operand) : List Look := x.negations.map (operator ·.symbol) ++ [x.atom.look]

/-- The words of an operator between two operands. -/
def opLooks : BinaryOp → List Look
  | .notIn => [operator "not", operator "in"]
  | op => [operator op.symbol]

/-- **An expression**: operands with operators between them. -/
structure Expression where
  first : Operand
  more : List (BinaryOp × Operand)

def Expression.looks (x : Expression) : List Look :=
  x.first.looks ++ x.more.flatMap fun (op, y) => opLooks op ++ y.looks

/-- Names with commas between them, in parentheses. -/
def parameterLooks (params : List (Word .identifier)) : List Look :=
  mark "(" :: (match params with
    | [] => []
    | p :: ps => p.look :: ps.flatMap fun q => [mark ",", q.look]) ++ [mark ")"]

/-- **The key of an entry.** -/
inductive Key where
  | atom (x : Atom)
  | parameters (params : List (Word .identifier))
  | guarded (params : List (Word .identifier)) (guard : Expression)
  | signature (name : Word .identifier) (params : List (Word .identifier))
  | ifThen (condition : Expression)
  | elseIf (condition : Expression)
  | otherwise

def Key.looks : Key → List Look
  | atom x => [x.look]
  | parameters params => parameterLooks params
  | guarded params guard => parameterLooks params ++ operator "if" :: guard.looks
  | signature name params => name.look :: parameterLooks params
  | ifThen condition => operator "if" :: condition.looks
  | elseIf condition => operator "else" :: operator "if" :: condition.looks
  | otherwise => [operator "else"]

end Outline

mutual

/-- **A block tree**: a key and a value, and further ones or not. -/
inductive Outline where
  | last (key : Outline.Key) (value : Outline.Value)
  | more (key : Outline.Key) (value : Outline.Value) (rest : Outline)

/-- An expression, or again a block. Its lines are by more spaces deeper than those around it than `deeper` says. -/
inductive Outline.Value where
  | expression (x : Outline.Expression)
  | block (deeper : Nat) (entries : Outline)

end

namespace Outline

/-! ## The two ways of writing -/

/-- **How blocks are written**: what stands between two entries and around a nested block. -/
inductive Style where
  | lines
  | braces

namespace Style

def separator : Style → Look
  | lines => (.newline, "\n")
  | braces => mark ","

def opening : Style → Look
  | lines => (.indent, "")
  | braces => mark "\x7b"

def closing : Style → Look
  | lines => (.dedent, "")
  | braces => mark "\x7d"

end Style

mutual

/-- How the tokens of a block tree look. -/
def looks (σ : Style) : Outline → List Look
  | last key value => key.looks ++ mark ":" :: value.looks σ
  | more key value rest => key.looks ++ mark ":" :: (value.looks σ ++ σ.separator :: rest.looks σ)

def Value.looks (σ : Style) : Value → List Look
  | .expression x => x.looks
  | .block _ entries => σ.opening :: (entries.looks σ ++ [σ.closing])

end

/-- Lexemes on one line, each with a space in front of it. -/
def written (ls : List Look) : List Char := ls.flatMap fun l => ' ' :: l.2.toList

mutual

/-- The lines of a block tree behind the margin of the first one. -/
def lines (margin : Nat) : Outline → List Char
  | last key value => written (key.looks ++ [mark ":"]) ++ value.lines margin
  | more key value rest =>
    written (key.looks ++ [mark ":"]) ++ (value.lines margin ++
      '\n' :: (List.replicate margin ' ' ++ rest.lines margin))

def Value.lines (margin : Nat) : Value → List Char
  | .expression x => written x.looks
  | .block deeper entries =>
    '\n' :: (List.replicate (margin + (deeper + 1)) ' ' ++ entries.lines (margin + (deeper + 1)))

end

/-- **A block tree on lines**, one entry a line. -/
def onLines (margin : Nat) (o : Outline) : String := String.ofList (List.replicate margin ' ' ++ o.lines margin)

/-- **A block tree on one line**, with commas and braces. -/
def inBraces (o : Outline) : String := String.ofList (written (o.looks .braces))

example :
    let a : Word .identifier := ⟨'a', [], rfl, rfl⟩
    let b : Word .identifier := ⟨'b', [], rfl, rfl⟩
    let sum : Outline.Value := .expression ⟨⟨[], .name a⟩, [(.add, ⟨[.neg], .name b⟩)]⟩
    let o : Outline := .more (.atom (.name a)) (.block 1 (.last (.signature b [a]) (.block 0 (.last .otherwise sum))))
      (.last (.atom (.name b)) sum)
    o.onLines 0 = " a :\n   b ( a ) :\n    else : a + - b\n b : a + - b" ∧
      o.inBraces = " a : \x7b b ( a ) : \x7b else : a + - b \x7d \x7d , b : a + - b" := by
  decide +kernel

theorem written_append (ls ms : List Look) : written (ls ++ ms) = written ls ++ written ms := List.flatMap_append

end Outline

open Outline

/-! ## Words -/

namespace Word

variable {kind : TokenKind} (w : Word kind)

/-- A word stands alone. -/
theorem firm : Lexeme.Firm false kind w.head w.tail := by
  obtain ⟨-, -, d, ds, htext, hfirm, -⟩ := Lexeme.next_recut w.not_blank w.next_eq
  obtain ⟨hd, hds⟩ := List.cons.inj htext
  rw [hd, hds]
  exact hfirm

/-- A literal or a name does not begin with a bracket. -/
theorem head_not_mem_brackets (hoperator : kind ≠ .operator) (hdelimiter : kind ≠ .delimiter) :
    w.head ∉ Lexeme.brackets := by
  intro hmem
  have hmark : Lexeme.next .standard false w.head w.tail 0 = .ok (Lexeme.mark .standard 1 (w.head :: w.tail)) := by
    simp only [Lexeme.brackets, List.mem_cons, List.not_mem_nil, or_false] at hmem
    rcases hmem with h | h | h | h | h | h <;> rw [h] <;> rfl
  have hkind : (Lexeme.mark .standard 1 (w.head :: w.tail)).kind = kind :=
    congrArg Lexeme.kind (Except.ok.inj (hmark.symm.trans w.next_eq))
  unfold Lexeme.mark at hkind
  dsimp only at hkind
  split at hkind
  · exact hoperator hkind.symm
  · exact hdelimiter hkind.symm

end Word

namespace Scanner

open Lexeme (Apart Firm)

/-! ## Lexemes on a line -/

/-- **Lexemes follow one another**, from behind an operand or not to behind one or not, and from one depth of
brackets to another. -/
inductive Follow : (after : Bool) → (depth : Nat) → List Look → (after' : Bool) → (depth' : Nat) → Prop
  | nil {after : Bool} {depth : Nat} : Follow after depth [] after depth
  | cons {after after' : Bool} {depth depth' : Nat} {kind : TokenKind} {c : Char} {cs : List Char} {ls : List Look}
      (hfirm : Firm after kind c cs)
      (h : Follow (Token.endsOperand ⟨String.ofList (c :: cs), kind, ⟨0, 0⟩⟩) (depthAfter depth c) ls after' depth') :
    Follow after depth ((kind, String.ofList (c :: cs)) :: ls) after' depth'

namespace Follow

variable {after after' after'' : Bool} {depth depth' depth'' : Nat} {ls ms : List Look}

theorem append (h : Follow after depth ls after' depth') (h' : Follow after' depth' ms after'' depth'') :
    Follow after depth (ls ++ ms) after'' depth'' := by
  induction h with
  | nil => exact h'
  | cons hfirm _ ih => exact .cons hfirm (ih h')

/-- The mark in front of something. -/
theorem mark {c : Char} (hc : c ∈ ['(', ')', '{', '}', ',', ':']) : Follow after depth [mark (String.ofList [c])]
    (c == ')' || c == '}') (depthAfter depth c) := by
  have hall : ['(', ')', '{', '}', ',', ':'].all fun c => (Lexeme.mark .standard 1 [c]).kind = .delimiter := by
    decide +kernel
  have hkind : (Lexeme.mark .standard 1 [c]).kind = .delimiter := of_decide_eq_true (List.all_eq_true.mp hall c hc)
  simp only [List.mem_cons, List.not_mem_nil, or_false] at hc
  have hmark : Lexeme.isMarkChar c := by rcases hc with rfl | rfl | rfl | rfl | rfl | rfl <;> rfl
  have hends : Token.endsOperand ⟨String.ofList [c], .delimiter, ⟨0, 0⟩⟩ = (c == ')' || c == '}') := by
    rcases hc with rfl | rfl | rfl | rfl | rfl | rfl <;> rfl
  have hfirm : Firm after (Lexeme.mark .standard 1 [c]).kind c [] := .mark hmark
  rw [hkind] at hfirm
  exact .cons hfirm (hends ▸ .nil)

theorem operator {name : String} (h : Grammar.standard.isOperator name) :
    Follow after depth [operator name] false depth := by
  rw [← String.ofList_toList (s := name)] at h
  obtain ⟨c, cs, hname, hfirm, hbracket⟩ := Firm.operator after h
  have hlook : Outline.operator name = (.operator, String.ofList (c :: cs)) := by
    rw [← hname, String.ofList_toList]
    rfl
  rw [hlook]
  refine .cons hfirm ?_
  rw [Lexeme.depthAfter_eq_self hbracket]
  exact .nil

/-- The words of conditions and of operators are operators of the grammar. -/
theorem isOperator_of_mem {name : String} (h : name ∈ ["if", "else", "not", "in", "-"]) :
    Grammar.standard.isOperator name := by
  have hall : ["if", "else", "not", "in", "-"].all Grammar.standard.isOperator := by decide +kernel
  exact List.all_eq_true.mp hall name h

theorem word {kind : TokenKind} (w : Word kind) (hkind : kind = .identifier ∨ ∃ v, kind = .literal v) :
    Follow false depth [w.look] true depth := by
  have hbracket : w.head ∉ Lexeme.brackets := by
    refine w.head_not_mem_brackets ?_ ?_ <;> rcases hkind with rfl | ⟨v, rfl⟩ <;> nofun
  have hends : Token.endsOperand ⟨String.ofList (w.head :: w.tail), kind, ⟨0, 0⟩⟩ = true := by
    rcases hkind with rfl | ⟨v, rfl⟩ <;> rfl
  refine .cons w.firm ?_
  rw [Lexeme.depthAfter_eq_self hbracket, hends]
  exact .nil

theorem atom (x : Atom) : Follow false depth [x.look] true depth := by
  cases x with
  | literal v w => exact .word w (.inr ⟨v, rfl⟩)
  | name w => exact .word w (.inl rfl)

theorem operand (x : Operand) : Follow false depth x.looks true depth := by
  obtain ⟨negations, a⟩ := x
  unfold Operand.looks
  induction negations with
  | nil => exact .atom a
  | cons op negations ih =>
    have hop : op.symbol ∈ ["if", "else", "not", "in", "-"] := by cases op <;> decide
    exact (Follow.operator (isOperator_of_mem hop)).append ih

theorem opLooks (op : BinaryOp) : Follow after depth (opLooks op) false depth := by
  have hnot : Follow after depth [Outline.operator "not"] false depth := .operator (isOperator_of_mem (by decide))
  have hin : Follow false depth [Outline.operator "in"] false depth := .operator (isOperator_of_mem (by decide))
  have hop : op ≠ .notIn → Grammar.standard.isOperator op.symbol := by
    intro hop
    have hall : BinaryOp.all.all fun op => op = .notIn || Grammar.standard.isOperator op.symbol := by decide +kernel
    have h := List.all_eq_true.mp hall op (BinaryOp.mem_all op)
    rwa [decide_eq_false hop, Bool.false_or] at h
  cases op with
  | notIn => exact hnot.append hin
  | _ => exact .operator (hop nofun)

theorem expression (x : Outline.Expression) : Follow false depth x.looks true depth := by
  obtain ⟨first, more⟩ := x
  refine (Follow.operand first).append ?_
  induction more with
  | nil => exact .nil
  | cons further more ih => exact ((Follow.opLooks further.1).append (.operand further.2)).append ih

theorem parameters (params : List (Word .identifier)) : Follow after depth (parameterLooks params) true depth := by
  have hclose (after : Bool) : Follow after (depth + 1) [Outline.mark ")"] true depth := .mark (by decide)
  have hnames : ∃ after', Follow false (depth + 1) (match params with
      | [] => []
      | p :: ps => p.look :: ps.flatMap fun q => [Outline.mark ",", q.look]) after' (depth + 1) := by
    cases params with
    | nil => exact ⟨_, .nil⟩
    | cons p ps =>
      refine ⟨true, (Follow.word p (.inl rfl)).append (?_ : Follow true (depth + 1) _ true (depth + 1))⟩
      induction ps with
      | nil => exact .nil
      | cons q ps ih =>
        have hcomma : Follow true (depth + 1) [Outline.mark ","] false (depth + 1) := .mark (by decide)
        exact (hcomma.append (.word q (.inl rfl))).append ih
  obtain ⟨after', hnames⟩ := hnames
  have hopen : Follow after depth [Outline.mark "("] false (depth + 1) := .mark (by decide)
  exact (hopen.append hnames).append (hclose after')

/-- A key with its colon. -/
theorem key (k : Outline.Key) : Follow false depth (k.looks ++ [Outline.mark ":"]) false depth := by
  have hcolon (after : Bool) : Follow after depth [Outline.mark ":"] false depth := .mark (by decide)
  have hif (after : Bool) : Follow after depth [Outline.operator "if"] false depth :=
    .operator (isOperator_of_mem (by decide))
  have helse : Follow false depth [Outline.operator "else"] false depth := .operator (isOperator_of_mem (by decide))
  cases k with
  | atom x => exact (Follow.atom x).append (hcolon true)
  | parameters params => exact (Follow.parameters params).append (hcolon true)
  | guarded params guard =>
    exact ((Follow.parameters params).append ((hif true).append (.expression guard))).append (hcolon true)
  | signature name params =>
    exact ((Follow.word name (.inl rfl)).append (.parameters params)).append (hcolon true)
  | ifThen condition => exact ((hif false).append (.expression condition)).append (hcolon true)
  | elseIf condition =>
    exact (helse.append ((hif false).append (.expression condition))).append (hcolon true)
  | otherwise => exact helse.append (hcolon false)

end Follow

/-- A scanner stands in front of a text, or behind the space that it begins with. -/
def At (s : Scanner) (text : List Char) : Prop := s.rest = text ∨ ' ' :: s.rest = text

theorem At.rest_of_ne {s : Scanner} {c : Char} {cs : List Char} (h : s.At (c :: cs)) (hc : c ≠ ' ') :
    s.rest = c :: cs :=
  h.resolve_right fun heq => hc (List.cons.inj heq).1.symm

theorem apart_written {ls : List Look} {tail : List Char} (htail : Apart tail) : Apart (written ls ++ tail) := by
  cases ls with
  | nil => exact htail
  | cons l ls => exact .cons List.mem_cons_self

/-- **A line is scanned**, and then what stands behind it. -/
theorem ends_written {ls after : List Look} {after' : Bool} {depth' : Nat} {s : Scanner} {tail : List Char}
    (h : Follow s.afterOperand s.depth ls after' depth') (hat : s.At (written ls ++ tail)) (htail : Apart tail)
    (hends : ∀ s' : Scanner, s'.At tail → s'.indents = s.indents → s'.depth = depth' → s'.afterOperand = after' →
      Ends s' after) : Ends s (ls ++ after) := by
  generalize hafter : s.afterOperand = a at h
  generalize hdepth : s.depth = d at h
  induction h generalizing s with
  | nil => exact hends s hat rfl hdepth hafter
  | @cons _ _ _ _ kind c cs ls hfirm _ ih =>
    have htext : written ((kind, String.ofList (c :: cs)) :: ls) ++ tail =
        ' ' :: c :: (cs ++ (written ls ++ tail)) := by
      rw [written, List.flatMap_cons, String.toList_ofList, written]
      simp
    rw [htext] at hat
    -- the space before the lexeme
    obtain ⟨s₁, hspace, hs₁, htokens, hindents, hdepth₁⟩ : ∃ s₁, Reaches .standard s s₁ ∧
        s₁.rest = c :: (cs ++ (written ls ++ tail)) ∧ s₁.tokens = s.tokens ∧ s₁.indents = s.indents ∧
        s₁.depth = s.depth := by
      rcases hat with hrest | hrest
      · exact ⟨s.skip 1, reaches_blank hrest, by rw [skip, hrest]; rfl, rfl, rfl, rfl⟩
      · exact ⟨s, .refl s, (List.cons.inj hrest).2, rfl, rfl, rfl⟩
    have hafter₁ : s₁.afterOperand = s.afterOperand := by
      rw [Scanner.afterOperand, Scanner.afterOperand, htokens]
    have htake := reaches_take hs₁ hfirm.not_blank
      ((hafter₁.trans hafter) ▸ hfirm.next_eq (apart_written htail) s₁.position) (Nat.succ_pos _)
    refine Ends.of_reaches [⟨String.ofList (c :: cs), kind, ⟨s₁.position, s₁.position + (cs.length + 1)⟩⟩]
      (hspace.trans htake) (congrArg (_ :: ·) htokens) rfl (ih (.inl ?_) ?_ rfl ?_)
    · show s₁.rest.drop (cs.length + 1) = _
      rw [hs₁, List.drop_succ_cons, List.drop_left]
    · intro s' hat' hindents' hdepth' hafter'
      exact hends s' hat' (hindents'.trans hindents) hdepth' hafter'
    · exact congrArg (depthAfter · c) (hdepth₁.trans hdepth)

end Scanner

open Scanner Lexeme

namespace Outline

/-! ## Outlines on one line -/

mutual

theorem follow_braces {depth : Nat} : (o : Outline) → Follow false depth (o.looks .braces) true depth
  | last key value => by
    rw [looks, ← List.singleton_append, ← List.append_assoc]
    exact (Follow.key key).append value.follow_braces
  | more key value rest => by
    have hcomma : Follow true depth [mark ","] false depth := .mark (by decide)
    rw [looks, ← List.singleton_append, ← List.append_assoc]
    exact (Follow.key key).append (value.follow_braces.append (hcomma.append rest.follow_braces))

theorem Value.follow_braces {depth : Nat} : (v : Value) → Follow false depth (v.looks .braces) true depth
  | .expression x => .expression x
  | .block _ entries => by
    have hopening : Follow false depth [mark "\x7b"] false (depth + 1) := .mark (by decide)
    have hclosing : Follow true (depth + 1) [mark "\x7d"] true depth := .mark (by decide)
    exact hopening.append (entries.follow_braces.append hclosing)

end

/-! ## Outlines on lines -/

/-- A key begins with a space and a character that is no blank. -/
theorem exists_written_key (k : Key) : ∃ c cs, Text.isBlank c = false ∧
    written (k.looks ++ [mark ":"]) = ' ' :: c :: cs := by
  have hfollow : Follow false 0 (k.looks ++ [mark ":"]) false 0 := .key k
  generalize hls : k.looks ++ [mark ":"] = ls at hfollow
  cases hfollow with
  | nil => simp at hls
  | @cons _ _ _ _ kind c cs ls hfirm _ =>
    refine ⟨c, cs ++ written ls, hfirm.not_blank, ?_⟩
    rw [written, List.flatMap_cons, String.toList_ofList, written]
    simp

theorem exists_lines (o : Outline) (margin : Nat) :
    ∃ c cs, Text.isBlank c = false ∧ o.lines margin = ' ' :: c :: cs := by
  cases o with
  | last key value =>
    obtain ⟨c, cs, hc, hkey⟩ := exists_written_key key
    rw [lines, hkey]
    exact ⟨c, _, hc, rfl⟩
  | more key value rest =>
    obtain ⟨c, cs, hc, hkey⟩ := exists_written_key key
    rw [lines, hkey]
    exact ⟨c, _, hc, rfl⟩

theorem Value.apart_lines (v : Value) (margin : Nat) {tail : List Char} (htail : Apart tail) :
    Apart (v.lines margin ++ tail) := by
  cases v with
  | expression x => rw [lines]; exact apart_written htail
  | block deeper entries => rw [lines]; exact .cons (by decide)

/-- **Where a block of that margin is done**: the scanner stands behind it, among blocks that are deeper and whose
ends are owed. -/
structure Done (s : Scanner) (margin : Nat) (outer : List Nat) (inner : List Nat) : Prop where
  indents : s.indents = inner ++ (margin + 1) :: outer
  deeper : ∀ width ∈ inner, margin + 1 < width
  depth : s.depth = 0

theorem takeWhile_inner {inner : List Nat} (outer : List Nat) {width : Nat} (h : ∀ w ∈ inner, width < w) :
    (inner ++ width :: outer).takeWhile (width < ·) = inner ∧
      (inner ++ width :: outer).dropWhile (width < ·) = width :: outer := by
  have hall : ∀ w ∈ inner, decide (width < w) = true := fun w hw => decide_eq_true (h w hw)
  have hself : ¬ decide (width < width) = true := by simp
  rw [List.takeWhile_append_of_pos hall, List.dropWhile_append_of_pos hall, List.takeWhile_cons, if_neg hself,
    List.dropWhile_cons, if_neg hself, List.append_nil]
  exact ⟨rfl, rfl⟩

/-- The next line closes what is deeper. -/
theorem layOut_done {s : Scanner} {margin : Nat} {outer inner : List Nat} (h : Done s margin outer inner) :
    s.layOut (margin + 1) = .ok ({ s with indents := (margin + 1) :: outer }.addLayout
      (List.replicate inner.length TokenKind.dedent ++ [TokenKind.newline])) := by
  obtain ⟨hclosed, hleft⟩ := takeWhile_inner outer h.deeper
  have htop : ∃ top below, s.indents = top :: below ∧ ¬ top < margin + 1 := by
    rw [h.indents]
    cases inner with
    | nil => exact ⟨_, _, rfl, Nat.lt_irrefl _⟩
    | cons w inner => exact ⟨_, _, rfl, Nat.not_lt.mpr (Nat.le_of_lt (h.deeper w List.mem_cons_self))⟩
  obtain ⟨top, below, hindents, hnot⟩ := htop
  unfold layOut
  split
  next hnil => cases hnil.symm.trans hindents
  next top' below' hcons =>
  obtain ⟨rfl, rfl⟩ := List.cons.inj (hcons.symm.trans hindents)
  rw [if_neg hnot, h.indents, hclosed, hleft]
  exact if_pos rfl

/-- A deeper line begins a block. -/
theorem layOut_deeper {s : Scanner} {margin : Nat} {outer : List Nat} (h : s.indents = (margin + 1) :: outer)
    (width : Nat) (hwidth : margin + 1 < width) :
    s.layOut width = .ok ({ s with indents := width :: (margin + 1) :: outer }.addLayout [.indent]) := by
  unfold layOut
  rw [h]
  exact if_pos hwidth

mutual

/-- **A block tree is scanned** line by line, and then what stands behind it. -/
theorem ends_lines : (o : Outline) → {margin : Nat} → {s : Scanner} → {outer : List Nat} → {tail : List Char} →
    {after : List Look} → s.At (o.lines margin ++ tail) → Done s margin outer [] → s.afterOperand = false →
    Apart tail → (∀ (s' : Scanner) (inner : List Nat), s'.At tail → Done s' margin outer inner →
      Ends s' (List.replicate inner.length owed ++ after)) → Ends s (o.looks .lines ++ after)
  | last key value, margin, s, outer, tail, after, hat, hdone, hoperand, htail, hends => by
    have hkey : Follow s.afterOperand s.depth (key.looks ++ [mark ":"]) false 0 := by
      rw [hoperand, hdone.depth]
      exact .key key
    rw [lines, List.append_assoc] at hat
    rw [looks, ← List.singleton_append, ← List.append_assoc, List.append_assoc]
    refine ends_written hkey hat (value.apart_lines margin htail) fun s₁ hat₁ hindents hdepth hoperand₁ => ?_
    exact value.ends_lines hat₁ ⟨hindents.trans hdone.indents, nofun, hdepth⟩ hoperand₁ htail hends
  | more key value rest, margin, s, outer, tail, after, hat, hdone, hoperand, htail, hends => by
    have hkey : Follow s.afterOperand s.depth (key.looks ++ [mark ":"]) false 0 := by
      rw [hoperand, hdone.depth]
      exact .key key
    have hnext : Apart ('\n' :: (List.replicate margin ' ' ++ rest.lines margin) ++ tail) := .cons (by decide)
    have hlooks : (more key value rest).looks .lines ++ after = (key.looks ++ [mark ":"]) ++
        (value.looks .lines ++ Style.lines.separator :: (rest.looks .lines ++ after)) := by simp [looks]
    rw [lines, List.append_assoc, List.append_assoc] at hat
    rw [hlooks]
    refine ends_written hkey hat (value.apart_lines margin hnext) fun s₁ hat₁ hindents hdepth hoperand₁ => ?_
    refine value.ends_lines hat₁ ⟨hindents.trans hdone.indents, nofun, hdepth⟩ hoperand₁ hnext
      fun s₂ inner hat₂ hdone₂ => ?_
    -- the line break, with the ends of the blocks inside the value
    obtain ⟨c, cs, hc, htext⟩ := rest.exists_lines margin
    rw [htext, List.cons_append, List.append_assoc] at hat₂
    have hrest := hat₂.rest_of_ne (by decide)
    have hlayOut := layOut_done (s := { s₂ with rest := c :: (cs ++ tail), position := s₂.position + 1 + (margin + 1) })
      ⟨hdone₂.indents, hdone₂.deeper, hdone₂.depth⟩
    have hreach := reaches_line (g := .standard) hrest hdone₂.depth hc hlayOut rfl
    refine Ends.of_reaches _ hreach (addLayout_tokens _ _) ?_
      (rest.ends_lines (.inr ?_) ⟨rfl, nofun, hdone₂.depth⟩ ?_ htail hends)
    · rw [List.map_append, List.map_append, look_dedents, List.append_assoc]
      rfl
    · rw [htext]
      rfl
    · rw [Scanner.afterOperand, addLayout_tokens, List.map_append, List.reverse_append]
      rfl

theorem Value.ends_lines : (v : Value) → {margin : Nat} → {s : Scanner} → {outer : List Nat} → {tail : List Char} →
    {after : List Look} → s.At (v.lines margin ++ tail) → Done s margin outer [] → s.afterOperand = false →
    Apart tail → (∀ (s' : Scanner) (inner : List Nat), s'.At tail → Done s' margin outer inner →
      Ends s' (List.replicate inner.length owed ++ after)) → Ends s (v.looks .lines ++ after)
  | .expression x, margin, s, outer, tail, after, hat, hdone, hoperand, htail, hends => by
    have hfollow : Follow s.afterOperand s.depth x.looks true 0 := by
      rw [hoperand, hdone.depth]
      exact .expression x
    refine ends_written hfollow hat htail fun s₁ hat₁ hindents hdepth _ => ?_
    exact hends s₁ [] hat₁ ⟨hindents.trans hdone.indents, nofun, hdepth⟩
  | .block deeper entries, margin, s, outer, tail, after, hat, hdone, hoperand, htail, hends => by
    obtain ⟨c, cs, hc, htext⟩ := entries.exists_lines (margin + (deeper + 1))
    rw [Value.lines, htext, List.cons_append, List.append_assoc] at hat
    have hrest := hat.rest_of_ne (by decide)
    have hlayOut := layOut_deeper
      (s := { s with rest := c :: (cs ++ tail), position := s.position + 1 + (margin + (deeper + 1) + 1) })
      hdone.indents (margin + (deeper + 1) + 1) (by omega)
    have hreach := reaches_line (g := .standard) hrest hdone.depth hc hlayOut rfl
    have hlooks : (Value.block deeper entries).looks .lines ++ after =
        Style.lines.opening :: (entries.looks .lines ++ owed :: after) := by
      rw [Value.looks, List.cons_append, List.append_assoc]
      rfl
    refine Ends.of_reaches [layoutToken _ .indent] hreach rfl hlooks
      (entries.ends_lines (.inr ?_) ⟨rfl, nofun, hdone.depth⟩ rfl htail fun s₁ inner hat₁ hdone₁ => ?_)
    · rw [htext]
      rfl
    · -- the block is itself one of those that are done
      have hinner : Done s₁ margin outer (inner ++ [margin + (deeper + 1) + 1]) := by
        refine ⟨?_, fun width hwidth => ?_, hdone₁.depth⟩
        · rw [hdone₁.indents, List.append_assoc]
          rfl
        · rcases List.mem_append.mp hwidth with hwidth | hwidth
          · have := hdone₁.deeper width hwidth
            omega
          · rw [List.mem_singleton.mp hwidth]
            omega
      have hmore := hends s₁ _ hat₁ hinner
      rwa [List.length_append, List.length_singleton, List.replicate_succ', List.append_assoc] at hmore

end

/-! ## Scanning outlines -/

/-- A source that begins with a margin and a lexeme is scanned from there on. -/
theorem scan_of_ends (margin : Nat) {text : List Char} {c : Char} {cs : List Char} {ls : List Look}
    (hc : Text.isBlank c = false) (htext : text = ' ' :: c :: cs)
    (h : ∀ s : Scanner, s.At text → s.indents = [margin + 1] → s.depth = 0 → s.afterOperand = false →
      Ends s ls) :
    ∃ ts, Token.scan .standard (String.ofList (List.replicate margin ' ' ++ text)) = .ok ts ∧ ts.map look = ls := by
  let first : Scanner := ⟨c :: cs, margin + 1, [], [margin + 1], 0⟩
  have hstart : (Scanner.mk (List.replicate margin ' ' ++ text) 0 [] [] 0).startLine = .ok first := by
    rw [htext, startLine_spaces (n := margin) hc rfl]
    show Except.ok (⟨c :: cs, 0 + (margin + 1), [], [margin + 1], 0⟩ : Scanner) = _
    rw [Nat.zero_add]
  obtain ⟨s', hreach, hend, hlooks⟩ := h first (.inr htext.symm) rfl rfl rfl
  have hrun : first.run .standard (List.replicate margin ' ' ++ text).length = .ok s' := by
    refine hreach.run_eq hend ?_
    rw [List.length_append, htext]
    show (c :: cs).length ≤ _
    rw [List.length_cons (a := ' ')]
    omega
  refine ⟨s'.close.tokens.reverse, ?_, hlooks⟩
  unfold Token.scan
  simp only [String.toList_ofList, hstart, hrun, bind, Except.bind, pure, Except.pure]

/-- **A block tree on lines is scanned.** -/
theorem scan_onLines (o : Outline) (margin : Nat) :
    ∃ ts, Token.scan .standard (o.onLines margin) = .ok ts ∧ ts.map look = o.looks .lines := by
  obtain ⟨c, cs, hc, htext⟩ := o.exists_lines margin
  refine scan_of_ends margin hc htext fun s hat hindents hdepth hoperand => ?_
  rw [← List.append_nil (o.looks .lines)]
  refine o.ends_lines (by rwa [List.append_nil]) ⟨hindents, nofun, hdepth⟩ hoperand .nil fun s' inner hat' hdone => ?_
  -- the end of the source closes the blocks that are still open
  refine ⟨s', .refl s', hat'.resolve_right nofun, ?_⟩
  rw [close, addLayout_tokens, hdone.indents, List.length_append, List.length_singleton, Nat.add_sub_cancel,
    List.reverse_append, List.reverse_reverse, List.map_append, look_dedents, List.append_nil]

/-- **A block tree in braces is scanned.** -/
theorem scan_inBraces (o : Outline) :
    ∃ ts, Token.scan .standard o.inBraces = .ok ts ∧ ts.map look = o.looks .braces := by
  have hfollow : Follow false 0 (o.looks .braces) true 0 := o.follow_braces
  obtain ⟨c, cs, hc, htext⟩ : ∃ c cs, Text.isBlank c = false ∧ written (o.looks .braces) = ' ' :: c :: cs := by
    cases o with
    | last key value =>
      obtain ⟨c, cs, hc, hkey⟩ := exists_written_key key
      rw [looks, ← List.singleton_append, ← List.append_assoc, written_append, hkey]
      exact ⟨c, _, hc, rfl⟩
    | more key value rest =>
      obtain ⟨c, cs, hc, hkey⟩ := exists_written_key key
      rw [looks, ← List.singleton_append, ← List.append_assoc, written_append, hkey]
      exact ⟨c, _, hc, rfl⟩
  refine scan_of_ends 0 hc htext fun s hat hindents hdepth hoperand => ?_
  rw [← List.append_nil (o.looks .braces)]
  refine ends_written (by rwa [hoperand, hdepth]) (by rwa [List.append_nil]) .nil fun s' hat' hindents' _ _ => ?_
  refine ⟨s', .refl s', hat'.resolve_right nofun, ?_⟩
  rw [close, addLayout_tokens, hindents', hindents]
  simp

end Outline

end Cellbook
