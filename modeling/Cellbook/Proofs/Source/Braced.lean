import Cellbook.Proofs.Source.Operands
import Cellbook.Proofs.Source.Recut

/-!
# Blocks in braces

A block may be written on lines of its own or on one line in braces. Where the one has an indentation, the end of
one or a line break, the other has a brace or a comma (`Token.braced`), and apart from the places in the source
nothing else tells them apart: what is read on lines is read in braces, with the same tree
(`parse_braced`).

The one exception is an open range, which a line break and the end of a block may follow but a closing brace may
not. So this is about tokens without ranges.
-/

namespace Cellbook

/-- The span of what has no place. -/
def Span.nowhere : Span := ⟨0, 0⟩

/-! ## Trees without places -/

namespace Node

mutual

/-- **A tree without its places** in the source. -/
def bare : Node → Node
  | ⟨operator, kind, content, _, left, right⟩ =>
    ⟨operator, kind, bareContent content, .nowhere, bareOperand left, bareOperand right⟩

def bareContent : Content Node → Content Node
  | .empty => .empty
  | .scalar v => .scalar v
  | .name s => .name s
  | .items nodes => .items (bareItems nodes)

def bareItems : List Node → List Node
  | [] => []
  | n :: ns => bare n :: bareItems ns

def bareOperand : Option Node → Option Node
  | none => none
  | some n => some (bare n)

end

theorem bareItems_eq_map (ns : List Node) : bareItems ns = ns.map bare := by
  induction ns with
  | nil => rfl
  | cons n ns ih => rw [bareItems, ih, List.map_cons]

theorem bareOperand_eq_map (n? : Option Node) : bareOperand n? = n?.map bare := by
  cases n? <;> rfl

theorem bare_eq (n : Node) : n.bare =
    ⟨n.operator, n.kind, bareContent n.content, .nowhere, bareOperand n.left, bareOperand n.right⟩ := by
  cases n
  rw [bare]

@[simp] theorem bare_kind (n : Node) : n.bare.kind = n.kind := by rw [bare_eq]

@[simp] theorem bare_span (n : Node) : n.bare.span = .nowhere := by rw [bare_eq]

theorem bare_left (n : Node) : n.bare.left = n.left.map bare := by rw [bare_eq, bareOperand_eq_map]

@[simp] theorem bare_leaf (operator : String) (kind : NodeKind) (span : Span) (content : Content Node) :
    (leaf operator kind span content).bare = leaf operator kind .nowhere (bareContent content) := by
  rw [bare_eq]
  rfl

@[simp] theorem bare_withLeft (n left : Node) : (n.withLeft left).bare = n.bare.withLeft left.bare := by
  rw [withLeft, withLeft, bare_eq, bare_span left, bare_eq n]
  rfl

@[simp] theorem bare_withRight (n right : Node) : (n.withRight right).bare = n.bare.withRight right.bare := by
  rw [withRight, withRight, bare_eq, bare_span right, bare_eq n]
  rfl

/-- A further entry joins a tree without places in the same way. -/
theorem addEntry?_bare {span : Span} {left right n : Node} (h : addEntry? span left right = some n) :
    addEntry? .nowhere left.bare right.bare = some n.bare := by
  obtain ⟨operator, kind, content, span', l, r⟩ := left
  unfold addEntry? at h ⊢
  split at h
  next hright hleft =>
    cases h
    obtain rfl : kind = .entry := hleft
    rw [bare_kind, hright, bare_leaf]
    rfl
  next nodes hright hleft hcontent =>
    cases h
    obtain rfl : kind = .entries := hleft
    obtain rfl : content = .items nodes := hcontent
    rw [bare_kind, hright, bare, bare, bareContent, bareContent, bareItems_eq_map, bareItems_eq_map,
      List.map_append, List.map_cons, List.map_nil]
  next hright hleft hcontent =>
    cases h
    obtain rfl : kind = .entries := hleft
    rw [bare_kind, hright, bare, bare]
    cases content with
    | items nodes => exact absurd rfl (hcontent nodes)
    | _ => rfl
  next => cases h

end Node

/-! ## Tokens in braces -/

namespace Token

/-- **A token without its place**, and with a comma or a brace for the indentation of lines. -/
def braced (t : Token) : Token :=
  match t.kind with
  | .newline => ⟨",", .delimiter, .nowhere⟩
  | .indent => ⟨"\x7b", .delimiter, .nowhere⟩
  | .dedent => ⟨"\x7d", .delimiter, .nowhere⟩
  | kind => ⟨t.lexeme, kind, .nowhere⟩

/-- A token is no range, and is not taken for the indentation of a line if it is not. -/
def Plain (t : Token) : Prop := t.kind = .operator ∨ t.kind = .delimiter →
  t.lexeme ∉ ["..", Grammar.newlineName, Grammar.indentName, Grammar.dedentName]

theorem braced_lexeme {t : Token} (h : t.kind.isLayout = false) : t.braced = ⟨t.lexeme, t.kind, .nowhere⟩ := by
  unfold braced
  cases hkind : t.kind <;> simp_all [TokenKind.isLayout]

theorem braced_span (t : Token) : t.braced.span = .nowhere := by
  unfold braced
  split <;> rfl

end Token

namespace Node

open Token

/-- The name of a token in braces. -/
def bracedName (name : String) : String :=
  if name = Grammar.newlineName then ","
  else if name = Grammar.indentName then "\x7b"
  else if name = Grammar.dedentName then "\x7d"
  else name

/-- What a keyword in braces leads. -/
def bracedLeading : Leading → Leading
  | .block => .brace
  | leading => leading

theorem bracedName_of_not_mem {name : String}
    (h : name ∉ [Grammar.newlineName, Grammar.indentName, Grammar.dedentName]) : bracedName name = name := by
  simp only [List.mem_cons, List.not_mem_nil, or_false, not_or] at h
  rw [bracedName, if_neg h.1, if_neg h.2.1, if_neg h.2.2]

theorem nextName_braced {ts : List Token} (h : ∀ t ∈ ts, t.Plain) :
    nextName (ts.map braced) = bracedName (nextName ts) := by
  cases ts with
  | nil => decide
  | cons t ts =>
    have hlexeme (hkind : t.kind = .operator ∨ t.kind = .delimiter) : bracedName t.lexeme = t.lexeme :=
      bracedName_of_not_mem fun hmem => h t List.mem_cons_self hkind (List.mem_cons_of_mem _ hmem)
    obtain ⟨lexeme, kind, span⟩ := t
    cases kind with
    | operator => exact (hlexeme (.inl rfl)).symm
    | delimiter => exact (hlexeme (.inr rfl)).symm
    | literal v => exact (by decide : Grammar.literalName = bracedName Grammar.literalName)
    | identifier => exact (by decide : Grammar.identifierName = bracedName Grammar.identifierName)
    | newline => exact (by decide : "," = bracedName Grammar.newlineName)
    | indent => exact (by decide : "\x7b" = bracedName Grammar.indentName)
    | dedent => exact (by decide : "\x7d" = bracedName Grammar.dedentName)

/-- **The keywords of lines and of braces** bind alike. -/
theorem get?_bracedName (name : String) :
    ((Grammar.standard.get? (bracedName name)).map (·.power)).getD 0 =
        ((Grammar.standard.get? name).map (·.power)).getD 0 ∧
      (Grammar.standard.get? (bracedName name)).bind (·.trailing) =
        (Grammar.standard.get? name).bind (·.trailing) ∧
      (name ∈ [Grammar.newlineName, Grammar.indentName, Grammar.dedentName] →
        (Grammar.standard.get? (bracedName name)).bind (·.leading) =
          ((Grammar.standard.get? name).bind (·.leading)).map bracedLeading) := by
  by_cases h : name ∈ [Grammar.newlineName, Grammar.indentName, Grammar.dedentName]
  · have hall : [Grammar.newlineName, Grammar.indentName, Grammar.dedentName].all fun name =>
        decide (((Grammar.standard.get? (bracedName name)).map (·.power)).getD 0 =
            ((Grammar.standard.get? name).map (·.power)).getD 0 ∧
          (Grammar.standard.get? (bracedName name)).bind (·.trailing) =
            (Grammar.standard.get? name).bind (·.trailing) ∧
          (Grammar.standard.get? (bracedName name)).bind (·.leading) =
            ((Grammar.standard.get? name).bind (·.leading)).map bracedLeading) := by decide +kernel
    obtain ⟨hpower, htrailing, hleading⟩ := of_decide_eq_true (List.all_eq_true.mp hall name h)
    exact ⟨hpower, htrailing, fun _ => hleading⟩
  · rw [bracedName_of_not_mem h]
    exact ⟨rfl, rfl, fun hmem => absurd hmem h⟩

/-- A closing bracket, or a word, is one in braces if it is one on lines. -/
theorem bracedName_eq_iff {name mark : String} (h : mark ∉ [",", "\x7b", "\x7d", Grammar.newlineName,
    Grammar.indentName, Grammar.dedentName]) : bracedName name = mark ↔ name = mark := by
  simp only [List.mem_cons, List.not_mem_nil, or_false, not_or] at h
  obtain ⟨hcomma, hopening, hclosing, hnewline, hindent, hdedent⟩ := h
  unfold bracedName
  split
  next heq => exact iff_of_false (Ne.symm hcomma) fun h => hnewline (h.symm.trans heq)
  split
  next heq => exact iff_of_false (Ne.symm hopening) fun h => hindent (h.symm.trans heq)
  split
  next heq => exact iff_of_false (Ne.symm hclosing) fun h => hdedent (h.symm.trans heq)
  next => rfl

variable {ts : List Token}

theorem nextPower_braced (h : ∀ t ∈ ts, t.Plain) :
    nextPower .standard (ts.map braced) = nextPower .standard ts := by
  rw [nextPower, nextKeyword?, nextName_braced h]
  exact (get?_bracedName _).1

theorem trailing_braced (h : ∀ t ∈ ts, t.Plain) : (nextKeyword? .standard (ts.map braced)).bind (·.trailing) =
    (nextKeyword? .standard ts).bind (·.trailing) := by
  rw [nextKeyword?, nextName_braced h]
  exact (get?_bracedName _).2.1

/-- A range is spelt as one, and a block and a separator are the keywords of indentation. -/
theorem keywords_of_layout : (∀ k ∈ Grammar.standard.keywords,
      (k.leading = some .range ∨ k.trailing = some .range → k.name = "..") ∧
      (k.leading = some .block → k.name = Grammar.indentName)) ∧
    ∀ name ∈ [Grammar.newlineName, Grammar.indentName, Grammar.dedentName],
      ((Grammar.standard.get? name).bind (·.leading) = none ∨
        (Grammar.standard.get? name).bind (·.leading) = some .block) ∧
      ((Grammar.standard.get? name).bind (·.trailing) = none ∨
        (Grammar.standard.get? name).bind (·.trailing) = some .continuation) := by
  decide +kernel

/-- The name of a token for indentation is that of its class, and no other plain token has it. -/
theorem nextName_mem_layout_iff {t : Token} (h : t.Plain) (rest : List Token) :
    nextName (t :: rest) ∈ [Grammar.newlineName, Grammar.indentName, Grammar.dedentName] ↔ t.kind.isLayout := by
  have hlexeme (hkind : t.kind = .operator ∨ t.kind = .delimiter) :
      t.lexeme ∉ [Grammar.newlineName, Grammar.indentName, Grammar.dedentName] := fun hmem =>
    h hkind (List.mem_cons_of_mem _ hmem)
  obtain ⟨lexeme, kind, span⟩ := t
  cases kind with
  | operator => exact iff_of_false (hlexeme (.inl rfl)) Bool.false_ne_true
  | delimiter => exact iff_of_false (hlexeme (.inr rfl)) Bool.false_ne_true
  | literal v => exact iff_of_false (by decide : Grammar.literalName ∉ _) Bool.false_ne_true
  | identifier => exact iff_of_false (by decide : Grammar.identifierName ∉ _) Bool.false_ne_true
  | newline => exact iff_of_true (by decide : Grammar.newlineName ∈ _) rfl
  | indent => exact iff_of_true (by decide : Grammar.indentName ∈ _) rfl
  | dedent => exact iff_of_true (by decide : Grammar.dedentName ∈ _) rfl

theorem nextName_ne_range {t : Token} (h : t.Plain) (rest : List Token) : nextName (t :: rest) ≠ ".." := by
  have hlexeme (hkind : t.kind = .operator ∨ t.kind = .delimiter) : t.lexeme ≠ ".." := fun heq =>
    h hkind (heq ▸ List.mem_cons_self)
  obtain ⟨lexeme, kind, span⟩ := t
  cases kind with
  | operator => exact hlexeme (.inl rfl)
  | delimiter => exact hlexeme (.inr rfl)
  | literal v => exact (by decide : Grammar.literalName ≠ "..")
  | identifier => exact (by decide : Grammar.identifierName ≠ "..")
  | newline => exact (by decide : Grammar.newlineName ≠ "..")
  | indent => exact (by decide : Grammar.indentName ≠ "..")
  | dedent => exact (by decide : Grammar.dedentName ≠ "..")

/-- The keyword of a name has that name. -/
theorem mem_keywords_of_get? {name : String} {k : Keyword} (h : Grammar.standard.get? name = some k) :
    k ∈ Grammar.standard.keywords ∧ k.name = name := by
  unfold Grammar.get? at h
  have hname := List.find?_some h
  exact ⟨List.mem_of_find?_eq_some h, beq_iff_eq.mp hname⟩

section Keywords

variable {t : Token} {rest : List Token}

/-- **What the next token leads**, on lines and in braces. -/
theorem leading_braced (h : ∀ u ∈ t :: rest, u.Plain) {leading : Leading}
    (hleading : (nextKeyword? .standard (t :: rest)).bind (·.leading) = some leading) :
    (nextKeyword? .standard ((t :: rest).map braced)).bind (·.leading) = some (bracedLeading leading) ∧
      leading ≠ .range ∧ (leading = .block ∨ t.kind.isLayout = false) := by
  have ht := h t List.mem_cons_self
  have hname : nextKeyword? .standard ((t :: rest).map braced) =
      Grammar.standard.get? (bracedName (nextName (t :: rest))) := by rw [nextKeyword?, nextName_braced h]
  rw [hname]
  by_cases hlayout : nextName (t :: rest) ∈ [Grammar.newlineName, Grammar.indentName, Grammar.dedentName]
  · have hblock : leading = .block := by
      rcases (keywords_of_layout.2 _ hlayout).1 with hnone | hsome
      · cases hnone.symm.trans hleading
      · exact Option.some.inj (hleading.symm.trans hsome)
    rw [(get?_bracedName _).2.2 hlayout]
    rw [nextKeyword?] at hleading
    rw [hleading, hblock]
    exact ⟨rfl, by decide, .inl rfl⟩
  · obtain ⟨k, hk, hk'⟩ := Option.bind_eq_some_iff.mp hleading
    obtain ⟨hmem, hkname⟩ := mem_keywords_of_get? hk
    obtain ⟨hrange, hblock⟩ := keywords_of_layout.1 k hmem
    have hnot : leading ≠ .block := by
      rintro rfl
      refine hlayout ?_
      rw [← hkname, hblock hk']
      exact List.mem_cons_of_mem _ List.mem_cons_self
    have hsame : bracedLeading leading = leading := by cases leading <;> first | rfl | exact absurd rfl hnot
    rw [bracedName_of_not_mem hlayout, hsame]
    refine ⟨hleading, ?_, .inr (Bool.eq_false_iff.mpr (mt (nextName_mem_layout_iff ht rest).mpr hlayout))⟩
    rintro rfl
    exact nextName_ne_range ht rest (hkname.symm.trans (hrange (.inl hk')))

/-- A token for indentation is a separator where it stands behind an expression. -/
theorem trailing_of_plain (ht : t.Plain) {trailing : Trailing}
    (htrailing : (nextKeyword? .standard (t :: rest)).bind (·.trailing) = some trailing) :
    trailing ≠ .range ∧ (trailing = .continuation ∨ t.kind.isLayout = false) := by
  obtain ⟨k, hk, hk'⟩ := Option.bind_eq_some_iff.mp htrailing
  obtain ⟨hmem, hkname⟩ := mem_keywords_of_get? hk
  constructor
  · rintro rfl
    exact nextName_ne_range ht rest (hkname.symm.trans ((keywords_of_layout.1 k hmem).1 (.inr hk')))
  · cases hlayout : t.kind.isLayout with
    | false => exact .inr rfl
    | true =>
      have hmem := (nextName_mem_layout_iff ht rest).mpr hlayout
      rcases (keywords_of_layout.2 _ hmem).2 with hnone | hsome
      · cases hnone.symm.trans htrailing
      · exact .inl (Option.some.inj (htrailing.symm.trans hsome))

end Keywords

/-! ## Two runs -/

/-- **A second run reads in braces what a first one reads on lines**: it gives the same without places, which is
what `f` says, and leaves the same tokens in braces. -/
def Braces {α β : Type} (f : α → β) (x : Except Stop (α × List Token)) (x' : Except Stop (β × List Token)) : Prop :=
  ∀ a left, x = .ok (a, left) → (∀ t ∈ left, t.Plain) ∧ x' = .ok (f a, left.map braced)

namespace Braces

variable {α β γ δ : Type} {f : α → β} {g : γ → δ} {x : Except Stop (α × List Token)}
  {x' : Except Stop (β × List Token)}

theorem throw {e : Stop} : Braces f (throw e) x' := fun _ _ h => nomatch h

theorem pure {a : α} {b : β} (h : ∀ t ∈ ts, t.Plain) (hb : f a = b) :
    Braces f (pure (a, ts)) (Pure.pure (b, ts.map braced)) := by
  rintro _ _ ⟨rfl⟩
  exact ⟨h, by rw [hb]; rfl⟩

/-- One reader after another. -/
theorem bind {k : α × List Token → Except Stop (γ × List Token)} {k' : β × List Token → Except Stop (δ × List Token)}
    (hx : Braces f x x')
    (hk : ∀ a left, (∀ t ∈ left, t.Plain) → Braces g (k (a, left)) (k' (f a, left.map braced))) :
    Braces g (x >>= k) (x' >>= k') := by
  intro c left h
  cases x with
  | error e => cases h
  | ok r =>
    obtain ⟨a, rest⟩ := r
    obtain ⟨hrest, rfl⟩ := hx a rest rfl
    exact hk a rest hrest c left h

end Braces

variable {stop stop' : Nat}

theorem expect_braced {name : String} (h : ∀ t ∈ ts, t.Plain) :
    Braces braced (expect stop name ts) (expect stop' (bracedName name) (ts.map braced)) := by
  intro t left hexpect
  unfold expect at hexpect
  split at hexpect
  · cases hexpect
  next t' rest =>
  split at hexpect
  next hname =>
    cases hexpect
    refine ⟨fun u hu => h u (List.mem_cons_of_mem _ hu), if_pos ?_⟩
    rw [← hname]
    exact nextName_braced h
  next => cases hexpect

/-- A mark that is not for indentation is the same in braces. -/
theorem expect_kept {name : String} (hname : bracedName name = name) (h : ∀ t ∈ ts, t.Plain) :
    Braces braced (expect stop name ts) (expect stop' name (ts.map braced)) := by
  have hexpect : Braces braced (expect stop name ts) (expect stop' (bracedName name) (ts.map braced)) :=
    expect_braced h
  rwa [hname] at hexpect

/-- **The readers read in braces** what they read on lines with so many steps. -/
structure ReadsBraces (stop stop' steps : Nat) : Prop where
  expression : ∀ power ts, (∀ t ∈ ts, t.Plain) → Braces bare (expression .standard stop steps power ts)
    (expression .standard stop' steps power (ts.map braced))
  follow : ∀ power left ts, (∀ t ∈ ts, t.Plain) → Braces bare (follow .standard stop steps power left ts)
    (follow .standard stop' steps power left.bare (ts.map braced))
  lead : ∀ leading t ts, (∀ t ∈ ts, t.Plain) → leading ≠ .range → (leading = .block ∨ t.kind.isLayout = false) →
    Braces bare (lead .standard stop steps leading t ts)
      (lead .standard stop' steps (bracedLeading leading) t.braced (ts.map braced))
  join : ∀ trailing power t left ts, (∀ t ∈ ts, t.Plain) → trailing ≠ .range →
    (trailing = .continuation ∨ t.kind.isLayout = false) →
    Braces bare (join .standard stop steps trailing power t left ts)
      (join .standard stop' steps trailing power t.braced left.bare (ts.map braced))
  itemList : ∀ close ts, (∀ t ∈ ts, t.Plain) → close ∈ [")", "]"] →
    Braces (fun r => (bareItems r.1, Span.nowhere)) (itemList .standard stop steps close ts)
      (itemList .standard stop' steps close (ts.map braced))
  moreItems : ∀ close ts, (∀ t ∈ ts, t.Plain) → close ∈ [")", "]"] →
    Braces (fun r => (bareItems r.1, Span.nowhere)) (moreItems .standard stop steps close ts)
      (moreItems .standard stop' steps close (ts.map braced))

namespace ReadsBraces

theorem zero : ReadsBraces stop stop' 0 where
  expression _ _ _ := .throw
  follow _ _ _ _ := .throw
  lead _ _ _ _ _ _ := .throw
  join _ _ _ _ _ _ _ _ := .throw
  itemList _ _ _ _ := .throw
  moreItems _ _ _ _ := .throw

variable {steps : Nat} (h : ReadsBraces stop stop' steps)

include h

theorem expression_succ (power : Nat) (ts : List Token) (hts : ∀ t ∈ ts, t.Plain) :
    Braces bare (Node.expression .standard stop (steps + 1) power ts)
      (Node.expression .standard stop' (steps + 1) power (ts.map braced)) := by
  unfold Node.expression
  rcases ts with - | ⟨t, rest⟩
  · exact .throw
  cases hleading : (nextKeyword? .standard (t :: rest)).bind (·.leading) with
  | none => exact .throw
  | some leading =>
    obtain ⟨hbraced, hrange, hkind⟩ := leading_braced hts hleading
    rw [hbraced]
    exact (h.lead leading t rest (List.forall_mem_cons.mp hts).2 hrange hkind).bind fun left rest hrest =>
      h.follow power left rest hrest

theorem follow_succ (power : Nat) (left : Node) (ts : List Token) (hts : ∀ t ∈ ts, t.Plain) :
    Braces bare (Node.follow .standard stop (steps + 1) power left ts)
      (Node.follow .standard stop' (steps + 1) power left.bare (ts.map braced)) := by
  unfold Node.follow
  rw [nextPower_braced hts, trailing_braced hts]
  split
  · exact .pure hts rfl
  rcases ts with - | ⟨t, rest⟩
  · exact .pure hts rfl
  dsimp only [List.map_cons]
  cases htrailing : (nextKeyword? .standard (t :: rest)).bind (·.trailing) with
  | none => exact .throw
  | some trailing =>
    obtain ⟨ht, hrest⟩ := List.forall_mem_cons.mp hts
    obtain ⟨hrange, hkind⟩ := trailing_of_plain ht htrailing
    exact (h.join trailing _ t left rest hrest hrange hkind).bind fun left rest hrest =>
      h.follow power left rest hrest

/-- What is read between the marks of a block, on lines or in braces, does not begin with the closing brace. -/
theorem block {close : String} (hclose : bracedName close = "\x7d") (hts : ∀ t ∈ ts, t.Plain)
    {x' : Except Stop (Node × List Token)} :
    Braces bare
      (Node.expression .standard stop steps 0 ts >>= fun (inner, ts) =>
        expect stop close ts >>= fun (_, ts) => pure (inner, ts))
      (if nextName (ts.map braced) = "\x7d" then x'
        else Node.expression .standard stop' steps 0 (ts.map braced) >>= fun (inner, ts) =>
          expect stop' "\x7d" ts >>= fun (_, ts) => pure (inner, ts)) := by
  intro n left hx
  have hinner : nextName (ts.map braced) ≠ "\x7d" := by
    cases hread : Node.expression .standard stop steps 0 ts with
    | error e =>
      rw [hread] at hx
      cases hx
    | ok r =>
      obtain ⟨t, rest, rfl, leading, hleading⟩ := leading_of_expression hread
      obtain ⟨hbraced, -⟩ := leading_braced hts hleading
      intro hname
      rw [nextKeyword?, hname] at hbraced
      have hnone : (Grammar.standard.get? "\x7d").bind (·.leading) = none := by decide +kernel
      cases hnone.symm.trans hbraced
  rw [if_neg hinner]
  refine (h.expression 0 ts hts).bind (fun inner rest hrest => ?_) n left hx
  rw [← hclose]
  exact (expect_braced hrest).bind fun _ rest hrest => .pure hrest rfl

theorem lead_succ (leading : Leading) (t : Token) (ts : List Token) (hts : ∀ t ∈ ts, t.Plain)
    (hrange : leading ≠ .range) (hkind : leading = .block ∨ t.kind.isLayout = false) :
    Braces bare (Node.lead .standard stop (steps + 1) leading t ts)
      (Node.lead .standard stop' (steps + 1) (bracedLeading leading) t.braced (ts.map braced)) := by
  unfold Node.lead
  by_cases hblock : leading = .block
  · subst hblock
    exact h.block (by decide) hts
  have hleading : bracedLeading leading = leading := by cases leading <;> first | rfl | exact absurd rfl hblock
  have hbraced := braced_lexeme (hkind.resolve_left hblock)
  rw [hleading, hbraced]
  cases leading with
  | literal =>
    dsimp only
    cases t.kind with
    | literal v => exact .pure hts (bare_leaf _ _ _ _)
    | _ => exact .throw
  | identifier => exact .pure hts (bare_leaf _ _ _ _)
  | unary => exact (h.expression unaryPower ts hts).bind fun n rest hrest => .pure hrest (by simp [bareContent])
  | plus => exact h.expression unaryPower ts hts
  | group =>
    exact (h.itemList ")" ts hts (by decide)).bind fun r rest hrest => .pure hrest (bare_leaf _ _ _ _)
  | array =>
    exact (h.itemList "]" ts hts (by decide)).bind fun r rest hrest => .pure hrest (bare_leaf _ _ _ _)
  | brace =>
    dsimp only
    split
    next hname =>
      have hname' : nextName (ts.map braced) = "\x7d" := by rw [nextName_braced hts, hname]; decide
      rw [if_pos hname']
      refine Braces.bind (expect_kept (by decide) hts) fun close rest hrest => .pure hrest ?_
      simp [bareContent, bareItems, braced_span]
      rfl
    next => exact h.block (by decide) hts
  | block => exact absurd rfl hblock
  | ifHeader => exact (h.expression conditionPower ts hts).bind fun n rest hrest => .pure hrest (by simp [bareContent])
  | elseHeader =>
    have hname : nextName (ts.map braced) = "if" ↔ nextName ts = "if" := by
      rw [nextName_braced hts, bracedName_eq_iff (by decide)]
    dsimp only
    rw [← List.map_drop]
    by_cases hif : nextName ts = "if"
    · rw [if_pos hif, if_pos (hname.mpr hif)]
      have hdrop : ∀ t ∈ ts.drop 1, t.Plain := fun t ht => hts t (List.mem_of_mem_drop ht)
      exact (h.expression conditionPower _ hdrop).bind fun n rest hrest => .pure hrest (by simp [bareContent])
    · rw [if_neg hif, if_neg (mt hname.mp hif)]
      exact .pure hts (bare_leaf _ _ _ _)
  | range => exact absurd rfl hrange

theorem join_succ (trailing : Trailing) (power : Nat) (t : Token) (left : Node) (ts : List Token)
    (hts : ∀ t ∈ ts, t.Plain) (hrange : trailing ≠ .range)
    (hkind : trailing = .continuation ∨ t.kind.isLayout = false) :
    Braces bare (Node.join .standard stop (steps + 1) trailing power t left ts)
      (Node.join .standard stop' (steps + 1) trailing power t.braced left.bare (ts.map braced)) := by
  unfold Node.join
  by_cases hcontinuation : trailing = .continuation
  · subst hcontinuation
    refine (h.expression power ts hts).bind fun right rest hrest => ?_
    have hspan : (t.braced.span.join left.bare.span).join right.bare.span = .nowhere := by
      rw [braced_span, bare_span, bare_span]
      rfl
    dsimp only
    rw [hspan]
    split
    next n hadd =>
      rw [addEntry?_bare hadd]
      exact .pure hrest rfl
    next => exact .throw
  rw [braced_lexeme (hkind.resolve_left hcontinuation)]
  cases trailing with
  | binary => exact (h.expression power ts hts).bind fun n rest hrest => .pure hrest (by simp [bareContent])
  | binaryRight =>
    exact (h.expression (power - 1) ts hts).bind fun n rest hrest => .pure hrest (by simp [bareContent])
  | notIn =>
    exact Braces.bind (expect_kept (by decide) hts) fun _ rest hrest =>
      (h.expression power rest hrest).bind fun n rest hrest => .pure hrest (by simp [bareContent])
  | call =>
    exact (h.itemList ")" ts hts (by decide)).bind fun r rest hrest => .pure hrest (by simp [bareContent]; rfl)
  | index =>
    refine (h.expression itemPower ts hts).bind fun key rest hrest => ?_
    refine Braces.bind (expect_kept (by decide) hrest) fun close rest hrest => .pure hrest ?_
    simp [bareContent, bareItems, braced_span]
    rfl
  | member =>
    rcases ts with - | ⟨name, rest⟩
    · exact .throw
    · obtain ⟨hname, hrest⟩ := List.forall_mem_cons.mp hts
      dsimp only
      split
      next hidentifier =>
        rw [List.map_cons, braced_lexeme (by rw [hidentifier]; rfl)]
        dsimp only
        rw [if_pos hidentifier]
        exact .pure hrest (by simp [bareContent])
      next => exact .throw
  | entry =>
    refine (h.expression valuePower ts hts).bind fun n rest hrest => .pure hrest ?_
    simp [bareContent, bareItems]
    rfl
  | continuation => exact absurd rfl hcontinuation
  | guard =>
    dsimp only
    rw [bare_kind]
    split
    · exact (h.expression power ts hts).bind fun n rest hrest => .pure hrest (by simp [bareContent])
    · exact .throw
  | range => exact absurd rfl hrange

omit h in
/-- A closing bracket is the next token in braces if it is on lines. -/
theorem nextName_eq_closing (hts : ∀ t ∈ ts, t.Plain) {close : String} (hclose : close ∈ [")", "]"]) :
    nextName (ts.map braced) = close ↔ nextName ts = close := by
  rw [nextName_braced hts]
  have hall : [")", "]"].all fun close => close ∉ [",", "\x7b", "\x7d", Grammar.newlineName, Grammar.indentName,
    Grammar.dedentName] := by decide
  exact bracedName_eq_iff (of_decide_eq_true (List.all_eq_true.mp hall close hclose))

omit h in
theorem closing_braced (hts : ∀ t ∈ ts, t.Plain) {close : String} (hclose : close ∈ [")", "]"]) :
    Braces braced (expect stop close ts) (expect stop' close (ts.map braced)) := by
  have hall : [")", "]"].all fun close => bracedName close == close := by decide
  exact expect_kept (beq_iff_eq.mp (List.all_eq_true.mp hall close hclose)) hts

theorem moreItems_succ (close : String) (ts : List Token) (hts : ∀ t ∈ ts, t.Plain) (hclose : close ∈ [")", "]"]) :
    Braces (fun r => (bareItems r.1, Span.nowhere)) (Node.moreItems .standard stop (steps + 1) close ts)
      (Node.moreItems .standard stop' (steps + 1) close (ts.map braced)) := by
  unfold Node.moreItems
  refine (h.expression itemPower ts hts).bind fun n rest hrest => ?_
  dsimp only
  by_cases hcomma : nextName rest = ","
  · have hcomma' : nextName (rest.map braced) = "," := by rw [nextName_braced hrest, hcomma]; decide
    rw [if_pos hcomma, if_pos hcomma', ← List.map_drop]
    have hdrop : ∀ t ∈ rest.drop 1, t.Plain := fun t ht => hrest t (List.mem_of_mem_drop ht)
    exact (h.moreItems close _ hdrop hclose).bind fun r rest hrest => .pure hrest rfl
  rw [if_neg hcomma]
  -- a line break might be taken for a comma, but only the closing bracket may stand here
  by_cases hend : nextName rest = close
  · have hcomma' : nextName (rest.map braced) ≠ "," := by
      rw [(nextName_eq_closing hrest hclose).mpr hend]
      rintro rfl
      exact absurd hclose (by decide)
    rw [if_neg hcomma']
    exact (closing_braced hrest hclose).bind fun t rest hrest => .pure hrest (by rw [braced_span]; rfl)
  · intro r left hx
    cases rest with
    | nil => cases hx
    | cons t rest =>
      rw [expect, if_neg hend] at hx
      cases hx

theorem itemList_succ (close : String) (ts : List Token) (hts : ∀ t ∈ ts, t.Plain) (hclose : close ∈ [")", "]"]) :
    Braces (fun r => (bareItems r.1, Span.nowhere)) (Node.itemList .standard stop (steps + 1) close ts)
      (Node.itemList .standard stop' (steps + 1) close (ts.map braced)) := by
  have hname := nextName_eq_closing hts hclose
  unfold Node.itemList
  by_cases hend : nextName ts = close
  · rw [if_pos hend, if_pos (hname.mpr hend)]
    exact (closing_braced hts hclose).bind fun t rest hrest => .pure hrest (by rw [braced_span]; rfl)
  · rw [if_neg hend, if_neg (mt hname.mp hend)]
    exact h.moreItems close ts hts hclose

end ReadsBraces

/-- **The readers read in braces** what they read on lines, with any number of steps. -/
theorem readsBraces (stop stop' steps : Nat) : ReadsBraces stop stop' steps := by
  induction steps with
  | zero => exact .zero
  | succ steps ih =>
    exact ⟨ih.expression_succ, ih.follow_succ, ih.lead_succ, ih.join_succ, ih.itemList_succ, ih.moreItems_succ⟩

/-- **What is read on lines is read in braces**, with the same tree but for its places. -/
theorem parse_braced {ts : List Token} {n : Node} (hts : ∀ t ∈ ts, t.Plain) (h : parse .standard ts = .ok n) :
    parse .standard (ts.map braced) = .ok n.bare := by
  have hsteps : enoughSteps (ts.map braced) = enoughSteps ts := by rw [enoughSteps, List.length_map, enoughSteps]
  unfold parse parseWith at h ⊢
  rw [hsteps]
  cases hread : expression .standard (endOf ts) (enoughSteps ts) 0 ts with
  | error stop =>
    rw [hread] at h
    cases stop <;> cases h
  | ok r =>
    obtain ⟨first, rest⟩ := r
    obtain ⟨-, hbraced⟩ := (readsBraces (endOf ts) (endOf (ts.map braced)) _).expression 0 ts hts first rest hread
    rw [hread] at h
    rw [hbraced]
    cases rest with
    | nil =>
      cases h
      rfl
    | cons t rest => cases h

end Node

end Cellbook
