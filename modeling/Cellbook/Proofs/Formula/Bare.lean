import Cellbook.Formula.OfNode
import Cellbook.Proofs.Source.Braced

/-!
# Formulas without places

The formula that a tree is does not depend on the places in the tree, except for its own: without places the
tree is the same formula without places, or has the same flaw (`Formula.ofNode_bare`). So two sources whose trees
differ in their places only write the same formula, or are faulty for the same cause.
-/

namespace Cellbook

def Origin.bare (o : Origin) : Origin := ⟨o.cell, .nowhere⟩

def SourceFault.bare (f : SourceFault) : SourceFault := ⟨f.cause, 0⟩

namespace Formula

mutual

/-- **A formula without its places** in the source. -/
def bare : Formula → Formula
  | .literal o v => .literal o.bare v
  | .identifier o name => .identifier o.bare name
  | .binary o op left right => .binary o.bare op (bare left) (bare right)
  | .unary o op operand => .unary o.bare op (bare operand)
  | .map o entries => .map o.bare (bareEntries entries)
  | .block o parts => .block o.bare (bareParts parts)
  | .array o elements place => .array o.bare (bareParts elements) place
  | .range o first last => .range o.bare (barePart first) (barePart last)
  | .index o target key => .index o.bare (bare target) (bare key)
  | .call o callee args => .call o.bare (bare callee) (bareParts args)
  | .conditional o clauses => .conditional o.bare (bareClauses clauses)
  | .member o object attr => .member o.bare (bare object) attr

def barePart : Option Formula → Option Formula
  | none => none
  | some f => some (bare f)

def bareParts : List Formula → List Formula
  | [] => []
  | f :: fs => bare f :: bareParts fs

def bareKey : Key → Key
  | .name s => .name s
  | .computed key => .computed (bare key)
  | .signature name params o guard => .signature name params o.bare (barePart guard)

def bareEntry : Entry → Entry
  | .mk key value o => .mk (bareKey key) (bare value) o.bare

def bareEntries : List Entry → List Entry
  | [] => []
  | e :: es => bareEntry e :: bareEntries es

def bareClause : Clause → Clause
  | .mk condition body => .mk (barePart condition) (bare body)

def bareClauses : List Clause → List Clause
  | [] => []
  | c :: cs => bareClause c :: bareClauses cs

end

theorem bareParts_append (fs gs : List Formula) : bareParts (fs ++ gs) = bareParts fs ++ bareParts gs := by
  induction fs with
  | nil => rfl
  | cons f fs ih => rw [List.cons_append, bareParts, bareParts, ih, List.cons_append]

theorem bareEntries_append (es es' : List Entry) :
    bareEntries (es ++ es') = bareEntries es ++ bareEntries es' := by
  induction es with
  | nil => rfl
  | cons e es ih => rw [List.cons_append, bareEntries, bareEntries, ih, List.cons_append]

theorem bareClauses_append (cs cs' : List Clause) :
    bareClauses (cs ++ cs') = bareClauses cs ++ bareClauses cs' := by
  induction cs with
  | nil => rfl
  | cons c cs ih => rw [List.cons_append, bareClauses, bareClauses, ih, List.cons_append]

end Formula

/-! ## Results without places -/

/-- What becomes of a result without places: `f` says it of what there is, and a fault keeps its cause. -/
def bareResult {α β : Type} (f : α → β) : Except SourceFault α → Except SourceFault β
  | .ok a => .ok (f a)
  | .error e => .error e.bare

section

variable {α β γ δ : Type} {f : α → β} {g : γ → δ}

/-- One result after another. -/
theorem bareResult_bind {x : Except SourceFault α} {x' : Except SourceFault β} {k : α → Except SourceFault γ}
    {k' : β → Except SourceFault δ} (hx : x' = bareResult f x) (hk : ∀ a, k' (f a) = bareResult g (k a)) :
    x' >>= k' = bareResult g (x >>= k) := by
  subst hx
  cases x with
  | error e => rfl
  | ok a => exact hk a

end

/-! ## Blocks -/

open Formula

def ListEntry.bare : ListEntry → ListEntry
  | .plain entry => .plain (bareEntry entry)
  | .first clause _ => .first (bareClause clause) .nowhere
  | .further clause _ => .further (bareClause clause) .nowhere
  | .last clause _ => .last (bareClause clause) .nowhere

theorem bareEntry_span (e : Entry) : (bareEntry e).origin.span = .nowhere := by
  cases e
  rfl

namespace OpenPart

def bare : OpenPart → OpenPart
  | .map entries _ => .map (bareEntries entries) .nowhere
  | .conditional clauses _ complete => .conditional (bareClauses clauses) .nowhere complete

theorem start_bare (entry : ListEntry) : start entry.bare = bareResult bare (start entry) := by
  cases entry with
  | plain e =>
    show Except.ok (OpenPart.map [bareEntry e] (bareEntry e).origin.span) = _
    rw [bareEntry_span]
    rfl
  | _ => rfl

theorem add?_bare (part : OpenPart) (entry : ListEntry) : part.bare.add? entry.bare = (part.add? entry).map bare := by
  cases part with
  | map entries span =>
    cases entry with
    | plain e =>
      show some (OpenPart.map (bareEntries entries ++ [bareEntry e]) (Span.nowhere.join (bareEntry e).origin.span)) = _
      rw [bareEntry_span, add?, Option.map_some, bare, bareEntries_append]
      rfl
    | _ => rfl
  | conditional clauses span complete =>
    cases complete with
    | true => cases entry <;> rfl
    | false =>
      cases entry with
      | plain e => rfl
      | first c at' => rfl
      | further c at' =>
        show _ = some (OpenPart.conditional (bareClauses (clauses ++ [c])) .nowhere false)
        rw [bareClauses_append]
        rfl
      | last c at' =>
        show _ = some (OpenPart.conditional (bareClauses (clauses ++ [c])) .nowhere true)
        rw [bareClauses_append]
        rfl

theorem close_bare (cell : Nat) (part : OpenPart) : part.bare.close cell = (part.close cell).bare := by
  cases part with
  | map entries span => rw [close, Formula.bare]; rfl
  | conditional clauses span complete => rw [close, Formula.bare]; rfl

end OpenPart

namespace BlockParts

def bare (b : BlockParts) : BlockParts := ⟨bareParts b.closed, b.current.map OpenPart.bare⟩

theorem parts_bare (cell : Nat) (b : BlockParts) : b.bare.parts cell = bareParts (b.parts cell) := by
  obtain ⟨closed, current⟩ := b
  unfold parts bare
  rw [bareParts_append]
  cases current with
  | none => rfl
  | some part =>
    dsimp only [Option.map_some, Option.toList_some]
    rw [OpenPart.close_bare]
    rfl

theorem add_bare (cell : Nat) (b : BlockParts) (entry : ListEntry) :
    b.bare.add cell entry.bare = bareResult bare (b.add cell entry) := by
  have htaken : b.bare.current.bind (·.add? entry.bare) = (b.current.bind (·.add? entry)).map OpenPart.bare := by
    obtain ⟨closed, current⟩ := b
    cases current with
    | none => rfl
    | some part => exact OpenPart.add?_bare part entry
  unfold add
  rw [htaken]
  cases b.current.bind (·.add? entry) with
  | some part => rfl
  | none =>
    refine bareResult_bind (OpenPart.start_bare entry) fun part => ?_
    rw [parts_bare]
    rfl

theorem toFormula_bare (cell : Nat) (span : Span) (b : BlockParts) :
    b.bare.toFormula cell .nowhere = (b.toFormula cell span).bare := by
  unfold toFormula
  rw [parts_bare]
  match b.parts cell with
  | [] => rw [Formula.bare]; rfl
  | [part] => rfl
  | part :: further :: parts => rw [Formula.bare]; rfl

end BlockParts

/-! ## Trees -/

namespace Node

mutual

/-- The text of a tree leaves out its places. -/
theorem toText_bare : (n : Node) → n.bare.toText = n.toText
  | ⟨operator, kind, content, span, left, right⟩ => by
    have hleft := operandText_bare left
    have hright := operandText_bare right
    rw [bare]
    unfold toText
    rw [hleft, hright]
    cases content with
    | items nodes =>
      rw [bareContent]
      have hitems := itemsText_bare nodes
      cases kind <;> simp only [hitems]
    | _ => rw [bareContent]

theorem itemsText_bare : (ns : List Node) → itemsText (bareItems ns) = itemsText ns
  | [] => rfl
  | n :: ns => by rw [bareItems, itemsText, itemsText, toText_bare n, itemsText_bare ns]

theorem operandText_bare : (n? : Option Node) → operandText (bareOperand n?) = operandText n?
  | none => rfl
  | some n => by rw [bareOperand, operandText, operandText, toText_bare n]

end

theorem bare_items (n : Node) : n.bare.items = bareItems n.items := by
  rw [bare_eq]
  unfold items
  cases n.content <;> rfl

theorem bare_name? (n : Node) : n.bare.name? = n.name? := by
  rw [bare_eq]
  unfold name?
  cases n.content <;> rfl

end Node

namespace Formula

theorem flawed_bare (n : Node) (flaw : Flaw) : flawed n.bare flaw = (flawed n flaw).bare := by
  rw [flawed, Node.toText_bare, Node.bare_span]
  rfl

theorem parameterNames_bare (nodes : List Node) :
    parameterNames (Node.bareItems nodes) = bareResult id (parameterNames nodes) := by
  induction nodes with
  | nil => rfl
  | cons n nodes ih =>
    rw [Node.bareItems, parameterNames, parameterNames, List.mapM_cons, List.mapM_cons]
    refine bareResult_bind (f := id) ?_ fun name => bareResult_bind (f := id) ih fun names => rfl
    rw [Node.bare_kind, Node.bare_name?, flawed_bare]
    split <;> rfl

theorem required_bare (n : Node) {part part' : Except SourceFault (Option Formula)}
    (h : part' = bareResult barePart part) : required n.bare part' = bareResult bare (required n part) := by
  refine bareResult_bind h fun f? => ?_
  cases f? with
  | none => exact congrArg Except.error (flawed_bare n _)
  | some f => rfl

theorem signatureOf_bare (cell : Nat) (name : Option String) (group : Node) (guard : Option Formula) :
    signatureOf cell name group.bare (barePart guard) = bareResult bareKey (signatureOf cell name group guard) := by
  unfold signatureOf
  rw [Node.bare_items, Node.bare_span]
  exact bareResult_bind (parameterNames_bare _) fun params => rfl

/-- The entry of a key and a value. -/
theorem entryOf_bare (cell : Nat) (node key : Node) {value value' : Except SourceFault Formula}
    {part part' : Except SourceFault (Option Formula)} (hvalue : value' = bareResult bare value)
    (hpart : part' = bareResult barePart part) :
    entryOf cell node.bare key.bare value' part' = bareResult ListEntry.bare (entryOf cell node key value part) := by
  have hflawed (flaw : Flaw) : (Except.error (flawed key.bare flaw) : Except SourceFault ListEntry) =
      bareResult ListEntry.bare (.error (flawed key flaw)) := congrArg Except.error (flawed_bare key flaw)
  have hrequired := required_bare key hpart
  refine bareResult_bind hvalue fun body => ?_
  simp only [Node.bare_kind, Node.bare_span, Node.bare_left, Node.bare_name?, Node.bare_items]
  cases key.kind with
  | ifHeader => exact bareResult_bind hrequired fun f => rfl
  | elseIfHeader => exact bareResult_bind hrequired fun f => rfl
  | elseHeader => rfl
  | identifier => rfl
  | grouping => exact bareResult_bind (signatureOf_bare cell none key none) fun k => rfl
  | guard =>
    cases key.left with
    | none => exact hflawed _
    | some group =>
      exact bareResult_bind hrequired fun f =>
        bareResult_bind (signatureOf_bare cell none group (some f)) fun k => rfl
  | apply =>
    cases key.left with
    | none => exact hflawed _
    | some callee =>
      dsimp only [Option.map_some]
      rw [Node.bare_name?]
      cases callee.name? with
      | none => exact hflawed _
      | some name => exact bareResult_bind (signatureOf_bare cell (some name) key none) fun k => rfl
  | array =>
    rcases key.items with - | ⟨computed, - | ⟨_, _⟩⟩
    · exact hflawed _
    · dsimp only [Node.bareItems]
      rw [Node.bare_kind]
      split
      · exact hflawed _
      · exact bareResult_bind hrequired fun f => rfl
    · exact hflawed _
  | _ => exact bareResult_bind hrequired fun f => rfl

theorem some_bare {x x' : Except SourceFault Formula} (h : x' = bareResult bare x) :
    some <$> x' = bareResult barePart (some <$> x) := by
  subst h
  cases x <;> rfl

mutual

/-- **A tree without places is the formula without places**, or it has the same flaw. -/
theorem ofNode_bare (cell : Nat) : (n : Node) → ofNode cell n.bare = bareResult bare (ofNode cell n)
  | ⟨operator, kind, content, span, left, right⟩ => by
    have hflawed (flaw : Flaw) :
        (Except.error (flawed (Node.bare ⟨operator, kind, content, span, left, right⟩) flaw) :
          Except SourceFault Formula) =
        bareResult bare (.error (flawed ⟨operator, kind, content, span, left, right⟩ flaw)) :=
      congrArg Except.error (flawed_bare _ flaw)
    have hleft := required_bare ⟨operator, kind, content, span, left, right⟩ (ofOperand_bare cell left)
    have hright := required_bare ⟨operator, kind, content, span, left, right⟩ (ofOperand_bare cell right)
    rw [Node.bare] at hflawed hleft hright ⊢
    unfold ofNode
    cases kind with
    | literal => cases content <;> first | rfl | exact hflawed _
    | identifier => cases content <;> first | rfl | exact hflawed _
    | binary =>
      dsimp only
      cases BinaryOp.ofSymbol? operator with
      | none => exact hflawed _
      | some op => exact bareResult_bind hleft fun l => bareResult_bind hright fun r => rfl
    | unary =>
      dsimp only
      cases UnaryOp.ofSymbol? operator with
      | none => exact hflawed _
      | some op => exact bareResult_bind hright fun r => rfl
    | grouping =>
      match content with
      | .items [single] => exact ofNode_bare cell single
      | .items [] => exact hflawed _
      | .items (_ :: _ :: _) => exact hflawed _
      | .empty | .scalar _ | .name _ => exact hflawed _
    | array =>
      match content with
      | .items nodes => exact bareResult_bind (ofElements_bare cell nodes 0 none) fun r => rfl
      | .empty | .scalar _ | .name _ => rfl
    | apply =>
      refine bareResult_bind hleft fun callee => ?_
      match content with
      | .items nodes => exact bareResult_bind (ofNodes_bare cell nodes) fun args => rfl
      | .empty | .scalar _ | .name _ => rfl
    | index =>
      refine bareResult_bind hleft fun target => ?_
      match content with
      | .items [key] => exact bareResult_bind (ofNode_bare cell key) fun k => rfl
      | .items [] => exact hflawed _
      | .items (_ :: _ :: _) => exact hflawed _
      | .empty | .scalar _ | .name _ => exact hflawed _
    | member =>
      refine bareResult_bind hleft fun object => ?_
      cases right with
      | none => exact hflawed _
      | some attr =>
        dsimp only [Node.bareOperand]
        rw [Node.bare_name?]
        cases attr.name? with
        | none => exact hflawed _
        | some name => rfl
    | entry =>
      match content with
      | .items nodes =>
        exact bareResult_bind (ofPair_bare cell ⟨operator, .entry, .items nodes, span, left, right⟩ nodes) fun entry =>
          bareResult_bind (BlockParts.add_bare cell .empty entry) fun b =>
            congrArg Except.ok (BlockParts.toFormula_bare cell span b)
      | .empty | .scalar _ | .name _ => exact hflawed _
    | entries =>
      match content with
      | .items nodes =>
        exact bareResult_bind (ofEntries_bare cell nodes .empty) fun b =>
          congrArg Except.ok (BlockParts.toFormula_bare cell span b)
      | .empty | .scalar _ | .name _ => exact congrArg Except.ok (BlockParts.toFormula_bare cell span .empty)
    | guard => exact hflawed _
    | ifHeader => exact hflawed _
    | elseIfHeader => exact hflawed _
    | elseHeader => exact hflawed _
    | range => exact hflawed _

theorem ofOperand_bare (cell : Nat) : (n? : Option Node) →
    ofOperand cell (Node.bareOperand n?) = bareResult barePart (ofOperand cell n?)
  | none => rfl
  | some n => bareResult_bind (ofNode_bare cell n) fun _ => rfl

theorem ofNodes_bare (cell : Nat) : (ns : List Node) →
    ofNodes cell (Node.bareItems ns) = bareResult bareParts (ofNodes cell ns)
  | [] => rfl
  | n :: ns => bareResult_bind (ofNode_bare cell n) fun _ => bareResult_bind (ofNodes_bare cell ns) fun _ => rfl

theorem ofElements_bare (cell : Nat) : (ns : List Node) → (position : Nat) → (place : Option Nat) →
    ofElements cell position place (Node.bareItems ns) =
      bareResult (fun r => (bareParts r.1, r.2)) (ofElements cell position place ns)
  | [], _, _ => rfl
  | ⟨operator, kind, content, span, left, right⟩ :: ns, position, place => by
    have hnode := ofNode_bare cell ⟨operator, kind, content, span, left, right⟩
    rw [Node.bareItems]
    rw [Node.bare] at hnode ⊢
    unfold ofElements
    cases kind with
    | range =>
      dsimp only
      split
      · exact congrArg Except.error (flawed_bare ⟨operator, .range, content, span, left, right⟩ _)
      · exact bareResult_bind (ofOperand_bare cell left) fun first =>
          bareResult_bind (ofOperand_bare cell right) fun last =>
            bareResult_bind (ofElements_bare cell ns (position + 1) (some position)) fun r => rfl
    | _ =>
      exact bareResult_bind hnode fun f => bareResult_bind (ofElements_bare cell ns (position + 1) place) fun r => rfl

theorem ofPair_bare (cell : Nat) (node : Node) : (ns : List Node) →
    ofPair cell node.bare (Node.bareItems ns) = bareResult ListEntry.bare (ofPair cell node ns)
  | [] => congrArg Except.error (flawed_bare node _)
  | [_] => congrArg Except.error (flawed_bare node _)
  | _ :: _ :: _ :: _ => congrArg Except.error (flawed_bare node _)
  | [⟨operator, kind, content, span, left, right⟩, value] => by
    have hkey := ofNode_bare cell ⟨operator, kind, content, span, left, right⟩
    have hleft := ofOperand_bare cell left
    have hright := ofOperand_bare cell right
    have hcomputed : ∀ n, content = .items [n] → ofNode cell n.bare = bareResult bare (ofNode cell n) :=
      match content with
      | .items [c] => fun _ h => by
        obtain rfl := (List.cons.inj (Content.items.inj h)).1
        exact ofNode_bare cell c
      | .items [] | .items (_ :: _ :: _) | .empty | .scalar _ | .name _ => fun _ h => nomatch h
    have hentry {part part' : Except SourceFault (Option Formula)} (hpart : part' = bareResult barePart part) :=
      entryOf_bare cell node ⟨operator, kind, content, span, left, right⟩ (ofNode_bare cell value) hpart
    rw [Node.bareItems, Node.bareItems, Node.bareItems]
    rw [Node.bare] at hkey hentry ⊢
    unfold ofPair
    rw [Node.bare_kind]
    split
    · cases kind with
      | ifHeader => exact hentry hleft
      | elseIfHeader => exact hentry hleft
      | guard => exact hentry hright
      | array =>
        match content with
        | .items [computed] => exact hentry (some_bare (hcomputed computed rfl))
        | .items [] => exact hentry (some_bare hkey)
        | .items (_ :: _ :: _) => exact hentry (some_bare hkey)
        | .empty | .scalar _ | .name _ => exact hentry (some_bare hkey)
      | _ => exact hentry (some_bare hkey)
    · exact congrArg Except.error (flawed_bare node _)

theorem ofEntries_bare (cell : Nat) : (ns : List Node) → (b : BlockParts) →
    ofEntries cell b.bare (Node.bareItems ns) = bareResult BlockParts.bare (ofEntries cell b ns)
  | [], _ => rfl
  | ⟨operator, kind, .items nodes, span, left, right⟩ :: ns, b =>
    bareResult_bind (ofPair_bare cell ⟨operator, kind, .items nodes, span, left, right⟩ nodes) fun entry =>
      bareResult_bind (BlockParts.add_bare cell b entry) fun b => ofEntries_bare cell ns b
  | ⟨operator, kind, .empty, span, left, right⟩ :: _, _ =>
    congrArg Except.error (flawed_bare ⟨operator, kind, .empty, span, left, right⟩ _)
  | ⟨operator, kind, .scalar v, span, left, right⟩ :: _, _ =>
    congrArg Except.error (flawed_bare ⟨operator, kind, .scalar v, span, left, right⟩ _)
  | ⟨operator, kind, .name s, span, left, right⟩ :: _, _ =>
    congrArg Except.error (flawed_bare ⟨operator, kind, .name s, span, left, right⟩ _)

end

end Formula

end Cellbook
