import Cellbook.Notebook.Cell
import Cellbook.Proofs.Source.Positions

/-!
# Where faults are

A fault is within its source or at its end, whichever stage finds it (`Formula.read_positions`). The tokens are in
order, so a fault at one of them is within the source. And what is wrong with a tree is found at the beginning of a
node in it (`Formula.ofNode_fault`).
-/

namespace Cellbook

variable {p : Nat → Prop}

/-- The nodes in a tree begin at such places. -/
def Node.Begins (p : Nat → Prop) (n : Node) : Prop := ∀ m, n.Contains m → p m.span.start

namespace Node

variable {n m : Node}

theorem Begins.self (h : n.Begins p) : p n.span.start := h n .refl

theorem Begins.child (h : n.Begins p) (hm : m ∈ n.children) : m.Begins p := fun k hk => h k (.head hm hk)

theorem Begins.left (h : n.Begins p) : ∀ m ∈ n.left, m.Begins p := by
  intro m hm
  exact h.child (List.mem_append_left _ (List.mem_append_left _ (Option.mem_toList.mpr hm)))

theorem Begins.items (h : n.Begins p) : ∀ m ∈ n.items, m.Begins p := by
  intro m hm
  exact h.child (List.mem_append_left _ (List.mem_append_right _ hm))

theorem Begins.right (h : n.Begins p) : ∀ m ∈ n.right, m.Begins p := by
  intro m hm
  exact h.child (List.mem_append_right _ (Option.mem_toList.mpr hm))

end Node

/-- A stage of which nothing is said but where its faults are. -/
abbrev FaultsAt {α : Type} (p : Nat → Prop) (x : Except SourceFault α) : Prop := EndsWhere p (fun _ => True) x

theorem FaultsAt.map {α β : Type} (k : α → β) {x : Except SourceFault α} (hx : FaultsAt p x) :
    FaultsAt p (k <$> x) := by
  cases hx with
  | error h => exact .error h
  | ok h => exact .ok h

/-- Where an entry begins that has to find its place among clauses. -/
def ListEntry.Begins (p : Nat → Prop) : ListEntry → Prop
  | .plain _ => True
  | .first _ span | .further _ span | .last _ span => p span.start

theorem BlockParts.add_faultsAt (cell : Nat) (b : BlockParts) {entry : ListEntry} (h : entry.Begins p) :
    FaultsAt p (b.add cell entry) := by
  have hstart : FaultsAt p (OpenPart.start entry) := by
    cases entry with
    | plain e => exact .ok trivial
    | first c span => exact .ok trivial
    | further c span => exact .error h
    | last c span => exact .error h
  unfold add
  split
  · exact .ok trivial
  · exact hstart.bind fun part _ => .ok trivial

namespace Formula

theorem flawed_faultsAt {α : Type} {A : α → Prop} {n : Node} (h : n.Begins p) (flaw : Flaw) :
    EndsWhere p A (throw (flawed n flaw)) := .error h.self

theorem parameterNames_faultsAt {nodes : List Node} (h : ∀ n ∈ nodes, n.Begins p) :
    FaultsAt p (parameterNames nodes) := by
  induction nodes with
  | nil => exact .ok trivial
  | cons n nodes ih =>
    obtain ⟨hn, hnodes⟩ := List.forall_mem_cons.mp h
    rw [parameterNames, List.mapM_cons]
    refine EndsIn.bind (P := fun _ => True) ?_ fun name _ => (ih hnodes).bind fun names _ => .ok trivial
    split
    · exact .ok trivial
    · exact flawed_faultsAt hn _

theorem required_faultsAt {n : Node} {part : Except SourceFault (Option Formula)} (hn : n.Begins p)
    (hpart : FaultsAt p part) : FaultsAt p (required n part) := by
  refine hpart.bind fun f? _ => ?_
  cases f? with
  | none => exact flawed_faultsAt hn _
  | some f => exact .ok trivial

theorem signatureOf_faultsAt (cell : Nat) (name : Option String) {group : Node} (guard : Option Formula)
    (h : group.Begins p) : FaultsAt p (signatureOf cell name group guard) :=
  (parameterNames_faultsAt h.items).bind fun _ _ => .ok trivial

theorem entryOf_faultsAt (cell : Nat) {node key : Node} {value : Except SourceFault Formula}
    {part : Except SourceFault (Option Formula)} (hnode : node.Begins p) (hkey : key.Begins p)
    (hvalue : FaultsAt p value) (hpart : FaultsAt p part) :
    EndsWhere p (ListEntry.Begins p) (entryOf cell node key value part) := by
  have hrequired := required_faultsAt hkey hpart
  refine hvalue.bind fun body _ => ?_
  dsimp only
  cases key.kind with
  | ifHeader => exact hrequired.bind fun f _ => .ok hnode.self
  | elseIfHeader => exact hrequired.bind fun f _ => .ok hnode.self
  | elseHeader => exact .ok hnode.self
  | identifier => exact .ok trivial
  | grouping => exact (signatureOf_faultsAt cell none none hkey).bind fun k _ => .ok trivial
  | guard =>
    cases hleft : key.left with
    | none => exact flawed_faultsAt hkey _
    | some group =>
      refine hrequired.bind fun f _ => ?_
      exact (signatureOf_faultsAt cell none (some f) (hkey.left group hleft)).bind fun k _ => .ok trivial
  | apply =>
    cases key.left with
    | none => exact flawed_faultsAt hkey _
    | some callee =>
      dsimp only
      cases callee.name? with
      | none => exact flawed_faultsAt hkey _
      | some name => exact (signatureOf_faultsAt cell (some name) none hkey).bind fun k _ => .ok trivial
  | array =>
    dsimp only
    split
    · split
      · exact flawed_faultsAt hkey _
      · exact hrequired.bind fun f _ => .ok trivial
    · exact flawed_faultsAt hkey _
  | _ => exact hrequired.bind fun f _ => .ok trivial

mutual

theorem ofNode_faultsAt (cell : Nat) : (n : Node) → n.Begins p → FaultsAt p (ofNode cell n)
  | ⟨operator, kind, content, span, left, right⟩, h => by
    have hflawed (flaw : Flaw) : FaultsAt p
        (throw (flawed ⟨operator, kind, content, span, left, right⟩ flaw) : Except SourceFault Formula) :=
      flawed_faultsAt h flaw
    have hleft := required_faultsAt h (ofOperand_faultsAt cell left h.left)
    have hright := required_faultsAt h (ofOperand_faultsAt cell right h.right)
    unfold ofNode
    cases kind with
    | literal => cases content <;> first | exact .ok trivial | exact hflawed _
    | identifier => cases content <;> first | exact .ok trivial | exact hflawed _
    | binary =>
      dsimp only
      cases BinaryOp.ofSymbol? operator with
      | none => exact hflawed _
      | some op => exact hleft.bind fun l _ => hright.bind fun r _ => .ok trivial
    | unary =>
      dsimp only
      cases UnaryOp.ofSymbol? operator with
      | none => exact hflawed _
      | some op => exact hright.bind fun r _ => .ok trivial
    | grouping =>
      match content with
      | .items [single] => exact ofNode_faultsAt cell single (h.items single List.mem_cons_self)
      | .items [] => exact hflawed _
      | .items (_ :: _ :: _) => exact hflawed _
      | .empty | .scalar _ | .name _ => exact hflawed _
    | array =>
      match content with
      | .items nodes => exact (ofElements_faultsAt cell nodes 0 none h.items).bind fun r _ => .ok trivial
      | .empty | .scalar _ | .name _ => exact .ok trivial
    | apply =>
      refine hleft.bind fun callee _ => ?_
      match content with
      | .items nodes => exact (ofNodes_faultsAt cell nodes h.items).bind fun args _ => .ok trivial
      | .empty | .scalar _ | .name _ => exact .ok trivial
    | index =>
      refine hleft.bind fun target _ => ?_
      match content with
      | .items [key] =>
        exact (ofNode_faultsAt cell key (h.items key List.mem_cons_self)).bind fun k _ => .ok trivial
      | .items [] => exact hflawed _
      | .items (_ :: _ :: _) => exact hflawed _
      | .empty | .scalar _ | .name _ => exact hflawed _
    | member =>
      refine hleft.bind fun object _ => ?_
      cases right with
      | none => exact hflawed _
      | some attr =>
        dsimp only
        cases attr.name? with
        | none => exact hflawed _
        | some name => exact .ok trivial
    | entry =>
      match content with
      | .items nodes =>
        refine (ofPair_faultsAt cell ⟨operator, .entry, .items nodes, span, left, right⟩ nodes h h.items).bind
          fun entry hentry => ?_
        exact (BlockParts.add_faultsAt cell .empty hentry).bind fun b _ => .ok trivial
      | .empty | .scalar _ | .name _ => exact hflawed _
    | entries =>
      match content with
      | .items nodes => exact (ofEntries_faultsAt cell nodes .empty h.items).bind fun b _ => .ok trivial
      | .empty | .scalar _ | .name _ => exact .ok trivial
    | guard => exact hflawed _
    | ifHeader => exact hflawed _
    | elseIfHeader => exact hflawed _
    | elseHeader => exact hflawed _
    | range => exact hflawed _

theorem ofOperand_faultsAt (cell : Nat) : (n? : Option Node) → (∀ n ∈ n?, n.Begins p) → FaultsAt p (ofOperand cell n?)
  | none, _ => .ok trivial
  | some n, h => (ofNode_faultsAt cell n (h n rfl)).bind fun _ _ => .ok trivial

theorem ofNodes_faultsAt (cell : Nat) : (ns : List Node) → (∀ n ∈ ns, n.Begins p) → FaultsAt p (ofNodes cell ns)
  | [], _ => .ok trivial
  | n :: ns, h => by
    obtain ⟨hn, hns⟩ := List.forall_mem_cons.mp h
    exact (ofNode_faultsAt cell n hn).bind fun f _ => (ofNodes_faultsAt cell ns hns).bind fun fs _ => .ok trivial

theorem ofElements_faultsAt (cell : Nat) : (ns : List Node) → (position : Nat) → (place : Option Nat) →
    (∀ n ∈ ns, n.Begins p) → FaultsAt p (ofElements cell position place ns)
  | [], _, _, _ => .ok trivial
  | ⟨operator, kind, content, span, left, right⟩ :: ns, position, place, h => by
    obtain ⟨hn, hns⟩ := List.forall_mem_cons.mp h
    have hnode := ofNode_faultsAt cell ⟨operator, kind, content, span, left, right⟩ hn
    unfold ofElements
    cases kind with
    | range =>
      dsimp only
      split
      · exact flawed_faultsAt hn _
      · refine (ofOperand_faultsAt cell left hn.left).bind fun first _ => ?_
        refine (ofOperand_faultsAt cell right hn.right).bind fun last _ => ?_
        exact (ofElements_faultsAt cell ns (position + 1) (some position) hns).bind fun r _ => .ok trivial
    | _ =>
      refine hnode.bind fun f _ => ?_
      exact (ofElements_faultsAt cell ns (position + 1) place hns).bind fun r _ => .ok trivial

theorem ofPair_faultsAt (cell : Nat) (node : Node) : (ns : List Node) → node.Begins p → (∀ n ∈ ns, n.Begins p) →
    EndsWhere p (ListEntry.Begins p) (ofPair cell node ns)
  | [], hnode, _ => flawed_faultsAt hnode _
  | [_], hnode, _ => flawed_faultsAt hnode _
  | _ :: _ :: _ :: _, hnode, _ => flawed_faultsAt hnode _
  | [⟨operator, kind, content, span, left, right⟩, value], hnode, h => by
    obtain ⟨hkey, h⟩ := List.forall_mem_cons.mp h
    have hvalue := ofNode_faultsAt cell value (h value List.mem_cons_self)
    have hwhole := (ofNode_faultsAt cell ⟨operator, kind, content, span, left, right⟩ hkey).map some
    have hleft := ofOperand_faultsAt cell left hkey.left
    have hright := ofOperand_faultsAt cell right hkey.right
    unfold ofPair
    split
    · cases kind with
      | ifHeader => exact entryOf_faultsAt cell hnode hkey hvalue hleft
      | elseIfHeader => exact entryOf_faultsAt cell hnode hkey hvalue hleft
      | guard => exact entryOf_faultsAt cell hnode hkey hvalue hright
      | array =>
        match content with
        | .items [computed] =>
          have hcomputed := (ofNode_faultsAt cell computed (hkey.items computed List.mem_cons_self)).map some
          exact entryOf_faultsAt cell hnode hkey hvalue hcomputed
        | .items [] => exact entryOf_faultsAt cell hnode hkey hvalue hwhole
        | .items (_ :: _ :: _) => exact entryOf_faultsAt cell hnode hkey hvalue hwhole
        | .empty | .scalar _ | .name _ => exact entryOf_faultsAt cell hnode hkey hvalue hwhole
      | _ => exact entryOf_faultsAt cell hnode hkey hvalue hwhole
    · exact flawed_faultsAt hnode _

theorem ofEntries_faultsAt (cell : Nat) : (ns : List Node) → (b : BlockParts) → (∀ n ∈ ns, n.Begins p) →
    FaultsAt p (ofEntries cell b ns)
  | [], _, _ => .ok trivial
  | ⟨operator, kind, .items nodes, span, left, right⟩ :: ns, b, h => by
    obtain ⟨hn, hns⟩ := List.forall_mem_cons.mp h
    refine (ofPair_faultsAt cell ⟨operator, kind, .items nodes, span, left, right⟩ nodes hn hn.items).bind
      fun entry hentry => ?_
    exact (BlockParts.add_faultsAt cell b hentry).bind fun b' _ => ofEntries_faultsAt cell ns b' hns
  | ⟨operator, kind, .empty, span, left, right⟩ :: ns, _, h => flawed_faultsAt (List.forall_mem_cons.mp h).1 _
  | ⟨operator, kind, .scalar v, span, left, right⟩ :: ns, _, h => flawed_faultsAt (List.forall_mem_cons.mp h).1 _
  | ⟨operator, kind, .name s, span, left, right⟩ :: ns, _, h => flawed_faultsAt (List.forall_mem_cons.mp h).1 _

end

/-- **What is wrong with a tree** is found at the beginning of a node in it. -/
theorem ofNode_fault {cell : Nat} {n : Node} {f : SourceFault} (h : ofNode cell n = .error f) :
    ∃ m, n.Contains m ∧ f.index = m.span.start := by
  have hbegins : n.Begins fun i => ∃ m, n.Contains m ∧ i = m.span.start := fun m hm => ⟨m, hm, rfl⟩
  exact (ofNode_faultsAt cell n hbegins).of_eq_error h

theorem ofNode_faultsWithin {limit : Nat} (cell : Nat) {n : Node} (h : n.Sound limit) :
    FaultsAt (· ≤ limit) (ofNode cell n) := by
  cases hf : ofNode cell n with
  | ok formula => exact .ok trivial
  | error f =>
    obtain ⟨m, hm, hindex⟩ := ofNode_fault hf
    cases h.contains hm with
    | mk hstop horder _ _ => exact .error (hindex.trans_le (horder.le.trans hstop))

/-- **Positions are sound.** In the tree of a source every node is in its place, at any depth, and if there is none,
or no formula, then the fault is within the source or at its end. -/
theorem read_positions (g : Grammar) (cell : Nat) (source : String) :
    (∀ ts n, Token.scan g source = .ok ts → Node.parse g ts = .ok n → ∀ m, n.Contains m → m.Placed source) ∧
      ∀ f, read g cell source = .error f → f.index ≤ source.toList.length := by
  have hread : FaultsAt (· ≤ source.toList.length) (read g cell source) := by
    refine (Token.scan_endsWhere g source).bind fun ts hts => ?_
    refine (Node.parse_endsWhere g hts.inOrder).bind fun n hn => ?_
    exact (ofNode_faultsWithin cell hn).bind fun formula _ => .ok trivial
  exact ⟨fun ts n hts hn m hm => Node.placed_of_parse hts hn hm, fun f h => hread.of_eq_error h⟩

theorem read_positions_of_wide_letters :
    (∃ ts n, Token.scan .standard "é.ß + [1, 'ü']" = .ok ts ∧ Node.parse .standard ts = .ok n ∧
      n.children.map (fun m => (m.span.start, m.span.stop, m.sourceText "é.ß + [1, 'ü']")) =
        [(0, 3, "é.ß"), (6, 14, "[1, 'ü']")] ∧
      ∀ m, n.Contains m → m.Placed "é.ß + [1, 'ü']") ∧
    ∃ f, read .standard 1 "é: ()" = .error f ∧ f.index = 3 ∧ f.index ≤ "é: ()".toList.length := by
  have hplaces : ((Token.scan .standard "é.ß + [1, 'ü']").toOption.bind fun ts => (Node.parse .standard ts).toOption.map
      fun n => n.children.map fun m => (m.span.start, m.span.stop, m.sourceText "é.ß + [1, 'ü']")) =
      some [(0, 3, "é.ß"), (6, 14, "[1, 'ü']")] := by
    decide +kernel
  have hfault : (match read .standard 1 "é: ()" with
      | .ok _ => none
      | .error f => some f.index) = some 3 := by
    decide +kernel
  constructor
  · cases hts : Token.scan .standard "é.ß + [1, 'ü']" with
    | error e =>
      rw [hts] at hplaces
      cases hplaces
    | ok ts =>
    cases hn : Node.parse .standard ts with
    | error e =>
      rw [hts, Except.toOption, Option.bind_some, hn] at hplaces
      cases hplaces
    | ok n =>
      rw [hts, Except.toOption, Option.bind_some, hn] at hplaces
      exact ⟨ts, n, rfl, hn, Option.some.inj hplaces, (read_positions .standard 1 _).1 ts n hts hn⟩
  · cases hf : read .standard 1 "é: ()" with
    | ok r =>
      rw [hf] at hfault
      cases hfault
    | error f =>
      rw [hf] at hfault
      exact ⟨f, rfl, Option.some.inj hfault, (read_positions .standard 1 _).2 f hf⟩

end Formula

end Cellbook
