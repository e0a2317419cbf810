import Mathlib.Logic.Relation
import Cellbook.Proofs.Source.Tiling
import Cellbook.Proofs.Text.Bytes
import Cellbook.Source.Node.Parse

/-!
# Where the nodes of a tree are

Each node of the tree that is read from a source covers the nodes in it, and those stand one behind the other, as
they are written. `Node.placed_of_parse` says so at every depth, under any grammar.

The readers hand on the tokens that are left. All of them keep one invariant (`Node.Stands`): the node that is read is
sound, and the tokens that are left are behind it. So a node that is made of two others and a token between them has
them in that order.
-/

namespace Cellbook

open Relation (ReflTransGen)

/-! ## Spans in order -/

namespace Span

/-- **Spans in order** from one place to another: none ends before it begins, or begins before the end of the one in
front of it. -/
def InOrder : (start : Nat) → List Span → (stop : Nat) → Prop
  | start, [], stop => start ≤ stop
  | start, s :: ss, stop => start ≤ s.start ∧ s.start ≤ s.stop ∧ InOrder s.stop ss stop

variable {a b c : Nat} {ss us : List Span}

theorem InOrder.le (h : InOrder a ss b) : a ≤ b := by
  induction ss generalizing a with
  | nil => exact h
  | cons s ss ih =>
    obtain ⟨hstart, hspan, hss⟩ := h
    exact hstart.trans (hspan.trans (ih hss))

theorem InOrder.append (h : InOrder a ss b) (h' : InOrder b us c) : InOrder a (ss ++ us) c := by
  induction ss generalizing a with
  | nil =>
    cases us with
    | nil => exact h.trans h'
    | cons u us => exact ⟨h.trans h'.1, h'.2⟩
  | cons s ss ih =>
    obtain ⟨hstart, hspan, hss⟩ := h
    exact ⟨hstart, hspan, ih hss⟩

theorem InOrder.from_le {a' : Nat} (h : InOrder a ss b) (ha : a' ≤ a) : InOrder a' ss b := by
  cases ss with
  | nil => exact ha.trans h
  | cons s ss => exact ⟨ha.trans h.1, h.2⟩

theorem InOrder.to_le {b' : Nat} (h : InOrder a ss b) (hb : b ≤ b') : InOrder a ss b' := by
  induction ss generalizing a with
  | nil => exact h.trans hb
  | cons s ss ih =>
    obtain ⟨hstart, hspan, hss⟩ := h
    exact ⟨hstart, hspan, ih hss⟩

theorem InOrder.of_mem (h : InOrder a ss b) : ∀ s ∈ ss, a ≤ s.start ∧ s.start ≤ s.stop ∧ s.stop ≤ b := by
  induction ss generalizing a with
  | nil => exact List.forall_mem_nil _
  | cons s ss ih =>
    obtain ⟨hstart, hspan, hss⟩ := h
    refine List.forall_mem_cons.mpr ⟨⟨hstart, hspan, hss.le⟩, fun u hu => ?_⟩
    obtain ⟨hu, hus⟩ := ih hss u hu
    exact ⟨hstart.trans (hspan.trans hu), hus⟩

theorem InOrder.pairwise (h : InOrder a ss b) : ss.Pairwise fun s u => s.stop ≤ u.start := by
  induction ss generalizing a with
  | nil => exact .nil
  | cons s ss ih => exact .cons (fun u hu => (h.2.2.of_mem u hu).1) (ih h.2.2)

end Span

theorem Token.Tiles.inOrder {source : List Char} {a b : Nat} {ts : List Token} (h : Tiles source a ts b) :
    Span.InOrder a (ts.map Token.span) b := by
  induction ts generalizing a with
  | nil => exact h.1
  | cons t ts ih =>
    obtain ⟨⟨hstart, -⟩, ht, hts⟩ := h
    exact ⟨hstart, ht.start_le, ih hts⟩

/-- The join of a span and another one further on. -/
theorem Span.join_eq {s u : Span} (hstart : s.start ≤ u.start) (hstop : s.stop ≤ u.stop) :
    s.join u = ⟨s.start, u.stop⟩ := by
  rw [join, Nat.min_eq_left hstart, Nat.max_eq_right hstop]

theorem Span.join_comm (s u : Span) : s.join u = u.join s := by
  rw [join, join, Nat.min_comm, Nat.max_comm]

namespace Node

/-! ## Nodes in their places -/

/-- The nodes right in a node: its left operand, those of its list, and its right operand. -/
def children (n : Node) : List Node := n.left.toList ++ n.items ++ n.right.toList

/-- **A node stands in another one**, at any depth; it stands in itself. -/
def Contains : Node → Node → Prop := ReflTransGen fun n m => m ∈ n.children

/-- **A node is in its place** in a source. -/
structure Placed (source : String) (n : Node) : Prop where
  start_le : n.span.start ≤ n.span.stop
  stop_le : n.span.stop ≤ source.toList.length
  covers : ∀ m ∈ n.children, n.span.start ≤ m.span.start ∧ m.span.stop ≤ n.span.stop
  /-- The nodes right in it follow one another. -/
  pairwise : n.children.Pairwise fun m k => m.span.stop ≤ k.span.start
  /-- Its text are the characters in its span. -/
  sourceText : n.sourceText? source = some (String.ofList (n.span.slice source.toList))

/-- **A sound tree**: its nodes are in order at every depth, and end before a limit. The list of entries can be
added to, since nothing stands behind it. -/
inductive Sound (limit : Nat) : Node → Prop
  | mk {n : Node} (hstop : n.span.stop ≤ limit)
      (horder : Span.InOrder n.span.start (n.children.map Node.span) n.span.stop)
      (hentries : n.kind = .entries → n.right = none) (hchildren : ∀ m ∈ n.children, Sound limit m) : Sound limit n

variable {limit lo : Nat} {n m : Node} {ts : List Token}

theorem Sound.start_le (h : n.Sound limit) : n.span.start ≤ n.span.stop := by
  cases h with
  | mk _ horder _ _ => exact horder.le

theorem Sound.contains (h : n.Sound limit) (hm : n.Contains m) : m.Sound limit := by
  induction hm with
  | refl => exact h
  | tail _ hchild ih =>
    cases ih with
    | mk _ _ _ hchildren => exact hchildren _ hchild

theorem Sound.placed {source : String} (h : n.Sound source.toList.length) : n.Placed source := by
  cases h with
  | mk hstop horder _ _ =>
    refine ⟨horder.le, hstop, fun m hm => ?_, ?_, n.sourceText?_eq source⟩
    · obtain ⟨hstart, -, hend⟩ := horder.of_mem m.span (List.mem_map_of_mem hm)
      exact ⟨hstart, hend⟩
    · exact List.pairwise_map.mp horder.pairwise

/-! ## What readers do -/

/-- The tokens ahead are in order. -/
def Ahead (limit lo : Nat) (ts : List Token) : Prop := Span.InOrder lo (ts.map Token.span) limit

theorem Ahead.le (h : Ahead limit lo ts) : lo ≤ limit := Span.InOrder.le h

theorem Ahead.drop (h : Ahead limit lo ts) : Ahead limit lo (ts.drop 1) := by
  cases ts with
  | nil => exact h
  | cons t ts =>
    obtain ⟨hstart, hspan, hts⟩ := h
    exact Span.InOrder.from_le hts (hstart.trans hspan)

/-- **A node is read**: it is sound, and the tokens that are left are behind it. -/
structure Stands (limit lo : Nat) (n : Node) (ts : List Token) : Prop where
  start_le : lo ≤ n.span.start
  sound : n.Sound limit
  ahead : Ahead limit n.span.stop ts

theorem Stands.from_le {lo' : Nat} (h : Stands limit lo n ts) (hlo : lo' ≤ lo) : Stands limit lo' n ts :=
  ⟨hlo.trans h.start_le, h.sound, h.ahead⟩

/-- Items are read, and the token that closes them. -/
structure ItemsStand (limit lo : Nat) (r : List Node × Span) (ts : List Token) : Prop where
  inOrder : Span.InOrder lo (r.1.map Node.span) r.2.start
  start_le : r.2.start ≤ r.2.stop
  sound : ∀ m ∈ r.1, m.Sound limit
  ahead : Ahead limit r.2.stop ts

/-- A fault within a limit. -/
def Stop.Within (limit : Nat) : Stop → Prop
  | .fault f => f.index ≤ limit
  | .exhausted => True

/-- **What a reader does**: so it is of what it gives and of the tokens that it leaves, and a fault is within the
limit. -/
abbrev ReadsWithin {α : Type} (limit : Nat) (A : α → List Token → Prop) (x : Except Stop (α × List Token)) : Prop :=
  EndsIn (Stop.Within limit) (fun r => A r.1 r.2) x

namespace ReadsWithin

variable {α β : Type} {A : α → List Token → Prop} {B : β → List Token → Prop}

theorem pure {a : α} (h : A a ts) : ReadsWithin limit A (Pure.pure (a, ts)) := .ok h

theorem exhausted : ReadsWithin limit A (throw .exhausted) := .error trivial

theorem throw {f : SourceFault} (h : f.index ≤ limit) : ReadsWithin limit A (throw (.fault f)) := .error h

theorem bind {x : Except Stop (α × List Token)} {k : α × List Token → Except Stop (β × List Token)}
    (hx : ReadsWithin limit A x) (hk : ∀ a ts, A a ts → ReadsWithin limit B (k (a, ts))) :
    ReadsWithin limit B (x >>= k) :=
  EndsIn.bind hx fun r hr => hk r.1 r.2 hr

end ReadsWithin

section

variable {α : Type} {A : α → List Token → Prop} {stop : Nat}

theorem unexpected_within (hstop : stop ≤ limit) (h : Ahead limit lo ts) :
    ReadsWithin limit A (throw (unexpected stop ts)) := by
  cases ts with
  | nil => exact .throw hstop
  | cons t ts => exact .throw (h.2.1.trans h.2.2.le)

theorem expect_within {name : String} (hstop : stop ≤ limit) (h : Ahead limit lo ts) :
    ReadsWithin limit (fun t ts => Ahead limit lo (t :: ts)) (expect stop name ts) := by
  unfold expect
  cases ts with
  | nil => exact .throw hstop
  | cons t ts =>
    dsimp only
    split
    · exact .pure h
    · exact .throw (h.2.1.trans h.2.2.le)

end

/-! ## How nodes are made -/

section

variable {t : Token} {us : List Token} {left right : Node}

/-- A node whose children are in order from its start to its end. -/
theorem stands_of_children {a b : Nat} (ns : List Node) (hspan : n.span = ⟨a, b⟩) (hchildren : n.children = ns)
    (hentries : n.kind = .entries → n.right = none) (hlo : lo ≤ a) (horder : Span.InOrder a (ns.map Node.span) b)
    (hsound : ∀ m ∈ ns, m.Sound limit) (hahead : Ahead limit b ts) : Stands limit lo n ts := by
  subst hchildren
  have hstart : n.span.start = a := congrArg Span.start hspan
  have hstop : n.span.stop = b := congrArg Span.stop hspan
  subst hstart hstop
  exact ⟨hlo, .mk hahead.le horder hentries hsound, hahead⟩

/-- One token. -/
theorem stands_alone (hspan : n.span = t.span) (hchildren : n.children = [])
    (hentries : n.kind = .entries → n.right = none) (h : Ahead limit lo (t :: ts)) : Stands limit lo n ts :=
  stands_of_children _ hspan hchildren hentries h.1 h.2.1 (List.forall_mem_nil _) h.2.2

/-- A token in front of a node. -/
theorem stands_led (hspan : n.span = t.span.join m.span) (hchildren : n.children = [m])
    (hentries : n.kind = .entries → n.right = none) (h : Ahead limit lo (t :: us))
    (hm : Stands limit t.span.stop m ts) : Stands limit lo n ts := by
  obtain ⟨hlo, ht, -⟩ := h
  have hspan' : n.span = ⟨t.span.start, m.span.stop⟩ :=
    hspan.trans (Span.join_eq (ht.trans hm.start_le) (hm.start_le.trans hm.sound.start_le))
  have horder : Span.InOrder t.span.start [m.span] m.span.stop :=
    ⟨ht.trans hm.start_le, hm.sound.start_le, Nat.le_refl _⟩
  exact stands_of_children _ hspan' hchildren hentries hlo horder (List.forall_mem_singleton.mpr hm.sound) hm.ahead

/-- The span of a node and a token behind it. -/
theorem Stands.join_eq (hleft : Stands limit lo left (t :: us)) :
    t.span.join left.span = ⟨left.span.start, t.span.stop⟩ := by
  obtain ⟨hbefore, ht, -⟩ := hleft.ahead
  have hstart := hleft.sound.start_le
  rw [Span.join_comm, Span.join_eq (hstart.trans hbefore) (hbefore.trans ht)]

/-- A token behind a node. -/
theorem stands_followed (hspan : n.span = t.span.join left.span) (hchildren : n.children = [left])
    (hentries : n.kind = .entries → n.right = none) (hleft : Stands limit lo left (t :: ts)) :
    Stands limit lo n ts := by
  obtain ⟨hbefore, ht, hahead⟩ := hleft.ahead
  have horder : Span.InOrder left.span.start [left.span] t.span.stop :=
    ⟨Nat.le_refl _, hleft.sound.start_le, hbefore.trans ht⟩
  exact stands_of_children _ (hspan.trans hleft.join_eq) hchildren hentries hleft.start_le horder
    (List.forall_mem_singleton.mpr hleft.sound) hahead

/-- A token between two nodes. -/
theorem stands_joined (hspan : n.span = (t.span.join left.span).join right.span)
    (hchildren : n.children = [left, right]) (hentries : n.kind = .entries → n.right = none)
    (hleft : Stands limit lo left (t :: us)) (hright : Stands limit t.span.stop right ts) : Stands limit lo n ts := by
  obtain ⟨hbefore, ht, -⟩ := hleft.ahead
  have hstart := hleft.sound.start_le
  have hstart' := hright.start_le
  have hstop' := hright.sound.start_le
  have hspan' : n.span = ⟨left.span.start, right.span.stop⟩ := by
    rw [hspan, hleft.join_eq, Span.join_eq]
    · exact hstart.trans (hbefore.trans (ht.trans hstart'))
    · exact hstart'.trans hstop'
  have horder : Span.InOrder left.span.start [left.span, right.span] right.span.stop :=
    ⟨Nat.le_refl _, hstart, hbefore.trans (ht.trans hstart'), hstop', Nat.le_refl _⟩
  exact stands_of_children _ hspan' hchildren hentries hleft.start_le horder
    (List.forall_mem_cons.mpr ⟨hleft.sound, List.forall_mem_singleton.mpr hright.sound⟩) hright.ahead

/-- Items between two tokens. -/
theorem stands_enclosed {r : List Node × Span} (hspan : n.span = t.span.join r.2) (hchildren : n.children = r.1)
    (hentries : n.kind = .entries → n.right = none) (h : Ahead limit lo (t :: us))
    (hr : ItemsStand limit t.span.stop r ts) : Stands limit lo n ts := by
  obtain ⟨hlo, ht, -⟩ := h
  have hle := hr.inOrder.le
  have hspan' : n.span = ⟨t.span.start, r.2.stop⟩ :=
    hspan.trans (Span.join_eq (ht.trans hle) (hle.trans hr.start_le))
  exact stands_of_children _ hspan' hchildren hentries hlo ((hr.inOrder.from_le ht).to_le hr.start_le) hr.sound hr.ahead

/-- Items between two tokens behind a node. -/
theorem stands_applied {r : List Node × Span} (hspan : n.span = (t.span.join r.2).join left.span)
    (hchildren : n.children = left :: r.1) (hentries : n.kind = .entries → n.right = none)
    (hleft : Stands limit lo left (t :: us)) (hr : ItemsStand limit t.span.stop r ts) : Stands limit lo n ts := by
  obtain ⟨hbefore, ht, -⟩ := hleft.ahead
  have hstart := hleft.sound.start_le
  have hle := hr.inOrder.le
  have hspan' : n.span = ⟨left.span.start, r.2.stop⟩ := by
    rw [hspan, Span.join_eq (ht.trans hle) (hle.trans hr.start_le), Span.join_comm, Span.join_eq]
    · exact hstart.trans hbefore
    · exact hbefore.trans (ht.trans (hle.trans hr.start_le))
  have horder : Span.InOrder left.span.start ((left :: r.1).map Node.span) r.2.stop :=
    ⟨Nat.le_refl _, hstart, (hr.inOrder.from_le (hbefore.trans ht)).to_le hr.start_le⟩
  exact stands_of_children _ hspan' hchildren hentries hleft.start_le horder
    (List.forall_mem_cons.mpr ⟨hleft.sound, hr.sound⟩) hr.ahead

/-- A further entry. -/
theorem stands_of_entry (hleft : Stands limit lo left (t :: us)) (hright : Stands limit t.span.stop right ts)
    (hadd : addEntry? ((t.span.join left.span).join right.span) left right = some n) : Stands limit lo n ts := by
  obtain ⟨hbefore, ht, -⟩ := hleft.ahead
  have hstart' := hright.start_le
  have hstop' := hright.sound.start_le
  -- what is added to is a list of entries, so nothing of it stands behind the entry
  have hadded (hkind : left.kind = .entries) : left.right = none ∧
      Span.InOrder left.span.start (left.children.map Node.span) left.span.stop ∧
      ∀ m ∈ left.children, m.Sound limit := by
    cases hleft.sound with
    | mk _ horder hentries hchildren => exact ⟨hentries hkind, horder, hchildren⟩
  have hspan : (t.span.join left.span).join right.span = ⟨left.span.start, right.span.stop⟩ := by
    rw [hleft.join_eq, Span.join_eq]
    · exact hleft.sound.start_le.trans (hbefore.trans (ht.trans hstart'))
    · exact hstart'.trans hstop'
  unfold addEntry? at hadd
  split at hadd
  · cases hadd
    exact stands_joined rfl rfl (fun _ => rfl) hleft hright
  · next nodes _ hkind hcontent =>
    cases hadd
    obtain ⟨hnone, horder, hchildren⟩ := hadded hkind
    have hitems : left.children = left.left.toList ++ nodes := by
      simp [children, items, hcontent, hnone]
    refine stands_of_children (left.children ++ [right]) hspan ?_ (fun _ => hnone) hleft.start_le ?_ ?_
      hright.ahead
    · rw [hitems]
      simp [children, items, hnone]
    · rw [List.map_append]
      exact horder.append ⟨hbefore.trans (ht.trans hstart'), hstop', Nat.le_refl _⟩
    · exact List.forall_mem_append.mpr ⟨hchildren, List.forall_mem_singleton.mpr hright.sound⟩
  · next hkind _ =>
    cases hadd
    obtain ⟨hnone, horder, hchildren⟩ := hadded hkind
    refine stands_of_children left.children hspan rfl (fun _ => hnone) hleft.start_le ?_ hchildren
      hright.ahead
    exact horder.to_le (hbefore.trans (ht.trans (hstart'.trans hstop')))
  · cases hadd

end

/-! ## The readers -/

section Read

variable {g : Grammar} {stop : Nat} (hstop : stop ≤ limit)

include hstop

mutual

theorem expression_within : (steps power : Nat) → {lo : Nat} → {ts : List Token} → Ahead limit lo ts →
    ReadsWithin limit (Stands limit lo) (expression g stop steps power ts)
  | 0, _, _, _, _ => .exhausted
  | steps + 1, power, lo, ts, h => by
    unfold expression
    split
    · exact (lead_within steps _ _ h).bind fun n ts hn => follow_within steps power hn
    · exact unexpected_within hstop h

theorem follow_within : (steps power : Nat) → {lo : Nat} → {left : Node} → {ts : List Token} →
    Stands limit lo left ts → ReadsWithin limit (Stands limit lo) (follow g stop steps power left ts)
  | 0, _, _, _, _, _ => .exhausted
  | steps + 1, power, lo, left, ts, hleft => by
    unfold follow
    split
    · exact .pure hleft
    · match ts with
      | [] => exact .pure hleft
      | t :: rest =>
        dsimp only
        split
        · exact unexpected_within hstop hleft.ahead
        · exact (join_within steps _ _ t hleft).bind fun n ts hn => follow_within steps power hn

theorem lead_within : (steps : Nat) → (leading : Leading) → (t : Token) → {lo : Nat} → {ts : List Token} →
    Ahead limit lo (t :: ts) → ReadsWithin limit (Stands limit lo) (lead g stop steps leading t ts)
  | 0, _, _, _, _, _ => .exhausted
  | steps + 1, leading, t, lo, ts, h => by
    have hrest : Ahead limit t.span.stop ts := h.2.2
    have hlo : lo ≤ t.span.stop := h.1.trans h.2.1
    unfold lead
    cases leading with
    | literal =>
      dsimp only
      split
      · exact .pure (stands_alone rfl rfl nofun h)
      · exact .throw (h.2.1.trans h.2.2.le)
    | identifier => exact .pure (stands_alone rfl rfl nofun h)
    | unary => exact (expression_within steps _ hrest).bind fun n ts hn => .pure (stands_led rfl rfl nofun h hn)
    | plus => exact expression_within steps _ (Span.InOrder.from_le hrest hlo)
    | group =>
      refine (itemList_within steps _ hrest).bind fun r ts hr => .pure ?_
      exact stands_enclosed rfl (List.append_nil r.1) nofun h hr
    | array =>
      refine (itemList_within steps _ hrest).bind fun r ts hr => .pure ?_
      exact stands_enclosed rfl (List.append_nil r.1) nofun h hr
    | brace =>
      dsimp only
      split
      · refine (expect_within hstop hrest).bind fun close ts hclose => .pure ?_
        exact stands_enclosed (r := ([], close.span)) rfl rfl (fun _ => rfl) h
          ⟨hclose.1, hclose.2.1, List.forall_mem_nil _, hclose.2.2⟩
      · refine (expression_within steps _ hrest).bind fun n ts hn => ?_
        refine (expect_within hstop hn.ahead).bind fun close ts hclose => .pure ?_
        exact ⟨hlo.trans hn.start_le, hn.sound, Span.InOrder.from_le hclose.2.2 (hclose.1.trans hclose.2.1)⟩
    | block =>
      refine (expression_within steps _ hrest).bind fun n ts hn => ?_
      refine (expect_within hstop hn.ahead).bind fun close ts hclose => .pure ?_
      exact ⟨hlo.trans hn.start_le, hn.sound, Span.InOrder.from_le hclose.2.2 (hclose.1.trans hclose.2.1)⟩
    | ifHeader => exact (expression_within steps _ hrest).bind fun n ts hn => .pure (stands_led rfl rfl nofun h hn)
    | elseHeader =>
      dsimp only
      split
      · exact (expression_within steps _ hrest.drop).bind fun n ts hn => .pure (stands_led rfl rfl nofun h hn)
      · exact .pure (stands_alone rfl rfl nofun h)
    | range =>
      dsimp only
      split
      · exact .pure (stands_alone rfl rfl nofun h)
      · exact (expression_within steps _ hrest).bind fun n ts hn => .pure (stands_led rfl rfl nofun h hn)

theorem join_within : (steps : Nat) → (trailing : Trailing) → (power : Nat) → (t : Token) → {lo : Nat} →
    {left : Node} → {ts : List Token} → Stands limit lo left (t :: ts) →
    ReadsWithin limit (Stands limit lo) (join g stop steps trailing power t left ts)
  | 0, _, _, _, _, _, _, _ => .exhausted
  | steps + 1, trailing, power, t, lo, left, ts, hleft => by
    have hrest : Ahead limit t.span.stop ts := hleft.ahead.2.2
    have hflaw : t.span.start ≤ limit := hleft.ahead.2.1.trans hrest.le
    unfold join
    cases trailing with
    | binary =>
      exact (expression_within steps _ hrest).bind fun n ts hn => .pure (stands_joined rfl rfl nofun hleft hn)
    | binaryRight =>
      exact (expression_within steps _ hrest).bind fun n ts hn => .pure (stands_joined rfl rfl nofun hleft hn)
    | notIn =>
      refine (expect_within hstop hrest).bind fun second ts hsecond => ?_
      refine (expression_within steps _ hsecond.2.2).bind fun n ts hn => .pure ?_
      exact stands_joined rfl rfl nofun hleft (hn.from_le (hsecond.1.trans hsecond.2.1))
    | call =>
      refine (itemList_within steps _ hrest).bind fun r ts hr => .pure ?_
      exact stands_applied rfl (List.append_nil (left :: r.1)) nofun hleft hr
    | index =>
      refine (expression_within steps _ hrest).bind fun key ts hkey => ?_
      refine (expect_within hstop hkey.ahead).bind fun close ts hclose => .pure ?_
      have hitems : ItemsStand limit t.span.stop ([key], close.span) ts :=
        ⟨⟨hkey.start_le, hkey.sound.start_le, hclose.1⟩, hclose.2.1, List.forall_mem_singleton.mpr hkey.sound,
          hclose.2.2⟩
      exact stands_applied rfl rfl nofun hleft hitems
    | member =>
      match ts with
      | [] => exact .throw hstop
      | name :: rest =>
        dsimp only
        split
        · exact .pure (stands_joined rfl rfl nofun hleft (stands_alone rfl rfl nofun hrest))
        · exact unexpected_within hstop hrest
    | entry => exact (expression_within steps _ hrest).bind fun n ts hn => .pure (stands_joined rfl rfl nofun hleft hn)
    | continuation =>
      refine (expression_within steps _ hrest).bind fun n ts hn => ?_
      dsimp only
      split
      next hadd => exact .pure (stands_of_entry hleft hn hadd)
      next => exact .throw hflaw
    | guard =>
      dsimp only
      split
      · exact (expression_within steps _ hrest).bind fun n ts hn => .pure (stands_joined rfl rfl nofun hleft hn)
      · exact .throw hflaw
    | range =>
      dsimp only
      split
      · exact .pure (stands_followed rfl rfl nofun hleft)
      · exact (expression_within steps _ hrest).bind fun n ts hn => .pure (stands_joined rfl rfl nofun hleft hn)

theorem itemList_within : (steps : Nat) → (close : String) → {lo : Nat} → {ts : List Token} → Ahead limit lo ts →
    ReadsWithin limit (ItemsStand limit lo) (itemList g stop steps close ts)
  | 0, _, _, _, _ => .exhausted
  | steps + 1, close, lo, ts, h => by
    unfold itemList
    split
    · exact (expect_within hstop h).bind fun t ts ht =>
        .pure ⟨ht.1, ht.2.1, List.forall_mem_nil _, ht.2.2⟩
    · exact moreItems_within steps close h

theorem moreItems_within : (steps : Nat) → (close : String) → {lo : Nat} → {ts : List Token} → Ahead limit lo ts →
    ReadsWithin limit (ItemsStand limit lo) (moreItems g stop steps close ts)
  | 0, _, _, _, _ => .exhausted
  | steps + 1, close, lo, ts, h => by
    unfold moreItems
    refine (expression_within steps _ h).bind fun n ts hn => ?_
    dsimp only
    split
    · refine (moreItems_within steps close hn.ahead.drop).bind fun r ts hr => .pure ?_
      exact ⟨⟨hn.start_le, hn.sound.start_le, hr.inOrder⟩, hr.start_le,
        List.forall_mem_cons.mpr ⟨hn.sound, hr.sound⟩, hr.ahead⟩
    · refine (expect_within hstop hn.ahead).bind fun t ts ht => .pure ?_
      exact ⟨⟨hn.start_le, hn.sound.start_le, ht.1⟩, ht.2.1, List.forall_mem_singleton.mpr hn.sound, ht.2.2⟩

end

end Read

/-- The last token ends within the limit. -/
theorem endOf_le (h : Ahead limit lo ts) : endOf ts ≤ limit := by
  unfold endOf
  cases hlast : ts.getLast? with
  | none => exact Nat.zero_le _
  | some t => exact (Span.InOrder.of_mem h t.span (List.mem_map_of_mem (List.mem_of_getLast? hlast))).2.2

/-- **The tree of tokens in order is sound**, or there is a fault within the source. -/
theorem parse_endsWhere (g : Grammar) (h : Ahead limit lo ts) : EndsWhere (· ≤ limit) (Sound limit) (parse g ts) := by
  have hread := expression_within (g := g) (endOf_le h) (enoughSteps ts) 0 h
  unfold parse parseWith
  cases hx : expression g (endOf ts) (enoughSteps ts) 0 ts with
  | error e =>
    have he := hread.of_eq_error hx
    cases e with
    | fault f => exact .error he
    | exhausted => exact .error (endOf_le h)
  | ok r =>
    obtain ⟨n, rest⟩ := r
    have hn : Stands limit lo n rest := hread.of_eq_ok hx
    cases rest with
    | nil => exact .ok hn.sound
    | cons t rest => exact .error (hn.ahead.2.1.trans hn.ahead.2.2.le)

/-- **Every node of a tree is in its place** in the source. -/
theorem placed_of_parse {g g' : Grammar} {source : String} {m : Node} (hscan : Token.scan g source = .ok ts)
    (hparse : parse g' ts = .ok n) (hm : n.Contains m) : m.Placed source := by
  have hahead : Ahead source.toList.length 0 ts := ((Token.scan_endsWhere g source).of_eq_ok hscan).inOrder
  exact (((parse_endsWhere g' hahead).of_eq_ok hparse).contains hm).placed

end Node

end Cellbook
