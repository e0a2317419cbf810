import Mathlib.Data.List.TakeWhile
import Cellbook.Proofs.Source.Lexed
import Cellbook.Source.Node.Parse

/-!
# The names in a tree

The names that a tree holds are words of its source, taken over as they stand. So what is true of every
word, say that there is no line break in it, is true of every name in the tree (`scan_named`,
`parse_named`), whatever the grammar does with the other tokens, as long as it takes only words for names.

Reading is a chain of functions that hand on the tokens that are left. What is shown of each of them is a
postcondition: the tokens that it leaves still have the property, and so has the tree that it makes.
-/

namespace Cellbook

/-- A grammar that takes only words for names. -/
def Grammar.NamesWords (g : Grammar) : Prop :=
  ∀ k ∈ g.keywords, k.leading = some .identifier → k.name = identifierName

/-- The words among tokens have a property. -/
def Token.Named (p : String → Prop) (ts : List Token) : Prop :=
  ∀ t ∈ ts, t.kind = .identifier → p t.lexeme

/-- **The names in a tree have a property.** -/
inductive Node.Named (p : String → Prop) : Node → Prop
  | mk {operator : String} {kind : NodeKind} {content : Content Node} {span : Span}
      {left right : Option Node} : (∀ s, content = .name s → p s) →
    (∀ ns, content = .items ns → ∀ n ∈ ns, Named p n) → (∀ n ∈ left, Named p n) →
    (∀ n ∈ right, Named p n) → Named p ⟨operator, kind, content, span, left, right⟩

variable {p : String → Prop}

/-! ## Words -/

theorem Token.Named.tail {t : Token} {ts : List Token} (h : Named p (t :: ts)) : Named p ts :=
  (List.forall_mem_cons.mp h).2

theorem Token.Named.drop {ts : List Token} (h : Named p ts) (n : Nat) : Named p (ts.drop n) :=
  fun t ht => h t (List.mem_of_mem_drop ht)

namespace Lexeme

end Lexeme

namespace Node

/-- What is so of what a reader gives, and of the tokens that it leaves. -/
def Gives {α : Type} (p : String → Prop) (A : α → Prop) (x : Except Stop (α × List Token)) : Prop :=
  ∀ a ts, x = .ok (a, ts) → A a ∧ Token.Named p ts

namespace Gives

variable {α β : Type} {A : α → Prop} {B : β → Prop}

theorem pure {a : α} {ts : List Token} (ha : A a) (hts : Token.Named p ts) :
    Gives p A (Pure.pure (a, ts)) := by
  rintro _ _ ⟨rfl⟩
  exact ⟨ha, hts⟩

theorem throw {e : Stop} : Gives p A (throw e) := fun _ _ h => nomatch h

theorem bind {x : Except Stop (α × List Token)} {f : α × List Token → Except Stop (β × List Token)}
    (hx : Gives p A x) (hf : ∀ a ts, A a → Token.Named p ts → Gives p B (f (a, ts))) :
    Gives p B (x >>= f) := by
  intro b ts' h
  cases x with
  | error e => cases h
  | ok r =>
    obtain ⟨ha, hts⟩ := hx r.1 r.2 rfl
    exact hf r.1 r.2 ha hts b ts' h

end Gives

theorem named_leaf {operator : String} {kind : NodeKind} {span : Span} : (leaf operator kind span).Named p :=
  .mk (by simp) (by simp) (by simp) (by simp)

theorem named_leaf_name {operator : String} {kind : NodeKind} {span : Span} {s : String} (h : p s) :
    (leaf operator kind span (.name s)).Named p := by
  refine .mk ?_ (by simp) (by simp) (by simp)
  rintro _ ⟨rfl⟩
  exact h

theorem named_leaf_items {operator : String} {kind : NodeKind} {span : Span} {ns : List Node}
    (h : ∀ n ∈ ns, n.Named p) : (leaf operator kind span (.items ns)).Named p := by
  refine .mk (by simp) ?_ (by simp) (by simp)
  rintro _ ⟨rfl⟩
  exact h

theorem Named.withLeft {n left : Node} (h : n.Named p) (hleft : left.Named p) :
    (n.withLeft left).Named p := by
  cases h with
  | mk hname hitems _ hright =>
    refine .mk hname hitems ?_ hright
    rintro _ ⟨rfl⟩
    exact hleft

theorem Named.withRight {n right : Node} (h : n.Named p) (hright : right.Named p) :
    (n.withRight right).Named p := by
  cases h with
  | mk hname hitems hleft _ =>
    refine .mk hname hitems hleft ?_
    rintro _ ⟨rfl⟩
    exact hright

theorem named_of_entry {span : Span} {left right n : Node} (hleft : left.Named p)
    (hright : right.Named p) (h : addEntry? span left right = some n) : n.Named p := by
  unfold addEntry? at h
  split at h
  · cases h
    exact named_leaf_items (by simp [hleft, hright])
  · cases h
    rename_i nodes _ _ hcontent
    cases hleft with
    | mk hname hitems hl hr =>
      refine .mk (by simp) ?_ hl hr
      rintro _ ⟨rfl⟩ n hn
      rcases List.mem_append.mp hn with hn | hn
      · exact hitems nodes hcontent n hn
      · exact List.mem_singleton.mp hn ▸ hright
  · cases h
    cases hleft with
    | mk hname hitems hl hr => exact .mk hname hitems hl hr
  · cases h

theorem expect_gives {stop : Nat} {name : String} {ts : List Token} (hts : Token.Named p ts) :
    Gives p (fun _ => True) (expect stop name ts) := by
  unfold expect
  split
  · exact .throw
  · split
    · exact .pure trivial hts.tail
    · exact .throw

/-- The token that is read as a name is a word, or it is spelt as the class of words is called. -/
theorem named_of_leading {g : Grammar} (hg : g.NamesWords) (hp : p Grammar.identifierName) {t : Token}
    {ts : List Token} (hts : Token.Named p (t :: ts))
    (h : (nextKeyword? g (t :: ts)).bind (·.leading) = some .identifier) : p t.lexeme := by
  obtain ⟨k, hk, hleading⟩ := Option.bind_eq_some_iff.mp h
  have hname : k.name = nextName (t :: ts) := by simpa using List.find?_some hk
  rw [hg k (List.mem_of_find?_eq_some hk) hleading] at hname
  have hkind := (List.forall_mem_cons.mp hts).1
  unfold nextName at hname
  dsimp only at hname
  split at hname
  · exact absurd hname (by decide)
  · rename_i hident
    exact hkind hident
  · exact absurd hname (by decide)
  · exact absurd hname (by decide)
  · exact absurd hname (by decide)
  · exact hname ▸ hp
  · exact hname ▸ hp

section Read

variable {g : Grammar} {stop : Nat}

mutual

theorem expression_gives (hg : g.NamesWords) (hp : p Grammar.identifierName) :
    (steps power : Nat) → {ts : List Token} → Token.Named p ts →
    Gives p (Named p) (expression g stop steps power ts)
  | 0, _, _, _ => .throw
  | steps + 1, power, ts, hts => by
    unfold expression
    split
    · rename_i leading t rest hleading
      refine (lead_gives hg hp steps leading t hts.tail fun h => ?_).bind fun n ts hn hts =>
        follow_gives hg hp steps power hn hts
      exact named_of_leading hg hp hts (h ▸ hleading)
    · exact .throw

theorem follow_gives (hg : g.NamesWords) (hp : p Grammar.identifierName) :
    (steps power : Nat) → {left : Node} → {ts : List Token} → left.Named p →
    Token.Named p ts → Gives p (Named p) (follow g stop steps power left ts)
  | 0, _, _, _, _, _ => .throw
  | steps + 1, power, left, ts, hleft, hts => by
    unfold follow
    split
    · exact .pure hleft hts
    · match ts with
      | [] => exact .pure hleft hts
      | t :: rest =>
        dsimp only
        split
        · exact .throw
        · exact (join_gives hg hp steps _ _ t hleft hts.tail).bind fun n ts hn hts =>
            follow_gives hg hp steps power hn hts

theorem lead_gives (hg : g.NamesWords) (hp : p Grammar.identifierName) :
    (steps : Nat) → (leading : Leading) → (t : Token) → {ts : List Token} →
    Token.Named p ts → (leading = .identifier → p t.lexeme) →
    Gives p (Named p) (lead g stop steps leading t ts)
  | 0, _, _, _, _, _ => .throw
  | steps + 1, leading, t, ts, hts, ht => by
    unfold lead
    cases leading with
    | literal =>
      dsimp only
      split
      · exact .pure (.mk (by simp) (by simp) (by simp) (by simp)) hts
      · exact .throw
    | identifier => exact .pure (named_leaf_name (ht rfl)) hts
    | unary =>
      exact (expression_gives hg hp steps _ hts).bind fun n ts hn hts => .pure (named_leaf.withRight hn) hts
    | plus => exact expression_gives hg hp steps _ hts
    | group =>
      exact (itemList_gives hg hp steps _ hts).bind fun a ts ha hts => .pure (named_leaf_items ha) hts
    | array =>
      exact (itemList_gives hg hp steps _ hts).bind fun a ts ha hts => .pure (named_leaf_items ha) hts
    | brace =>
      dsimp only
      split
      · exact (expect_gives hts).bind fun _ ts _ hts => .pure (named_leaf_items (by simp)) hts
      · exact (expression_gives hg hp steps _ hts).bind fun n ts hn hts =>
          (expect_gives hts).bind fun _ ts _ hts => .pure hn hts
    | block =>
      exact (expression_gives hg hp steps _ hts).bind fun n ts hn hts =>
        (expect_gives hts).bind fun _ ts _ hts => .pure hn hts
    | ifHeader =>
      exact (expression_gives hg hp steps _ hts).bind fun n ts hn hts => .pure (named_leaf.withLeft hn) hts
    | elseHeader =>
      dsimp only
      split
      · exact (expression_gives hg hp steps _ (hts.drop 1)).bind fun n ts hn hts =>
          .pure (named_leaf.withLeft hn) hts
      · exact .pure named_leaf hts
    | range =>
      dsimp only
      split
      · exact .pure named_leaf hts
      · exact (expression_gives hg hp steps _ hts).bind fun n ts hn hts => .pure (named_leaf.withRight hn) hts

theorem join_gives (hg : g.NamesWords) (hp : p Grammar.identifierName) :
    (steps : Nat) → (trailing : Trailing) → (power : Nat) → (t : Token) → {left : Node} →
    {ts : List Token} → left.Named p → Token.Named p ts →
    Gives p (Named p) (join g stop steps trailing power t left ts)
  | 0, _, _, _, _, _, _, _ => .throw
  | steps + 1, trailing, power, t, left, ts, hleft, hts => by
    unfold join
    cases trailing with
    | binary =>
      exact (expression_gives hg hp steps _ hts).bind fun n ts hn hts =>
        .pure ((named_leaf.withLeft hleft).withRight hn) hts
    | binaryRight =>
      exact (expression_gives hg hp steps _ hts).bind fun n ts hn hts =>
        .pure ((named_leaf.withLeft hleft).withRight hn) hts
    | notIn =>
      exact (expect_gives hts).bind fun _ ts _ hts =>
        (expression_gives hg hp steps _ hts).bind fun n ts hn hts =>
          .pure ((named_leaf.withLeft hleft).withRight hn) hts
    | call =>
      exact (itemList_gives hg hp steps _ hts).bind fun a ts ha hts =>
        .pure ((named_leaf_items ha).withLeft hleft) hts
    | index =>
      exact (expression_gives hg hp steps _ hts).bind fun n ts hn hts =>
        (expect_gives hts).bind fun _ ts _ hts =>
          .pure ((named_leaf_items (by simp [hn])).withLeft hleft) hts
    | member =>
      match ts with
      | [] => exact .throw
      | name :: rest =>
        dsimp only
        split
        · rename_i hkind
          have hname : p name.lexeme := hts name List.mem_cons_self hkind
          exact .pure ((named_leaf.withLeft hleft).withRight (named_leaf_name hname)) hts.tail
        · exact .throw
    | entry =>
      exact (expression_gives hg hp steps _ hts).bind fun n ts hn hts =>
        .pure (named_leaf_items (by simp [hleft, hn])) hts
    | continuation =>
      refine (expression_gives hg hp steps _ hts).bind fun n ts hn hts => ?_
      dsimp only
      split
      · rename_i hadd
        exact .pure (named_of_entry hleft hn hadd) hts
      · exact .throw
    | guard =>
      dsimp only
      split
      · exact (expression_gives hg hp steps _ hts).bind fun n ts hn hts =>
          .pure ((named_leaf.withLeft hleft).withRight hn) hts
      · exact .throw
    | range =>
      dsimp only
      split
      · exact .pure (named_leaf.withLeft hleft) hts
      · exact (expression_gives hg hp steps _ hts).bind fun n ts hn hts =>
          .pure ((named_leaf.withLeft hleft).withRight hn) hts

theorem itemList_gives (hg : g.NamesWords) (hp : p Grammar.identifierName) :
    (steps : Nat) → (close : String) → {ts : List Token} → Token.Named p ts →
    Gives p (fun r : List Node × Span => ∀ n ∈ r.1, n.Named p) (itemList g stop steps close ts)
  | 0, _, _, _ => .throw
  | steps + 1, close, ts, hts => by
    unfold itemList
    split
    · exact (expect_gives hts).bind fun _ ts _ hts => .pure (by simp) hts
    · exact moreItems_gives hg hp steps close hts

theorem moreItems_gives (hg : g.NamesWords) (hp : p Grammar.identifierName) :
    (steps : Nat) → (close : String) → {ts : List Token} → Token.Named p ts →
    Gives p (fun r : List Node × Span => ∀ n ∈ r.1, n.Named p) (moreItems g stop steps close ts)
  | 0, _, _, _ => .throw
  | steps + 1, close, ts, hts => by
    unfold moreItems
    refine (expression_gives hg hp steps _ hts).bind fun n ts hn hts => ?_
    dsimp only
    split
    · exact (moreItems_gives hg hp steps close (hts.drop 1)).bind fun r ts hr hts =>
        .pure (List.forall_mem_cons.mpr ⟨hn, hr⟩) hts
    · exact (expect_gives hts).bind fun _ ts _ hts => .pure (by simp [hn]) hts

end

end Read

end Node

end Cellbook
