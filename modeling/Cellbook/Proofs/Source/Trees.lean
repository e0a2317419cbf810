import Cellbook.Proofs.Source.Spelling
import Cellbook.Source.Node.Parse

/-!
# Trees that show values

Tokens that spell a value are parsed to a tree that shows the value (`parse_shows`). A block with one entry is
the node of that entry, and no block around it; with more entries or none it is a list of them.

**Steps.** The tokens of a value need at most four steps each. Where a value stands, reading it takes all of
its tokens and then goes on behind them (`Reads`), whatever stands there: that is the induction, since in a
key or an item the same reader goes on with what belongs to the entry or the list.
-/

namespace Cellbook

variable {φ : Type}

/-- A token is a mark or an operator of that name. -/
def Token.Spells (t : Token) (name : String) : Prop := (t.kind = .operator ∨ t.kind = .delimiter) ∧ t.lexeme = name

theorem Token.Marks.spells {t : Token} {name : String} (h : t.Marks name) : t.Spells name := ⟨.inr h.1, h.2⟩

namespace Node

/-! ## Trees -/

mutual

/-- **A tree shows a value.** -/
inductive Shows : Value φ → Node → Prop
  | scalar {s : Scalar} {operator : String} {span : Span} {left right : Option Node} :
    Shows s.toValue ⟨operator, .literal, .scalar s, span, left, right⟩
  | stream {items : List (Value φ)} {nodes : List Node} {operator : String} {span : Span}
      {left right : Option Node} (h : ItemsShow items nodes) :
    Shows (.stream items) ⟨operator, .array, .items nodes, span, left, right⟩
  | object {entries : List (Value φ × Value φ)} {n : Node} (h : BlockShows entries n) :
    Shows (.object entries []) n

inductive ItemsShow : List (Value φ) → List Node → Prop
  | nil : ItemsShow [] []
  | cons {v : Value φ} {vs : List (Value φ)} {n : Node} {ns : List Node} (h : Shows v n) (hs : ItemsShow vs ns) :
    ItemsShow (v :: vs) (n :: ns)

/-- A tree shows a key that is no stream, and its value. -/
inductive EntryShows : Value φ × Value φ → Node → Prop
  | mk {k v : Value φ} {key value : Node} {operator : String} {span : Span} {left right : Option Node}
      (hk : Shows k key) (hstream : k.kind ≠ .stream) (hv : Shows v value) :
    EntryShows (k, v) ⟨operator, .entry, .items [key, value], span, left, right⟩

inductive EntriesShow : List (Value φ × Value φ) → List Node → Prop
  | nil : EntriesShow [] []
  | cons {e : Value φ × Value φ} {es : List (Value φ × Value φ)} {n : Node} {ns : List Node} (h : EntryShows e n)
      (hs : EntriesShow es ns) : EntriesShow (e :: es) (n :: ns)

/-- A tree shows the entries of a block. -/
inductive BlockShows : List (Value φ × Value φ) → Node → Prop
  | entry {e : Value φ × Value φ} {n : Node} (h : EntryShows e n) : BlockShows [e] n
  | entries {es : List (Value φ × Value φ)} {nodes : List Node} {operator : String} {span : Span}
      {left right : Option Node} (h : EntriesShow es nodes) :
    BlockShows es ⟨operator, .entries, .items nodes, span, left, right⟩

end

theorem EntryShows.kind_eq {e : Value φ × Value φ} {n : Node} (h : EntryShows e n) : n.kind = .entry := by
  cases h
  rfl

theorem EntriesShow.append {es es' : List (Value φ × Value φ)} {ns ns' : List Node} (h : EntriesShow es ns)
    (h' : EntriesShow es' ns') : EntriesShow (es ++ es') (ns ++ ns') :=
  match h with
  | .nil => h'
  | .cons he hes => .cons he (hes.append h')

/-- A further entry joins a block. -/
theorem BlockShows.addEntry? {es : List (Value φ × Value φ)} {e : Value φ × Value φ} {left right : Node}
    (h : BlockShows es left) (h' : EntryShows e right) (span : Span) :
    ∃ n, Node.addEntry? span left right = some n ∧ BlockShows (es ++ [e]) n := by
  have hright := h'.kind_eq
  cases h with
  | entry h =>
    refine ⟨leaf "," .entries span (.items [left, right]), ?_, .entries (.cons h (.cons h' .nil))⟩
    rw [Node.addEntry?, hright, h.kind_eq]
  | @entries _ nodes operator span' l r h =>
    refine ⟨⟨operator, .entries, .items (nodes ++ [right]), span, l, r⟩, ?_, .entries (h.append (.cons h' .nil))⟩
    rw [Node.addEntry?, hright]

/-! ## The keywords of values -/

section Keywords

variable {t : Token} {rest : List Token} {name : String}

theorem nextName_of_spells (h : t.Spells name) : nextName (t :: rest) = name := by
  unfold nextName
  dsimp only
  rcases h with ⟨hkind | hkind, rfl⟩ <;> rw [hkind]

theorem nextName_of_marks (h : t.Marks name) : nextName (t :: rest) = name := nextName_of_spells h.spells

theorem nextKeyword?_of_spells (h : t.Spells name) :
    nextKeyword? .standard (t :: rest) = Grammar.standard.get? name := by
  rw [nextKeyword?, nextName_of_spells h]

theorem nextKeyword?_of_marks (h : t.Marks name) :
    nextKeyword? .standard (t :: rest) = Grammar.standard.get? name := nextKeyword?_of_spells h.spells

theorem nextKeyword?_of_literal {s : Scalar} (h : t.kind = .literal s) :
    nextKeyword? .standard (t :: rest) = Grammar.standard.get? Grammar.literalName := by
  unfold nextKeyword? nextName
  dsimp only
  rw [h]

theorem get?_literal : Grammar.standard.get? Grammar.literalName =
    some { name := Grammar.literalName, leading := some .literal } := by decide +kernel

theorem get?_bracket : Grammar.standard.get? "[" =
    some { name := "[", power := 150, leading := some .array, trailing := some .index } := by decide +kernel

theorem get?_brace : Grammar.standard.get? "\x7b" =
    some { name := "\x7b", leading := some .brace } := by decide +kernel

theorem get?_comma : Grammar.standard.get? "," =
    some { name := ",", power := 10, trailing := some .continuation } := by decide +kernel

theorem get?_colon : Grammar.standard.get? ":" =
    some { name := ":", power := 20, trailing := some .entry } := by decide +kernel

/-- **Tokens behind an expression** that are bound by nothing of greater power than `power`. -/
theorem nextPower_of_marks {k : Keyword} (h : t.Marks name) (hk : Grammar.standard.get? name = some k) :
    nextPower .standard (t :: rest) = k.power := by
  rw [nextPower, nextKeyword?_of_marks h, hk]
  rfl

/-- Nothing follows a closing mark. -/
theorem nextPower_of_closing (h : t.Marks name) (hname : name ∈ ["]", "\x7d"]) :
    nextPower .standard (t :: rest) = 0 := by
  have hpower : ∀ name ∈ ["]", "\x7d"], ((Grammar.standard.get? name).map (·.power)).getD 0 = 0 := by decide +kernel
  rw [nextPower, nextKeyword?_of_marks h, hpower name hname]

theorem nextPower_nil : nextPower .standard [] = 0 := by decide +kernel

end Keywords

/-! ## Reading -/

section Reading

variable {stop steps power : Nat} {t : Token} {rest : List Token}

theorem expect_of_spells {name : String} (h : t.Spells name) : expect stop name (t :: rest) = .ok (t, rest) :=
  if_pos (nextName_of_spells h)

theorem expect_of_marks {name : String} (h : t.Marks name) : expect stop name (t :: rest) = .ok (t, rest) :=
  expect_of_spells h.spells

/-- What a keyword leads is read first. -/
theorem expression_of_lead {k : Keyword} {leading : Leading} {n : Node} {rest' : List Token}
    (hk : nextKeyword? .standard (t :: rest) = some k) (hleading : k.leading = some leading)
    (h : lead .standard stop steps leading t rest = .ok (n, rest')) :
    expression .standard stop (steps + 1) power (t :: rest) = follow .standard stop steps power n rest' := by
  unfold expression
  simp only [hk, Option.bind_some, hleading, h, bind, Except.bind]

/-- Reading ends in front of what binds no more tightly. -/
theorem follow_of_le {n : Node} (h : nextPower .standard rest ≤ power) :
    follow .standard stop (steps + 1) power n rest = .ok (n, rest) := by
  unfold follow
  exact if_pos h

/-- Reading goes on with what binds more tightly. -/
theorem follow_of_join {k : Keyword} {trailing : Trailing} {left n : Node} {rest' : List Token}
    (hk : nextKeyword? .standard (t :: rest) = some k) (htrailing : k.trailing = some trailing)
    (hpower : power < k.power) (h : join .standard stop steps trailing k.power t left rest = .ok (n, rest')) :
    follow .standard stop (steps + 1) power left (t :: rest) = follow .standard stop steps power n rest' := by
  have hnext : nextPower .standard (t :: rest) = k.power := by rw [nextPower, hk]; rfl
  conv_lhs => unfold follow
  simp only [hnext, if_neg (Nat.not_le.mpr hpower), hk, Option.bind_some, htrailing, h, bind, Except.bind]

/-- **Tokens are read as a tree** wherever they stand, and reading goes on behind them. -/
def Reads (stop : Nat) (ts : List Token) (n : Node) : Prop :=
  ∀ steps power rest, 4 * ts.length ≤ steps + 1 →
    expression .standard stop (steps + 1) power (ts ++ rest) = follow .standard stop steps power n rest

/-- An item is read up to what ends it. -/
theorem Reads.expression {ts : List Token} {n : Node} (h : Reads stop ts n) (hts : ts ≠ [])
    (hsteps : 4 * ts.length ≤ steps) (hpower : nextPower .standard rest ≤ power) :
    Node.expression .standard stop steps power (ts ++ rest) = .ok (n, rest) := by
  have hlength := List.length_pos_iff.mpr hts
  obtain ⟨steps, rfl⟩ : ∃ m, steps = m + 2 := ⟨steps - 2, by omega⟩
  rw [h (steps + 1) power rest hsteps, follow_of_le hpower]

/-- A literal. -/
theorem reads_scalar {s : Scalar} (ht : t.kind = .literal s) :
    ∃ n, Shows (s.toValue : Value φ) n ∧ Reads stop [t] n := by
  refine ⟨leaf Grammar.literalName .literal t.span (.scalar s), .scalar, fun steps power rest hsteps => ?_⟩
  obtain ⟨steps, rfl⟩ : ∃ m, steps = m + 1 := ⟨steps - 1, by simp at hsteps; omega⟩
  refine expression_of_lead ((nextKeyword?_of_literal ht).trans get?_literal) rfl ?_
  unfold lead
  simp only [ht]
  rfl

/-- Items in brackets. -/
theorem reads_stream {items : List (Value φ)} {nodes : List Node} (hitems : ItemsShow items nodes)
    {opening closing : Token} (hopening : opening.Marks "[") {ts : List Token}
    (hlist : ∀ steps rest, 4 * ts.length + 2 ≤ steps →
      itemList .standard stop steps "]" (ts ++ closing :: rest) = .ok ((nodes, closing.span), rest)) :
    ∃ n, Shows (.stream items) n ∧ Reads stop (opening :: (ts ++ [closing])) n := by
  refine ⟨leaf "[" .array (opening.span.join closing.span) (.items nodes), .stream hitems,
    fun steps power rest hsteps => ?_⟩
  obtain ⟨steps, rfl⟩ : ∃ m, steps = m + 1 := ⟨steps - 1, by simp at hsteps; omega⟩
  rw [List.cons_append, List.append_assoc]
  refine expression_of_lead ((nextKeyword?_of_marks hopening).trans get?_bracket) rfl ?_
  unfold lead
  have hinner := hlist steps rest (by simp at hsteps; omega)
  simp only [List.cons_append, List.nil_append, hinner, bind, Except.bind]
  rfl

/-- **Tokens are read as an entry** by two steps more than its value, in front of what does not belong to it. -/
def ReadsEntry (stop : Nat) (ts : List Token) (n : Node) : Prop :=
  ∀ steps power rest, power < 20 → nextPower .standard rest ≤ 19 → 4 * ts.length ≤ steps + 2 →
    expression .standard stop (steps + 2) power (ts ++ rest) = follow .standard stop steps power n rest

theorem reads_entry {k v : Value φ} {key value : Node} (hk : Shows k key) (hstream : k.kind ≠ .stream)
    (hv : Shows v value) {colon : Token} (hcolon : colon.Marks ":") {ts us : List Token} (hts : Reads stop ts key)
    (hus : Reads stop us value) (hne : us ≠ []) :
    ∃ n, EntryShows (k, v) n ∧ ReadsEntry stop (ts ++ colon :: us) n := by
  refine ⟨leaf ":" .entry ((colon.span.join key.span).join value.span) (.items [key, value]),
    .mk hk hstream hv, fun steps power rest hpower hrest hsteps => ?_⟩
  rw [List.length_append, List.length_cons] at hsteps
  rw [List.append_assoc, List.cons_append, hts (steps + 1) power _ (by omega)]
  obtain ⟨steps, rfl⟩ : ∃ m, steps = m + 1 := ⟨steps - 1, by omega⟩
  refine follow_of_join ((nextKeyword?_of_marks hcolon).trans get?_colon) rfl hpower ?_
  have hvalue : expression .standard stop steps valuePower (us ++ rest) = .ok (value, rest) :=
    hus.expression hne (by omega) hrest
  unfold join
  simp only [hvalue, bind, Except.bind]
  rfl

/-- A further entry, behind those of a block. -/
theorem follow_entry {es : List (Value φ × Value φ)} {e : Value φ × Value φ} {left right : Node}
    (hleft : BlockShows es left) (hright : EntryShows e right) {comma : Token} (hcomma : comma.Marks ",")
    {ts : List Token} (hread : ReadsEntry stop ts right) :
    ∃ n, BlockShows (es ++ [e]) n ∧ ∀ steps rest, nextPower .standard rest ≤ 10 → 4 * ts.length + 4 ≤ steps →
      follow .standard stop (steps + 1) 0 left (comma :: (ts ++ rest)) = follow .standard stop steps 0 n rest := by
  obtain ⟨n, hn, hshows⟩ := hleft.addEntry? hright ((comma.span.join left.span).join right.span)
  refine ⟨n, hshows, fun steps rest hrest hsteps => ?_⟩
  obtain ⟨steps, rfl⟩ : ∃ m, steps = m + 4 := ⟨steps - 4, by omega⟩
  have hentry : expression .standard stop (steps + 3) 10 (ts ++ rest) = .ok (right, rest) := by
    rw [hread (steps + 1) 10 rest (by decide) (by omega) (by omega), follow_of_le hrest]
  refine follow_of_join ((nextKeyword?_of_marks hcomma).trans get?_comma) rfl (by decide) ?_
  unfold join
  simp only [hentry, bind, Except.bind, hn]
  rfl

/-- A block in braces. -/
theorem reads_block {n : Node} {opening closing : Token} (hopening : opening.Marks "\x7b")
    (hclosing : closing.Marks "\x7d") {ts : List Token} (hname : ∀ rest, nextName (ts ++ rest) ≠ "\x7d")
    (hread : ∀ steps rest, 4 * ts.length + 4 ≤ steps →
      expression .standard stop steps 0 (ts ++ closing :: rest) = .ok (n, closing :: rest)) :
    Reads stop (opening :: (ts ++ [closing])) n := by
  intro steps power rest hsteps
  simp only [List.length_cons, List.length_append, List.length_nil] at hsteps
  obtain ⟨steps, rfl⟩ : ∃ m, steps = m + 1 := ⟨steps - 1, by omega⟩
  rw [List.cons_append, List.append_assoc]
  refine expression_of_lead ((nextKeyword?_of_marks hopening).trans get?_brace) rfl ?_
  have hinner : expression .standard stop steps 0 (ts ++ closing :: rest) = .ok (n, closing :: rest) :=
    hread steps rest (by omega)
  unfold lead
  simp only [List.cons_append, List.nil_append, hname, if_false, hinner, bind, Except.bind, expect_of_marks hclosing]
  rfl

theorem reads_emptyBlock {opening closing : Token} (hopening : opening.Marks "\x7b") (hclosing : closing.Marks "\x7d") :
    ∃ n, Shows (.object [] [] : Value φ) n ∧ Reads stop [opening, closing] n := by
  refine ⟨leaf "\x7b" .entries (opening.span.join closing.span) (.items []), .object (.entries .nil),
    fun steps power rest hsteps => ?_⟩
  obtain ⟨steps, rfl⟩ : ∃ m, steps = m + 1 := ⟨steps - 1, by simp at hsteps; omega⟩
  show expression .standard stop (steps + 2) power (opening :: closing :: rest) = _
  refine expression_of_lead ((nextKeyword?_of_marks hopening).trans get?_brace) rfl ?_
  unfold lead
  simp only [nextName_of_marks hclosing, if_true, bind, Except.bind,
    expect_of_marks hclosing]
  rfl

end Reading

end Node

/-! ## Values -/

namespace Value

/-- A value does not begin with a mark that closes something. -/
theorem Spelt.nextName_ne {v : Value φ} {ts : List Token} (h : v.Spelt ts) (rest : List Token) {name : String}
    (hname : name ∈ ["]", "\x7d"]) : Node.nextName (ts ++ rest) ≠ name := by
  cases h with
  | @scalar s t ht =>
    have hliteral : Node.nextName (t :: rest) = Grammar.literalName := by
      unfold Node.nextName
      dsimp only
      rw [ht]
    show Node.nextName (t :: rest) ≠ name
    rw [hliteral]
    revert name
    decide
  | stream hopening _ _ =>
    rw [List.cons_append, Node.nextName_of_marks hopening]
    revert name
    decide
  | object hopening _ _ =>
    rw [List.cons_append, Node.nextName_of_marks hopening]
    revert name
    decide

theorem Spelt.ne_nil {v : Value φ} {ts : List Token} (h : v.Spelt ts) : ts ≠ [] := by
  cases h <;> exact List.cons_ne_nil _ _

theorem ItemsSpelt.nextName_ne {items : List (Value φ)} {ts : List Token} (h : ItemsSpelt items ts) (hne : items ≠ [])
    (rest : List Token) : Node.nextName (ts ++ rest) ≠ "]" := by
  cases h with
  | nil => exact absurd rfl hne
  | single hv => exact hv.nextName_ne rest (by decide)
  | cons hv _ _ =>
    rw [List.append_assoc]
    exact hv.nextName_ne _ (by decide)

theorem EntrySpelt.nextName_ne {k v : Value φ} {ts : List Token} (h : EntrySpelt k v ts) (rest : List Token) :
    Node.nextName (ts ++ rest) ≠ "\x7d" := by
  cases h with
  | mk hk _ _ _ =>
    rw [List.append_assoc]
    exact hk.nextName_ne _ (by decide)

end Value

namespace Node

open Value

variable {stop : Nat}

/-- Items that may be missing. -/
theorem itemList_of_more {items : List (Value φ)} {nodes : List Node} {ts : List Token} (h : ItemsSpelt items ts)
    (hnodes : ItemsShow items nodes) {closing : Token} (hclosing : closing.Marks "]")
    (hmore : items ≠ [] → ∀ steps rest, 4 * ts.length + 1 ≤ steps →
      moreItems .standard stop steps "]" (ts ++ closing :: rest) = .ok ((nodes, closing.span), rest))
    {steps : Nat} (hsteps : 4 * ts.length + 2 ≤ steps) (rest : List Token) :
    itemList .standard stop steps "]" (ts ++ closing :: rest) = .ok ((nodes, closing.span), rest) := by
  obtain ⟨steps, rfl⟩ : ∃ m, steps = m + 1 := ⟨steps - 1, by omega⟩
  unfold itemList
  by_cases hne : items = []
  · subst hne
    cases h
    cases hnodes
    simp only [List.nil_append, nextName_of_marks hclosing, if_true, expect_of_marks hclosing, bind, Except.bind]
    rfl
  · rw [if_neg (h.nextName_ne hne _)]
    exact hmore hne steps rest (by omega)

mutual

/-- **Tokens that spell a value are read as a tree that shows it.** -/
theorem reads_value {v : Value φ} {ts : List Token} (h : v.Spelt ts) : ∃ n, Shows v n ∧ Reads stop ts n :=
  match h with
  | .scalar ht => reads_scalar ht
  | .stream hopening hitems hclosing => by
    obtain ⟨nodes, hnodes, hmore⟩ := reads_items hitems
    exact reads_stream hnodes hopening fun steps rest hsteps =>
      itemList_of_more hitems hnodes hclosing (fun hne => hmore hne hclosing) hsteps rest
  | .object hopening .nil hclosing => reads_emptyBlock hopening hclosing
  | .object hopening (.single he) hclosing => by
    obtain ⟨n, hn, hread⟩ := reads_entrySpelt he
    refine ⟨n, .object (.entry hn), reads_block hopening hclosing he.nextName_ne fun steps rest hsteps => ?_⟩
    obtain ⟨steps, rfl⟩ : ∃ m, steps = m + 3 := ⟨steps - 3, by omega⟩
    have hpower : nextPower .standard (_ :: rest) = 0 := nextPower_of_closing hclosing (by decide)
    rw [hread (steps + 1) 0 _ (by decide) (by omega) (by omega), follow_of_le hpower.le]
  | .object hopening (@EntriesSpelt.cons _ _ _ _ _ comma ts us he hcomma hes) hclosing => by
    obtain ⟨left, hleft, hread⟩ := reads_entrySpelt he
    obtain ⟨n, hn, hfollow⟩ := follow_entries hes (.entry hleft) hcomma (List.cons_ne_nil _ _)
    have hname (rest : List Token) : nextName (ts ++ comma :: us ++ rest) ≠ "\x7d" := by
      rw [List.append_assoc]
      exact he.nextName_ne _
    refine ⟨n, .object hn, reads_block hopening hclosing hname fun steps rest hsteps => ?_⟩
    rw [List.length_append, List.length_cons] at hsteps
    obtain ⟨steps, rfl⟩ : ∃ m, steps = m + 2 := ⟨steps - 2, by omega⟩
    have hpower (rest : List Token) : nextPower .standard (comma :: rest) = 10 := nextPower_of_marks hcomma get?_comma
    rw [List.append_assoc, hread steps 0 _ (by decide) (by rw [List.cons_append, hpower]; decide) (by omega)]
    exact hfollow hclosing steps rest (by omega)

/-- One item or more. -/
theorem reads_items {items : List (Value φ)} {ts : List Token} (h : ItemsSpelt items ts) :
    ∃ nodes, ItemsShow items nodes ∧ (items ≠ [] → ∀ {closing : Token}, closing.Marks "]" → ∀ steps rest,
      4 * ts.length + 1 ≤ steps →
        moreItems .standard stop steps "]" (ts ++ closing :: rest) = .ok ((nodes, closing.span), rest)) :=
  match h with
  | .nil => ⟨[], .nil, fun hne => absurd rfl hne⟩
  | .single hv => by
    obtain ⟨n, hn, hread⟩ := reads_value hv
    refine ⟨[n], .cons hn .nil, fun _ closing hclosing steps rest hsteps => ?_⟩
    obtain ⟨steps, rfl⟩ : ∃ m, steps = m + 1 := ⟨steps - 1, by omega⟩
    have hpower : nextPower .standard (closing :: rest) = 0 := nextPower_of_closing hclosing (by decide)
    have hitem : expression .standard stop steps itemPower (ts ++ closing :: rest) = .ok (n, closing :: rest) :=
      hread.expression hv.ne_nil (by omega) (by omega)
    unfold moreItems
    simp only [hitem, bind, Except.bind, nextName_of_marks hclosing, expect_of_marks hclosing]
    rfl
  | @ItemsSpelt.cons _ _ _ _ comma ts us hv hcomma hvs => by
    obtain ⟨n, hn, hread⟩ := reads_value hv
    obtain ⟨nodes, hnodes, hmore⟩ := reads_items hvs
    refine ⟨n :: nodes, .cons hn hnodes, fun _ closing hclosing steps rest hsteps => ?_⟩
    rw [List.length_append, List.length_cons] at hsteps
    obtain ⟨steps, rfl⟩ : ∃ m, steps = m + 1 := ⟨steps - 1, by omega⟩
    have hpower : nextPower .standard (comma :: (us ++ closing :: rest)) = 10 := nextPower_of_marks hcomma get?_comma
    have hitem : expression .standard stop steps itemPower (ts ++ comma :: (us ++ closing :: rest)) =
        .ok (n, comma :: (us ++ closing :: rest)) := hread.expression hv.ne_nil (by omega) hpower.le
    have hothers := hmore (List.cons_ne_nil _ _) hclosing steps rest (by omega)
    rw [List.append_assoc]
    unfold moreItems
    simp only [List.cons_append, hitem, bind, Except.bind, nextName_of_marks hcomma, if_true, List.drop_succ_cons,
      List.drop_zero, hothers]
    rfl

theorem reads_entrySpelt {k v : Value φ} {ts : List Token} (h : EntrySpelt k v ts) :
    ∃ n, EntryShows (k, v) n ∧ ReadsEntry stop ts n :=
  match h with
  | .mk hk hstream hcolon hv => by
    obtain ⟨key, hkey, hts⟩ := reads_value hk
    obtain ⟨value, hvalue, hus⟩ := reads_value hv
    exact reads_entry hkey hstream hvalue hcolon hts hus hv.ne_nil

/-- Further entries, behind those of a block. -/
theorem follow_entries {es done : List (Value φ × Value φ)} {ts : List Token} (h : EntriesSpelt es ts) {left : Node}
    (hleft : BlockShows done left) {comma : Token} (hcomma : comma.Marks ",") (hne : es ≠ []) :
    ∃ n, BlockShows (done ++ es) n ∧ ∀ {closing : Token}, closing.Marks "\x7d" → ∀ steps rest,
      4 * ts.length + 6 ≤ steps → follow .standard stop steps 0 left (comma :: (ts ++ closing :: rest)) =
        .ok (n, closing :: rest) :=
  match h with
  | .nil => absurd rfl hne
  | .single he => by
    obtain ⟨right, hright, hread⟩ := reads_entrySpelt he
    obtain ⟨n, hn, hfollow⟩ := follow_entry hleft hright hcomma hread
    refine ⟨n, hn, fun {closing} hclosing steps rest hsteps => ?_⟩
    obtain ⟨steps, rfl⟩ : ∃ m, steps = m + 2 := ⟨steps - 2, by omega⟩
    have hpower : nextPower .standard (closing :: rest) = 0 := nextPower_of_closing hclosing (by decide)
    rw [hfollow (steps + 1) _ (by omega) (by omega), follow_of_le hpower.le]
  | @EntriesSpelt.cons _ _ _ _ _ comma' ts us he hcomma' hes => by
    obtain ⟨right, hright, hread⟩ := reads_entrySpelt he
    obtain ⟨mid, hmid, hfollow⟩ := follow_entry hleft hright hcomma hread
    obtain ⟨n, hn, hrest⟩ := follow_entries hes hmid hcomma' (List.cons_ne_nil _ _)
    refine ⟨n, List.append_cons done _ _ ▸ hn, fun {closing} hclosing steps rest hsteps => ?_⟩
    rw [List.length_append, List.length_cons] at hsteps
    obtain ⟨steps, rfl⟩ : ∃ m, steps = m + 1 := ⟨steps - 1, by omega⟩
    have hpower : nextPower .standard (comma' :: (us ++ closing :: rest)) = 10 := nextPower_of_marks hcomma' get?_comma
    rw [List.append_assoc, hfollow steps _ (by rw [List.cons_append, hpower]) (by omega)]
    exact hrest hclosing steps rest (by omega)

end

/-- An expression that takes all tokens is what they are parsed to. -/
theorem parse_of_expression {ts : List Token} {n : Node}
    (h : expression .standard (endOf ts) (enoughSteps ts) 0 ts = .ok (n, [])) : parse .standard ts = .ok n := by
  unfold parse parseWith
  simp only [h, bind, Except.bind]
  rfl

/-- **Parsing tokens that spell a value** gives a tree that shows it. -/
theorem parse_shows {v : Value φ} {ts : List Token} (h : v.Spelt ts) : ∃ n, parse .standard ts = .ok n ∧ Shows v n := by
  obtain ⟨n, hn, hread : Reads (endOf ts) ts n⟩ := reads_value h
  have hall : expression .standard (endOf ts) (enoughSteps ts) 0 (ts ++ []) = .ok (n, []) :=
    hread.expression h.ne_nil (by unfold enoughSteps; omega) nextPower_nil.le
  rw [List.append_nil] at hall
  exact ⟨n, parse_of_expression hall, hn⟩

end Node

end Cellbook
