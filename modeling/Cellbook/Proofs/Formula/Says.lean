import Cellbook.Formula.Names
import Cellbook.Formula.OfNode
import Cellbook.Proofs.Formula.Value
import Cellbook.Proofs.Formula.WellFormed
import Cellbook.Proofs.Source.Trees

/-!
# Formulas that say a value

A tree that shows a value is read as a formula that says the value part for part (`ofNode_shows`): literals,
arrays without ranges, and maps of computed keys. Evaluating it gives the value back, if keys that are compared
on the way are different (`Says.value_eq`), and calls no function.
-/

namespace Cellbook

/-! ## Blocks of plain entries -/

/-- Parts that are one map of those entries, or none yet. -/
inductive BlockParts.Holds : List Entry → BlockParts → Prop
  | empty : Holds [] .empty
  | map (entries : List Entry) (span : Span) : Holds entries ⟨[], some (.map entries span)⟩

theorem BlockParts.Holds.add {entries : List Entry} {b : BlockParts} (h : Holds entries b) (cell : Nat) (e : Entry) :
    ∃ b', b.add cell (.plain e) = .ok b' ∧ Holds (entries ++ [e]) b' := by
  cases h with
  | empty => exact ⟨_, rfl, .map [e] e.origin.span⟩
  | map _ span => exact ⟨_, rfl, .map (entries ++ [e]) (span.join e.origin.span)⟩

theorem BlockParts.Holds.toFormula {entries : List Entry} {b : BlockParts} (h : Holds entries b) (cell : Nat)
    (span : Span) : ∃ o, b.toFormula cell span = .map o entries := by
  cases h with
  | empty => exact ⟨_, rfl⟩
  | map _ span => exact ⟨_, rfl⟩

variable {φ : Type}

namespace Formula

mutual

/-- **A formula says a value.** -/
inductive Says : Value φ → Formula → Prop
  | scalar {s : Scalar} {o : Origin} : Says s.toValue (.literal o s)
  | stream {items : List (Value φ)} {fs : List Formula} {o : Origin} (h : AllSay items fs) :
    Says (.stream items) (.array o fs none)
  | object {entries : List (Value φ × Value φ)} {es : List Entry} {o : Origin} (h : EntriesSay entries es) :
    Says (.object entries []) (.map o es)

inductive AllSay : List (Value φ) → List Formula → Prop
  | nil : AllSay [] []
  | cons {v : Value φ} {vs : List (Value φ)} {f : Formula} {fs : List Formula} (h : Says v f) (hs : AllSay vs fs) :
    AllSay (v :: vs) (f :: fs)

inductive EntriesSay : List (Value φ × Value φ) → List Entry → Prop
  | nil : EntriesSay [] []
  | cons {k v : Value φ} {rest : List (Value φ × Value φ)} {key value : Formula} {o : Origin} {es : List Entry}
      (hk : Says k key) (hv : Says v value) (hs : EntriesSay rest es) :
    EntriesSay ((k, v) :: rest) (.mk (.computed key) value o :: es)

end

theorem EntriesSay.append {entries entries' : List (Value φ × Value φ)} {es es' : List Entry}
    (h : EntriesSay entries es) (h' : EntriesSay entries' es') : EntriesSay (entries ++ entries') (es ++ es') :=
  match h with
  | .nil => h'
  | .cons hk hv hs => .cons hk hv (hs.append h')

/-! ## From trees -/

section OfNode

open Node (Shows ItemsShow EntryShows EntriesShow BlockShows)

variable {cell : Nat}

/-- The kinds of trees that stand for keys. -/
theorem key_kind {k : Value φ} {n : Node} (h : Shows k n) (hstream : k.kind ≠ .stream) :
    n.kind = .literal ∨ n.kind = .entry ∨ n.kind = .entries := by
  cases h with
  | scalar => exact .inl rfl
  | stream _ => exact absurd rfl hstream
  | object h =>
    cases h with
    | entry h => exact .inr (.inl h.kind_eq)
    | entries _ => exact .inr (.inr rfl)

theorem item_kind {v : Value φ} {n : Node} (h : Shows v n) : n.kind ≠ .range := by
  cases h with
  | scalar => exact nofun
  | stream _ => exact nofun
  | object h =>
    cases h with
    | entry h => rw [h.kind_eq]; exact nofun
    | entries _ => exact nofun

theorem ofElements_cons {n : Node} (h : n.kind ≠ .range) {ns : List Node} {position : Nat} {f : Formula}
    {fs : List Formula} (hn : ofNode cell n = .ok f) (hns : ofElements cell (position + 1) none ns = .ok (fs, none)) :
    ofElements cell position none (n :: ns) = .ok (f :: fs, none) := by
  obtain ⟨operator, kind, content, span, left, right⟩ := n
  cases kind with
  | range => exact absurd rfl h
  | _ => simp only [ofElements, hn, hns, bind, Except.bind]; rfl

/-- A key that is a literal or a block is computed. -/
theorem entryOf_computed {key node : Node}
    (hkind : key.kind = .literal ∨ key.kind = .entry ∨ key.kind = .entries) (k v : Formula) :
    entryOf cell node key (.ok v) (.ok (some k)) = .ok (.plain (.mk (.computed k) v ⟨cell, node.span⟩)) := by
  unfold entryOf
  rcases hkind with h | h | h <;> rw [h] <;> rfl

theorem ofPair_eq_entryOf {key value node : Node} (hnode : node.kind = .entry)
    (hkind : key.kind = .literal ∨ key.kind = .entry ∨ key.kind = .entries) :
    ofPair cell node [key, value] = entryOf cell node key (ofNode cell value) (some <$> ofNode cell key) := by
  obtain ⟨operator, kind, content, span, left, right⟩ := key
  dsimp only at hkind
  rcases hkind with rfl | rfl | rfl <;> rw [ofPair, if_pos hnode] <;> intro _ _ _ _ _ h <;> cases h

theorem ofNode_array {operator : String} {nodes : List Node} {span : Span} {left right : Option Node}
    {fs : List Formula} (h : ofElements cell 0 none nodes = .ok (fs, none)) :
    ofNode cell ⟨operator, .array, .items nodes, span, left, right⟩ = .ok (.array ⟨cell, span⟩ fs none) := by
  rw [ofNode]
  simp only [h, bind, Except.bind]
  rfl

/-- The node of an entry is a map of it. -/
theorem ofNode_entry {n : Node} {nodes : List Node} {e : Entry} (hkind : n.kind = .entry)
    (hcontent : n.content = .items nodes) (h : ofPair cell n nodes = .ok (.plain e)) :
    ∃ o, ofNode cell n = .ok (.map o [e]) := by
  obtain ⟨operator, kind, content, span, left, right⟩ := n
  dsimp only at hkind hcontent
  subst hkind hcontent
  refine ⟨⟨cell, e.origin.span⟩, ?_⟩
  rw [ofNode]
  simp only [h, bind, Except.bind]
  rfl

theorem ofNode_entries_of_holds {operator : String} {nodes : List Node} {span : Span} {left right : Option Node}
    {entries : List Entry} {b : BlockParts} (h : ofEntries cell .empty nodes = .ok b) (hb : b.Holds entries) :
    ∃ o, ofNode cell ⟨operator, .entries, .items nodes, span, left, right⟩ = .ok (.map o entries) := by
  obtain ⟨o, ho⟩ := hb.toFormula cell span
  refine ⟨o, ?_⟩
  rw [ofNode_entries rfl, Node.items, h, ← ho]
  rfl

theorem ofEntries_cons_of_add {n : Node} {ns nodes : List Node} {b b' : BlockParts} {e : ListEntry}
    (hcontent : n.content = .items nodes) (h : ofPair cell n nodes = .ok e) (hadd : b.add cell e = .ok b') :
    ofEntries cell b (n :: ns) = ofEntries cell b' ns := by
  have hitems : n.items = nodes := by rw [Node.items, hcontent]
  rw [ofEntries_cons, hitems, h]
  simp only [bind, Except.bind, hadd]

mutual

/-- **A tree that shows a value is a formula that says it.** -/
theorem ofNode_shows {v : Value φ} {n : Node} (h : Shows v n) : ∃ f, ofNode cell n = .ok f ∧ Says v f :=
  match h with
  | .scalar => ⟨.literal _ _, by rw [ofNode]; rfl, .scalar⟩
  | .stream hitems =>
    let ⟨_, hfs, hall⟩ := ofElements_shows hitems
    ⟨_, ofNode_array (hfs 0), .stream hall⟩
  | .object h => ofNode_block h

theorem ofNode_block {es : List (Value φ × Value φ)} {n : Node} (h : BlockShows es n) :
    ∃ f, ofNode cell n = .ok f ∧ Says (.object es []) f :=
  match h with
  | .entry he =>
    let ⟨_, _, hcontent, hpair, hsaid⟩ := ofPair_shows he
    let ⟨_, hmap⟩ := ofNode_entry he.kind_eq hcontent hpair
    ⟨_, hmap, .object hsaid⟩
  | .entries hes =>
    let ⟨_, hsaid, hread⟩ := ofEntries_shows hes
    let ⟨_, hparts, hholds⟩ := hread .empty
    let ⟨_, hmap⟩ := ofNode_entries_of_holds hparts hholds
    ⟨_, hmap, .object hsaid⟩

theorem ofElements_shows {items : List (Value φ)} {nodes : List Node} (h : ItemsShow items nodes) :
    ∃ fs, (∀ position, ofElements cell position none nodes = .ok (fs, none)) ∧ AllSay items fs :=
  match h with
  | .nil => ⟨[], fun _ => rfl, .nil⟩
  | .cons hv hvs => by
    obtain ⟨f, hf, hsaid⟩ := ofNode_shows hv
    obtain ⟨fs, hfs, hall⟩ := ofElements_shows hvs
    exact ⟨f :: fs, fun position => ofElements_cons (item_kind hv) hf (hfs (position + 1)), .cons hsaid hall⟩

theorem ofPair_shows {e : Value φ × Value φ} {n : Node} (h : EntryShows e n) :
    ∃ nodes entry, n.content = .items nodes ∧ ofPair cell n nodes = .ok (.plain entry) ∧ EntriesSay [e] [entry] :=
  match h with
  | @EntryShows.mk _ _ _ _ _ _ span _ _ hk hstream hv => by
    obtain ⟨k, hkey, hsaysKey⟩ := ofNode_shows hk
    obtain ⟨v, hvalue, hsaysValue⟩ := ofNode_shows hv
    have hkind := key_kind hk hstream
    refine ⟨_, .mk (.computed k) v ⟨cell, span⟩, rfl, ?_, .cons hsaysKey hsaysValue .nil⟩
    rw [ofPair_eq_entryOf rfl hkind, hkey, hvalue]
    exact entryOf_computed hkind k v

theorem ofEntries_shows {es : List (Value φ × Value φ)} {nodes : List Node} (h : EntriesShow es nodes) :
    ∃ entries, EntriesSay es entries ∧ ∀ {done : List Entry} {b : BlockParts}, b.Holds done →
      ∃ b', ofEntries cell b nodes = .ok b' ∧ b'.Holds (done ++ entries) :=
  match h with
  | .nil => ⟨[], .nil, fun {_ b} hb => ⟨b, rfl, (List.append_nil _).symm ▸ hb⟩⟩
  | .cons he hes => by
    obtain ⟨_, entry, hcontent, hpair, hsaid⟩ := ofPair_shows he
    obtain ⟨entries, hsaid', hread⟩ := ofEntries_shows hes
    refine ⟨entry :: entries, hsaid.append hsaid', fun {done b} hb => ?_⟩
    obtain ⟨b₁, hadd, hb₁⟩ := hb.add cell entry
    obtain ⟨b', hb', hholds⟩ := hread hb₁
    exact ⟨b', (ofEntries_cons_of_add hcontent hpair hadd).trans hb', List.append_cons done _ _ ▸ hholds⟩

end

end OfNode

/-! ## What they evaluate to -/

section Value

variable {invoke : Closure → List (Value Closure) → Run (Value Closure)} {frame : Frame} {s : Scope}

mutual

/-- **A formula that says a value evaluates to it.** -/
theorem Says.value_eq {v : Value Closure} {f : Formula} (h : Says v f) (hkeyed : v.Keyed) :
    value invoke frame s f = pure v :=
  match h with
  | .scalar => rfl
  | .stream hitems => by
    cases hkeyed with
    | stream hkeyed =>
      rw [value, hitems.valueAll_eq hkeyed]
      rfl
  | @Says.object _ entries _ _ hentries => by
    cases hkeyed with
    | object hkeys hvalues hdistinct =>
      rw [← List.nil_append entries] at hdistinct
      have hvalue := hentries.valueEntries_eq hkeys hvalues hdistinct
      rw [value, Object.empty, hvalue]
      rfl

theorem AllSay.valueAll_eq {items : List (Value Closure)} {fs : List Formula} (h : AllSay items fs)
    (hkeyed : ∀ v ∈ items, v.Keyed) : valueAll invoke frame s fs = pure items :=
  match h with
  | .nil => rfl
  | .cons hv hvs => by
    obtain ⟨hkeyed, hkeyeds⟩ := List.forall_mem_cons.mp hkeyed
    rw [valueAll, hv.value_eq hkeyed, hvs.valueAll_eq hkeyeds]
    rfl

/-- Entries come behind those before them, since their keys are new. -/
theorem EntriesSay.valueEntries_eq {entries done : List (Value Closure × Value Closure)} {es : List Entry}
    (h : EntriesSay entries es) (hkeys : ∀ e ∈ entries, e.1.Keyed) (hvalues : ∀ e ∈ entries, e.2.Keyed)
    (hdistinct : (done ++ entries).Pairwise fun e e' => (e.1 == e'.1) = false) :
    valueEntries invoke frame s ⟨done, []⟩ es = pure ⟨done ++ entries, []⟩ :=
  match h with
  | .nil => by rw [List.append_nil]; rfl
  | .cons hk hv hs => by
    obtain ⟨hkey, hkeys⟩ := List.forall_mem_cons.mp hkeys
    obtain ⟨hvalue, hvalues⟩ := List.forall_mem_cons.mp hvalues
    have hnew := (List.pairwise_append.mp hdistinct).2.2
    rw [List.append_cons] at hdistinct ⊢
    rw [valueEntries, hk.value_eq hkey, hv.value_eq hvalue, pure_bind, pure_bind, Object.insert,
      Value.insertEntry_of_new _ fun e he => hnew e he _ List.mem_cons_self]
    exact hs.valueEntries_eq hkeys hvalues hdistinct

end

end Value

/-! ## What else is so of them -/

mutual

theorem Says.plain {v : Value φ} {f : Formula} (h : Says v f) : f.plain :=
  match h with
  | .scalar => rfl
  | .stream hitems => hitems.plain
  | .object hentries => hentries.plain

theorem AllSay.plain {items : List (Value φ)} {fs : List Formula} (h : AllSay items fs) : plainAll fs :=
  match h with
  | .nil => rfl
  | .cons hv hvs => Bool.and_eq_true_iff.mpr ⟨hv.plain, hvs.plain⟩

theorem EntriesSay.plain {entries : List (Value φ × Value φ)} {es : List Entry} (h : EntriesSay entries es) :
    plainEntries es :=
  match h with
  | .nil => rfl
  | .cons hk hv hs => Bool.and_eq_true_iff.mpr ⟨Bool.and_eq_true_iff.mpr ⟨hk.plain, hv.plain⟩, hs.plain⟩

end

mutual

/-- They have no names. -/
theorem Says.freeNames_eq {v : Value φ} {f : Formula} (h : Says v f) (bound : List String) : f.freeNames bound = [] :=
  match h with
  | .scalar => rfl
  | .stream hitems => hitems.partsNames_eq bound
  | .object hentries => hentries.entriesNames_eq bound

theorem AllSay.partsNames_eq {items : List (Value φ)} {fs : List Formula} (h : AllSay items fs) (bound : List String) :
    partsNames bound fs = [] :=
  match h with
  | .nil => rfl
  | .cons hv hvs => List.append_eq_nil_iff.mpr ⟨hv.freeNames_eq bound, hvs.partsNames_eq bound⟩

theorem EntriesSay.entriesNames_eq {entries : List (Value φ × Value φ)} {es : List Entry} (h : EntriesSay entries es)
    (bound : List String) : entriesNames bound es = [] :=
  match h with
  | .nil => rfl
  | .cons hk hv hs =>
    List.append_eq_nil_iff.mpr
      ⟨List.append_eq_nil_iff.mpr ⟨hk.freeNames_eq bound, hv.freeNames_eq bound⟩, hs.entriesNames_eq bound⟩

end

end Formula

end Cellbook
