import Mathlib.Data.List.Chain
import Cellbook.Formula.OfNode

/-!
# Formulas made from trees

Not every `Formula` is the formula of a tree. Those that are have a range in an array only, at the place
that the array names, conditionals whose first clause has a condition, and blocks of parts that are really
parts. Nothing reads a formula for these properties, and yet code is right only for formulas that have
them: the element at the place of an array is taken apart as a range, clauses behind one without a
condition are dropped, and of a part of a block that is a mere name nothing would be left.

`ofNode_wellFormed` shows them of whatever tree can be read as a formula. The proof follows the functions
that read trees; for the parts of a block the invariant is that of the parts so far.
-/

namespace Cellbook

/-- The condition of a clause, if it has one. -/
def Clause.condition? : Clause → Option Formula
  | .mk condition _ => condition

namespace Formula

def isMap : Formula → Bool
  | .map _ _ => true
  | _ => false

/-- Whether a formula may be one of several parts of a block. -/
def isPart : Formula → Bool
  | .map _ entries => !entries.isEmpty
  | .conditional _ _ => true
  | _ => false

/-- **The clauses of a conditional**: the first one has a condition, and so have all others but the last
one. -/
inductive Tested : List Clause → Prop
  | one {c : Clause} : c.condition?.isSome → Tested [c]
  | many {c d : Clause} {cs : List Clause} : c.condition?.isSome →
    (∀ e ∈ cs, e.condition?.isSome) → Tested (c :: (cs ++ [d]))

/-- **Parts of a block**: maps with entries and conditionals, and no two maps next to each other. -/
structure Parts (fs : List Formula) : Prop where
  isPart : ∀ f ∈ fs, f.isPart
  apart : (fs.map isMap).IsChain fun a b => !(a && b)

mutual

/-- **A formula as it is made from a tree** in that cell. -/
inductive WellFormed (cell : Nat) : Formula → Prop
  | literal {o : Origin} {v : Scalar} : o.cell = cell → WellFormed cell (.literal o v)
  | identifier {o : Origin} {name : String} : o.cell = cell → WellFormed cell (.identifier o name)
  | binary {o : Origin} {op : BinaryOp} {left right : Formula} : o.cell = cell →
    WellFormed cell left → WellFormed cell right → WellFormed cell (.binary o op left right)
  | unary {o : Origin} {op : UnaryOp} {operand : Formula} : o.cell = cell →
    WellFormed cell operand → WellFormed cell (.unary o op operand)
  | map {o : Origin} {entries : List Entry} : o.cell = cell →
    (∀ e ∈ entries, EntryWellFormed cell e) → WellFormed cell (.map o entries)
  | block {o : Origin} {parts : List Formula} : o.cell = cell → 2 ≤ parts.length → Parts parts →
    (∀ f ∈ parts, WellFormed cell f) → WellFormed cell (.block o parts)
  | array {o : Origin} {elements : List Formula} : o.cell = cell →
    (∀ f ∈ elements, WellFormed cell f) → WellFormed cell (.array o elements none)
  | arrayOfRange {o r : Origin} {before after : List Formula} {first last : Option Formula} :
    o.cell = cell → r.cell = cell → (∀ f ∈ before, WellFormed cell f) →
      (∀ f ∈ first, WellFormed cell f) → (∀ f ∈ last, WellFormed cell f) →
      (∀ f ∈ after, WellFormed cell f) →
      WellFormed cell (.array o (before ++ .range r first last :: after) (some before.length))
  | index {o : Origin} {target key : Formula} : o.cell = cell → WellFormed cell target →
    WellFormed cell key → WellFormed cell (.index o target key)
  | call {o : Origin} {callee : Formula} {args : List Formula} : o.cell = cell →
    WellFormed cell callee → (∀ f ∈ args, WellFormed cell f) → WellFormed cell (.call o callee args)
  | conditional {o : Origin} {clauses : List Clause} : o.cell = cell → Tested clauses →
    (∀ c ∈ clauses, ClauseWellFormed cell c) → WellFormed cell (.conditional o clauses)
  | member {o : Origin} {object : Formula} {attr : String} : o.cell = cell →
    WellFormed cell object → WellFormed cell (.member o object attr)

inductive EntryWellFormed (cell : Nat) : Entry → Prop
  | mk {key : Key} {value : Formula} {o : Origin} : o.cell = cell → KeyWellFormed cell key →
    WellFormed cell value → EntryWellFormed cell (.mk key value o)

inductive KeyWellFormed (cell : Nat) : Key → Prop
  | name (s : String) : KeyWellFormed cell (.name s)
  | computed {key : Formula} : WellFormed cell key → KeyWellFormed cell (.computed key)
  | signature {name : Option String} {params : List String} {o : Origin} {guard : Option Formula} :
    o.cell = cell → (∀ f ∈ guard, WellFormed cell f) →
      KeyWellFormed cell (.signature name params o guard)

inductive ClauseWellFormed (cell : Nat) : Clause → Prop
  | mk {condition : Option Formula} {body : Formula} : (∀ f ∈ condition, WellFormed cell f) →
    WellFormed cell body → ClauseWellFormed cell (.mk condition body)

end

end Formula

open Formula

/-! ## Blocks -/

/-- What an entry of a list brings with it. -/
inductive ListEntry.WellFormed (cell : Nat) : ListEntry → Prop
  | plain {e : Entry} : EntryWellFormed cell e → WellFormed cell (.plain e)
  | first {c : Clause} {span : Span} : ClauseWellFormed cell c → c.condition?.isSome →
    WellFormed cell (.first c span)
  | further {c : Clause} {span : Span} : ClauseWellFormed cell c → c.condition?.isSome →
    WellFormed cell (.further c span)
  | last {c : Clause} {span : Span} : ClauseWellFormed cell c → WellFormed cell (.last c span)

namespace OpenPart

/-- What is so of a part that still takes entries: as long as a conditional takes clauses, all of its
clauses have conditions. -/
inductive WellFormed (cell : Nat) : OpenPart → Prop
  | map {entries : List Entry} {span : Span} : entries ≠ [] →
    (∀ e ∈ entries, EntryWellFormed cell e) → WellFormed cell (.map entries span)
  | growing {clauses : List Clause} {span : Span} : clauses ≠ [] →
    (∀ c ∈ clauses, ClauseWellFormed cell c) → (∀ c ∈ clauses, c.condition?.isSome) →
    WellFormed cell (.conditional clauses span false)
  | complete {clauses : List Clause} {span : Span} : Tested clauses →
    (∀ c ∈ clauses, ClauseWellFormed cell c) → WellFormed cell (.conditional clauses span true)

theorem tested_of_forall {clauses : List Clause} (hne : clauses ≠ [])
    (h : ∀ c ∈ clauses, c.condition?.isSome) : Tested clauses := by
  match clauses with
  | [c] => exact .one (h c List.mem_cons_self)
  | c :: d :: cs =>
    obtain ⟨init, last, hcs⟩ : ∃ init last, d :: cs = init ++ [last] :=
      ⟨_, _, (List.dropLast_append_getLast (List.cons_ne_nil d cs)).symm⟩
    rw [hcs] at h ⊢
    exact .many (h c List.mem_cons_self) fun e he => h e (by simp [he])

theorem WellFormed.close {cell : Nat} {part : OpenPart} (h : part.WellFormed cell) :
    (part.close cell).isPart ∧ Formula.WellFormed cell (part.close cell) := by
  cases h with
  | map hne hall => exact ⟨by simpa [OpenPart.close, isPart] using hne, .map rfl hall⟩
  | growing hne hall hcond => exact ⟨rfl, .conditional rfl (tested_of_forall hne hcond) hall⟩
  | complete htested hall => exact ⟨rfl, .conditional rfl htested hall⟩

theorem WellFormed.start {cell : Nat} {entry : ListEntry} {part : OpenPart}
    (h : entry.WellFormed cell) (hstart : start entry = .ok part) : part.WellFormed cell := by
  cases h with
  | plain he =>
    cases hstart
    exact .map (List.cons_ne_nil _ _) fun e h => List.mem_singleton.mp h ▸ he
  | first hc hcond =>
    cases hstart
    refine .growing (List.cons_ne_nil _ _) (fun c h => ?_) fun c h => ?_
    · exact List.mem_singleton.mp h ▸ hc
    · exact List.mem_singleton.mp h ▸ hcond
  | further hc hcond => cases hstart
  | last hc => cases hstart

/-- An open part stays well-formed with one more entry, and it stays a map if it is one. -/
theorem WellFormed.add? {cell : Nat} {entry : ListEntry} {part part' : OpenPart}
    (h : part.WellFormed cell) (he : entry.WellFormed cell) (hadd : part.add? entry = some part') :
    part'.WellFormed cell ∧ (part'.close cell).isMap = (part.close cell).isMap := by
  cases h with
  | map hne hall =>
    cases he with
    | plain he =>
      cases hadd
      refine ⟨.map (by simp) fun e h => ?_, rfl⟩
      rcases List.mem_append.mp h with h | h
      · exact hall e h
      · exact List.mem_singleton.mp h ▸ he
    | first => cases hadd
    | further => cases hadd
    | last => cases hadd
  | @growing clauses span hne hall hcond =>
    have hmore {c : Clause} (hc : ClauseWellFormed cell c) :
        ∀ d ∈ clauses ++ [c], ClauseWellFormed cell d := by
      intro d h
      rcases List.mem_append.mp h with h | h
      · exact hall d h
      · exact List.mem_singleton.mp h ▸ hc
    cases he with
    | plain he => cases hadd
    | first => cases hadd
    | further hc hcond' =>
      cases hadd
      refine ⟨.growing (by simp) (hmore hc) fun d h => ?_, rfl⟩
      rcases List.mem_append.mp h with h | h
      · exact hcond d h
      · exact List.mem_singleton.mp h ▸ hcond'
    | last hc =>
      cases hadd
      obtain ⟨c, cs, rfl⟩ := List.exists_cons_of_ne_nil hne
      refine ⟨.complete (.many (hcond c List.mem_cons_self) fun e h => ?_) (hmore hc), rfl⟩
      exact hcond e (List.mem_cons_of_mem c h)
  | complete htested hall => cases he <;> cases hadd

/-- Only a map takes a plain entry, and it takes every one: a plain entry that is not taken does not
stand behind a map. -/
theorem isMap_of_add?_eq_none (cell : Nat) {part : OpenPart} {entry : Entry}
    (h : part.add? (.plain entry) = none) : (part.close cell).isMap = false := by
  cases part with
  | map entries span => cases h
  | conditional clauses span complete => rfl

end OpenPart

/-- What is so of the parts of a block so far. -/
structure BlockParts.WellFormed (cell : Nat) (b : BlockParts) : Prop where
  current : ∀ part ∈ b.current, part.WellFormed cell
  empty : b.current = none → b.closed = []
  parts : Parts (b.parts cell)
  wellFormed : ∀ f ∈ b.parts cell, Formula.WellFormed cell f

namespace BlockParts

theorem wellFormed_empty (cell : Nat) : BlockParts.empty.WellFormed cell where
  current _ h := nomatch h
  empty _ := rfl
  parts := ⟨fun _ h => (List.not_mem_nil h).elim, .nil⟩
  wellFormed _ h := (List.not_mem_nil h).elim

/-- Parts and an open part behind them. -/
theorem WellFormed.opened {cell : Nat} {before : List Formula} {part : OpenPart}
    (hpart : part.WellFormed cell) (hbefore : ∀ f ∈ before, f.isPart ∧ Formula.WellFormed cell f)
    (happart : (before.map isMap ++ [(part.close cell).isMap]).IsChain fun a b => !(a && b)) :
    BlockParts.WellFormed cell ⟨before, some part⟩ := by
  have hall : ∀ f ∈ before ++ [part.close cell], f.isPart ∧ Formula.WellFormed cell f := by
    intro f hf
    rcases List.mem_append.mp hf with hf | hf
    · exact hbefore f hf
    · exact List.mem_singleton.mp hf ▸ hpart.close
  refine ⟨?_, fun h => (Option.some_ne_none part h).elim, ⟨fun f hf => (hall f hf).1, ?_⟩,
    fun f hf => (hall f hf).2⟩
  · rintro _ ⟨rfl⟩
    exact hpart
  · show ((before ++ [part.close cell]).map isMap).IsChain _
    rw [List.map_append]
    exact happart

/-- A part behind one that is no map, or behind none, is apart from it whatever it is; so is one that is
no map itself. -/
theorem apart_snoc {ms : List Bool} (h : ms.IsChain fun a b => !(a && b)) {m : Bool}
    (hm : m = true → ms.getLast? ≠ some true) : (ms ++ [m]).IsChain fun a b => !(a && b) := by
  refine h.append (.singleton m) fun a ha b hb => ?_
  obtain rfl : m = b := by simpa using hb
  cases m with
  | false => simp
  | true =>
    cases a with
    | false => rfl
    | true => exact absurd ha (hm rfl)

theorem WellFormed.add {cell : Nat} {b b' : BlockParts} {entry : ListEntry} (h : b.WellFormed cell)
    (he : entry.WellFormed cell) (hadd : b.add cell entry = .ok b') : b'.WellFormed cell := by
  obtain ⟨closed, current⟩ := b
  have hall : ∀ f ∈ BlockParts.parts cell ⟨closed, current⟩, f.isPart ∧ Formula.WellFormed cell f :=
    fun f hf => ⟨h.parts.isPart f hf, h.wellFormed f hf⟩
  unfold BlockParts.add at hadd
  cases htaken : current.bind (·.add? entry) with
  | some part' =>
    simp only [htaken, Except.ok.injEq] at hadd
    subst hadd
    obtain ⟨part, rfl, htaken⟩ := Option.bind_eq_some_iff.mp htaken
    obtain ⟨hpart', hmap⟩ := (h.current part rfl).add? he htaken
    have happart := h.parts.apart
    simp only [BlockParts.parts, Option.map_some, Option.toList_some, List.map_append] at happart
    refine .opened hpart' (fun f hf => hall f (List.mem_append_left _ hf)) ?_
    rw [hmap]
    exact happart
  | none =>
    simp only [htaken] at hadd
    cases hstart : OpenPart.start entry with
    | error fault => rw [hstart] at hadd; cases hadd
    | ok part' =>
      rw [hstart] at hadd
      cases hadd
      refine .opened (.start he hstart) hall (apart_snoc h.parts.apart fun hmap => ?_)
      -- only a plain entry opens a map, and only behind what takes no plain entry
      obtain ⟨e, rfl⟩ : ∃ e, entry = .plain e := by
        cases he with
        | plain => exact ⟨_, rfl⟩
        | first => cases hstart; cases hmap
        | further => cases hstart
        | last => cases hstart
      cases current with
      | none =>
        obtain rfl := h.empty rfl
        simp [BlockParts.parts]
      | some part =>
        have := OpenPart.isMap_of_add?_eq_none cell htaken
        simp [BlockParts.parts, this]

/-- What a block of well-formed parts is as a formula. -/
theorem WellFormed.toFormula {cell : Nat} {span : Span} {b : BlockParts} (h : b.WellFormed cell) :
    Formula.WellFormed cell (b.toFormula cell span) := by
  have hparts := h.parts
  have hall := h.wellFormed
  unfold BlockParts.toFormula
  generalize b.parts cell = fs at hparts hall
  match fs with
  | [] => exact .map rfl fun e he => (List.not_mem_nil he).elim
  | [f] => exact hall f List.mem_cons_self
  | f :: g :: fs => exact .block rfl (by simp) hparts hall

end BlockParts

/-! ## Trees -/

namespace Formula

theorem required_eq_ok {n : Node} {part : Except SourceFault (Option Formula)} {f : Formula}
    (h : required n part = .ok f) : part = .ok (some f) := by
  cases part with
  | error fault => cases h
  | ok o =>
    cases o with
    | none => cases h
    | some g => cases h; rfl

theorem bind_eq_ok {α β : Type} {x : Except SourceFault α} {f : α → Except SourceFault β} {b : β}
    (h : (x >>= f) = .ok b) : ∃ a, x = .ok a ∧ f a = .ok b := by
  cases x with
  | error fault => cases h
  | ok a => exact ⟨a, rfl, h⟩

theorem ofPair_nil {cell : Nat} (node : Node) : ofPair cell node [] = .error (flawed node .notAnEntry) := by
  rw [ofPair]
  · rfl
  · nofun

/-- The first node of a list is read as an entry, or is the fault. -/
theorem ofEntries_cons (cell : Nat) (b : BlockParts) (n : Node) (ns : List Node) :
    ofEntries cell b (n :: ns) = (do
      let entry ← ofPair cell n n.items
      ofEntries cell (← b.add cell entry) ns) := by
  obtain ⟨operator, kind, content, span, left, right⟩ := n
  cases content with
  | items nodes => rw [ofEntries]; rfl
  | empty | scalar _ | name _ =>
    rw [ofEntries, Node.items, ofPair_nil]
    · rfl
    · nofun

/-- A list of entries is the block of their parts. -/
theorem ofNode_entries {cell : Nat} {n : Node} (h : n.kind = .entries) :
    ofNode cell n = (do return (← ofEntries cell .empty n.items).toFormula cell n.span) := by
  obtain ⟨operator, kind, content, span, left, right⟩ := n
  obtain rfl : kind = .entries := h
  cases content with
  | items nodes => rw [ofNode]; rfl
  | empty | scalar _ | name _ =>
    rw [ofNode, Node.items, ofEntries]
    · rfl
    · nofun

theorem keyWellFormed_of_signatureOf {cell : Nat} {name : Option String} {group : Node}
    {guard : Option Formula} {key : Key} (hguard : ∀ f ∈ guard, WellFormed cell f)
    (h : signatureOf cell name group guard = .ok key) : KeyWellFormed cell key := by
  obtain ⟨params, -, hkey⟩ := bind_eq_ok h
  cases hkey
  exact .signature rfl hguard

theorem entryOf_wellFormed {cell : Nat} {node key : Node} {value : Except SourceFault Formula}
    {part : Except SourceFault (Option Formula)} {entry : ListEntry}
    (hvalue : ∀ f, value = .ok f → WellFormed cell f)
    (hpart : ∀ f, part = .ok (some f) → WellFormed cell f)
    (h : entryOf cell node key value part = .ok entry) : entry.WellFormed cell := by
  obtain ⟨body, hbody, h⟩ := bind_eq_ok h
  have hplain {k : Key} (hk : KeyWellFormed cell k) :
      (ListEntry.plain (.mk k body ⟨cell, node.span⟩)).WellFormed cell :=
    .plain (.mk rfl hk (hvalue body hbody))
  have hclause {f : Formula} (hf : required key part = .ok f) :
      ClauseWellFormed cell (.mk (some f) body) := by
    refine .mk ?_ (hvalue body hbody)
    rintro _ ⟨rfl⟩
    exact hpart f (required_eq_ok hf)
  have hcomputed {f : Formula} (hf : required key part = .ok f) : KeyWellFormed cell (.computed f) :=
    .computed (hpart f (required_eq_ok hf))
  dsimp only at h
  split at h
  case h_1 =>
    obtain ⟨f, hf, h⟩ := bind_eq_ok h
    cases h
    exact .first (hclause hf) rfl
  case h_2 =>
    obtain ⟨f, hf, h⟩ := bind_eq_ok h
    cases h
    exact .further (hclause hf) rfl
  case h_3 =>
    cases h
    exact .last (.mk (by simp) (hvalue body hbody))
  case h_4 =>
    cases h
    exact hplain (.name _)
  case h_5 =>
    obtain ⟨k, hk, h⟩ := bind_eq_ok h
    cases h
    exact hplain (keyWellFormed_of_signatureOf (by simp) hk)
  case h_6 =>
    split at h
    · cases h
    · obtain ⟨f, hf, h⟩ := bind_eq_ok h
      obtain ⟨k, hk, h⟩ := bind_eq_ok h
      cases h
      refine hplain (keyWellFormed_of_signatureOf ?_ hk)
      rintro _ ⟨rfl⟩
      exact hpart f (required_eq_ok hf)
  case h_7 =>
    split at h
    · cases h
    · split at h
      · cases h
      · obtain ⟨k, hk, h⟩ := bind_eq_ok h
        cases h
        exact hplain (keyWellFormed_of_signatureOf (by simp) hk)
  case h_8 =>
    split at h
    · split at h
      · cases h
      · obtain ⟨f, hf, h⟩ := bind_eq_ok h
        cases h
        exact hplain (hcomputed hf)
    · cases h
  case h_9 =>
    obtain ⟨f, hf, h⟩ := bind_eq_ok h
    cases h
    exact hplain (hcomputed hf)

/-- Elements of an array and the place of the range among them, the first of them being at
`position`. -/
inductive ElementsWellFormed (cell position : Nat) : List Formula → Option Nat → Prop
  | plain {elements : List Formula} : (∀ f ∈ elements, WellFormed cell f) →
    ElementsWellFormed cell position elements none
  | range {r : Origin} (before : List Formula) {after : List Formula} {first last : Option Formula} :
    r.cell = cell → (∀ f ∈ before, WellFormed cell f) → (∀ f ∈ first, WellFormed cell f) →
      (∀ f ∈ last, WellFormed cell f) → (∀ f ∈ after, WellFormed cell f) →
      ElementsWellFormed cell position (before ++ .range r first last :: after)
        (some (position + before.length))

theorem ElementsWellFormed.cons {cell position : Nat} {f : Formula} {elements : List Formula}
    {place : Option Nat} (hf : WellFormed cell f)
    (h : ElementsWellFormed cell (position + 1) elements place) :
    ElementsWellFormed cell position (f :: elements) place := by
  cases h with
  | plain hall => exact .plain (List.forall_mem_cons.mpr ⟨hf, hall⟩)
  | range before hr hbefore hfirst hlast hafter =>
    rw [Nat.add_assoc, Nat.add_comm 1]
    exact .range (f :: before) hr (List.forall_mem_cons.mpr ⟨hf, hbefore⟩) hfirst hlast hafter

mutual

/-- **The formula of a tree is well-formed**, whatever tree it is. -/
theorem ofNode_wellFormed {cell : Nat} : (n : Node) → {f : Formula} → ofNode cell n = .ok f →
    WellFormed cell f
  | ⟨operator, kind, content, span, left, right⟩, f, h => by
    unfold ofNode at h
    dsimp only at h
    split at h
    case h_1 =>
      split at h
      · cases h; exact .literal rfl
      · cases h
    case h_2 =>
      split at h
      · cases h; exact .identifier rfl
      · cases h
    case h_3 =>
      split at h
      · cases h
      · obtain ⟨l, hl, h⟩ := bind_eq_ok h
        obtain ⟨r, hr, h⟩ := bind_eq_ok h
        cases h
        exact .binary rfl (ofOperand_wellFormed left (required_eq_ok hl))
          (ofOperand_wellFormed right (required_eq_ok hr))
    case h_4 =>
      split at h
      · cases h
      · obtain ⟨r, hr, h⟩ := bind_eq_ok h
        cases h
        exact .unary rfl (ofOperand_wellFormed right (required_eq_ok hr))
    case h_5 =>
      match content, h with
      | .items [single], h => exact ofNode_wellFormed single h
    case h_6 =>
      match content, h with
      | .items nodes, h =>
        obtain ⟨⟨elements, place⟩, he, h⟩ := bind_eq_ok h
        cases h
        have hall := (ofElements_wellFormed nodes he).1 rfl
        cases hall with
        | plain hall => exact .array rfl hall
        | range _ hr hbefore hfirst hlast hafter =>
          rw [Nat.zero_add]
          exact .arrayOfRange rfl hr hbefore hfirst hlast hafter
      | .empty, h => cases h; exact .array rfl (by simp)
      | .scalar _, h => cases h; exact .array rfl (by simp)
      | .name _, h => cases h; exact .array rfl (by simp)
    case h_7 =>
      obtain ⟨callee, hcallee, h⟩ := bind_eq_ok h
      have hc := ofOperand_wellFormed left (required_eq_ok hcallee)
      match content, h with
      | .items nodes, h =>
        obtain ⟨args, hargs, h⟩ := bind_eq_ok h
        cases h
        exact .call rfl hc (ofNodes_wellFormed nodes hargs)
      | .empty, h => cases h; exact .call rfl hc (by simp)
      | .scalar _, h => cases h; exact .call rfl hc (by simp)
      | .name _, h => cases h; exact .call rfl hc (by simp)
    case h_8 =>
      obtain ⟨target, htarget, h⟩ := bind_eq_ok h
      have ht := ofOperand_wellFormed left (required_eq_ok htarget)
      match content, h with
      | .items [key], h =>
        obtain ⟨k, hk, h⟩ := bind_eq_ok h
        cases h
        exact .index rfl ht (ofNode_wellFormed key hk)
    case h_9 =>
      obtain ⟨object, hobject, h⟩ := bind_eq_ok h
      have ho := ofOperand_wellFormed left (required_eq_ok hobject)
      match right, h with
      | some attr, h =>
        dsimp only at h
        split at h
        · cases h
          exact .member rfl ho
        · cases h
    case h_10 =>
      match content, h with
      | .items nodes, h =>
        obtain ⟨entry, hentry, h⟩ := bind_eq_ok h
        obtain ⟨b, hb, h⟩ := bind_eq_ok h
        cases h
        exact ((BlockParts.wellFormed_empty cell).add (ofPair_wellFormed nodes hentry) hb).toFormula
    case h_11 =>
      match content, h with
      | .items nodes, h =>
        obtain ⟨b, hb, h⟩ := bind_eq_ok h
        cases h
        exact (ofEntries_wellFormed nodes (BlockParts.wellFormed_empty cell) hb).toFormula
      | .empty, h => cases h; exact (BlockParts.wellFormed_empty cell).toFormula
      | .scalar _, h => cases h; exact (BlockParts.wellFormed_empty cell).toFormula
      | .name _, h => cases h; exact (BlockParts.wellFormed_empty cell).toFormula
    all_goals cases h

theorem ofOperand_wellFormed {cell : Nat} : (n? : Option Node) → {f : Formula} →
    ofOperand cell n? = .ok (some f) → WellFormed cell f
  | none, _, h => nomatch h
  | some n, f, h => by
    obtain ⟨g, hg, h⟩ := bind_eq_ok h
    cases h
    exact ofNode_wellFormed n hg

theorem ofNodes_wellFormed {cell : Nat} : (ns : List Node) → {fs : List Formula} →
    ofNodes cell ns = .ok fs → ∀ f ∈ fs, WellFormed cell f
  | [], _, h => by cases h; simp
  | n :: ns, fs, h => by
    obtain ⟨f, hf, h⟩ := bind_eq_ok h
    obtain ⟨fs, hfs, h⟩ := bind_eq_ok h
    cases h
    exact List.forall_mem_cons.mpr ⟨ofNode_wellFormed n hf, ofNodes_wellFormed ns hfs⟩

/-- Behind a range no further one follows. -/
theorem ofElements_wellFormed {cell : Nat} : (ns : List Node) → {position : Nat} →
    {place place' : Option Nat} → {elements : List Formula} →
    ofElements cell position place ns = .ok (elements, place') →
    (place = none → ElementsWellFormed cell position elements place') ∧
      (place.isSome → place' = place ∧ ∀ f ∈ elements, WellFormed cell f)
  | [], _, _, _, _, h => by
    cases h
    exact ⟨fun h => h ▸ .plain (by simp), fun _ => ⟨rfl, by simp⟩⟩
  | ⟨operator, kind, content, span, left, right⟩ :: ns, position, place, place', elements, h => by
    unfold ofElements at h
    dsimp only at h
    split at h
    · rename_i heq
      cases heq
      split at h
      · cases h
      · rename_i hplace
        obtain ⟨first, hfirst, h⟩ := bind_eq_ok h
        obtain ⟨last, hlast, h⟩ := bind_eq_ok h
        obtain ⟨⟨after, place''⟩, hafter, h⟩ := bind_eq_ok h
        cases h
        obtain ⟨rfl, hall⟩ := (ofElements_wellFormed ns hafter).2 rfl
        refine ⟨fun _ => ?_, fun h => absurd h hplace⟩
        refine .range [] rfl (by simp) ?_ ?_ hall
        · rintro f ⟨rfl⟩
          exact ofOperand_wellFormed left hfirst
        · rintro f ⟨rfl⟩
          exact ofOperand_wellFormed right hlast
    · obtain ⟨f, hf, h⟩ := bind_eq_ok h
      obtain ⟨⟨rest, place''⟩, hrest, h⟩ := bind_eq_ok h
      cases h
      have hf := ofNode_wellFormed _ hf
      have hrest := ofElements_wellFormed ns hrest
      refine ⟨fun h => (hrest.1 h).cons hf, fun h => ?_⟩
      obtain ⟨hplace, hall⟩ := hrest.2 h
      exact ⟨hplace, List.forall_mem_cons.mpr ⟨hf, hall⟩⟩

theorem ofPair_wellFormed {cell : Nat} {node : Node} : (ns : List Node) → {entry : ListEntry} →
    ofPair cell node ns = .ok entry → entry.WellFormed cell
  | [], _, h => nomatch h
  | [_], _, h => nomatch h
  | _ :: _ :: _ :: _, _, h => nomatch h
  | [⟨operator, kind, content, span, left, right⟩, value], entry, h => by
    have hcomputed : ∀ {n : Node} {f : Formula}, content = .items [n] → ofNode cell n = .ok f →
        WellFormed cell f :=
      match content with
      | .items [c] => fun h hf => ofNode_wellFormed c (by cases h; exact hf)
      | .items [] | .items (_ :: _ :: _) | .empty | .scalar _ | .name _ => fun h => nomatch h
    unfold ofPair at h
    split at h
    · refine entryOf_wellFormed (fun f hf => ofNode_wellFormed value hf) (fun f hf => ?_) h
      -- whichever part of the key it is, it is the formula of a tree in the key, or of the key itself
      split at hf
      case h_1 heq => cases heq; exact ofOperand_wellFormed left hf
      case h_2 heq => cases heq; exact ofOperand_wellFormed left hf
      case h_3 heq => cases heq; exact ofOperand_wellFormed right hf
      case h_4 heq =>
        cases heq
        obtain ⟨g, hg, h⟩ := bind_eq_ok hf
        cases h
        exact hcomputed rfl hg
      case h_5 =>
        obtain ⟨g, hg, h⟩ := bind_eq_ok hf
        cases h
        exact ofNode_wellFormed _ hg
    · cases h

theorem ofEntries_wellFormed {cell : Nat} : (ns : List Node) → {b b' : BlockParts} →
    b.WellFormed cell → ofEntries cell b ns = .ok b' → b'.WellFormed cell
  | [], _, _, hb, h => by cases h; exact hb
  | ⟨operator, kind, .items nodes, span, left, right⟩ :: ns, b, b', hb, h => by
    obtain ⟨entry, hentry, h⟩ := bind_eq_ok h
    obtain ⟨b₁, hb₁, h⟩ := bind_eq_ok h
    exact ofEntries_wellFormed ns (hb.add (ofPair_wellFormed nodes hentry) hb₁) h

end

end Formula

end Cellbook
