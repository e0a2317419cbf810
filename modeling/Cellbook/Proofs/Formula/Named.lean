import Cellbook.Proofs.Formula.WellFormed
import Cellbook.Proofs.Source.Names

/-!
# The names in a formula

A formula says a name where it means what the name stands for, and where a signature gives it to a
parameter. Both are names of its tree (`ofNode_named`). Keys and the names of members and methods are not
among them: those are texts and become code as such.
-/

namespace Cellbook

namespace Formula

mutual

/-- **The names that a formula says have a property.** -/
inductive Named (p : String → Prop) : Formula → Prop
  | literal {o : Origin} {v : Scalar} : Named p (.literal o v)
  | identifier {o : Origin} {name : String} : p name → Named p (.identifier o name)
  | binary {o : Origin} {op : BinaryOp} {left right : Formula} : Named p left → Named p right →
    Named p (.binary o op left right)
  | unary {o : Origin} {op : UnaryOp} {operand : Formula} : Named p operand →
    Named p (.unary o op operand)
  | map {o : Origin} {entries : List Entry} : (∀ e ∈ entries, EntryNamed p e) →
    Named p (.map o entries)
  | block {o : Origin} {parts : List Formula} : (∀ f ∈ parts, Named p f) → Named p (.block o parts)
  | array {o : Origin} {elements : List Formula} {place : Option Nat} :
    (∀ f ∈ elements, Named p f) → Named p (.array o elements place)
  | range {o : Origin} {first last : Option Formula} : (∀ f ∈ first, Named p f) →
    (∀ f ∈ last, Named p f) → Named p (.range o first last)
  | index {o : Origin} {target key : Formula} : Named p target → Named p key →
    Named p (.index o target key)
  | call {o : Origin} {callee : Formula} {args : List Formula} : Named p callee →
    (∀ f ∈ args, Named p f) → Named p (.call o callee args)
  | conditional {o : Origin} {clauses : List Clause} : (∀ c ∈ clauses, ClauseNamed p c) →
    Named p (.conditional o clauses)
  | member {o : Origin} {object : Formula} {attr : String} : Named p object →
    Named p (.member o object attr)

inductive EntryNamed (p : String → Prop) : Entry → Prop
  | name {key : String} {value : Formula} {o : Origin} : Named p value →
    EntryNamed p (.mk (.name key) value o)
  | computed {key value : Formula} {o : Origin} : Named p key → Named p value →
    EntryNamed p (.mk (.computed key) value o)
  | signature {name : Option String} {params : List String} {at' o : Origin} {guard : Option Formula}
      {value : Formula} : (∀ s ∈ params, p s) → (∀ f ∈ guard, Named p f) → Named p value →
    EntryNamed p (.mk (.signature name params at' guard) value o)

inductive ClauseNamed (p : String → Prop) : Clause → Prop
  | mk {condition : Option Formula} {body : Formula} : (∀ f ∈ condition, Named p f) → Named p body →
    ClauseNamed p (.mk condition body)

end

end Formula

open Formula

variable {p : String → Prop}

/-! ## Blocks -/

/-- The names in an entry of a list. -/
inductive ListEntry.Named (p : String → Prop) : ListEntry → Prop
  | plain {e : Entry} : EntryNamed p e → Named p (.plain e)
  | first {c : Clause} {span : Span} : ClauseNamed p c → Named p (.first c span)
  | further {c : Clause} {span : Span} : ClauseNamed p c → Named p (.further c span)
  | last {c : Clause} {span : Span} : ClauseNamed p c → Named p (.last c span)

/-- The names in a part that still takes entries. -/
inductive OpenPart.Named (p : String → Prop) : OpenPart → Prop
  | map {entries : List Entry} {span : Span} : (∀ e ∈ entries, EntryNamed p e) →
    Named p (.map entries span)
  | conditional {clauses : List Clause} {span : Span} {complete : Bool} :
    (∀ c ∈ clauses, ClauseNamed p c) → Named p (.conditional clauses span complete)

namespace OpenPart

theorem Named.start {entry : ListEntry} {part : OpenPart} (h : entry.Named p)
    (hstart : OpenPart.start entry = .ok part) : part.Named p := by
  cases h with
  | plain he => cases hstart; exact .map (by simp [he])
  | first hc => cases hstart; exact .conditional (by simp [hc])
  | further hc => cases hstart
  | last hc => cases hstart

theorem Named.add? {entry : ListEntry} {part part' : OpenPart} (h : part.Named p) (he : entry.Named p)
    (hadd : part.add? entry = some part') : part'.Named p := by
  cases h with
  | map hall =>
    cases he with
    | plain he => cases hadd; exact .map (List.forall_mem_append.mpr ⟨hall, by simp [he]⟩)
    | first | further | last => cases hadd
  | @conditional clauses span complete hall =>
    have hmore {c : Clause} (hc : ClauseNamed p c) : ∀ d ∈ clauses ++ [c], ClauseNamed p d :=
      List.forall_mem_append.mpr ⟨hall, by simp [hc]⟩
    cases complete with
    | true => cases he <;> cases hadd
    | false =>
      cases he with
      | plain | first => cases hadd
      | further hc => cases hadd; exact .conditional (hmore hc)
      | last hc => cases hadd; exact .conditional (hmore hc)

theorem Named.close {cell : Nat} {part : OpenPart} (h : part.Named p) :
    (part.close cell).Named p := by
  cases h with
  | map hall => exact .map hall
  | conditional hall => exact .conditional hall

end OpenPart

/-- The names in the parts of a block so far. -/
structure BlockParts.Named (p : String → Prop) (b : BlockParts) : Prop where
  closed : ∀ f ∈ b.closed, f.Named p
  current : ∀ part ∈ b.current, part.Named p

namespace BlockParts

theorem named_empty : BlockParts.empty.Named p := ⟨by simp [empty], by simp [empty]⟩

theorem Named.parts {b : BlockParts} (h : b.Named p) (cell : Nat) : ∀ f ∈ b.parts cell, f.Named p := by
  refine List.forall_mem_append.mpr ⟨h.closed, fun f hf => ?_⟩
  obtain ⟨part, hpart, rfl⟩ := Option.map_eq_some_iff.mp (Option.mem_toList.mp hf)
  exact (h.current part hpart).close

theorem Named.add {cell : Nat} {b b' : BlockParts} {entry : ListEntry} (h : b.Named p)
    (he : entry.Named p) (hadd : b.add cell entry = .ok b') : b'.Named p := by
  unfold BlockParts.add at hadd
  split at hadd
  · rename_i part' htaken
    cases hadd
    obtain ⟨part, hpart, htaken⟩ := Option.bind_eq_some_iff.mp htaken
    refine ⟨h.closed, ?_⟩
    rintro _ ⟨rfl⟩
    exact (h.current part hpart).add? he htaken
  · obtain ⟨part, hstart, hadd⟩ := bind_eq_ok hadd
    cases hadd
    refine ⟨h.parts cell, ?_⟩
    rintro _ ⟨rfl⟩
    exact .start he hstart

theorem Named.toFormula {cell : Nat} {span : Span} {b : BlockParts} (h : b.Named p) :
    (b.toFormula cell span).Named p := by
  have hall := h.parts cell
  unfold BlockParts.toFormula
  generalize b.parts cell = fs at hall
  match fs with
  | [] => exact .map (by simp)
  | [f] => exact hall f List.mem_cons_self
  | f :: g :: fs => exact .block hall

end BlockParts

/-! ## Trees -/

namespace Formula

theorem parameterNames_named {nodes : List Node} {names : List String} (h : ∀ n ∈ nodes, n.Named p)
    (hnames : parameterNames nodes = .ok names) : ∀ s ∈ names, p s := by
  induction nodes generalizing names with
  | nil => cases hnames; simp
  | cons n nodes ih =>
    obtain ⟨hn, hnodes⟩ := List.forall_mem_cons.mp h
    rw [parameterNames, List.mapM_cons] at hnames
    obtain ⟨name, hname, hnames⟩ := bind_eq_ok hnames
    obtain ⟨rest, hrest, hnames⟩ := bind_eq_ok hnames
    cases hnames
    refine List.forall_mem_cons.mpr ⟨?_, ih hnodes hrest⟩
    split at hname
    · rename_i name' _ hname'
      cases hname
      cases hn with
      | mk hcontent =>
        unfold Node.name? at hname'
        split at hname'
        · rename_i hsaid
          cases hname'
          exact hcontent _ hsaid
        · cases hname'
    · cases hname

theorem named_of_signatureOf {cell : Nat} {name : Option String} {group : Node} {guard : Option Formula}
    {value : Formula} {key : Key} {o : Origin} (hgroup : group.Named p) (hguard : ∀ f ∈ guard, f.Named p)
    (hvalue : value.Named p) (h : signatureOf cell name group guard = .ok key) :
    EntryNamed p (.mk key value o) := by
  obtain ⟨params, hparams, hkey⟩ := bind_eq_ok h
  cases hkey
  refine .signature (parameterNames_named (fun n hn => ?_) hparams) hguard hvalue
  cases hgroup with
  | mk _ hitems =>
    unfold Node.items at hn
    split at hn
    · rename_i hcontent
      exact hitems _ hcontent n hn
    · cases hn

theorem entryOf_named {cell : Nat} {node key : Node} {value : Except SourceFault Formula}
    {part : Except SourceFault (Option Formula)} {entry : ListEntry} (hkey : key.Named p)
    (hvalue : ∀ f, value = .ok f → f.Named p) (hpart : ∀ f, part = .ok (some f) → f.Named p)
    (h : entryOf cell node key value part = .ok entry) : entry.Named p := by
  obtain ⟨body, hbody, h⟩ := bind_eq_ok h
  have hv := hvalue body hbody
  have hclause {f : Formula} (hf : required key part = .ok f) : ClauseNamed p (.mk (some f) body) := by
    refine .mk ?_ hv
    rintro _ ⟨rfl⟩
    exact hpart f (required_eq_ok hf)
  have hleft {n : Node} (hn : key.left = some n) : n.Named p := by
    cases hkey with
    | mk _ _ hl _ => exact hl n hn
  dsimp only at h
  split at h
  case h_1 =>
    obtain ⟨f, hf, h⟩ := bind_eq_ok h
    cases h
    exact .first (hclause hf)
  case h_2 =>
    obtain ⟨f, hf, h⟩ := bind_eq_ok h
    cases h
    exact .further (hclause hf)
  case h_3 =>
    cases h
    exact .last (.mk (by simp) hv)
  case h_4 =>
    cases h
    exact .plain (.name hv)
  case h_5 =>
    obtain ⟨k, hk, h⟩ := bind_eq_ok h
    cases h
    exact .plain (named_of_signatureOf hkey (by simp) hv hk)
  case h_6 =>
    split at h
    · cases h
    · rename_i group hgroup
      obtain ⟨f, hf, h⟩ := bind_eq_ok h
      obtain ⟨k, hk, h⟩ := bind_eq_ok h
      cases h
      refine .plain (named_of_signatureOf (hleft hgroup) ?_ hv hk)
      rintro _ ⟨rfl⟩
      exact hpart f (required_eq_ok hf)
  case h_7 =>
    split at h
    · cases h
    · split at h
      · cases h
      · obtain ⟨k, hk, h⟩ := bind_eq_ok h
        cases h
        exact .plain (named_of_signatureOf hkey (by simp) hv hk)
  case h_8 =>
    split at h
    · split at h
      · cases h
      · obtain ⟨f, hf, h⟩ := bind_eq_ok h
        cases h
        exact .plain (.computed (hpart f (required_eq_ok hf)) hv)
    · cases h
  case h_9 =>
    obtain ⟨f, hf, h⟩ := bind_eq_ok h
    cases h
    exact .plain (.computed (hpart f (required_eq_ok hf)) hv)

mutual

/-- **The names that a formula says are names in its tree.** -/
theorem ofNode_named {cell : Nat} : (n : Node) → n.Named p → {f : Formula} → ofNode cell n = .ok f →
    f.Named p
  | ⟨operator, kind, content, span, left, right⟩, .mk hname hitems hleft hright, f, h => by
    unfold ofNode at h
    dsimp only at h
    split at h
    case h_1 =>
      split at h
      · cases h; exact .literal
      · cases h
    case h_2 =>
      match content, h with
      | .name name, h => cases h; exact .identifier (hname name rfl)
    case h_3 =>
      split at h
      · cases h
      · obtain ⟨l, hl, h⟩ := bind_eq_ok h
        obtain ⟨r, hr, h⟩ := bind_eq_ok h
        cases h
        exact .binary (ofOperand_named left hleft (required_eq_ok hl))
          (ofOperand_named right hright (required_eq_ok hr))
    case h_4 =>
      split at h
      · cases h
      · obtain ⟨r, hr, h⟩ := bind_eq_ok h
        cases h
        exact .unary (ofOperand_named right hright (required_eq_ok hr))
    case h_5 =>
      match content, h with
      | .items [single], h =>
        exact ofNode_named single (hitems _ rfl single List.mem_cons_self) h
    case h_6 =>
      match content, h with
      | .items nodes, h =>
        obtain ⟨⟨elements, place⟩, he, h⟩ := bind_eq_ok h
        cases h
        exact .array (ofElements_named nodes (hitems nodes rfl) he)
      | .empty, h => cases h; exact .array (by simp)
      | .scalar _, h => cases h; exact .array (by simp)
      | .name _, h => cases h; exact .array (by simp)
    case h_7 =>
      obtain ⟨callee, hcallee, h⟩ := bind_eq_ok h
      have hc := ofOperand_named left hleft (required_eq_ok hcallee)
      match content, h with
      | .items nodes, h =>
        obtain ⟨args, hargs, h⟩ := bind_eq_ok h
        cases h
        exact .call hc (ofNodes_named nodes (hitems nodes rfl) hargs)
      | .empty, h => cases h; exact .call hc (by simp)
      | .scalar _, h => cases h; exact .call hc (by simp)
      | .name _, h => cases h; exact .call hc (by simp)
    case h_8 =>
      obtain ⟨target, htarget, h⟩ := bind_eq_ok h
      have ht := ofOperand_named left hleft (required_eq_ok htarget)
      match content, h with
      | .items [key], h =>
        obtain ⟨k, hk, h⟩ := bind_eq_ok h
        cases h
        exact .index ht (ofNode_named key (hitems _ rfl key List.mem_cons_self) hk)
    case h_9 =>
      obtain ⟨object, hobject, h⟩ := bind_eq_ok h
      have ho := ofOperand_named left hleft (required_eq_ok hobject)
      match right, h with
      | some attr, h =>
        dsimp only at h
        split at h
        · cases h
          exact .member ho
        · cases h
    case h_10 =>
      match content, h with
      | .items nodes, h =>
        obtain ⟨entry, hentry, h⟩ := bind_eq_ok h
        obtain ⟨b, hb, h⟩ := bind_eq_ok h
        cases h
        exact (BlockParts.named_empty.add (ofPair_named nodes (hitems nodes rfl) hentry) hb).toFormula
    case h_11 =>
      match content, h with
      | .items nodes, h =>
        obtain ⟨b, hb, h⟩ := bind_eq_ok h
        cases h
        exact (ofEntries_named nodes (hitems nodes rfl) BlockParts.named_empty hb).toFormula
      | .empty, h => cases h; exact BlockParts.named_empty.toFormula
      | .scalar _, h => cases h; exact BlockParts.named_empty.toFormula
      | .name _, h => cases h; exact BlockParts.named_empty.toFormula
    all_goals cases h

theorem ofOperand_named {cell : Nat} : (n? : Option Node) → (∀ n ∈ n?, n.Named p) → {f : Formula} →
    ofOperand cell n? = .ok (some f) → f.Named p
  | none, _, _, h => nomatch h
  | some n, hn, f, h => by
    obtain ⟨g, hg, h⟩ := bind_eq_ok h
    cases h
    exact ofNode_named n (hn n rfl) hg

theorem ofNodes_named {cell : Nat} : (ns : List Node) → (∀ n ∈ ns, n.Named p) → {fs : List Formula} →
    ofNodes cell ns = .ok fs → ∀ f ∈ fs, f.Named p
  | [], _, _, h => by cases h; simp
  | n :: ns, hns, fs, h => by
    obtain ⟨hn, hns⟩ := List.forall_mem_cons.mp hns
    obtain ⟨f, hf, h⟩ := bind_eq_ok h
    obtain ⟨fs, hfs, h⟩ := bind_eq_ok h
    cases h
    exact List.forall_mem_cons.mpr ⟨ofNode_named n hn hf, ofNodes_named ns hns hfs⟩

theorem ofElements_named {cell : Nat} : (ns : List Node) → (∀ n ∈ ns, n.Named p) → {position : Nat} →
    {place place' : Option Nat} → {elements : List Formula} →
    ofElements cell position place ns = .ok (elements, place') → ∀ f ∈ elements, f.Named p
  | [], _, _, _, _, _, h => by cases h; simp
  | ⟨operator, kind, content, span, left, right⟩ :: ns, hns, position, place, place', elements, h => by
    obtain ⟨hn, hrest⟩ := List.forall_mem_cons.mp hns
    unfold ofElements at h
    dsimp only at h
    split at h
    · rename_i heq
      cases heq
      split at h
      · cases h
      · obtain ⟨first, hfirst, h⟩ := bind_eq_ok h
        obtain ⟨last, hlast, h⟩ := bind_eq_ok h
        obtain ⟨⟨after, place''⟩, hafter, h⟩ := bind_eq_ok h
        cases h
        cases hn with
        | mk _ _ hleft hright =>
          refine List.forall_mem_cons.mpr ⟨.range ?_ ?_, ofElements_named ns hrest hafter⟩
          · rintro f ⟨rfl⟩
            exact ofOperand_named left hleft hfirst
          · rintro f ⟨rfl⟩
            exact ofOperand_named right hright hlast
    · obtain ⟨f, hf, h⟩ := bind_eq_ok h
      obtain ⟨⟨rest, place''⟩, helements, h⟩ := bind_eq_ok h
      cases h
      exact List.forall_mem_cons.mpr ⟨ofNode_named _ hn hf, ofElements_named ns hrest helements⟩

theorem ofPair_named {cell : Nat} {node : Node} : (ns : List Node) → (∀ n ∈ ns, n.Named p) →
    {entry : ListEntry} → ofPair cell node ns = .ok entry → entry.Named p
  | [], _, _, h => nomatch h
  | [_], _, _, h => nomatch h
  | _ :: _ :: _ :: _, _, _, h => nomatch h
  | [⟨operator, kind, content, span, left, right⟩, value], hns, entry, h => by
    obtain ⟨hkey, hvalue⟩ := List.forall_mem_cons.mp hns
    have hvalue := hvalue value List.mem_cons_self
    have hcomputed : ∀ {n : Node} {f : Formula}, content = .items [n] → ofNode cell n = .ok f →
        f.Named p :=
      match content, hkey with
      | .items [c], .mk _ hitems _ _ => fun h hf =>
        ofNode_named c (hitems _ rfl c List.mem_cons_self) (by cases h; exact hf)
      | .items [], _ | .items (_ :: _ :: _), _ | .empty, _ | .scalar _, _ | .name _, _ =>
        fun h => nomatch h
    have hleft : ∀ n ∈ left, n.Named p := by cases hkey with | mk _ _ hl _ => exact hl
    have hright : ∀ n ∈ right, n.Named p := by cases hkey with | mk _ _ _ hr => exact hr
    unfold ofPair at h
    split at h
    · refine entryOf_named hkey (fun f hf => ofNode_named value hvalue hf) (fun f hf => ?_) h
      -- whichever part of the key it is, it is the formula of a tree in the key, or of the key itself
      split at hf
      case h_1 heq => cases heq; exact ofOperand_named left hleft hf
      case h_2 heq => cases heq; exact ofOperand_named left hleft hf
      case h_3 heq => cases heq; exact ofOperand_named right hright hf
      case h_4 heq =>
        cases heq
        obtain ⟨g, hg, h⟩ := bind_eq_ok hf
        cases h
        exact hcomputed rfl hg
      case h_5 =>
        obtain ⟨g, hg, h⟩ := bind_eq_ok hf
        cases h
        exact ofNode_named _ hkey hg
    · cases h

theorem ofEntries_named {cell : Nat} : (ns : List Node) → (∀ n ∈ ns, n.Named p) → {b b' : BlockParts} →
    b.Named p → ofEntries cell b ns = .ok b' → b'.Named p
  | [], _, _, _, hb, h => by cases h; exact hb
  | ⟨operator, kind, .items nodes, span, left, right⟩ :: ns, hns, b, b', hb, h => by
    obtain ⟨hn, hns⟩ := List.forall_mem_cons.mp hns
    have hnodes : ∀ n ∈ nodes, n.Named p := by cases hn with | mk _ hitems => exact hitems nodes rfl
    obtain ⟨entry, hentry, h⟩ := bind_eq_ok h
    obtain ⟨b₁, hb₁, h⟩ := bind_eq_ok h
    exact ofEntries_named ns hns (hb.add (ofPair_named nodes hnodes hentry) hb₁) h

end

end Formula

end Cellbook
