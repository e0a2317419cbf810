import Mathlib.Data.List.Induction
import Mathlib.Data.List.SplitBy
import Cellbook.Proofs.Formula.WellFormed
import Cellbook.Source.Grammar

/-!
# The parts of a block

A list of entries is a formula exactly if every alternative stands right behind an arm with a condition, and then
its parts are the only ones that a list of entries could have: put behind one another they are the list, each one
is a map of plain entries or a conditional that its first arm opens, and no two maps stand next to each other
(`ofNode_segmented`).

A `Segment` is a part together with the entries it is made of. Whether a segment takes a further entry depends on
its last entry alone (`Segment.joins_of_getLast?`), so the open part is told from the list so far, and one step of
the builder is one segment more or one that has grown (`Segmentation.add`), or the fault of an alternative that
nothing takes (`Segmentation.add_misplaced`). That there is no other way to cut the list is what the library knows
of `List.splitBy`: segments are the stretches in which each entry joins the one in front of it.
-/

namespace Cellbook

namespace ListEntry

def span : ListEntry → Span
  | .plain entry => entry.origin.span
  | .first _ span | .further _ span | .last _ span => span

def isPlain : ListEntry → Bool
  | .plain _ => true
  | _ => false

/-- Whether an entry is an arm with a condition: an `if` or an `else if`. -/
def hasCondition : ListEntry → Bool
  | .first _ _ | .further _ _ => true
  | .plain _ | .last _ _ => false

/-- Whether an entry is an arm that opens no conditional: an `else if` or an `else`. -/
def isAlternative : ListEntry → Bool
  | .further _ _ | .last _ _ => true
  | .plain _ | .first _ _ => false

theorem isPlain_of_isAlternative {e : ListEntry} (h : e.isAlternative) : e.isPlain = false := by
  cases e <;> first | rfl | cases h

/-- Whether the second entry belongs to the part of the first, right behind it. -/
def joins (d e : ListEntry) : Bool := d.isPlain && e.isPlain || d.hasCondition && e.isAlternative

/-- An entry may stand behind those: if it is an alternative, the last one of them is an arm with a
condition. -/
def Follows (front : List ListEntry) (e : ListEntry) : Prop :=
  e.isAlternative → ∃ d ∈ front.getLast?, d.hasCondition

/-- **Every alternative stands right behind an arm with a condition.** -/
def Placed (entries : List ListEntry) : Prop :=
  ∀ front e back, entries = front ++ e :: back → Follows front e

theorem placed_nil : Placed [] := fun _ _ _ h => absurd h.symm (by simp)

theorem placed_snoc {front : List ListEntry} {e : ListEntry} :
    Placed (front ++ [e]) ↔ Placed front ∧ Follows front e := by
  constructor
  · intro h
    exact ⟨fun before d back hd => h before d (back ++ [e]) (by simp [hd]), h front e [] rfl⟩
  · rintro ⟨hfront, he⟩ before d back h
    rcases List.eq_nil_or_concat back with rfl | ⟨back, x, rfl⟩
    · obtain ⟨rfl, hd⟩ := List.append_inj' h rfl
      obtain rfl : e = d := by simpa using hd
      exact he
    · rw [List.concat_eq_append, ← List.cons_append, ← List.append_assoc] at h
      exact hfront before d back (List.append_inj' h rfl).1

/-- Entries of which some alternative is misplaced have a first one that is. -/
theorem exists_first_misplaced {entries : List ListEntry} (h : ¬Placed entries) :
    ∃ front e back, entries = front ++ e :: back ∧ Placed front ∧ ¬Follows front e := by
  induction entries using List.reverseRecOn with
  | nil => exact absurd placed_nil h
  | append_singleton entries e ih =>
    by_cases hplaced : Placed entries
    · exact ⟨entries, e, [], rfl, hplaced, fun he => h (placed_snoc.mpr ⟨hplaced, he⟩)⟩
    · obtain ⟨front, d, back, rfl, hfront, hd⟩ := ih hplaced
      exact ⟨front, d, back ++ [e], by simp, hfront, hd⟩

end ListEntry

open ListEntry (Follows Placed)

/-- **A part and its entries**: plain ones, or the arms of a conditional. -/
inductive Segment where
  | map (first : Entry) (more : List Entry)
  | conditional (first : Clause × Span) (further : List (Clause × Span)) (last : Option (Clause × Span))

namespace Segment

/-- The arms of a conditional behind the first one. -/
def alternatives (further : List (Clause × Span)) (last : Option (Clause × Span)) : List ListEntry :=
  further.map (fun arm => .further arm.1 arm.2) ++ last.toList.map fun arm => .last arm.1 arm.2

/-- The entries of a segment, as they stand in the list. -/
def entries : Segment → List ListEntry
  | .map first more => (first :: more).map .plain
  | .conditional first further last => .first first.1 first.2 :: alternatives further last

def isMap : Segment → Bool
  | .map _ _ => true
  | .conditional _ _ _ => false

/-- Whether a segment is a conditional that takes further arms. -/
def isGrowing : Segment → Bool
  | .conditional _ _ none => true
  | _ => false

/-- The stretch from the first entry to the last. -/
def span : Segment → Span
  | .map first more => more.foldl (fun span entry => span.join entry.origin.span) first.origin.span
  | .conditional first further last => (further ++ last.toList).foldl (fun span arm => span.join arm.2) first.2

/-- The part that a segment is while it is open. -/
def toOpen : Segment → OpenPart
  | s@(.map first more) => .map (first :: more) s.span
  | s@(.conditional first further last) =>
    .conditional (first.1 :: (further ++ last.toList).map Prod.fst) s.span last.isSome

/-- The formula of a segment: a map of its entries, or the conditional of its arms. -/
def toFormula (cell : Nat) : Segment → Formula
  | s@(.map first more) => .map ⟨cell, s.span⟩ (first :: more)
  | s@(.conditional first further last) =>
    .conditional ⟨cell, s.span⟩ (first.1 :: (further ++ last.toList).map Prod.fst)

variable {s t : Segment} {d e : ListEntry}

@[simp] theorem close_toOpen (cell : Nat) (s : Segment) : s.toOpen.close cell = s.toFormula cell := by
  cases s <;> rfl

/-! ## What a segment takes -/

theorem entries_ne_nil (s : Segment) : s.entries ≠ [] := by cases s <;> simp [entries]

/-- A segment begins with a plain entry if it is a map, and never with an alternative. -/
theorem isPlain_of_head? (h : s.entries.head? = some e) :
    e.isPlain = s.isMap ∧ e.isAlternative = false := by
  cases s <;> (obtain rfl := Option.some.inj h; exact ⟨rfl, rfl⟩)

/-- **The last entry decides** which entries a segment takes. -/
theorem joins_of_getLast? (h : s.entries.getLast? = some d) (e : ListEntry) :
    d.joins e = (s.isMap && e.isPlain || s.isGrowing && e.isAlternative) := by
  suffices d.isPlain = s.isMap ∧ d.hasCondition = s.isGrowing by rw [ListEntry.joins, this.1, this.2]
  cases s with
  | map first more =>
    obtain ⟨entry, -, rfl⟩ := List.mem_map.mp (List.mem_of_getLast? h)
    exact ⟨rfl, rfl⟩
  | conditional first further last =>
    cases last with
    | none =>
      have hmem := List.mem_of_getLast? h
      simp only [entries, alternatives, Option.toList_none, List.map_nil, List.append_nil, List.mem_cons,
        List.mem_map] at hmem
      obtain rfl | ⟨arm, -, rfl⟩ := hmem <;> exact ⟨rfl, rfl⟩
    | some arm =>
      rw [entries, alternatives, Option.toList_some, List.map_singleton, ← List.cons_append, List.getLast?_concat] at h
      obtain rfl := Option.some.inj h
      exact ⟨rfl, rfl⟩

theorem exists_getLast? (s : Segment) : ∃ d, s.entries.getLast? = some d :=
  ⟨_, List.getLast?_eq_some_getLast s.entries_ne_nil⟩

/-- An entry that joins a segment makes it one entry longer, and leaves it of its kind. -/
theorem exists_add?_toOpen (hd : s.entries.getLast? = some d) (h : d.joins e) :
    ∃ t : Segment, s.toOpen.add? e = some t.toOpen ∧ t.entries = s.entries ++ [e] ∧ t.isMap = s.isMap := by
  rw [joins_of_getLast? hd] at h
  match s, e, h with
  | .map first more, .plain entry, _ =>
    exact ⟨.map first (more ++ [entry]), by simp [toOpen, span, OpenPart.add?], by simp [entries], rfl⟩
  | .conditional first further none, .further clause at', _ =>
    exact ⟨.conditional first (further ++ [(clause, at')]) none, by simp [toOpen, span, OpenPart.add?],
      by simp [entries, alternatives], rfl⟩
  | .conditional first further none, .last clause at', _ =>
    exact ⟨.conditional first further (some (clause, at')), by simp [toOpen, span, OpenPart.add?],
      by simp [entries, alternatives], rfl⟩

theorem add?_toOpen_eq_none (hd : s.entries.getLast? = some d) (h : ¬d.joins e) : s.toOpen.add? e = none := by
  rw [joins_of_getLast? hd] at h
  match s, e with
  | .map _ _, .plain _ => exact absurd rfl h
  | .map _ _, .first _ _ | .map _ _, .further _ _ | .map _ _, .last _ _ => rfl
  | .conditional _ _ none, .further _ _ | .conditional _ _ none, .last _ _ => exact absurd rfl h
  | .conditional _ _ none, .plain _ | .conditional _ _ none, .first _ _ => rfl
  | .conditional _ _ (some _), .plain _ | .conditional _ _ (some _), .first _ _
  | .conditional _ _ (some _), .further _ _ | .conditional _ _ (some _), .last _ _ => rfl

/-- An entry that is no alternative opens a segment. -/
theorem exists_start (h : e.isAlternative = false) :
    ∃ t : Segment, OpenPart.start e = .ok t.toOpen ∧ t.entries = [e] ∧ t.isMap = e.isPlain := by
  match e, h with
  | .plain entry, _ => exact ⟨.map entry [], rfl, rfl, rfl⟩
  | .first clause at', _ => exact ⟨.conditional (clause, at') [] none, rfl, rfl, rfl⟩

theorem start_of_isAlternative (h : e.isAlternative) :
    OpenPart.start e = .error ⟨.invalidExpression .elseWithoutIf none, e.span.start⟩ := by
  match e, h with
  | .further _ _, _ | .last _ _, _ => rfl

/-! ## What a segment is made of -/

theorem isChain_alternatives (h : d.hasCondition) (further : List (Clause × Span))
    (last : Option (Clause × Span)) : (d :: alternatives further last).IsChain fun d e => d.joins e := by
  induction further generalizing d with
  | nil =>
    cases last with
    | none => exact .singleton d
    | some arm => exact .cons_cons (by simp [ListEntry.joins, ListEntry.isAlternative, h]) (.singleton _)
  | cons arm further ih => exact .cons_cons (by simp [ListEntry.joins, ListEntry.isAlternative, h]) (ih rfl)

/-- Within a segment every entry joins the one in front of it. -/
theorem isChain_entries (s : Segment) : s.entries.IsChain fun d e => d.joins e := by
  cases s with
  | map first more => exact (List.isChain_map _).mpr (List.pairwise_of_forall fun _ _ => rfl).isChain
  | conditional first further last => exact isChain_alternatives rfl further last

theorem alternatives_inj {further further' : List (Clause × Span)} {last last' : Option (Clause × Span)}
    (h : alternatives further last = alternatives further' last') : further = further' ∧ last = last' := by
  unfold alternatives at h
  induction further generalizing further' with
  | nil => cases further' <;> cases last <;> cases last' <;> simp_all [Prod.ext_iff]
  | cons arm further ih =>
    cases further' with
    | nil => cases last' <;> simp at h
    | cons arm' further' =>
      simp only [List.map_cons, List.cons_append, List.cons.injEq, ListEntry.further.injEq, ← Prod.ext_iff] at h
      obtain ⟨hfurther, hlast⟩ := ih h.2
      exact ⟨by rw [h.1, hfurther], hlast⟩

/-- Different segments have different entries. -/
theorem entries_injective : Function.Injective entries := by
  intro s t h
  cases s with
  | map first more =>
    cases t with
    | map first' more' =>
      obtain ⟨rfl, rfl⟩ := List.cons.inj (List.map_injective_iff.mpr (fun _ _ => ListEntry.plain.inj) h)
      rfl
    | conditional => cases (List.cons.inj h).1
  | conditional first further last =>
    cases t with
    | map => cases (List.cons.inj h).1
    | conditional first' further' last' =>
      obtain ⟨hfirst, harms⟩ := List.cons.inj h
      obtain ⟨rfl, rfl⟩ := alternatives_inj harms
      rw [Prod.ext (ListEntry.first.inj hfirst).1 (ListEntry.first.inj hfirst).2]

end Segment

/-- **A list of entries cut into segments**: put behind one another they are the list, and no two maps stand
next to each other. -/
structure Segmentation (segments : List Segment) (entries : List ListEntry) : Prop where
  flatMap_entries : segments.flatMap Segment.entries = entries
  apart : segments.IsChain fun s t => !(s.isMap && t.isMap)

/-- The parts of a block after those segments, the last one of which is open. -/
def BlockParts.ofSegments (cell : Nat) (segments : List Segment) : BlockParts :=
  ⟨segments.dropLast.map (·.toFormula cell), segments.getLast?.map (·.toOpen)⟩

theorem BlockParts.parts_ofSegments (cell : Nat) (segments : List Segment) :
    (BlockParts.ofSegments cell segments).parts cell = segments.map (·.toFormula cell) := by
  rcases List.eq_nil_or_concat segments with rfl | ⟨init, s, rfl⟩
  · rfl
  · simp [BlockParts.ofSegments, BlockParts.parts]

namespace Segmentation

variable {segments init : List Segment} {s : Segment} {front entries : List ListEntry} {d e : ListEntry}

/-! ## One entry more -/

theorem nil : Segmentation [] [] := ⟨rfl, .nil⟩

theorem getLast? (h : Segmentation (init ++ [s]) entries) : entries.getLast? = s.entries.getLast? := by
  obtain ⟨d, hd⟩ := s.exists_getLast?
  rw [← h.flatMap_entries, List.flatMap_append, List.flatMap_singleton, List.getLast?_append, hd]
  rfl

/-- The last segment grown by an entry that joins it. -/
theorem grown {t : Segment} (h : Segmentation (init ++ [s]) front) (hentries : t.entries = s.entries ++ [e])
    (hmap : t.isMap = s.isMap) : Segmentation (init ++ [t]) (front ++ [e]) where
  flatMap_entries := by simp [← h.flatMap_entries, hentries]
  apart := by
    have h := List.isChain_append.mp h.apart
    refine List.isChain_append.mpr ⟨h.1, .singleton t, fun a ha b hb => ?_⟩
    obtain rfl : t = b := by simpa using hb
    rw [hmap]
    exact h.2.2 a ha s rfl

/-- A segment opened by an entry that does not join the last one. -/
theorem opened {t : Segment} (h : Segmentation segments front) (hd : ∀ d ∈ front.getLast?, ¬d.joins e)
    (hentries : t.entries = [e]) (hmap : t.isMap = e.isPlain) :
    Segmentation (segments ++ [t]) (front ++ [e]) where
  flatMap_entries := by simp [h.flatMap_entries, hentries]
  apart := by
    refine List.isChain_append.mpr ⟨h.apart, .singleton t, fun s hs b hb => ?_⟩
    obtain rfl : t = b := by simpa using hb
    obtain ⟨init, rfl⟩ := List.getLast?_eq_some_iff.mp hs
    obtain ⟨d, hlast⟩ := s.exists_getLast?
    have hjoins := hd d (h.getLast?.trans hlast)
    rw [Segment.joins_of_getLast? hlast, Bool.or_eq_true, not_or] at hjoins
    rw [hmap, Bool.not_eq_true']
    exact eq_false_of_ne_true hjoins.1

/-- An entry that does not join the last segment has to open one. -/
theorem add_eq_start (cell : Nat) (h : Segmentation segments front) (hd : ∀ d ∈ front.getLast?, ¬d.joins e) :
    (BlockParts.ofSegments cell segments).add cell e = (do
      return ⟨segments.map (·.toFormula cell), some (← OpenPart.start e)⟩) := by
  have hrefused : (BlockParts.ofSegments cell segments).current.bind (·.add? e) = none := by
    rcases List.eq_nil_or_concat segments with rfl | ⟨init, s, rfl⟩
    · rfl
    · rw [List.concat_eq_append] at h ⊢
      obtain ⟨d, hlast⟩ := s.exists_getLast?
      simp [BlockParts.ofSegments, Segment.add?_toOpen_eq_none hlast (hd d (h.getLast?.trans hlast))]
  rw [BlockParts.add, hrefused, BlockParts.parts_ofSegments]

/-- **An entry that may follow** makes one segment grow, or opens a further one. -/
theorem add (cell : Nat) (h : Segmentation segments front) (he : Follows front e) :
    ∃ segments', Segmentation segments' (front ++ [e]) ∧
      (BlockParts.ofSegments cell segments).add cell e = .ok (.ofSegments cell segments') := by
  -- an entry that joins the one in front of it is taken by the open part; any other one opens a part, and an
  -- alternative is never among these, as it follows only what it joins
  by_cases hjoins : ∃ d ∈ front.getLast?, d.joins e
  · obtain ⟨d, hd, hjoins⟩ := hjoins
    rcases List.eq_nil_or_concat segments with rfl | ⟨init, s, rfl⟩
    · obtain rfl := h.flatMap_entries
      cases hd
    rw [List.concat_eq_append] at h ⊢
    obtain ⟨t, hadd, hentries, hmap⟩ := Segment.exists_add?_toOpen (h.getLast?.symm.trans hd) hjoins
    refine ⟨init ++ [t], h.grown hentries hmap, ?_⟩
    simp [BlockParts.ofSegments, BlockParts.add, hadd]
  · have hopens : e.isAlternative = false := by
      by_contra halternative
      rw [Bool.not_eq_false] at halternative
      obtain ⟨d, hd, hcondition⟩ := he halternative
      exact hjoins ⟨d, hd, by simp [ListEntry.joins, hcondition, halternative]⟩
    have hapart : ∀ d ∈ front.getLast?, ¬d.joins e := fun d hd hd' => hjoins ⟨d, hd, hd'⟩
    obtain ⟨t, hstart, hentries, hmap⟩ := Segment.exists_start hopens
    refine ⟨segments ++ [t], h.opened hapart hentries hmap, ?_⟩
    rw [h.add_eq_start cell hapart, hstart]
    simp [BlockParts.ofSegments]

/-- **An alternative that may not follow** is a fault, at its beginning. -/
theorem add_misplaced (cell : Nat) (h : Segmentation segments front) (he : ¬Follows front e) :
    (BlockParts.ofSegments cell segments).add cell e =
      .error ⟨.invalidExpression .elseWithoutIf none, e.span.start⟩ := by
  obtain ⟨halternative, hfront⟩ := Classical.not_imp.mp he
  have hplain : e.isPlain = false := ListEntry.isPlain_of_isAlternative halternative
  have hapart : ∀ d ∈ front.getLast?, ¬d.joins e := by
    intro d hd hjoins
    rw [ListEntry.joins, hplain, Bool.and_false, Bool.false_or, Bool.and_eq_true] at hjoins
    exact hfront ⟨d, hd, hjoins.1⟩
  rw [h.add_eq_start cell hapart, Segment.start_of_isAlternative halternative]
  rfl

/-! ## The only segments -/

/-- The segments of a list are the stretches in which each entry joins the one in front of it. -/
theorem splitBy_eq (h : Segmentation segments entries) :
    entries.splitBy ListEntry.joins = segments.map Segment.entries := by
  refine List.splitBy_eq_iff.mpr ⟨?_, fun hnil => ?_, fun m hm => ?_, ?_⟩
  · rw [← h.flatMap_entries, List.flatMap_def]
  · obtain ⟨s, -, hs⟩ := List.mem_map.mp hnil
    exact s.entries_ne_nil hs
  · obtain ⟨s, -, rfl⟩ := List.mem_map.mp hm
    exact s.isChain_entries
  · refine (List.isChain_map _).mpr (h.apart.imp fun s t hapart => ⟨s.entries_ne_nil, t.entries_ne_nil, ?_⟩)
    obtain ⟨hplain, halternative⟩ := Segment.isPlain_of_head? (List.head?_eq_some_head t.entries_ne_nil)
    rw [Segment.joins_of_getLast? (List.getLast?_eq_some_getLast s.entries_ne_nil), hplain, halternative]
    rwa [Bool.and_false, Bool.or_false, ← Bool.not_eq_true']

/-- **A list is cut into segments in one way only.** -/
theorem unique {segments' : List Segment} (h : Segmentation segments entries)
    (h' : Segmentation segments' entries) : segments = segments' :=
  List.map_injective_iff.mpr Segment.entries_injective (h.splitBy_eq.symm.trans h'.splitBy_eq)

end Segmentation

/-! ## All entries -/

namespace BlockParts

variable (cell : Nat) {entries : List ListEntry}

/-- Entries of which every alternative is placed fall into segments. -/
theorem foldlM_add_of_placed (h : Placed entries) :
    ∃ segments, Segmentation segments entries ∧
      entries.foldlM (BlockParts.add cell) .empty = .ok (.ofSegments cell segments) := by
  induction entries using List.reverseRecOn with
  | nil => exact ⟨[], .nil, rfl⟩
  | append_singleton front e ih =>
    obtain ⟨hfront, he⟩ := ListEntry.placed_snoc.mp h
    obtain ⟨segments, hsegments, hrun⟩ := ih hfront
    obtain ⟨segments', hsegments', hadd⟩ := hsegments.add cell he
    refine ⟨segments', hsegments', ?_⟩
    rw [List.foldlM_append, hrun]
    exact (bind_pure _).trans hadd

/-- The first alternative that is misplaced is the fault that is found. -/
theorem foldlM_add_of_misplaced {front back : List ListEntry} {e : ListEntry} (hfront : Placed front)
    (he : ¬Follows front e) :
    (front ++ e :: back).foldlM (BlockParts.add cell) .empty =
      .error ⟨.invalidExpression .elseWithoutIf none, e.span.start⟩ := by
  obtain ⟨segments, hsegments, hrun⟩ := foldlM_add_of_placed cell hfront
  rw [List.foldlM_append, hrun]
  show ((BlockParts.ofSegments cell segments).add cell e >>= _) = _
  rw [hsegments.add_misplaced cell he]
  rfl

end BlockParts

/-- The formula of a list of entries in that span which falls into those segments: the empty map if there are
none, a single one as it is, and several as the parts of a block. -/
def Segment.listFormula (cell : Nat) (span : Span) : List Segment → Formula
  | [] => .map ⟨cell, span⟩ []
  | [s] => s.toFormula cell
  | segments => .block ⟨cell, span⟩ (segments.map (·.toFormula cell))

theorem BlockParts.toFormula_ofSegments (cell : Nat) (span : Span) (segments : List Segment) :
    (BlockParts.ofSegments cell segments).toFormula cell span = Segment.listFormula cell span segments := by
  rw [BlockParts.toFormula, BlockParts.parts_ofSegments]
  match segments with
  | [] | [_] | _ :: _ :: _ => rfl

namespace Formula

/-- Nodes that are entries are added one after the other. -/
theorem ofEntries_eq_foldlM {cell : Nat} {nodes : List Node} {entries : List ListEntry}
    (h : nodes.mapM (fun item => ofPair cell item item.items) = .ok entries) (b : BlockParts) :
    ofEntries cell b nodes = entries.foldlM (BlockParts.add cell) b := by
  induction nodes generalizing entries b with
  | nil =>
    cases h
    rw [ofEntries]
    rfl
  | cons n ns ih =>
    rw [List.mapM_cons] at h
    obtain ⟨entry, hentry, h⟩ := bind_eq_ok h
    obtain ⟨entries, hentries, h⟩ := bind_eq_ok h
    cases h
    rw [ofEntries_cons, hentry, List.foldlM_cons]
    show (b.add cell entry >>= fun b => ofEntries cell b ns) = _
    simp only [ih hentries]

/-- **What a list of entries is as a formula.** -/
structure Segmented (cell : Nat) (n : Node) (entries : List ListEntry) : Prop where
  /-- It is one exactly if every alternative stands right behind an arm with a condition. -/
  isFormula_iff : (∃ f, ofNode cell n = .ok f) ↔ Placed entries
  /-- If it is not, the fault is the first alternative that does not, at its beginning. -/
  misplaced : ¬Placed entries → ∃ fault, ofNode cell n = .error fault ∧ fault.code = "INVALID_EXPRESSION" ∧
    ∃ front e back, entries = front ++ e :: back ∧ Placed front ∧ ¬Follows front e ∧ fault.index = e.span.start
  /-- If it is, its parts are the only segments of the list. -/
  parts : ∀ f, ofNode cell n = .ok f → ∃ segments, Segmentation segments entries ∧
    (∀ others, Segmentation others entries → others = segments) ∧ f = Segment.listFormula cell n.span segments

/-- **Segments.** A list of nodes all of which are entries is a formula exactly if every alternative stands right
behind an arm with a condition, and then its parts are the segments of the list. -/
theorem ofNode_segmented {cell : Nat} {n : Node} {entries : List ListEntry} (hkind : n.kind = .entries)
    (hentries : n.items.mapM (fun item => ofPair cell item item.items) = .ok entries) :
    Segmented cell n entries := by
  have hrun : ofNode cell n = (do
      return (← entries.foldlM (BlockParts.add cell) .empty).toFormula cell n.span) := by
    rw [ofNode_entries hkind, ofEntries_eq_foldlM hentries]
  by_cases hplaced : Placed entries
  · obtain ⟨segments, hsegments, hfold⟩ := BlockParts.foldlM_add_of_placed cell hplaced
    have hformula : ofNode cell n = .ok (Segment.listFormula cell n.span segments) := by
      rw [hrun, hfold, ← BlockParts.toFormula_ofSegments]
      rfl
    refine ⟨⟨fun _ => hplaced, fun _ => ⟨_, hformula⟩⟩, fun h => absurd hplaced h, fun f hf => ?_⟩
    obtain rfl := Except.ok.inj (hformula.symm.trans hf)
    exact ⟨segments, hsegments, fun others hothers => hothers.unique hsegments, rfl⟩
  · obtain ⟨front, e, back, rfl, hfront, he⟩ := ListEntry.exists_first_misplaced hplaced
    have hfault : ofNode cell n = .error ⟨.invalidExpression .elseWithoutIf none, e.span.start⟩ := by
      rw [hrun, BlockParts.foldlM_add_of_misplaced cell hfront he]
      rfl
    have hnone : ¬∃ f, ofNode cell n = .ok f := by
      rintro ⟨f, hf⟩
      cases hfault.symm.trans hf
    exact ⟨⟨fun h => absurd h hnone, fun h => absurd h hplaced⟩,
      fun _ => ⟨_, hfault, rfl, front, e, back, rfl, hfront, he, rfl⟩, fun f hf => absurd ⟨f, hf⟩ hnone⟩

/-- Two maps with a conditional of three arms between them. -/
theorem ofNode_segmented_of_conditional_between_maps :
    let span : Span := ⟨0, 0⟩
    let name (s : String) : Node := .leaf Grammar.identifierName .identifier span (.name s)
    let entry (key : Node) (s : String) : Node := .leaf ":" .entry span (.items [key, name s])
    let tree : Node := .leaf "," .entries span (.items
      [entry (name "a") "v", entry ((Node.leaf "if" .ifHeader span).withLeft (name "x")) "w",
        entry ((Node.leaf "else if" .elseIfHeader span).withLeft (name "y")) "w",
        entry (.leaf "else" .elseHeader span) "w", entry (name "b") "v"])
    ∃ entries, tree.kind = .entries ∧
      tree.items.mapM (fun item => ofPair 0 item item.items) = .ok entries ∧
      Segmented 0 tree entries ∧ Placed entries := by
  intro span name entry tree
  have h : Segmented 0 tree _ := ofNode_segmented rfl rfl
  exact ⟨_, rfl, rfl, h, h.isFormula_iff.mp ⟨_, rfl⟩⟩

end Formula

end Cellbook
