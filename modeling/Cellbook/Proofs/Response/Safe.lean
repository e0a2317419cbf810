import Cellbook.Proofs.Emission.Shapes
import Cellbook.Proofs.Notebook.Exact
import Cellbook.Proofs.Response.Complete

/-!
# Evaluation is safe

Whatever the request, its program never makes the machine read a variable, a parameter or a cell that is not
there, run the body of a function with the wrong number of arguments, or call a built-in function with
arguments that it refuses (`Request.safe`). This goes for functions too that one cell makes and another one
calls. What is reported of a cell is therefore never an internal error; it tells of a number of arguments
only where a function was called with another number than it has parameters, and of the kind of an argument
only where a bound of a range is no number or an index is no integer.

The machine keeps what the cells that have run came to, and all functions in it are sound. So each cell
runs in a frame that has what its code reads, and adds another value of which this holds.
-/

namespace Cellbook

open Run

/-- **A report that is in order**: of a fault in source text, or of a fault of evaluation that is. -/
inductive Diagnostic.Regular : Diagnostic → Prop
  | source (fault : SourceFault) : Regular fault.report
  | evaluation {fault : EvalFault} : fault.Regular Closure → Regular fault.report

/-- **A result that is in order**: a value whose functions are sound, or a report that is. -/
abbrev ResultRegular (result : Except Diagnostic (Value Closure)) : Prop :=
  EndsIn Diagnostic.Regular (Value.Fits Closure.Sound) result

/-- **A task that is in order** when these cells have run: its code is shaped, and reads none but them. -/
inductive CellTask.Sound (ran : List Nat) : CellTask Closure → Prop
  | report {d : Diagnostic} : d.Regular → Sound ran (.report d)
  | skip : Sound ran .skip
  | run {cells : Nat → Prop} {vars : Shapes} {body : Statements Closure} {result : Code Closure}
      {reads : List Nat} : Code.ShapedBody cells [] [] body vars → result.Shaped cells [] vars .any →
    (∀ id, cells id → id ∈ reads) → (∀ id ∈ reads, id ∈ ran) → Sound ran (.run body result reads)

/-! ## Runs -/

/-- **A machine on which these cells have run**, and whose functions all have the property `B`. -/
structure Machine.Keeps (B : Nat → Closure → Prop) (ran : List Nat) (m : Machine) : Prop where
  slots : ∀ id ∈ ran, id ∈ m.slots.map (·.1)
  fits : ∀ p ∈ m.slots, ∀ v, p.2.outcome = .ok v → v.Fits B

namespace Machine

variable {B : Nat → Closure → Prop} {ran : List Nat} {m : Machine}

theorem Keeps.start : start.Keeps B [] := ⟨fun _ h => h, fun _ h => (List.not_mem_nil h).elim⟩

/-- A cell that reads nothing but what has run finds all of it. -/
theorem Keeps.mem_visible (h : m.Keeps B ran) {reads : List Nat} (hreads : ∀ id ∈ reads, id ∈ ran) :
    ∀ id ∈ reads, id ∈ (m.visible reads).map (·.1) := by
  intro id hid
  obtain ⟨slot, hslot, -⟩ := exists_lookup_of_mem (h.slots id (hreads id hid))
  refine List.mem_map.mpr ⟨(id, slot), List.mem_filterMap.mpr ⟨id, hid, ?_⟩, rfl⟩
  rw [hslot]
  rfl

theorem Keeps.fits_visible (h : m.Keeps B ran) (reads : List Nat) :
    ∀ p ∈ m.visible reads, ∀ v, p.2.outcome = .ok v → v.Fits B := by
  intro p hp v hv
  obtain ⟨id, -, hp⟩ := List.mem_filterMap.mp hp
  obtain ⟨slot, hslot, rfl⟩ := Option.map_eq_some_iff.mp hp
  obtain ⟨before, after, hslots, -⟩ := List.lookup_eq_some_iff.mp hslot
  exact h.fits (id, slot) (by simp [hslots]) v hv

theorem Keeps.finish (h : m.Keeps B ran) (c : CellCode Closure)
    {result : Except Diagnostic (Value Closure)} (hresult : ∀ v, result = .ok v → v.Fits B)
    (next : Identity) : (m.finish c result next).Keeps B (ran ++ [c.id]) := by
  refine ⟨fun id hid => ?_, fun p hp v hv => ?_⟩
  · rcases List.mem_append.mp hid with hid | hid
    · exact List.mem_cons_of_mem _ (h.slots id hid)
    · obtain rfl := List.mem_singleton.mp hid
      exact List.mem_cons_self
  · rcases List.mem_cons.mp hp with rfl | hp
    · exact hresult v hv
    · exact h.fits p hp v hv

variable (trip : Alarm → Halt) (depth : Nat) (settings : Settings)

/-- **A cell whose task is in order** runs without tripping the watched machine, and its result is. -/
theorem Keeps.runCell (h : m.Keeps Closure.Sound ran) {c : CellCode Closure} (hc : c.task.Sound ran) :
    Watched.runCell trip depth settings m c = m.runCell depth settings c ∧
      ∀ result next, m.runCell depth settings c = some (result, next) → ResultRegular result := by
  have hrun : ∀ body code reads, c.task = .run body code reads →
      Safe (EvalFault.Regular Closure) True (Value.Fits Closure.Sound)
        (Watched.run trip (Watched.invoke trip depth) (m.frame reads settings) body code)
        ((m.frame reads settings).run (Closure.invoke depth) body code) := by
    intro body code reads htask
    rw [htask] at hc
    cases hc with
    | @run cells _ _ _ _ hbody hcode hcells hreads =>
      refine Frame.run_safe trip (Closure.invoke_safe trip depth) ?_ hbody hcode (Nat.le_refl _)
      have hvisible (id : Nat) (hid : cells id) := h.mem_visible hreads id (hcells id hid)
      exact Frame.offers_sound (List.forall_mem_nil _) (List.forall_mem_nil _) hvisible
        (h.fits_visible reads) _
  refine ⟨Watched.runCell_eq fun body code reads htask => (hrun body code reads htask _).1,
    fun result next hresult => ?_⟩
  unfold Machine.runCell at hresult
  cases htask : c.task with
  | report d =>
    rw [htask] at hc hresult
    cases hresult
    cases hc with
    | report hd => exact .error hd
  | skip =>
    rw [htask] at hresult
    cases hresult
    exact .ok .none
  | run body code reads =>
    have hends := (hrun body code reads htask (m.nextIdentity c.id)).2
    simp only [htask, StateT.run] at hresult hends
    generalize Frame.run _ _ _ _ _ = e at hends hresult
    cases hends with
    | ok hv =>
      cases hresult
      exact .ok hv
    | @error halt hfault =>
      cases halt with
      | fault f =>
        cases hresult
        exact .error (.evaluation hfault)
      | tooDeep => cases hresult

/-- **A program whose tasks are all in order** runs without tripping the watched machine, and so are its
results. -/
theorem Keeps.runFrom {p : Program Closure} (h : m.Keeps Closure.Sound ran)
    (hp : ∀ front c back, p = front ++ c :: back → c.task.Sound (ran ++ front.map (·.id))) :
    Watched.runFrom trip depth settings m p = m.runFrom depth settings p ∧
      ∀ outcomes, m.runFrom depth settings p = some outcomes → ∀ o ∈ outcomes, ResultRegular o.result := by
  induction p generalizing m ran with
  | nil =>
    refine ⟨rfl, fun outcomes houtcomes => ?_⟩
    cases houtcomes
    exact List.forall_mem_nil _
  | cons c p ih =>
    have hc : c.task.Sound ran := by simpa using hp [] c p rfl
    obtain ⟨hsame, hregular⟩ := h.runCell trip depth settings hc
    have hrest : ∀ front d back, p = front ++ d :: back →
        d.task.Sound ((ran ++ [c.id]) ++ front.map (·.id)) := fun front d back hsplit => by
      simpa using hp (c :: front) d back (congrArg (c :: ·) hsplit)
    rw [Watched.runFrom, Machine.runFrom, hsame]
    cases hcell : m.runCell depth settings c with
    | none =>
      refine ⟨rfl, fun outcomes houtcomes => ?_⟩
      cases houtcomes
    | some e =>
      obtain ⟨result, next⟩ := e
      have hresult := hregular result next hcell
      have hvalue (v : Value Closure) (hv : result = .ok v) : v.Fits Closure.Sound := by
        rw [hv] at hresult
        cases hresult with
        | ok hv => exact hv
      obtain ⟨hsame, houtcomes⟩ := ih (h.finish c hvalue next) hrest
      refine ⟨congrArg (Option.map _) hsame, fun outcomes hrun => ?_⟩
      obtain ⟨rest, hrest, rfl⟩ := Option.map_eq_some_iff.mp hrun
      exact List.forall_mem_cons.mpr ⟨hresult, houtcomes rest hrest⟩

end Machine

/-! ## Codes -/

/-- The causes that are plain are those with a code of their own. -/
theorem EvalCause.isPlain_iff {cause : EvalCause} :
    cause.isPlain ↔ cause.code ∉ ["INTERNAL", "ARG_COUNT", "ARG_TYPE"] := by
  cases cause with
  | arithmetic fault => cases fault <;> simp [isPlain, code]
  | _ => simp [isPlain, code]

theorem SourceCause.code_not_mem (cause : SourceCause) :
    cause.code ∉ ["INTERNAL", "ARG_COUNT", "ARG_TYPE"] := by
  cases cause <;> simp [code]

/-- **What a report may tell.** -/
structure Diagnostic.InOrder (d : Diagnostic) : Prop where
  internal : d.code ≠ "INTERNAL"
  /-- A wrong number of arguments is that of the call of a function. -/
  argumentCount : d.code = "ARG_COUNT" → ∃ (f : Function Closure) (count : Nat), count ≠ f.arity ∧
    d = EvalFault.report ⟨.argumentCount f.toText f.arity count, []⟩
  /-- A wrong kind is that of a bound of a range, or of an index. -/
  argumentKind : d.code = "ARG_TYPE" →
    (∃ v : Value Closure, v.kind ≠ .number ∧ d = (Builtin.generate.refuse "number" v).report) ∨
      ∃ x : Decimal, x.toInt64? = none ∧
        d = EvalFault.report ⟨.argumentKind Builtin.get.name "integer" .number, []⟩

theorem Diagnostic.inOrder_of_code {d : Diagnostic}
    (h : d.code ∉ ["INTERNAL", "ARG_COUNT", "ARG_TYPE"]) : d.InOrder := by
  simp only [List.mem_cons, List.not_mem_nil, or_false, not_or] at h
  exact ⟨h.1, fun hcode => absurd hcode h.2.1, fun hcode => absurd hcode h.2.2⟩

theorem Diagnostic.Regular.inOrder {d : Diagnostic} (h : d.Regular) : d.InOrder := by
  have hcodes : "ARG_COUNT" ≠ "INTERNAL" ∧ "ARG_COUNT" ≠ "ARG_TYPE" ∧ "ARG_TYPE" ≠ "INTERNAL" ∧
      "ARG_TYPE" ≠ "ARG_COUNT" := by decide
  obtain ⟨hcountInternal, hcountKind, hkindInternal, hkindCount⟩ := hcodes
  cases h with
  | source fault => exact inOrder_of_code fault.cause.code_not_mem
  | evaluation h =>
    cases h with
    | call f hcount => exact ⟨hcountInternal, fun _ => ⟨f, _, hcount, rfl⟩, fun h => absurd h hcountKind⟩
    | bound hv => exact ⟨hkindInternal, fun h => absurd h hkindCount, fun _ => .inl ⟨_, hv, rfl⟩⟩
    | index hx => exact ⟨hkindInternal, fun h => absurd h hkindCount, fun _ => .inr ⟨_, hx, rfl⟩⟩
    | plain h => exact inOrder_of_code (EvalCause.isPlain_iff.mp h)

/-! ## Programs of notebooks -/

namespace Notebook

variable {g : Grammar} {sources : List CellSource}

theorem cycleFault_regular {id : Nat} {fault : EvalFault}
    (h : (build g sources).cycleFault? id = some fault) : fault.Regular Closure := by
  refine .plain (EvalCause.isPlain_iff.mpr ?_)
  rcases code_of_cycleFault? h with hcode | hcode <;>
    · rw [show fault.cause.code = _ from hcode]
      decide

/-- **The program of a notebook is in order.** -/
theorem program_sound {front back : Program Closure} {p : CellCode Closure}
    (h : (build g sources).program = front ++ p :: back) : p.task.Sound (front.map (·.id)) := by
  rcases program_cell h with ⟨fault, hfault, hp⟩ | ⟨c, n, hc, hvalued, rfl, hplaced⟩
  · rw [hp]
    exact .report (.evaluation (cycleFault_regular hfault))
  by_cases hfault : ∃ fault, c.content = .faulty fault
  · obtain ⟨fault, hfault⟩ := hfault
    rw [emitCell_of_faulty _ hfault]
    exact .report (.source fault)
  have hmem := mem_cells_of_cell? hc
  have hemits : Emits (φ := Closure) (· ∈ c.dependsOn) [] .any []
      (c.emitValue .tree ((build g sources).fields c)) :=
    Cell.emitValue_shaped (fun _ => mem_dependsOn_of_reference hmem)
      (fun _ => mem_dependsOn_of_field hmem hvalued)
  have hreads (id : Nat) : id ∈ ((build g sources).cellCode c n).task.reads ↔ id ∈ c.dependsOn :=
    mem_reads_iff hmem hvalued (not_exists.mp hfault) n
  rw [cellCode, emitCell_of_value _ (not_exists.mp hfault)] at hreads
  rw [emitCell_of_value _ (not_exists.mp hfault)]
  have hnone : Shapes.Below [] n := fun _ hp => (List.not_mem_nil hp).elim
  obtain ⟨vars, hvalue⟩ := hemits (List.nil_subset []) hnone
  exact .run hvalue.body hvalue.given (fun id hid => (hreads id).mpr hid)
    fun id hid => hplaced id ((hreads id).mp hid)

end Notebook

/-! ## Requests -/

namespace Request

/-- What is reported of some cell if a request is evaluated. -/
def Reports (r : Request) (depth : Nat) (settings : Settings) (d : Diagnostic) : Prop :=
  ∃ outcomes, r.program.run depth settings = some outcomes ∧ ∃ o ∈ outcomes, o.result = .error d

/-- **A request that is evaluated safely.** -/
structure Safe (r : Request) (depth : Nat) (settings : Settings) : Prop where
  /-- Whatever the watched machine is told to do, it does what the machine does. Told to be too deep, it would
  have no outcome where the machine has one, had the machine come to one of its places. -/
  unwatched : ∀ trip, r.program.watchedRun trip depth settings = r.program.run depth settings
  reports : ∀ d, r.Reports depth settings d → d.InOrder

/-- **Every request is evaluated safely.** -/
theorem safe (r : Request) (depth : Nat) (settings : Settings) : r.Safe depth settings := by
  have hrun := fun trip => Machine.Keeps.start.runFrom trip depth settings (p := r.program)
    fun front c back hp => Notebook.program_sound hp
  refine ⟨fun trip => (hrun trip).1, fun d hd => ?_⟩
  obtain ⟨outcomes, houtcomes, o, ho, hresult⟩ := hd
  have hregular := (hrun Alarm.halt).2 outcomes houtcomes o ho
  rw [hresult] at hregular
  cases hregular with
  | error hd => exact hd.inOrder

/-- A call with too many arguments, a range up to a text, an index that is no integer, and a cell that reads
one that failed. -/
def faulty : Request :=
  ⟨[{ id := 1, name := some "half", input := "x / 2", params := ["x"] },
    { id := 2, name := some "broken", input := "half(1, 2)" },
    { id := 3, input := "[1..\"a\"]" },
    { id := 4, input := "[1, 2][half(1)]" },
    { id := 5, input := "half(broken)" },
    { id := 6, input := "half(3)" }]⟩

example : (faulty.evaluate 2 {}).map (fun a => a.results.map fun o =>
    match o.result with
    | .ok _ => none
    | .error d => some d.code) =
    some [none, some "ARG_COUNT", some "ARG_TYPE", some "ARG_TYPE", some "UNRESOLVED_REFERENCE", none] := by
  decide +kernel

end Request

end Cellbook
