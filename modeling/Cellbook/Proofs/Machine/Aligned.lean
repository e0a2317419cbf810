import Cellbook.Emission.Tree
import Cellbook.Proofs.Emission.Parametric
import Cellbook.Proofs.Machine.Depth

/-!
# Code that differs in the numbers of its variables

Variables are numbered on through a whole program, so the code of a cell has other numbers if cells before
it change. That makes no difference to what it does. Runs of such code refine each other
(`Frame.run_aligned`), up to the code inside the functions that they make: the results are values that
differ in closures only, and of these related ones are `Closure.Aligned`.

**Closures.** What a closure has captured does not matter. The code of a function sets every variable that
it reads, so related bodies run alike from whatever variables there are.
-/

namespace Cellbook

open Run

namespace Code

variable {φ : Type}

mutual

/-- **Code that is the same but for the numbers of its variables**, where the variables in `env` stand for
each other, and that reads only cells with a property. -/
inductive Aligned (cells : Nat → Prop) : Pairs → Code φ → Code φ → Prop
  | var {env : Pairs} {x y : Nat} : (x, y) ∈ env → Aligned cells env (.var x) (.var y)
  | param {env : Pairs} (name : String) : Aligned cells env (.param name) (.param name)
  | cell {env : Pairs} {id : Nat} : cells id → Aligned cells env (.cell id) (.cell id)
  | literal {env : Pairs} (v : Scalar) : Aligned cells env (.literal v.toValue) (.literal v.toValue)
  | array {env : Pairs} {cs ds : List (Code φ)} : AlignedAll cells env cs ds →
    Aligned cells env (.array cs) (.array ds)
  | call {env : Pairs} (b : Builtin) {cs ds : List (Code φ)} : AlignedAll cells env cs ds →
    Aligned cells env (.call b cs) (.call b ds)
  | member {env : Pairs} {c d : Code φ} (attr : String) : Aligned cells env c d →
    Aligned cells env (.member c attr) (.member d attr)
  | lambda {env env' : Pairs} (params : List String) {body body' : Statements φ} {c d : Code φ}
      {captures captures' : List Nat} : AlignedBody cells [] body body' env' →
    Aligned cells env' c d →
    Aligned cells env (.lambda params body c captures) (.lambda params body' d captures')

inductive AlignedAll (cells : Nat → Prop) : Pairs → List (Code φ) → List (Code φ) → Prop
  | nil {env : Pairs} : AlignedAll cells env [] []
  | cons {env : Pairs} {c d : Code φ} {cs ds : List (Code φ)} : Aligned cells env c d →
    AlignedAll cells env cs ds → AlignedAll cells env (c :: cs) (d :: ds)

inductive AlignedBody (cells : Nat → Prop) : Pairs → Statements φ → Statements φ → Pairs → Prop
  | nil {env : Pairs} : AlignedBody cells env [] [] env
  | cons {env env' : Pairs} {x y : Nat} {c d : Code φ} {body body' : Statements φ} :
    Aligned cells env c d → (∀ p ∈ env, p.1 ≠ x ∧ p.2 ≠ y) →
    AlignedBody cells ((x, y) :: env) body body' env' →
    AlignedBody cells env ((x, c) :: body) ((y, d) :: body') env'

end

end Code

/-- Slots of the same label with related outcomes. -/
inductive Slot.Related {φ ψ : Type} (R : φ → ψ → Prop) : Slot φ → Slot ψ → Prop
  | mk (label : String) {x : Except Diagnostic (Value φ)} {y : Except Diagnostic (Value ψ)} :
    Agree (Value.Related R) x y → Related R ⟨label, x⟩ ⟨label, y⟩

/-- **Closures that do the same**: their code differs in numbers of variables only, and the parameters and
cells around it are related. -/
inductive Closure.Aligned : Closure → Closure → Prop
  | mk {identity : Identity} {params : List String} {settings : Settings} {cells : Nat → Prop}
      {env : Pairs} {body body' : Statements Closure} {result result' : Code Closure}
      {vars vars' : List (Nat × Value Closure)} {bound bound' : List (String × Value Closure)}
      {slots slots' : List (Nat × Slot Closure)} :
    Code.AlignedBody cells [] body body' env → Code.Aligned cells env result result' →
    bound.map (·.1) = bound'.map (·.1) →
    Value.ItemsRelated Aligned (bound.map (·.2)) (bound'.map (·.2)) →
    slots.map (·.1) = slots'.map (·.1) →
    List.Forall₂ (Slot.Related Aligned) (slots.map (·.2)) (slots'.map (·.2)) →
    Aligned (.mk identity params body result vars bound slots settings)
      (.mk identity params body' result' vars' bound' slots' settings)

/-! ## The target of trees -/

namespace Code

variable {φ : Type} {cells : Nat → Prop}

mutual

theorem Aligned.mono {env env' : Pairs} (henv : env ⊆ env') : {c d : Code φ} →
    Aligned cells env c d → Aligned cells env' c d
  | _, _, .var h => .var (henv h)
  | _, _, .param name => .param name
  | _, _, .cell h => .cell h
  | _, _, .literal v => .literal v
  | _, _, .array h => .array (h.mono henv)
  | _, _, .call b h => .call b (h.mono henv)
  | _, _, .member attr h => .member attr (h.mono henv)
  | _, _, .lambda params hbody h => .lambda params hbody h

theorem AlignedAll.mono {env env' : Pairs} (henv : env ⊆ env') : {cs ds : List (Code φ)} →
    AlignedAll cells env cs ds → AlignedAll cells env' cs ds
  | _, _, .nil => .nil
  | _, _, .cons h hs => .cons (h.mono henv) (hs.mono henv)

end

theorem alignedAll_of_forall₂ {env : Pairs} {cs ds : List (Code φ)}
    (h : List.Forall₂ (Aligned cells env) cs ds) : AlignedAll cells env cs ds := by
  induction h with
  | nil => exact .nil
  | cons hc _ ih => exact .cons hc ih

theorem alignedBody_of_related {env env' : Pairs} {body body' : Statements φ}
    (h : BodyRelated (Aligned cells) env body body' env') : AlignedBody cells env body body' env' := by
  induction h with
  | nil => exact .nil
  | cons hc hnew _ ih => exact .cons hc hnew ih

/-- **Emitting trees keeps alignment.** -/
theorem tree_related : Target.Related cells (Aligned (φ := φ) cells) .tree .tree where
  mono henv h := h.mono henv
  var h := .var h
  param name := .param name
  cell h := .cell h
  literal v := .literal v
  array h := .array (alignedAll_of_forall₂ h)
  call b _ _ h := .call b (alignedAll_of_forall₂ h)
  member attr h := .member attr h
  lambda params _ _ _ _ hbody h := .lambda params (alignedBody_of_related hbody) h

mutual

/-- Aligned code reads the same cells. -/
theorem Aligned.cells_eq {env : Pairs} : {c d : Code φ} → Aligned cells env c d → c.cells = d.cells
  | _, _, .var _ => rfl
  | _, _, .param _ => rfl
  | _, _, .cell _ => rfl
  | _, _, .literal _ => rfl
  | _, _, .array h => h.cellsAll_eq
  | _, _, .call _ h => h.cellsAll_eq
  | _, _, .member _ h => h.cells_eq
  | _, _, .lambda _ hbody h => by
    simp only [Code.cells, hbody.cellsBody_eq, h.cells_eq]

theorem AlignedAll.cellsAll_eq {env : Pairs} : {cs ds : List (Code φ)} →
    AlignedAll cells env cs ds → cellsAll cs = cellsAll ds
  | _, _, .nil => rfl
  | _, _, .cons h hs => by simp only [cellsAll, h.cells_eq, hs.cellsAll_eq]

theorem AlignedBody.cellsBody_eq {env env' : Pairs} : {body body' : Statements φ} →
    AlignedBody cells env body body' env' → cellsBody body = cellsBody body'
  | _, _, .nil => rfl
  | _, _, .cons h _ hs => by simp only [cellsBody, h.cells_eq, hs.cellsBody_eq]

end

mutual

/-- Aligned code reads no cell without the property. -/
theorem Aligned.cells_of_mem {env : Pairs} {id : Nat} : {c d : Code φ} → Aligned cells env c d →
    id ∈ c.cells → cells id
  | _, _, .var _, h => (List.not_mem_nil h).elim
  | _, _, .param _, h => (List.not_mem_nil h).elim
  | _, _, .cell hid, h => List.mem_singleton.mp h ▸ hid
  | _, _, .literal _, h => (List.not_mem_nil h).elim
  | _, _, .array hs, h => hs.cells_of_mem h
  | _, _, .call _ hs, h => hs.cells_of_mem h
  | _, _, .member _ hc, h => hc.cells_of_mem h
  | _, _, .lambda _ hbody hc, h => (List.mem_append.mp h).elim hbody.cells_of_mem hc.cells_of_mem

theorem AlignedAll.cells_of_mem {env : Pairs} {id : Nat} : {cs ds : List (Code φ)} →
    AlignedAll cells env cs ds → id ∈ cellsAll cs → cells id
  | _, _, .nil, h => (List.not_mem_nil h).elim
  | _, _, .cons hc hs, h => (List.mem_append.mp h).elim hc.cells_of_mem hs.cells_of_mem

theorem AlignedBody.cells_of_mem {env env' : Pairs} {id : Nat} : {body body' : Statements φ} →
    AlignedBody cells env body body' env' → id ∈ cellsBody body → cells id
  | _, _, .nil, h => (List.not_mem_nil h).elim
  | _, _, .cons hc _ hs, h => (List.mem_append.mp h).elim hc.cells_of_mem hs.cells_of_mem

end

end Code

/-! ## Frames -/

theorem Closure.Aligned.identity_eq {c c' : Closure} (h : Aligned c c') : c.identity = c'.identity := by
  cases h
  rfl

/-- Closures are equal to the same ones as those aligned with them. -/
theorem keepsEquality_aligned : KeepsEquality Closure.Aligned := by
  intro a b c d hab hcd
  show (a.identity == c.identity) = (b.identity == d.identity)
  rw [hab.identity_eq, hcd.identity_eq]

/-- The parameters and the cells of two frames are related, and the settings are the same. -/
structure Frame.Aligned (f f' : Frame) : Prop where
  names : f.bound.map (·.1) = f'.bound.map (·.1)
  bound : Value.ItemsRelated Closure.Aligned (f.bound.map (·.2)) (f'.bound.map (·.2))
  ids : f.cells.map (·.1) = f'.cells.map (·.1)
  cells : List.Forall₂ (Slot.Related Closure.Aligned) (f.cells.map (·.2)) (f'.cells.map (·.2))
  settings : f.settings = f'.settings

/-- Variables that stand for each other have related values. -/
def Frame.Matches (env : Pairs) (f f' : Frame) : Prop :=
  ∀ p ∈ env, ∃ v w, f.vars.lookup p.1 = some v ∧ f'.vars.lookup p.2 = some w ∧
    Value.Related Closure.Aligned v w

/-- What two tables with the same keys hold under a key is related if all that they hold is. -/
theorem lookup_related {ι α β : Type} [BEq ι] {R : α → β → Prop} {xs : List (ι × α)}
    {ys : List (ι × β)} (hkeys : xs.map (·.1) = ys.map (·.1))
    (h : List.Forall₂ R (xs.map (·.2)) (ys.map (·.2))) (key : ι) :
    Option.Rel R (xs.lookup key) (ys.lookup key) := by
  induction xs generalizing ys with
  | nil =>
    cases ys with
    | nil => exact .none
    | cons y ys => cases hkeys
  | cons x xs ih =>
    cases ys with
    | nil => cases hkeys
    | cons y ys =>
      obtain ⟨k, a⟩ := x
      obtain ⟨l, b⟩ := y
      obtain ⟨hkey, hrest⟩ := List.cons.inj hkeys
      obtain rfl : k = l := hkey
      cases h with
      | cons hab h =>
        rw [List.lookup_cons, List.lookup_cons]
        cases key == k with
        | false => exact ih hrest h
        | true => exact .some hab

namespace Frame

variable {f f' : Frame}

theorem Aligned.readCell (h : Aligned f f') (id : Nat) :
    Agree (Value.Related Closure.Aligned) (f.readCell id) (f'.readCell id) := by
  have hslot := lookup_related h.ids h.cells id
  unfold Frame.readCell
  generalize f.cells.lookup id = o at hslot
  generalize f'.cells.lookup id = o' at hslot
  cases hslot with
  | none => exact .error _
  | some hslot =>
    cases hslot with
    | mk label houtcome =>
      cases houtcome with
      | ok hv => exact .ok hv
      | error d => exact .error _

theorem Aligned.close (h : Aligned f f') (identity : Identity) (params : List String)
    {cells : Nat → Prop} {env : Pairs} {body body' : Statements Closure} {c d : Code Closure}
    (captures captures' : List Nat) (hbody : Code.AlignedBody cells [] body body' env)
    (hc : Code.Aligned cells env c d) :
    Function.Related Closure.Aligned (f.close identity params body c captures)
      (f'.close identity params body' d captures') := by
  refine .mk ?_ .none
  rw [h.settings]
  exact .mk hbody hc h.names h.bound h.ids h.cells

section Invoke

variable {invoke invoke' : Closure → List (Value Closure) → Run (Value Closure)}
  {cells : Nat → Prop} {env : Pairs}

mutual

theorem eval_aligned (hinv : InvokeRefines Closure.Aligned invoke invoke') (h : Aligned f f')
    (hvars : Matches env f f') : {c d : Code Closure} → Code.Aligned cells env c d →
    Refines (Value.Related Closure.Aligned) (f.eval invoke c) (f'.eval invoke' d)
  | _, _, .var hmem => by
    obtain ⟨v, w, hv, hw, hvw⟩ := hvars _ hmem
    unfold eval
    rw [hv, hw]
    exact .pure hvw
  | _, _, .param name => by
    have hbound := lookup_related h.names (Value.itemsRelated_iff.mp h.bound) name
    unfold eval
    generalize f.bound.lookup name = o at hbound
    generalize f'.bound.lookup name = o' at hbound
    cases hbound with
    | none => exact .fail _ _
    | some hvw => exact .pure hvw
  | _, _, .cell _ => by
    unfold eval
    exact .ofExcept (h.readCell _)
  | _, _, .literal v => by
    unfold eval
    cases v with
    | none => exact .pure .none
    | boolean b => exact .pure (.boolean b)
    | number x => exact .pure (.number x)
    | text s => exact .pure (.text s)
  | _, _, .array hcs => by
    unfold eval
    exact (evalAll_aligned hinv h hvars hcs).bind fun _ _ hvs => .pure (.stream hvs)
  | _, _, .call b hcs => by
    unfold eval
    refine (evalAll_aligned hinv h hvars hcs).bind fun _ _ hvs => ?_
    rw [h.settings]
    exact Builtin.apply_refines keepsEquality_aligned hinv f'.settings b hvs
  | _, _, .member attr hc => by
    unfold eval
    exact (eval_aligned hinv h hvars hc).bind fun _ _ hv => .ofExcept (Value.member_agree hv attr)
  | _, _, .lambda params hbody hc => by
    unfold eval
    refine Refines.newIdentity.bind fun i j hij => ?_
    subst hij
    exact .pure (.function (h.close i params _ _ hbody hc))

theorem evalAll_aligned (hinv : InvokeRefines Closure.Aligned invoke invoke') (h : Aligned f f')
    (hvars : Matches env f f') : {cs ds : List (Code Closure)} → Code.AlignedAll cells env cs ds →
    Refines (Value.ItemsRelated Closure.Aligned) (f.evalAll invoke cs) (f'.evalAll invoke' ds)
  | _, _, .nil => by
    unfold evalAll
    exact .pure .nil
  | _, _, .cons hc hcs => by
    unfold evalAll
    exact (eval_aligned hinv h hvars hc).bind fun _ _ hv =>
      (evalAll_aligned hinv h hvars hcs).bind fun _ _ hvs => .pure (.cons hv hvs)

end

/-- Setting variables in pairs keeps frames related. -/
theorem exec_aligned (hinv : InvokeRefines Closure.Aligned invoke invoke') :
    {env env' : Pairs} → {f f' : Frame} → {body body' : Statements Closure} → Aligned f f' →
    Matches env f f' → Code.AlignedBody cells env body body' env' →
    Refines (fun g g' => Aligned g g' ∧ Matches env' g g') (f.exec invoke body) (f'.exec invoke' body')
  | _, _, _, _, _, _, h, hvars, .nil => by
    unfold exec
    exact .pure ⟨h, hvars⟩
  | env, _, f, f', _, _, h, hvars, .cons (x := x) (y := y) hc hnew hbody => by
    unfold exec
    refine (eval_aligned hinv h hvars hc).bind fun v w hvw => ?_
    refine exec_aligned hinv ⟨h.names, h.bound, h.ids, h.cells, h.settings⟩ (fun p hp => ?_) hbody
    rcases List.mem_cons.mp hp with rfl | hp
    · exact ⟨v, w, List.lookup_cons_self, List.lookup_cons_self, hvw⟩
    · obtain ⟨v', w', hv', hw', hvw'⟩ := hvars p hp
      obtain ⟨hx, hy⟩ := hnew p hp
      refine ⟨v', w', ?_, ?_, hvw'⟩
      · rw [List.lookup_cons, beq_false_of_ne hx]
        exact hv'
      · rw [List.lookup_cons, beq_false_of_ne hy]
        exact hw'

/-- **Aligned code runs alike** in related frames, whatever variables were set before. -/
theorem run_aligned (hinv : InvokeRefines Closure.Aligned invoke invoke') (h : Aligned f f')
    {body body' : Statements Closure} {result result' : Code Closure}
    (hbody : Code.AlignedBody cells [] body body' env) (hresult : Code.Aligned cells env result result') :
    Refines (Value.Related Closure.Aligned) (f.run invoke body result)
      (f'.run invoke' body' result') :=
  (exec_aligned hinv h (fun _ hp => (List.not_mem_nil hp).elim) hbody).bind fun _ _ hg =>
    eval_aligned hinv hg.1 hg.2 hresult

end Invoke

end Frame

namespace Closure

/-- The names of the parameters of a closure. -/
def params : Closure → List String
  | .mk _ ps _ _ _ _ _ _ => ps

/-- Aligned closures called with as many related arguments as they have parameters run in related
frames. -/
theorem Aligned.frame {c c' : Closure} (h : Aligned c c') {args args' : List (Value Closure)}
    (hargs : Value.ItemsRelated Aligned args args') (hlength : args.length = c.params.length) :
    (c.frame args).Aligned (c'.frame args') := by
  cases h with
  | @mk _ params _ _ _ _ _ _ _ _ _ bound bound' _ _ _ _ hnames hbound hids hslots =>
    have hlen : args.length = params.length := hlength
    have hlen' : args'.length = params.length := hargs.length_eq ▸ hlen
    refine ⟨?_, ?_, hids, hslots, rfl⟩
    · show ((params.zip args).reverse ++ bound).map (·.1) = ((params.zip args').reverse ++ bound').map (·.1)
      rw [List.map_append, List.map_append, hnames, List.map_reverse, List.map_reverse,
        List.map_fst_zip (Nat.le_of_eq hlen.symm), List.map_fst_zip (Nat.le_of_eq hlen'.symm)]
    · show Value.ItemsRelated Aligned (((params.zip args).reverse ++ bound).map (·.2))
        (((params.zip args').reverse ++ bound').map (·.2))
      rw [List.map_append, List.map_append, List.map_reverse, List.map_reverse,
        List.map_snd_zip (Nat.le_of_eq hlen), List.map_snd_zip (Nat.le_of_eq hlen')]
      exact .append (.reverse hargs) hbound

/-- **Calls of aligned closures** run alike. -/
theorem invoke_aligned (depth : Nat) : InvokeRefines Aligned (invoke depth) (invoke depth) := by
  induction depth with
  | zero => exact fun _ _ _ _ _ _ => .tooDeep _
  | succ depth ih =>
    intro c c' args args' hc hargs
    have hframe := hc.frame hargs
    cases hc with
    | mk hbody hresult =>
      unfold invoke
      dsimp only
      rw [← hargs.length_eq]
      split
      next => exact .fail _ _
      next hlength => exact Frame.run_aligned ih (hframe (not_not.mp hlength)) hbody hresult

end Closure

end Cellbook
