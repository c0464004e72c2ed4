import ScriptDecompiler.Proofs.Expr.Leaves
import ScriptDecompiler.Proofs.Machine.Changes
import ScriptDecompiler.Proofs.Store.Sight

/-!
# Where expressions come from

A replay makes expressions of those on the stack, of the variables that its instruction names
and brings into being, of the temporaries of calls, and of placeholders for values that were
missing.  It never looks at the statements made so far.

What is to be followed through a replay is left open: which leaves are all right in a store,
and what leads from one store to another while statements are added.  Each part of a replay is
looked at once, for the leaves of what it takes and of what it gives; the rule for `bind` puts
the parts together.
-/

namespace ScriptDecompiler

open ScriptDecompiler.Expr (leavesOfAll)

/-- Is the statement neither a declaration nor a comment? -/
def Stmt.isAction : Stmt → Bool
  | declare .. | comment _ => false
  | _ => true

/-- What is observed through an expression is a variable of it. -/
theorem Expr.mem_leaves_of_observed? {e : Expr} {ty seen : Ty} {r : VarRef}
    (h : e.observed? ty = some (r, seen)) : .var r ∈ e.leaves := by
  fun_induction Expr.observed? e ty with
  | case1 => cases h
  | case2 =>
      cases h
      exact List.mem_singleton.2 rfl
  | case3 ty _ inner ih => exact ih h
  | case4 ty _ inner ih => exact ih h
  | case5 => cases h

/-- What is followed while function `current` is replayed: leaves that are all right in a
store stay so, and what a replay needs and makes anew is all right. -/
structure Provenance (current : Nat) where
  allows : Store → Leaf → Prop
  leads : Store → List Stmt → Store → Prop
  refl : ∀ s, leads s [] s
  trans : ∀ {s s' s'' new new'}, leads s new s' → leads s' new' s'' → leads s (new ++ new') s''
  mono : ∀ {s s' new l}, leads s new s' → allows s l → allows s' l
  update : ∀ {s : Store} {u : Update}, u.Valid s → u.Needs (fun r => allows s (.var r)) →
    leads s [] (u.apply current s)
  emit : ∀ {s : Store} {statement : Stmt}, (∀ l ∈ statement.leaves, allows s l) →
    statement.isAction = true → leads s [statement] s
  declare : ∀ {s : Store} (name : String) {arguments : List Expr} (result : Ty),
    (∀ l ∈ leavesOfAll arguments, allows s l) →
      leads s [.declare (.temp (s.tempCount current)) (.call name arguments result)]
        (s.modifyFrame current (·.addTemp result))
  touched : ∀ (s : Store) {r : VarRef}, (∀ index, r ≠ .temp index) →
    allows (s.touch current r) (.var r)
  declared : ∀ (s : Store) (ty : Ty),
    allows (s.modifyFrame current (·.addTemp ty)) (.var (.temp (s.tempCount current)))
  reported : ∀ (s : Store) (address : Nat),
    allows (s.diagnose current address .stackUnderflow) .placeholder

namespace Machine

open ScriptDecompiler.Bytecode (Instruction Operation Operand opcodeInfo)

-- The opcode table is too large to be unfolded whenever terms are compared.
attribute [local irreducible] opcodeInfo

namespace Replay

/-- What a part of a replay comes to in the state `s`, with the statements `new` that it adds
whatever statements there are, and the leaves `gives` of the value that it returns. -/
structure Traced {current : Nat} (F : Provenance current) {α : Type} (x : Replay α)
    (gives : α → List Leaf) (s : State) (new : List Stmt) : Prop where
  blind : ∀ emitted, x { s with emitted := emitted } =
    ((x s).1, { (x s).2 with emitted := emitted ++ new.toArray })
  leads : F.leads s.store new (x s).2.store
  stack : ∀ l ∈ leavesOfAll (x s).2.stack, F.allows (x s).2.store l
  given : ∀ l ∈ gives (x s).1, F.allows (x s).2.store l

theorem Traced.emitted {current : Nat} {F : Provenance current} {α : Type} {x : Replay α}
    {gives : α → List Leaf} {s : State} {new : List Stmt} (h : Traced F x gives s new) :
    (x s).2.emitted = s.emitted ++ new.toArray :=
  congrArg (·.2.emitted) (h.blind s.emitted)

/-- Is all that a part of a replay leaves behind all right, if the leaves `uses` and those on
the stack are? -/
def Follows {current : Nat} (F : Provenance current) (uses : List Leaf) {α : Type} (x : Replay α)
    (gives : α → List Leaf) : Prop :=
  ∀ s : State, (∀ l ∈ uses, F.allows s.store l) →
    (∀ l ∈ leavesOfAll s.stack, F.allows s.store l) → ∃ new, Traced F x gives s new

/-- What was given before is given still. -/
theorem subset_append_middle (first middle last : List Leaf) :
    middle ⊆ first ++ (middle ++ last) :=
  List.subset_append_of_subset_right _ (List.subset_append_left _ _)

/-- A value of which no leaf is of interest. -/
abbrev nothing {α : Type} : α → List Leaf :=
  fun _ => []

section Rules

variable {current : Nat} {F : Provenance current} {uses uses' : List Leaf} {α β : Type}
  {x : Replay α} {gives : α → List Leaf} {gives' : β → List Leaf}

theorem Follows.mono (h : Follows F uses x gives) (huses : uses ⊆ uses') :
    Follows F uses' x gives :=
  fun s hsees hstack => h s (fun l hl => hsees l (huses hl)) hstack

theorem Follows.bind {f : α → Replay β} (hx : Follows F uses x gives)
    (hf : ∀ a, Follows F (gives a ++ uses) (f a) gives') : Follows F uses (x >>= f) gives' := by
  intro s huses hstack
  obtain ⟨new, hfirst⟩ := hx s huses hstack
  obtain ⟨later, hrest⟩ := hf (x s).1 (x s).2 (fun l hl => (List.mem_append.1 hl).elim
    (hfirst.given l) fun hl => F.mono hfirst.leads (huses l hl)) hfirst.stack
  refine ⟨new ++ later, fun emitted => ?_, F.trans hfirst.leads hrest.leads, hrest.stack,
    hrest.given⟩
  rw [bind_apply, hfirst.blind, hrest.blind, Array.append_assoc, List.append_toArray new later]
  rfl

/-- A part whose value is of no interest, and then another one. -/
theorem Follows.next {f : α → Replay β} (hx : Follows F uses x nothing)
    (hf : ∀ a, Follows F uses (f a) gives') : Follows F uses (x >>= f) gives' :=
  hx.bind hf

/-- Looking at the state, but not at the statements. -/
theorem Follows.look {f : State → Replay β}
    (hblind : ∀ s emitted, f { s with emitted := emitted } = f s)
    (hf : ∀ s, Follows F (leavesOfAll s.stack ++ uses) (f s) gives') :
    Follows F uses (get >>= f) gives' := by
  intro s huses hstack
  obtain ⟨new, htraced⟩ := hf s s (fun l hl => (List.mem_append.1 hl).elim (hstack l) (huses l))
    hstack
  refine ⟨new, fun emitted => ?_, htraced.leads, htraced.stack, htraced.given⟩
  rw [bind_apply, get_apply, hblind]
  exact htraced.blind emitted

theorem follows_pure {a : α} (h : gives a ⊆ uses) : Follows F uses (pure a) gives :=
  fun s huses hstack => ⟨[], fun emitted => by simp; rfl, F.refl s.store, hstack,
    fun l hl => huses l (h hl)⟩

/-- A part that changes the store only. -/
theorem follows_store {x : Replay Unit} (change : Store → Store)
    (hx : ∀ s, x s = ((), { s with store := change s.store }))
    (h : ∀ s, (∀ l ∈ uses, F.allows s l) → F.leads s [] (change s)) :
    Follows F uses x nothing := by
  intro s huses hstack
  have hleads := h s.store huses
  refine ⟨[], fun emitted => by simp [hx], ?_, ?_, by simp⟩
  · rw [hx]
    exact hleads
  · rw [hx]
    exact fun l hl => F.mono hleads (hstack l hl)

/-- An update that adds no temporary. -/
theorem follows_update {change : Store → Store} {u : Update}
    (hchange : ∀ s, change s = u.apply current s) (hvalid : ∀ s, u.Valid s)
    (hneeds : ∀ s, (∀ l ∈ uses, F.allows s l) →
      u.Needs fun r => F.allows s (.var r)) :
    Follows F uses (modifyStore change) nothing :=
  follows_store _ (fun _ => rfl) fun s huses => hchange s ▸ F.update (hvalid s) (hneeds s huses)

theorem follows_emit {statement : Stmt} (h : statement.leaves ⊆ uses)
    (haction : statement.isAction = true) : Follows F uses (emit statement) nothing := by
  intro s huses hstack
  refine ⟨[statement], fun emitted => ?_, F.emit (fun l hl => huses l (h hl)) haction, hstack,
    by simp⟩
  exact congrArg (fun added => ((), (⟨s.store, s.stack, added⟩ : State)))
    Array.push_eq_append

/-- Another stack. -/
theorem follows_stack (change : List Expr → List Expr)
    (h : ∀ stack, leavesOfAll (change stack) ⊆ uses ++ leavesOfAll stack) :
    Follows F uses (modify fun s => { s with stack := change s.stack }) nothing := by
  intro s huses hstack
  refine ⟨[], fun emitted => ?_, F.refl s.store,
    fun l hl => (List.mem_append.1 (h s.stack hl)).elim (huses l) (hstack l), by simp⟩
  exact congrArg (fun added => ((), (⟨s.store, change s.stack, added⟩ : State)))
    Array.append_empty.symm

theorem follows_pushAll {values : List Expr} (h : leavesOfAll values ⊆ uses) :
    Follows F uses (pushAll values) nothing := by
  refine follows_stack _ fun stack => ?_
  have hreverse : leavesOfAll values.reverse ⊆ leavesOfAll values :=
    Expr.leavesOfAll_subset (List.reverse_subset.2 (List.Subset.refl values))
  rw [Expr.leavesOfAll_append]
  exact List.append_subset.2 ⟨List.subset_append_of_subset_left _ (List.Subset.trans hreverse h),
    List.subset_append_right _ _⟩

theorem follows_push {value : Expr} (h : value.leaves ⊆ uses) :
    Follows F uses (push value) nothing := by
  have hvalues : leavesOfAll [value] ⊆ uses := by simpa [leavesOfAll] using h
  exact follows_pushAll hvalues

end Rules

section Parts

variable (c : Context) (address : Nat) {F : Provenance c.current} {uses : List Leaf}

theorem follows_scope : Follows F uses (scope c) nothing :=
  .look (fun _ _ => rfl) fun _ => follows_pure (List.nil_subset _)

theorem follows_typeOf (e : Expr) : Follows F uses (typeOf c e) nothing :=
  .next (follows_scope c) fun _ => follows_pure (List.nil_subset _)

theorem follows_diagnose {kind : DiagnosticKind} (h : kind.isConflict = false) :
    Follows F uses (diagnose c address kind) nothing :=
  follows_update (u := .report address kind) (fun _ => rfl) (fun _ => h) fun _ _ => trivial

/-- Reporting that a value is missing allows a placeholder for it. -/
theorem follows_diagnose_underflow :
    Follows F uses (diagnose c address .stackUnderflow) fun _ => [.placeholder] := by
  intro s huses hstack
  have hreport : Follows F uses (diagnose c address .stackUnderflow) nothing :=
    follows_diagnose c address rfl
  obtain ⟨new, htraced⟩ := hreport s huses hstack
  refine ⟨new, { htraced with given := fun l hl => ?_ }⟩
  rw [List.mem_singleton.1 hl]
  exact F.reported s.store address

/-- The variable is brought into being. -/
theorem follows_touch {r : VarRef} (hr : ∀ index, r ≠ .temp index) :
    Follows F uses (touch c r) fun _ => [.var r] := by
  intro s huses hstack
  have htouch : Follows F uses (touch c r) nothing :=
    follows_update (u := .touch r) (fun _ => rfl) (fun _ => trivial) fun _ _ => hr
  obtain ⟨new, htraced⟩ := htouch s huses hstack
  refine ⟨new, { htraced with given := fun l hl => ?_ }⟩
  rw [List.mem_singleton.1 hl]
  exact F.touched s.store hr

theorem follows_pop : Follows F uses (pop c address) Expr.leaves := by
  refine .look (fun _ _ => rfl) fun s => ?_
  split
  · rename_i top rest hstack
    have hrest : Follows F (leavesOfAll s.stack ++ uses)
        (modify fun s => { s with stack := rest }) nothing := by
      refine follows_stack (fun _ => rest) fun _ => ?_
      rw [hstack, leavesOfAll]
      grind
    refine .next hrest fun _ => follows_pure ?_
    rw [hstack, leavesOfAll]
    grind
  · exact .bind (follows_diagnose_underflow c address) fun _ =>
      follows_pure (List.subset_append_left _ _)

theorem follows_peek : Follows F uses (peek c address) Expr.leaves := by
  refine .look (fun _ _ => rfl) fun s => ?_
  split
  · rename_i top rest hstack
    refine follows_pure ?_
    rw [hstack, leavesOfAll]
    grind
  · exact .bind (follows_diagnose_underflow c address) fun _ =>
      follows_pure (List.subset_append_left _ _)

theorem follows_popMany (count : Nat) : Follows F uses (popMany c address count) leavesOfAll := by
  refine .look (fun _ _ => rfl) fun s => ?_
  have hpopped : leavesOfAll (s.stack.take count).reverse ⊆ leavesOfAll s.stack :=
    Expr.leavesOfAll_subset (List.reverse_subset.2 (List.take_subset count s.stack))
  refine .next (follows_stack _ fun stack => ?_) fun _ => ?_
  · exact List.subset_append_of_subset_right _
      (Expr.leavesOfAll_subset (List.drop_subset count stack))
  · split
    · refine .bind (follows_diagnose_underflow c address) fun _ => follows_pure ?_
      rw [Expr.leavesOfAll_append]
      refine List.append_subset.2 ⟨?_, ?_⟩
      · exact List.subset_append_of_subset_left _
          (Expr.leavesOfAll_replicate_underflow_subset _)
      · exact List.Subset.trans hpopped (subset_append_middle _ _ _)
    · exact follows_pure (List.subset_append_of_subset_left _ hpopped)

theorem follows_popLength : Follows F uses (popLength c address) nothing := by
  refine .bind (follows_pop c address) fun e => ?_
  split
  · exact follows_pure (List.nil_subset _)
  · refine .next (follows_scope c) fun scope => ?_
    exact .next (follows_diagnose c address rfl) fun _ => follows_pure (List.nil_subset _)

theorem follows_bound (length limit : Nat) :
    Follows F uses (bound c address length limit) nothing := by
  unfold bound
  split
  · exact follows_pure (List.nil_subset _)
  · exact .next (follows_diagnose c address rfl) fun _ => follows_pure (List.nil_subset _)

theorem leads_observed {s : Store} {e : Expr} (h : ∀ l ∈ e.leaves, F.allows s l) (ty : Ty) :
    F.leads s [] (observed c address e ty s) := by
  unfold observed
  split
  · rename_i r seen hseen
    exact F.update (u := .observe address r seen) trivial
      (h _ (Expr.mem_leaves_of_observed? hseen))
  · exact F.refl s

theorem follows_infer {e : Expr} (h : e.leaves ⊆ uses) (ty : Ty) :
    Follows F uses (infer c address e ty) nothing :=
  follows_store (observed c address e ty) (fun s => infer_eq c address s e ty)
    fun _ huses => leads_observed c address (fun l hl => huses l (h hl)) ty

theorem follows_assign {dest value : Expr} (hdest : dest.leaves ⊆ uses)
    (hvalue : value.leaves ⊆ uses) : Follows F uses (assign c address dest value) nothing := by
  refine .next (follows_typeOf c value) fun ty => ?_
  refine .next (follows_infer c address hdest ty) fun _ => follows_emit ?_ rfl
  exact List.append_subset.2 ⟨hdest, hvalue⟩

end Parts

section Calls

variable (c : Context) (address : Nat) {F : Provenance c.current} {uses : List Leaf}

theorem leaves_of_mem_resultSlots {temp : VarRef} {result : Ty} {e : Expr}
    (h : e ∈ resultSlots temp result) : e.leaves = [.var temp] := by
  unfold resultSlots at h
  split at h
  · cases h
  · split at h
    · rw [List.mem_singleton.1 h]
      rfl
    · exact Ty.leaves_of_mem_explode_var h

theorem follows_emitCall (name : String) {arguments : List Expr} (result : Ty)
    (h : leavesOfAll arguments ⊆ uses) :
    Follows F uses (emitCall c name arguments result) nothing := by
  by_cases hzero : result.footprint = 0
  · rw [emitCall_of_eq_zero c name arguments hzero]
    exact follows_emit h rfl
  · intro s huses hstack
    have hleads := F.declare name result fun l hl => huses l (h hl)
    refine ⟨[.declare (.temp (s.store.tempCount c.current)) (.call name arguments result)],
      fun emitted => ?_, ?_, ?_, by simp⟩
    · rw [emitCall_apply c name arguments hzero, emitCall_apply c name arguments hzero,
        Array.push_eq_append]
    · rw [emitCall_apply c name arguments hzero]
      exact hleads
    · rw [emitCall_apply c name arguments hzero]
      intro l hl
      rw [Expr.leavesOfAll_append] at hl
      rcases List.mem_append.1 hl with hl | hl
      · obtain ⟨e, he, hleaf⟩ := Expr.mem_leavesOfAll.1 hl
        rw [leaves_of_mem_resultSlots (List.mem_reverse.1 he)] at hleaf
        rw [List.mem_singleton.1 hleaf]
        exact F.declared s.store result
      · exact F.mono hleads (hstack l hl)

theorem follows_passArgument (callee index : Nat) {argument : Expr}
    (h : argument.leaves ⊆ uses) :
    Follows F uses (passArgument c address callee index argument) nothing := by
  refine follows_store _ (fun s => passArgument_eq c address s callee index argument)
    fun s huses => ?_
  unfold passed
  split
  · exact F.refl s
  · rename_i parameter hparameter
    split
    · rename_i hunknown
      exact F.update (u := .observeParameter callee index _) ⟨parameter, hparameter, hunknown⟩
        trivial
    · exact leads_observed c address (fun l hl => huses l (h hl)) parameter.ty

theorem follows_passArguments (callee index : Nat) {arguments : List Expr}
    (h : leavesOfAll arguments ⊆ uses) :
    Follows F uses (passArguments c address callee index arguments) nothing := by
  induction arguments generalizing index with
  | nil => exact follows_pure (List.nil_subset _)
  | cons argument rest ih =>
      obtain ⟨hfirst, hrest⟩ := List.append_subset.1 h
      exact .next (follows_passArgument c address callee index hfirst) fun _ => ih (index + 1) hrest

theorem follows_callFunction (target : Nat) :
    Follows F uses (callFunction c address target) nothing := by
  refine .look (fun _ _ => rfl) fun s => ?_
  dsimp only
  split
  · exact follows_pure (List.nil_subset _)
  · rename_i callee _
    refine .bind (follows_popMany c address _) fun arguments => ?_
    have harguments : leavesOfAll arguments ⊆
        leavesOfAll arguments ++ (leavesOfAll s.stack ++ uses) := List.subset_append_left _ _
    refine .next (follows_passArguments c address callee 0 harguments) fun _ => ?_
    refine .look (fun _ _ => rfl) fun s => ?_
    split
    · exact follows_pure (List.nil_subset _)
    · exact (follows_emitCall c _ _ harguments).mono (List.subset_append_right _ _)

theorem follows_popArguments (parameters : List Native.Parameter) :
    Follows F uses (popArguments c address parameters) leavesOfAll := by
  induction parameters generalizing uses with
  | nil => exact follows_pure (List.nil_subset _)
  | cons parameter rest ih =>
      refine .bind ih fun later => ?_
      split
      · exact follows_pure (List.subset_append_left _ _)
      · refine .bind (follows_pop c address) fun value => follows_pure ?_
        rw [leavesOfAll]
        grind
      · refine .bind (follows_popMany c address _) fun values => follows_pure ?_
        rw [leavesOfAll, Expr.leaves]
        grind

theorem follows_matchParameters (rename : Bool) {pairs : List (Expr × Native.Parameter)}
    (h : ∀ pair ∈ pairs, pair.1.leaves ⊆ uses) :
    Follows F uses (matchParameters c address rename pairs) nothing := by
  induction pairs with
  | nil => exact follows_pure (List.nil_subset _)
  | cons pair rest ih =>
      obtain ⟨hfirst, hrest⟩ := List.forall_mem_cons.1 h
      obtain ⟨argument, parameter⟩ := pair
      rw [matchParameters]
      refine .next (follows_infer c address hfirst parameter.ty) fun _ => ?_
      split
      · rename_i _ _ index
        have hrename : Follows F uses
            (modifyStore (·.modifyFrame c.current (·.renameTemp index parameter.name))) nothing :=
          follows_update (u := .renameTemp index parameter.name) (fun _ => rfl)
            (fun _ => trivial) fun _ _ => trivial
        exact .next hrename fun _ => ih hrest
      · exact ih hrest

theorem follows_signatureFor (hash : UInt64) (inSlots outSlots : Nat) :
    Follows F uses (signatureFor c address hash inSlots outSlots) nothing := by
  unfold signatureFor
  dsimp only
  split
  · exact .next (follows_diagnose c address rfl) fun _ => follows_pure (List.nil_subset _)
  · split
    · exact .next (follows_diagnose c address rfl) fun _ => follows_pure (List.nil_subset _)
    · exact follows_pure (List.nil_subset _)

theorem follows_callNative (inSlots outSlots index : Nat) :
    Follows F uses (callNative c address inSlots outSlots index) nothing := by
  unfold callNative
  split
  · exact follows_pure (List.nil_subset _)
  · refine .next (follows_signatureFor c address _ inSlots outSlots) fun found => ?_
    refine .bind (follows_popArguments c address _) fun arguments => ?_
    have harguments : leavesOfAll arguments ⊆ leavesOfAll arguments ++ uses :=
      List.subset_append_left _ _
    refine .next (follows_matchParameters c address _ fun pair hpair => ?_) fun _ =>
      follows_emitCall c _ _ harguments
    exact fun l hl =>
      harguments (Expr.mem_leavesOfAll.2 ⟨pair.1, (List.of_mem_zip hpair).1, hl⟩)

theorem follows_inferResult (ty : Ty) : Follows F uses (inferResult c address ty) nothing :=
  follows_store _ (fun s => inferResult_eq c address s ty) fun _ _ =>
    F.update (u := .observeResult address ty) trivial trivial

theorem follows_returnValues (values : Nat) :
    Follows F uses (returnValues c address values) nothing := by
  unfold returnValues
  split
  · exact .next (follows_inferResult c address .void) fun _ => follows_emit (List.nil_subset _) rfl
  · refine .bind (follows_pop c address) fun value => .next (follows_typeOf c value) fun ty => ?_
    exact .next (follows_inferResult c address ty) fun _ =>
      follows_emit (List.subset_append_left _ _) rfl

end Calls

section Instructions

variable (c : Context) (i : Instruction) {F : Provenance c.current} {uses : List Leaf}

theorem follows_pushString (address : Nat) : Follows F uses (pushString c address) nothing := by
  refine .bind (follows_pop c address) fun offset => ?_
  dsimp only
  split
  · exact follows_push (List.nil_subset _)
  · exact follows_push (List.subset_append_left _ _)

theorem follows_applyUnary (op : UnaryOp) : Follows F uses (applyUnary c i op) nothing := by
  refine .bind (follows_popMany c i.address i.lanes) fun operands => follows_pushAll ?_
  rw [Expr.leavesOfAll_map_unary]
  exact List.subset_append_left _ _

theorem follows_applyBinary (op : BinaryOp) : Follows F uses (applyBinary c i op) nothing := by
  unfold applyBinary
  split
  · refine .bind (follows_pop c i.address) fun left => follows_push ?_
    show left.leaves ++ [] ⊆ _
    rw [List.append_nil]
    exact List.subset_append_left _ _
  · refine .bind (follows_popMany c i.address i.lanes) fun right => ?_
    refine .bind (follows_popMany c i.address i.lanes) fun left => follows_pushAll ?_
    refine List.Subset.trans (Expr.leavesOfAll_zipWith_binary_subset op left right) ?_
    exact List.append_subset.2 ⟨List.subset_append_left _ _, subset_append_middle _ _ _⟩

theorem follows_convert (address : Nat) (ty : Ty) :
    Follows F uses (convert c address ty) nothing :=
  .bind (follows_pop c address) fun _ => follows_push (List.subset_append_left _ _)

theorem follows_loadVariable {r : VarRef} (hr : ∀ index, r ≠ .temp index) (address : Bool) :
    Follows F uses (loadVariable c r address) nothing := by
  refine .bind (follows_touch c hr) fun _ => follows_push ?_
  split <;> exact List.subset_append_left _ _

theorem follows_storeVariable (address : Nat) {r : VarRef} (hr : ∀ index, r ≠ .temp index) :
    Follows F uses (storeVariable c address r) nothing := by
  refine .bind (follows_touch c hr) fun _ => ?_
  refine .bind (follows_pop c address) fun value => follows_assign c address ?_ ?_
  · exact subset_append_middle _ _ _
  · exact List.subset_append_left _ _

theorem follows_popField : Follows F uses (popField c i) Expr.leaves := by
  refine .bind (follows_pop c i.address) fun base => .next (follows_typeOf c base) fun ty => ?_
  split <;> exact follows_pure (List.subset_append_left _ _)

theorem follows_popElement (address : Nat) :
    Follows F uses (popElement c address) Expr.leaves := by
  refine .bind (follows_pop c address) fun array => ?_
  refine .bind (follows_pop c address) fun index => follows_pure ?_
  exact List.append_subset.2 ⟨subset_append_middle _ _ _, List.subset_append_left _ _⟩

theorem follows_implode (address : Nat) : Follows F uses (implode c address) nothing := by
  refine .bind (follows_pop c address) fun dest => ?_
  refine .next (follows_popLength c address) fun length => ?_
  split
  · exact follows_pure (List.nil_subset _)
  · refine .look (fun _ _ => rfl) fun s => ?_
    refine .next (follows_bound c address _ _) fun count => ?_
    refine .bind (follows_popMany c address count) fun values => ?_
    generalize huses : leavesOfAll values ++ (leavesOfAll s.stack ++ (dest.leaves ++ uses)) = uses'
    have hdest : dest.leaves ⊆ uses' :=
      huses ▸ List.subset_append_of_subset_right _ (subset_append_middle _ _ _)
    have hvalues : leavesOfAll values ⊆ uses' := huses ▸ List.subset_append_left _ _
    have hrest : ∀ element : Ty, Follows F uses' (do
        infer c address dest (.pointer (.array element count))
        emit (.assign dest.dereference (.arrayLiteral values))) nothing := by
      refine fun element => .next (follows_infer c address hdest _) fun _ => follows_emit ?_ rfl
      rw [Stmt.leaves, Expr.leaves_dereference]
      exact List.append_subset.2 ⟨hdest, hvalues⟩
    split
    · exact .next (follows_pure (List.nil_subset _)) hrest
    · exact .next (follows_typeOf c _) hrest

theorem follows_explode (address : Nat) : Follows F uses (explode c address) nothing := by
  refine .bind (follows_pop c address) fun source => ?_
  refine .next (follows_popLength c address) fun length => ?_
  split
  · exact follows_pure (List.nil_subset _)
  · refine .next (follows_bound c address _ _) fun count => ?_
    refine .next (follows_typeOf c source) fun known => ?_
    have hsource : source.leaves ⊆ source.leaves ++ uses := List.subset_append_left _ _
    have hrest : Follows F (source.leaves ++ uses)
        (do pushAll ((← typeOf c source).explode source count)) nothing :=
      .next (follows_typeOf c source) fun ty =>
        follows_pushAll (List.Subset.trans (ty.leaves_explode_subset source count) hsource)
    split
    · exact .next (follows_infer c address hsource _) fun _ => hrest
    · exact hrest

theorem follows_branchOn (op : BinaryOp) : Follows F uses (branchOn c i op) nothing := by
  refine .bind (follows_pop c i.address) fun right => ?_
  refine .bind (follows_pop c i.address) fun left => ?_
  split
  · refine follows_emit (List.append_subset.2 ⟨List.subset_append_left _ _, ?_⟩) rfl
    exact subset_append_middle _ _ _
  · exact follows_pure (List.nil_subset _)

theorem follows_textOperation : Follows F uses (textOperation c i) nothing := by
  refine .bind (follows_pop c i.address) fun dest => ?_
  refine .bind (follows_pop c i.address) fun source => follows_emit ?_ rfl
  show dest.leaves ++ (source.leaves ++ ([] ++ [])) ⊆ _
  grind

theorem leaves_immediates (operand : Operand) : leavesOfAll (immediates operand) = [] := by
  cases operand <;> rfl

/-- One instruction. -/
theorem follows_step : Follows F uses (step c i) nothing := by
  unfold step
  cases i.operation <;> dsimp only
  case nop | enter => exact follows_pure (List.nil_subset _)
  case push =>
    refine follows_pushAll ?_
    rw [leaves_immediates]
    exact List.nil_subset _
  case pushString => exact follows_pushString c i.address
  case dup =>
    exact .bind (follows_peek c i.address) fun _ => follows_push (List.subset_append_left _ _)
  case drop =>
    exact .bind (follows_pop c i.address) fun _ => follows_pure (List.nil_subset _)
  case not | neg => exact follows_applyUnary c i _
  case add | sub | mul | div | mod | and | or | xor => exact follows_applyBinary c i _
  case compareEq | compareNe | compareGt | compareGe | compareLt | compareLe =>
    exact follows_applyBinary c i _
  case intToFloat | floatToInt => exact follows_convert c i.address _
  case localLoad | staticLoad | globalLoad | localAddress | staticAddress | globalAddress =>
    exact follows_loadVariable c (by simp) _
  case fieldLoad | fieldAddress =>
    exact .bind (follows_popField c i) fun _ => follows_push (List.subset_append_left _ _)
  case arrayLoad | arrayAddress =>
    exact .bind (follows_popElement c i.address) fun _ =>
      follows_push (List.subset_append_left _ _)
  case load =>
    refine .bind (follows_pop c i.address) fun value => follows_push ?_
    rw [Expr.leaves_dereference]
    exact List.subset_append_left _ _
  case localStore | staticStore | globalStore =>
    exact follows_storeVariable c i.address (by simp)
  case fieldStore =>
    refine .bind (follows_popField c i) fun dest => .bind (follows_pop c i.address) fun value => ?_
    exact follows_assign c i.address (subset_append_middle _ _ _) (List.subset_append_left _ _)
  case arrayStore =>
    refine .bind (follows_popElement c i.address) fun dest => ?_
    refine .bind (follows_pop c i.address) fun value => ?_
    exact follows_assign c i.address (subset_append_middle _ _ _) (List.subset_append_left _ _)
  case store =>
    refine .bind (follows_pop c i.address) fun dest => ?_
    refine .bind (follows_pop c i.address) fun value => ?_
    refine follows_assign c i.address ?_ (List.subset_append_left _ _)
    rw [Expr.leaves_dereference]
    exact subset_append_middle _ _ _
  case storeKeep =>
    refine .bind (follows_pop c i.address) fun value => ?_
    refine .bind (follows_peek c i.address) fun dest => ?_
    refine follows_assign c i.address ?_ (subset_append_middle _ _ _)
    rw [Expr.leaves_dereference]
    exact List.subset_append_left _ _
  case implode => exact follows_implode c i.address
  case explode => exact follows_explode c i.address
  case call =>
    split
    · exact follows_callFunction c i.address _
    · exact follows_pure (List.nil_subset _)
  case callNative =>
    split
    · exact follows_callNative c i.address _ _ _
    · exact follows_pure (List.nil_subset _)
  case ret => split <;> exact follows_returnValues c i.address _
  case branch =>
    split
    · exact follows_emit (List.nil_subset _) rfl
    · exact follows_pure (List.nil_subset _)
  case branchZero =>
    refine .bind (follows_pop c i.address) fun condition => ?_
    split
    · refine follows_emit ?_ rfl
      rw [Stmt.leaves, Expr.leaves_negate]
      exact List.subset_append_left _ _
    · exact follows_pure (List.nil_subset _)
  case branchNe | branchEq | branchGt | branchGe | branchLt | branchLe =>
    exact follows_branchOn c i _
  case switch =>
    refine .bind (follows_pop c i.address) fun value => ?_
    split
    · exact follows_emit (List.subset_append_left _ _) rfl
    · exact follows_pure (List.nil_subset _)
  case stringCopy | intToString | appendString | appendInt => exact follows_textOperation c i
  case unknown =>
    exact .next (follows_diagnose c i.address rfl) fun _ => follows_emit (List.nil_subset _) rfl
  case memoryCopy | catchOp | throwOp | callPointer => exact follows_emit (List.nil_subset _) rfl

end Instructions

end Replay

section Runs

/-- What a replay has come to between the states `s` and `s'`, with the statements `new`. -/
structure Kept {current : Nat} (F : Provenance current) (s : State) (new : List Stmt)
    (s' : State) : Prop where
  emitted : s'.emitted.toList = s.emitted.toList ++ new
  leads : F.leads s.store new s'.store
  stack : ∀ l ∈ leavesOfAll s'.stack, F.allows s'.store l

theorem Kept.trans {current : Nat} {F : Provenance current} {s s' s'' : State}
    {new new' : List Stmt} (h : Kept F s new s') (h' : Kept F s' new' s'') :
    Kept F s (new ++ new') s'' :=
  ⟨by rw [h'.emitted, h.emitted, List.append_assoc], F.trans h.leads h'.leads, h'.stack⟩

variable {c : Context} {F : Provenance c.current}
  (hcomment : ∀ s text, F.leads s [.comment text] s)
include hcomment

theorem exists_kept_replayInstruction (i : Instruction) {s : State}
    (hstack : ∀ l ∈ leavesOfAll s.stack, F.allows s.store l) :
    ∃ new, Kept F s new (replayInstruction c i s).2 := by
  have hcomments : Kept F s (comments c [i]).toList
      { s with emitted := s.emitted ++ comments c [i] } := by
    refine ⟨Array.toList_append, ?_, hstack⟩
    unfold comments
    split
    · exact hcomment s.store _
    · exact F.refl s.store
  have hstep : Replay.Follows F [] (Replay.step c i) Replay.nothing := Replay.follows_step c i
  obtain ⟨new, htraced⟩ := hstep { s with emitted := s.emitted ++ comments c [i] } (by simp) hstack
  rw [replayInstruction_apply]
  refine ⟨_, hcomments.trans ⟨?_, htraced.leads, htraced.stack⟩⟩
  rw [htraced.emitted, Array.toList_append]

/-- Instructions up to the first one that is at fault. -/
theorem exists_kept_replay {s : State} (body : List Instruction)
    (hstack : ∀ l ∈ leavesOfAll s.stack, F.allows s.store l) :
    ∃ new, Kept F s new (replay c s body).2 := by
  have hrefl : Kept F s [] s := ⟨(List.append_nil _).symm, F.refl s.store, hstack⟩
  induction body generalizing s with
  | nil => exact ⟨[], hrefl⟩
  | cons i rest ih =>
      rw [replay_cons]
      cases fault? c s.store.frames i with
      | some fault => exact ⟨[], hrefl⟩
      | none =>
          obtain ⟨new, hfirst⟩ := exists_kept_replayInstruction hcomment i hstack
          obtain ⟨later, hrest⟩ := ih hfirst.stack
            ⟨(List.append_nil _).symm, F.refl _, hfirst.stack⟩
          exact ⟨new ++ later, hfirst.trans hrest⟩

end Runs

end Machine

end ScriptDecompiler
