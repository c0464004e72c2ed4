import Mathlib.Logic.Relation
import ScriptDecompiler.Proofs.Machine.Signatures
import ScriptDecompiler.Proofs.Store.Sight

/-!
# What an instruction changes

Every part of a replay makes changes of four kinds, in some order: it updates the store,
takes values off the stack, puts values on it, and adds statements.  Each part is looked at
once, for which of these changes it makes; what they all keep, the part keeps, and so does
everything that is put together from such parts.

Of the statements that an instruction can add, jumps agree with its operand, and
assignments come from the instructions that store.  An instruction that stores puts
nothing on the stack.
-/

namespace ScriptDecompiler

/-- Is a statement neither a jump nor an assignment? -/
def Stmt.isPlain : Stmt → Bool
  | declare .. | expr _ | ret _ | asm _ | comment _ => true
  | assign .. | ifGoto .. | goto _ | switch .. => false

/-- The variable that is observed when an expression is found to have a type, and the type
that it is found to have then: it stands below address-of and dereference nodes. -/
def Expr.observed? (e : Expr) (ty : Ty) : Option (VarRef × Ty) :=
  if ty.isUnknown then none
  else match e with
    | .var r => some (r, ty)
    | .addressOf inner => inner.observed? ty.throughPointer
    | .deref inner => inner.observed? (.pointer ty)
    | _ => none

namespace Machine

open ScriptDecompiler.Bytecode (Instruction Operation opcodeInfo)

-- The opcode table is too large to be unfolded whenever terms are compared.
attribute [local irreducible] opcodeInfo

/-- One change of the state: what is known becomes more, as `keeps` tells; values are
taken off the stack; values are put on it, if `pushes`; a statement is added that `adds`
admits. -/
inductive Change (keeps : Store → Store → Prop) (adds : Stmt → Prop) (pushes : Prop)
    (s : State) : State → Prop
  | store {store : Store} (h : keeps s.store store) :
    Change keeps adds pushes s { s with store := store }
  | pop (count : Nat) : Change keeps adds pushes s { s with stack := s.stack.drop count }
  | push (h : pushes) (values : List Expr) :
    Change keeps adds pushes s { s with stack := values ++ s.stack }
  | emit {statement : Stmt} (h : adds statement) :
    Change keeps adds pushes s { s with emitted := s.emitted.push statement }

/-- Can an instruction make this update?  Only a return observes a result, and only a native call
gives names, those of parameters that the database knows, and reports something about a native. -/
def Admits (c : Context) (i : Instruction) : Update → Prop
  | .observeResult .. => i.operation = .ret
  | .renameTemp _ name => i.operation = .callNative ∧ c.natives.Names name
  | .report _ kind => kind.isMismatch = false ∧ (kind.isNative = true → i.operation = .callNative)
  | _ => True

section Admits

variable {c : Context} {i : Instruction} {u : Update}

theorem admits_of_isPlain (h : u.isPlain = true) : Admits c i u := by
  cases u with
  | touch | observe | observeParameter | addTemp => trivial
  | observeResult | renameTemp => cases h
  | report address kind =>
      obtain ⟨hmismatch, hnative⟩ := Bool.and_eq_true_iff.1 h
      exact ⟨by simpa using hmismatch, fun hkind => by simp [hkind] at hnative⟩

theorem Admits.isWithinBlock (h : Admits c i u) : u.isWithinBlock = true := by
  cases u with
  | touch | observe | observeResult | observeParameter | addTemp | renameTemp => rfl
  | report => simpa [Update.isWithinBlock] using h.1

theorem Admits.isOrdinary (h : Admits c i u) (hret : i.operation ≠ .ret) :
    u.isOrdinary = true := by
  cases u with
  | touch | observe | observeParameter | addTemp | renameTemp => rfl
  | observeResult => exact absurd h hret
  | report => simpa [Update.isOrdinary] using h.1

end Admits

/-- The store is updated as it is by most instructions. -/
abbrev Plain (c : Context) : Store → Store → Prop :=
  Store.Performs c.current (·.isPlain = true)

/-- The store is updated as it is by an instruction. -/
abbrev Admitted (c : Context) (i : Instruction) : Store → Store → Prop :=
  Store.Performs c.current (Admits c i)

namespace Replay

/-- Does a part of a replay make such changes only, whatever the state is? -/
def Makes (keeps : Store → Store → Prop) (adds : Stmt → Prop) (pushes : Prop) {α : Type}
    (x : Replay α) : Prop :=
  ∀ s : State, Relation.ReflTransGen (Change keeps adds pushes) s (x s).2

namespace Makes

variable {keeps keeps' : Store → Store → Prop} {adds adds' : Stmt → Prop} {pushes pushes' : Prop}
variable {α β : Type} {x : Replay α}

theorem mono (h : Makes keeps adds pushes x) (hkeeps : ∀ s s', keeps s s' → keeps' s s')
    (hadds : ∀ statement, adds statement → adds' statement) (hpushes : pushes → pushes') :
    Makes keeps' adds' pushes' x := by
  intro s
  refine Relation.ReflTransGen.mono (fun a b hab => ?_) _ _ (h s)
  cases hab with
  | store hstore => exact .store (hkeeps _ _ hstore)
  | pop count => exact .pop count
  | push hpush values => exact .push (hpushes hpush) values
  | emit hemit => exact .emit (hadds _ hemit)

theorem bind {f : α → Replay β} (hx : Makes keeps adds pushes x)
    (hf : ∀ a, Makes keeps adds pushes (f a)) : Makes keeps adds pushes (x >>= f) :=
  fun s => (hx s).trans (hf _ _)

/-- A part of which it is known what it returns. -/
theorem bind_of {P : α → Prop} {f : α → Replay β} (hx : Makes keeps adds pushes x)
    (hreturns : ∀ s, P (x s).1) (hf : ∀ a, P a → Makes keeps adds pushes (f a)) :
    Makes keeps adds pushes (x >>= f) :=
  fun s => (hx s).trans (hf _ (hreturns s) _)

/-- Plain updates are among those that every instruction can make. -/
theorem admitted {c : Context} (h : Makes (Plain c) adds pushes x) (i : Instruction) :
    Makes (Admitted c i) adds pushes x :=
  h.mono (fun _ _ hplain => hplain.mono fun _ => admits_of_isPlain) (fun _ hadds => hadds) id

/-- What is known afterwards. -/
theorem keeps_store (h : Makes keeps adds pushes x) (hrefl : ∀ s, keeps s s)
    (htrans : ∀ s s' s'', keeps s s' → keeps s' s'' → keeps s s'') (s : State) :
    keeps s.store (x s).2.store := by
  have hchanges := h s
  generalize (x s).2 = s' at hchanges
  induction hchanges with
  | refl => exact hrefl s.store
  | tail _ hchange ih =>
      cases hchange with
      | store hstore => exact htrans _ _ _ ih hstore
      | pop | push | emit => exact ih

/-- What is added to the statements. -/
theorem exists_added (h : Makes keeps adds pushes x) (s : State) :
    ∃ added, (x s).2.emitted.toList = s.emitted.toList ++ added ∧
      ∀ statement ∈ added, adds statement := by
  have hchanges := h s
  generalize (x s).2 = s' at hchanges
  induction hchanges with
  | refl => exact ⟨[], by simp, by simp⟩
  | tail _ hchange ih =>
      obtain ⟨added, hadded, hall⟩ := ih
      cases hchange with
      | store | pop | push => exact ⟨added, hadded, hall⟩
      | @emit statement hemit =>
          refine ⟨added ++ [statement], by simp [hadded], fun other hother => ?_⟩
          rcases List.mem_append.1 hother with hmem | hmem
          · exact hall other hmem
          · exact List.mem_singleton.1 hmem ▸ hemit

/-- A part that adds no statement. -/
theorem emitted_eq (h : Makes keeps (fun _ => False) pushes x) (s : State) :
    (x s).2.emitted = s.emitted := by
  obtain ⟨added, hadded, hnone⟩ := h.exists_added s
  rw [List.eq_nil_iff_forall_not_mem.2 hnone, List.append_nil] at hadded
  exact Array.toList_inj.1 hadded

/-- What is left of the stack if nothing is put on it. -/
theorem exists_dropped (h : Makes keeps adds False x) (s : State) :
    ∃ count, (x s).2.stack = s.stack.drop count := by
  have hchanges := h s
  generalize (x s).2 = s' at hchanges
  induction hchanges with
  | refl => exact ⟨0, rfl⟩
  | tail _ hchange ih =>
      obtain ⟨count, hcount⟩ := ih
      cases hchange with
      | store | emit => exact ⟨count, hcount⟩
      | pop more => exact ⟨count + more, by rw [hcount, List.drop_drop]⟩
      | push hpush => exact hpush.elim

end Makes

section Parts

variable {keeps : Store → Store → Prop} {adds : Stmt → Prop} {pushes : Prop} {α : Type}
variable (c : Context) (address : Nat)

theorem makes_pure (a : α) : Makes keeps adds pushes (pure a : Replay α) :=
  fun _ => .refl

theorem makes_get : Makes keeps adds pushes (get : Replay State) :=
  fun _ => .refl

theorem makes_modifyStore {change : Store → Store} (h : ∀ s, keeps s (change s)) :
    Makes keeps adds pushes (modifyStore change) :=
  fun s => .single (.store (h s.store))

theorem makes_emit {statement : Stmt} (h : adds statement) :
    Makes keeps adds pushes (emit statement) :=
  fun _ => .single (.emit h)

theorem makes_push (h : pushes) (value : Expr) : Makes keeps adds pushes (push value) :=
  fun _ => .single (.push h [value])

theorem makes_pushAll (h : pushes) (values : List Expr) :
    Makes keeps adds pushes (pushAll values) :=
  fun _ => .single (.push h values.reverse)

theorem makes_scope : Makes keeps adds pushes (scope c) :=
  .bind makes_get fun _ => makes_pure _

theorem makes_typeOf (e : Expr) : Makes keeps adds pushes (typeOf c e) :=
  .bind (makes_scope c) fun _ => makes_pure _

theorem makes_diagnose {kind : DiagnosticKind}
    (hplain : (Update.report address kind).isPlain = true) (hconflict : kind.isConflict = false) :
    Makes (Plain c) adds pushes (diagnose c address kind) :=
  makes_modifyStore fun _ => ⟨.report address kind, hplain, hconflict, rfl⟩

theorem makes_touch (r : VarRef) : Makes (Plain c) adds pushes (touch c r) :=
  makes_modifyStore fun _ => ⟨.touch r, rfl, trivial, rfl⟩

theorem makes_pop : Makes (Plain c) adds pushes (pop c address) := by
  intro s
  cases hstack : s.stack with
  | nil =>
      have hpop : pop c address s =
          (Expr.underflow, (diagnose c address .stackUnderflow s).2) := by
        unfold pop
        simp only [bind_apply, get_apply, hstack]
        rfl
      rw [hpop]
      exact makes_diagnose c address rfl rfl s
  | cons top rest =>
      rw [pop_cons c address hstack]
      have hrest : rest = s.stack.drop 1 := by rw [hstack, List.drop_one, List.tail_cons]
      exact hrest ▸ .single (.pop 1)

theorem makes_peek : Makes (Plain c) adds pushes (peek c address) := by
  refine .bind makes_get fun s => ?_
  split
  · exact makes_pure _
  · exact .bind (makes_diagnose c address rfl rfl) fun _ => makes_pure _

theorem makes_popMany (count : Nat) :
    Makes (Plain c) adds pushes (popMany c address count) := by
  refine .bind makes_get fun s => ?_
  refine .bind (fun s => .single (.pop count)) fun _ => ?_
  split
  · exact .bind (makes_diagnose c address rfl rfl) fun _ => makes_pure _
  · exact makes_pure _

theorem makes_popLength : Makes (Plain c) adds pushes (popLength c address) := by
  refine .bind (makes_pop c address) fun e => ?_
  split
  · exact makes_pure _
  · refine .bind (makes_scope c) fun scope => ?_
    exact .bind (makes_diagnose c address rfl rfl) fun _ => makes_pure _

theorem makes_bound (length limit : Nat) :
    Makes (Plain c) adds pushes (bound c address length limit) := by
  unfold bound
  split
  · exact makes_pure _
  · exact .bind (makes_diagnose c address rfl rfl) fun _ => makes_pure _

variable (s : State) in
/-- Passing down what is known is at most one observation. -/
theorem infer_eq (e : Expr) (ty : Ty) :
    infer c address e ty s = ((), { s with
      store := match e.observed? ty with
        | some (r, seen) => s.store.inferVariable c.current address r seen
        | none => s.store }) := by
  fun_induction infer c address e ty with
  | case1 e ty hunknown =>
      unfold Expr.observed?
      rw [if_pos hunknown]
      rfl
  | case2 ty hknown r =>
      unfold Expr.observed?
      rw [if_neg hknown]
      rfl
  | case3 ty hknown inner ih =>
      unfold Expr.observed?
      rw [if_neg hknown]
      exact ih
  | case4 ty hknown inner ih =>
      unfold Expr.observed?
      rw [if_neg hknown]
      exact ih
  | case5 ty e hknown =>
      unfold Expr.observed?
      rw [if_neg hknown]
      split <;> first | rfl | simp_all

theorem makes_infer (e : Expr) (ty : Ty) :
    Makes (Plain c) adds pushes (infer c address e ty) := by
  intro s
  rw [infer_eq]
  cases e.observed? ty with
  | none => exact .refl
  | some seen => exact .single (.store ⟨.observe address seen.1 seen.2, rfl, trivial, rfl⟩)

theorem makes_assign {dest value : Expr} (h : adds (.assign dest value)) :
    Makes (Plain c) adds pushes (assign c address dest value) := by
  refine .bind (makes_typeOf c value) fun ty => ?_
  exact .bind (makes_infer c address dest ty) fun _ => makes_emit h

end Parts

section Calls

variable {adds : Stmt → Prop} {pushes : Prop} (c : Context) (address : Nat)

/-- What a call pushes: the slots of the temporary that holds its result. -/
def resultSlots (temp : VarRef) (result : Ty) : List Expr :=
  if result.footprint = 0 then []
  else if result.footprint = 1 then [.var temp]
  else result.explode (.var temp) result.footprint

/-- A call without a result is a statement. -/
theorem emitCall_of_eq_zero (name : String) (arguments : List Expr) {result : Ty}
    (h : result.footprint = 0) :
    emitCall c name arguments result = emit (.expr (.call name arguments result)) := by
  unfold emitCall
  dsimp only
  rw [if_pos h]

/-- A call with a result declares a new temporary, and pushes its slots. -/
theorem emitCall_apply (name : String) (arguments : List Expr) {result : Ty}
    (h : result.footprint ≠ 0) (s : State) :
    emitCall c name arguments result s =
      ((), ⟨s.store.modifyFrame c.current (·.addTemp result),
        (resultSlots (.temp (s.store.tempCount c.current)) result).reverse ++ s.stack,
        s.emitted.push (.declare (.temp (s.store.tempCount c.current))
          (.call name arguments result))⟩) := by
  unfold emitCall resultSlots
  by_cases hone : result.footprint = 1
  · simp only [hone, if_true]
    rfl
  · simp only [h, hone, if_false]
    rfl

theorem makes_emitCall (name : String) (arguments : List Expr) (result : Ty) :
    Makes (Plain c) (·.isPlain = true) True (emitCall c name arguments result) := by
  unfold emitCall
  dsimp only
  split
  · exact makes_emit rfl
  · refine .bind makes_get fun s => ?_
    refine .bind (makes_modifyStore fun _ => ⟨.addTemp result, rfl, trivial, rfl⟩) fun _ => ?_
    refine .bind (makes_emit rfl) fun _ => ?_
    split
    · exact makes_push trivial _
    · exact makes_pushAll trivial _

/-- What passing down the type `ty` of an expression makes of the store. -/
def observed (e : Expr) (ty : Ty) (s : Store) : Store :=
  match e.observed? ty with
  | some (r, seen) => s.inferVariable c.current address r seen
  | none => s

/-- What matching an argument with a parameter makes of the store: if nothing is known about
the parameter, it is observed, and otherwise the argument is. -/
def passed (callee index : Nat) (argument : Expr) (s : Store) : Store :=
  match s.frames[callee]?.bind (·.arguments[index]?) with
  | none => s
  | some parameter =>
    if parameter.ty.isUnknown then
      s.observeParameter callee index (argument.typeIn (s.scope c.current))
    else observed c address argument parameter.ty s

variable (s : State) in
theorem passArgument_eq (callee index : Nat) (argument : Expr) :
    passArgument c address callee index argument s =
      ((), { s with store := passed c address callee index argument s.store }) := by
  unfold passArgument passed
  rw [bind_apply, get_apply]
  dsimp only
  cases s.store.frames[callee]?.bind (·.arguments[index]?) with
  | none => rfl
  | some parameter =>
      dsimp only
      by_cases hunknown : parameter.ty.isUnknown = true
      · rw [if_pos hunknown, if_pos hunknown]
        rfl
      · rw [if_neg hunknown, if_neg hunknown]
        exact infer_eq c address s argument parameter.ty

theorem makes_passArgument (callee index : Nat) (argument : Expr) :
    Makes (Plain c) adds pushes (passArgument c address callee index argument) := by
  intro s
  rw [passArgument_eq]
  unfold passed
  cases hparameter : s.store.frames[callee]?.bind (·.arguments[index]?) with
  | none => exact .refl
  | some parameter =>
      dsimp only
      by_cases hunknown : parameter.ty.isUnknown = true
      · rw [if_pos hunknown]
        have hvalid : ∀ ty, (Update.observeParameter callee index ty).Valid s.store :=
          fun _ => ⟨parameter, hparameter, hunknown⟩
        exact .single (.store ⟨_, rfl, hvalid (argument.typeIn (s.store.scope c.current)), rfl⟩)
      · rw [if_neg hunknown]
        have hinfer : Makes (Plain c) adds pushes (infer c address argument parameter.ty) :=
          makes_infer c address argument parameter.ty
        have hstep := hinfer s
        rwa [infer_eq] at hstep

theorem makes_passArguments (callee index : Nat) (arguments : List Expr) :
    Makes (Plain c) adds pushes (passArguments c address callee index arguments) := by
  induction arguments generalizing index with
  | nil => exact makes_pure _
  | cons argument rest ih =>
      exact .bind (makes_passArgument c address callee index argument) fun _ => ih (index + 1)

theorem makes_callFunction (target : Nat) :
    Makes (Plain c) (·.isPlain = true) True (callFunction c address target) := by
  refine .bind makes_get fun s => ?_
  dsimp only
  split
  · exact makes_pure _
  · rename_i callee _
    refine .bind (makes_popMany c address _) fun arguments => ?_
    refine .bind (makes_passArguments c address callee 0 arguments) fun _ => ?_
    refine .bind makes_get fun s => ?_
    split
    · exact makes_pure _
    · exact makes_emitCall c _ _ _

theorem makes_popArguments (parameters : List Native.Parameter) :
    Makes (Plain c) adds pushes (popArguments c address parameters) := by
  induction parameters with
  | nil => exact makes_pure _
  | cons parameter rest ih =>
      refine .bind ih fun later => ?_
      split
      · exact makes_pure _
      · exact .bind (makes_pop c address) fun _ => makes_pure _
      · exact .bind (makes_popMany c address _) fun _ => makes_pure _

/-- What matching arguments with parameters makes: types of variables are observed, and if the
names of the parameters say something, temporaries get them. -/
theorem makes_matchParameters {admits : Update → Prop}
    (hplain : ∀ u : Update, u.isPlain = true → admits u) {rename : Bool}
    {pairs : List (Expr × Native.Parameter)}
    (hnames : rename = true → ∀ pair ∈ pairs, ∀ index, admits (.renameTemp index pair.2.name)) :
    Makes (Store.Performs c.current admits) adds pushes
      (matchParameters c address rename pairs) := by
  induction pairs with
  | nil => exact makes_pure _
  | cons pair rest ih =>
      obtain ⟨argument, parameter⟩ := pair
      have hrest := ih fun hrename pair hpair => hnames hrename pair (List.mem_cons_of_mem _ hpair)
      have hinfer : Makes (Store.Performs c.current admits) adds pushes
          (infer c address argument parameter.ty) :=
        (makes_infer c address argument parameter.ty).mono (fun _ _ h => h.mono hplain)
          (fun _ hadds => hadds) id
      rw [matchParameters]
      refine .bind hinfer fun _ => ?_
      split
      · have hname := hnames rfl _ List.mem_cons_self
        refine .bind (makes_modifyStore fun _ => ⟨.renameTemp _ _, hname _, trivial, rfl⟩) ?_
        exact fun _ => hrest
      · exact hrest

variable {i : Instruction}

theorem makes_signatureFor (hnative : i.operation = .callNative) (hash : UInt64)
    (inSlots outSlots : Nat) :
    Makes (Admitted c i) adds pushes (signatureFor c address hash inSlots outSlots) := by
  have hdiagnose : ∀ kind : DiagnosticKind, kind.isMismatch = false → kind.isConflict = false →
      Makes (Admitted c i) adds pushes (diagnose c address kind) := fun kind hmismatch hconflict =>
    makes_modifyStore fun _ => ⟨.report address kind, ⟨hmismatch, fun _ => hnative⟩, hconflict, rfl⟩
  unfold signatureFor
  dsimp only
  split
  · exact .bind (hdiagnose _ rfl rfl) fun _ => makes_pure _
  · split
    · exact .bind (hdiagnose _ rfl rfl) fun _ => makes_pure _
    · exact makes_pure _

theorem makes_callNative (hnative : i.operation = .callNative) (inSlots outSlots index : Nat) :
    Makes (Admitted c i) (·.isPlain = true) True
      (callNative c address inSlots outSlots index) := by
  unfold callNative
  split
  · exact makes_pure _
  · refine .bind_of (P := fun found => found.2 = true → ∀ parameter ∈ found.1.parameters,
        c.natives.Names parameter.name) (makes_signatureFor c address hnative _ inSlots outSlots)
      (fun s => names_signatureFor c address _ inSlots outSlots s) fun found hnames => ?_
    refine .bind ((makes_popArguments c address _).admitted i) fun arguments => ?_
    refine .bind (makes_matchParameters c address (fun _ => admits_of_isPlain)
      fun hrename pair hpair _ => ⟨hnative, ?_⟩) fun _ => ?_
    · exact hnames hrename _ (List.mem_filter.1 (List.of_mem_zip hpair).2).1
    · exact (makes_emitCall c _ _ _).admitted i

variable (s : State) in
/-- Observing a result is one update. -/
theorem inferResult_eq (ty : Ty) :
    inferResult c address ty s =
      ((), { s with store := s.store.observeResult c.current address ty }) := by
  unfold inferResult Store.observeResult
  rw [bind_apply, get_apply]
  dsimp only
  cases s.store.frames[c.current]? with
  | none => rfl
  | some frame =>
      dsimp only
      cases (frame.result.infer ty).2 <;> rfl

theorem makes_inferResult (hret : i.operation = .ret) (ty : Ty) :
    Makes (Admitted c i) adds pushes (inferResult c address ty) := by
  intro s
  rw [inferResult_eq]
  exact .single (.store ⟨.observeResult address ty, hret, trivial, rfl⟩)

theorem makes_returnValues (hret : i.operation = .ret) (values : Nat) :
    Makes (Admitted c i) (·.isPlain = true) pushes (returnValues c address values) := by
  unfold returnValues
  split
  · exact .bind (makes_inferResult c address hret .void) fun _ => makes_emit rfl
  · refine .bind ((makes_pop c address).admitted i) fun value => ?_
    refine .bind (makes_typeOf c value) fun ty => ?_
    exact .bind (makes_inferResult c address hret ty) fun _ => makes_emit rfl

end Calls

section Instructions

variable {adds : Stmt → Prop} {pushes : Prop} (c : Context) (i : Instruction)

theorem makes_pushString (h : pushes) (address : Nat) :
    Makes (Plain c) adds pushes (pushString c address) := by
  refine .bind (makes_pop c address) fun offset => ?_
  dsimp only
  split <;> exact makes_push h _

theorem makes_applyUnary (h : pushes) (op : UnaryOp) :
    Makes (Plain c) adds pushes (applyUnary c i op) :=
  .bind (makes_popMany c i.address i.lanes) fun _ => makes_pushAll h _

theorem makes_applyBinary (h : pushes) (op : BinaryOp) :
    Makes (Plain c) adds pushes (applyBinary c i op) := by
  unfold applyBinary
  split
  · exact .bind (makes_pop c i.address) fun _ => makes_push h _
  · refine .bind (makes_popMany c i.address i.lanes) fun rhs => ?_
    exact .bind (makes_popMany c i.address i.lanes) fun lhs => makes_pushAll h _

theorem makes_convert (h : pushes) (address : Nat) (ty : Ty) :
    Makes (Plain c) adds pushes (convert c address ty) :=
  .bind (makes_pop c address) fun _ => makes_push h _

theorem makes_loadVariable (h : pushes) (r : VarRef) (address : Bool) :
    Makes (Plain c) adds pushes (loadVariable c r address) :=
  .bind (makes_touch c r) fun _ => makes_push h _

theorem makes_storeVariable (h : ∀ dest value, adds (.assign dest value)) (address : Nat)
    (r : VarRef) : Makes (Plain c) adds pushes (storeVariable c address r) := by
  refine .bind (makes_touch c r) fun _ => ?_
  exact .bind (makes_pop c address) fun value => makes_assign c address (h _ value)

theorem makes_popField : Makes (Plain c) adds pushes (popField c i) := by
  refine .bind (makes_pop c i.address) fun base => ?_
  refine .bind (makes_typeOf c base) fun ty => ?_
  split <;> exact makes_pure _

theorem makes_popElement (address : Nat) :
    Makes (Plain c) adds pushes (popElement c address) := by
  refine .bind (makes_pop c address) fun array => ?_
  exact .bind (makes_pop c address) fun index => makes_pure _

theorem makes_implode (h : ∀ dest value, adds (.assign dest value)) (address : Nat) :
    Makes (Plain c) adds pushes (implode c address) := by
  refine .bind (makes_pop c address) fun dest => ?_
  refine .bind (makes_popLength c address) fun length => ?_
  split
  · exact makes_pure _
  · refine .bind makes_get fun s => ?_
    refine .bind (makes_bound c address _ _) fun count => ?_
    refine .bind (makes_popMany c address count) fun values => ?_
    have hrest : ∀ element : Ty, Makes (Plain c) adds pushes (do
        infer c address dest (.pointer (.array element count))
        emit (.assign dest.dereference (.arrayLiteral values))) := fun element =>
      .bind (makes_infer c address dest _) fun _ => makes_emit (h _ _)
    split
    · exact .bind (makes_pure _) hrest
    · exact .bind (makes_typeOf c _) hrest

theorem makes_explode (h : pushes) (address : Nat) :
    Makes (Plain c) adds pushes (explode c address) := by
  refine .bind (makes_pop c address) fun source => ?_
  refine .bind (makes_popLength c address) fun length => ?_
  split
  · exact makes_pure _
  · refine .bind (makes_bound c address _ _) fun count => ?_
    refine .bind (makes_typeOf c source) fun known => ?_
    have hrest : Makes (Plain c) adds pushes
        (do pushAll ((← typeOf c source).explode source count)) :=
      .bind (makes_typeOf c source) fun _ => makes_pushAll h _
    split
    · exact .bind (makes_infer c address source _) fun _ => hrest
    · exact hrest

theorem makes_branchOn (h : ∀ condition target, i.branchTarget? = some target →
      adds (.ifGoto condition target i.nextAddress)) (op : BinaryOp) :
    Makes (Plain c) adds pushes (branchOn c i op) := by
  refine .bind (makes_pop c i.address) fun rhs => ?_
  refine .bind (makes_pop c i.address) fun lhs => ?_
  split
  · rename_i target htarget
    exact makes_emit (h _ target htarget)
  · exact makes_pure _

theorem makes_textOperation :
    Makes (Plain c) (·.isPlain = true) pushes (textOperation c i) := by
  refine .bind (makes_pop c i.address) fun dest => ?_
  exact .bind (makes_pop c i.address) fun source => makes_emit rfl

end Instructions

end Replay

/-- Does the operation take a value off the stack and store it? -/
def stores : Operation → Bool
  | .localStore | .staticStore | .globalStore | .fieldStore | .arrayStore => true
  | .store | .storeKeep | .implode => true
  | _ => false

/-- Can an instruction add this statement? -/
def Adds (i : Instruction) : Stmt → Prop
  | .assign _ _ => stores i.operation = true
  | .ifGoto _ target fallthrough =>
    i.operation.isConditionalBranch = true ∧ i.branchTarget? = some target ∧
      fallthrough = i.nextAddress
  | .goto target => i.operation = .branch ∧ i.branchTarget? = some target
  | .switch _ cases => i.operation = .switch ∧ i.operand = .switch cases
  | _ => True

theorem adds_of_isPlain (i : Instruction) {statement : Stmt} (h : statement.isPlain = true) :
    Adds i statement := by
  cases statement <;> trivial

namespace Replay

variable (c : Context) (i : Instruction)

/-- A part that adds plain statements, as part of an instruction. -/
theorem Makes.plain {keeps : Store → Store → Prop} {pushes pushes' : Prop} {α : Type}
    {x : Replay α} (h : Makes keeps (·.isPlain = true) pushes x) (hpushes : pushes → pushes') :
    Makes keeps (Adds i) pushes' x :=
  h.mono (fun _ _ hkeeps => hkeeps) (fun _ hplain => adds_of_isPlain i hplain) hpushes

/-- Every instruction but returns and native calls. -/
theorem makes_step_plain (hret : i.operation ≠ .ret) (hnative : i.operation ≠ .callNative) :
    Makes (Plain c) (Adds i) (stores i.operation = false) (step c i) := by
  have hbranch : i.operation.isConditionalBranch = true → ∀ condition target,
      i.branchTarget? = some target → Adds i (.ifGoto condition target i.nextAddress) :=
    fun hconditional _ _ htarget => ⟨hconditional, htarget, rfl⟩
  unfold step
  cases hop : i.operation <;> dsimp only
  case nop | enter => exact makes_pure _
  case push => exact makes_pushAll rfl _
  case pushString => exact makes_pushString c rfl i.address
  case dup => exact .bind (makes_peek c i.address) fun _ => makes_push rfl _
  case drop => exact .bind (makes_pop c i.address) fun _ => makes_pure _
  case not | neg => exact makes_applyUnary c i rfl _
  case add | sub | mul | div | mod | and | or | xor => exact makes_applyBinary c i rfl _
  case compareEq | compareNe | compareGt | compareGe | compareLt | compareLe =>
    exact makes_applyBinary c i rfl _
  case intToFloat | floatToInt => exact makes_convert c rfl i.address _
  case localLoad | staticLoad | globalLoad | localAddress | staticAddress | globalAddress =>
    exact makes_loadVariable c rfl _ _
  case fieldLoad | fieldAddress => exact .bind (makes_popField c i) fun _ => makes_push rfl _
  case arrayLoad | arrayAddress =>
    exact .bind (makes_popElement c i.address) fun _ => makes_push rfl _
  case load => exact .bind (makes_pop c i.address) fun _ => makes_push rfl _
  case localStore | staticStore | globalStore =>
    exact makes_storeVariable c (fun _ _ => by rw [Adds, hop]; rfl) i.address _
  case fieldStore =>
    refine .bind (makes_popField c i) fun dest => .bind (makes_pop c i.address) fun value => ?_
    exact makes_assign c i.address (by rw [Adds, hop]; rfl)
  case arrayStore =>
    refine .bind (makes_popElement c i.address) fun dest => ?_
    exact .bind (makes_pop c i.address) fun value =>
      makes_assign c i.address (by rw [Adds, hop]; rfl)
  case store =>
    refine .bind (makes_pop c i.address) fun dest => .bind (makes_pop c i.address) fun value => ?_
    exact makes_assign c i.address (by rw [Adds, hop]; rfl)
  case storeKeep =>
    refine .bind (makes_pop c i.address) fun value => .bind (makes_peek c i.address) fun dest => ?_
    exact makes_assign c i.address (by rw [Adds, hop]; rfl)
  case implode => exact makes_implode c (fun _ _ => by rw [Adds, hop]; rfl) i.address
  case explode => exact makes_explode c rfl i.address
  case call =>
    split
    · exact (makes_callFunction c i.address _).plain i fun _ => rfl
    · exact makes_pure _
  case callNative => exact absurd hop hnative
  case ret => exact absurd hop hret
  case branch =>
    split
    · rename_i target htarget
      exact makes_emit ⟨hop, htarget⟩
    · exact makes_pure _
  case branchZero =>
    refine .bind (makes_pop c i.address) fun condition => ?_
    split
    · rename_i target htarget
      exact makes_emit (hbranch (by rw [hop]; rfl) _ target htarget)
    · exact makes_pure _
  case branchNe | branchEq | branchGt | branchGe | branchLt | branchLe =>
    exact makes_branchOn c i (hbranch (by rw [hop]; rfl)) _
  case switch =>
    refine .bind (makes_pop c i.address) fun value => ?_
    split
    · rename_i cases hcases
      exact makes_emit ⟨hop, hcases⟩
    · exact makes_pure _
  case stringCopy | intToString | appendString | appendInt =>
    exact (makes_textOperation c i).plain i id
  case unknown =>
    exact .bind (makes_diagnose c i.address rfl rfl) fun _ => makes_emit trivial
  case memoryCopy | catchOp | throwOp | callPointer => exact makes_emit trivial

/-- One instruction. -/
theorem makes_step : Makes (Admitted c i) (Adds i) (stores i.operation = false) (step c i) := by
  by_cases hret : i.operation = .ret
  · have hreturn : ∀ values, Makes (Admitted c i) (Adds i) (stores i.operation = false)
        (returnValues c i.address values) :=
      fun values => (makes_returnValues c i.address hret values).plain i id
    unfold step
    simp only [hret] at hreturn ⊢
    cases i.operand <;> exact hreturn _
  · by_cases hnative : i.operation = .callNative
    · have hcall : ∀ inSlots outSlots index, Makes (Admitted c i) (Adds i)
          (stores i.operation = false) (callNative c i.address inSlots outSlots index) :=
        fun inSlots outSlots index =>
          (makes_callNative c i.address hnative inSlots outSlots index).plain i
            fun _ => by rw [hnative]; rfl
      unfold step
      simp only [hnative] at hcall ⊢
      split
      · exact hcall _ _ _
      · exact makes_pure _
    · exact (makes_step_plain c i hret hnative).admitted i

end Replay

/-- The statements that replaying an instruction adds. -/
def added (c : Context) (i : Instruction) (s : State) : List Stmt :=
  (replayInstruction c i s).2.emitted.toList.drop s.emitted.size

section Added

variable (c : Context) {i : Instruction}

/-- What is added is the comment and what the instruction itself adds. -/
theorem added_eq {s : State} {new : List Stmt}
    (h : (Replay.step c i { s with emitted := s.emitted ++ comments c [i] }).2.emitted.toList =
      (s.emitted ++ comments c [i]).toList ++ new) :
    added c i s = (comments c [i]).toList ++ new := by
  unfold added
  rw [replayInstruction_apply, h, Array.toList_append, List.append_assoc,
    ← Array.length_toList, List.drop_left]

variable (i) in
theorem emitted_replayInstruction (s : State) :
    (replayInstruction c i s).2.emitted.toList = s.emitted.toList ++ added c i s := by
  obtain ⟨new, hnew, -⟩ := (Replay.makes_step c i).exists_added
    { s with emitted := s.emitted ++ comments c [i] }
  rw [added_eq c hnew, replayInstruction_apply, hnew, Array.toList_append, List.append_assoc]

theorem adds_of_mem_added {s : State} {statement : Stmt} (h : statement ∈ added c i s) :
    Adds i statement := by
  obtain ⟨new, hnew, hadds⟩ := (Replay.makes_step c i).exists_added
    { s with emitted := s.emitted ++ comments c [i] }
  rw [added_eq c hnew] at h
  rcases List.mem_append.1 h with hmem | hmem
  · unfold comments at hmem
    split at hmem <;> simp [instructionComment] at hmem
    exact hmem ▸ trivial
  · exact hadds statement hmem

/-- An instruction that stores leaves a part of the stack as it is, and nothing else. -/
theorem exists_dropped_of_stores (h : stores i.operation = true) (s : State) :
    ∃ count, (replayInstruction c i s).2.stack = s.stack.drop count := by
  have hmakes : Replay.Makes (Admitted c i) (Adds i) False (Replay.step c i) :=
    (Replay.makes_step c i).mono (fun _ _ hkeeps => hkeeps) (fun _ hadds => hadds)
      (by simp [h])
  rw [replayInstruction_apply]
  exact hmakes.exists_dropped _

end Added

end Machine

end ScriptDecompiler
