import ScriptDecompiler.Proofs.Expr.Slots
import ScriptDecompiler.Proofs.Machine.NativeFootprint
import ScriptDecompiler.Proofs.Native.Loaded
import ScriptDecompiler.Proofs.Store.Confinement

/-!
# Confining the types that a replay makes

A replay comes by types in few ways.  It has some of its own, for constants, conversions and
blocks of values; signatures bring in others; and from a type it takes what a pointer points to,
an element, a field, or a pointer to it.  A set of types that is closed under all this confines
everything that is replayed: the types of variables stay in it, and so do those of the values
on the stack.

There is one exception.  An implode makes an array of whatever type its first value has, and
nothing bounds what comes of that.  So this array is asked about separately, at each implode.
-/

namespace ScriptDecompiler

open ScriptDecompiler.Machine (maxExplodeSlots)

/-- Is a set of types closed under all that a replay makes of types, arrays of imploded values
apart? -/
structure Ty.Closed (P : Ty → Prop) : Prop where
  void : P .void
  scalar : ∀ name, P (.scalar name)
  vector3 : P .vector3
  block : ∀ length ≤ maxExplodeSlots, P (.array .unknown length)
  pointer_iff : ∀ target, P (.pointer target) ↔ P target
  element : ∀ element length, P (.array element length) → P element
  field : ∀ name fields, P (.struct name fields) → ∀ field ty, fields.type? field = some ty → P ty

/-- Is an array that satisfies `Q`, with elements of the types `P`, one of them itself? -/
def Ty.AdmitsArrays (P Q : Ty → Prop) : Prop :=
  ∀ element length, P element → Q (.array element length) → P (.array element length)

namespace Ty.Closed

variable {P : Ty → Prop} (hP : Ty.Closed P)
include hP

theorem unknown : P .unknown :=
  hP.scalar _

theorem guess {length : Nat} (h : length ≤ maxExplodeSlots) : P (.guess length) := by
  unfold Ty.guess
  split
  · exact hP.void
  · exact hP.unknown
  · exact hP.vector3
  · exact hP.block length h

theorem pointee? {ty target : Ty} (hty : P ty) (h : ty.pointee? = some target) : P target := by
  cases ty with
  | pointer inner =>
      cases h
      exact (hP.pointer_iff target).1 hty
  | void | scalar | array | struct => cases h

theorem throughPointer {ty : Ty} (hty : P ty) : P ty.throughPointer := by
  cases ty with
  | pointer target => exact (hP.pointer_iff target).1 hty
  | void | scalar | array | struct => exact hty

/-- What is observed of the variable below address-of and dereference nodes. -/
theorem observed? {e : Expr} {ty seen : Ty} {r : VarRef} (hty : P ty)
    (h : e.observed? ty = some (r, seen)) : P seen := by
  fun_induction Expr.observed? e ty with
  | case1 => cases h
  | case2 =>
      cases h
      exact hty
  | case3 ty _ inner ih => exact ih (hP.throughPointer hty) h
  | case4 ty _ inner ih => exact ih ((hP.pointer_iff ty).2 hty) h
  | case5 => cases h

end Ty.Closed

namespace Expr

/-- Is the expression made up without calls and array literals, and are the types that it
converts to among the types `P`?  Such expressions stand on the operand stack. -/
def Confined (P : Ty → Prop) : Expr → Prop
  | literal _ | var _ | underflow => True
  | addressOf inner | deref inner | field inner _ | unary _ inner => inner.Confined P
  | index base i => base.Confined P ∧ i.Confined P
  | binary _ lhs rhs => lhs.Confined P ∧ rhs.Confined P
  | cast ty inner => P ty ∧ inner.Confined P
  | call .. | arrayLiteral _ => False

/-- The values that an argument, or what is assigned, is put together from. -/
def operands : Expr → List Expr
  | arrayLiteral elements => elements
  | e => [e]

variable {P : Ty → Prop}

/-- The type of an expression is among the types that confine it and the variables. -/
theorem Confined.typeIn (hP : Ty.Closed P) {scope : Scope}
    (hscope : ∀ r v, scope.get? r = some v → P v.ty) :
    {e : Expr} → e.Confined P → P (e.typeIn scope)
  | literal (.int _), _ | literal (.float _), _ | literal (.string _), _ => hP.scalar _
  | underflow, _ | unary .not _, _ => hP.scalar _
  | var r, _ => by
      rw [Expr.typeIn]
      split
      · exact hscope r _ ‹_›
      · exact hP.unknown
  | addressOf inner, h => (hP.pointer_iff _).2 (Confined.typeIn hP hscope (e := inner) h)
  | deref inner, h => by
      have hinner : P (inner.typeIn scope) := Confined.typeIn hP hscope h
      rw [Expr.typeIn]
      cases htarget : (inner.typeIn scope).pointee? with
      | none => exact hP.unknown
      | some target => exact hP.pointee? hinner htarget
  | field base name, h => by
      have hbase : P (base.typeIn scope).throughPointer :=
        hP.throughPointer (Confined.typeIn hP hscope (e := base) h)
      rw [Expr.typeIn]
      split
      · rename_i struct fields hstruct
        rw [hstruct] at hbase
        cases hfield : fields.type? name with
        | none => exact hP.unknown
        | some ty => exact hP.field struct fields hbase name ty hfield
      · exact hP.unknown
  | index base i, h => by
      have hbase : P (base.typeIn scope).throughPointer :=
        hP.throughPointer (Confined.typeIn hP hscope h.1)
      rw [Expr.typeIn]
      split
      · rename_i element length harray
        rw [harray] at hbase
        exact hP.element element length hbase
      · exact hP.unknown
  | binary op lhs rhs, h => by
      rw [Expr.typeIn]
      split
      · exact hP.scalar _
      · dsimp only
        split
        · exact Confined.typeIn hP hscope h.2
        · exact Confined.typeIn hP hscope h.1
  | unary .neg inner, h => Confined.typeIn hP hscope (e := inner) h
  | cast _ _, h => h.1

/-- The array of confined values is admitted. -/
theorem Confined.arrayLiteral (hP : Ty.Closed P) {Q : Ty → Prop} (hQ : Ty.AdmitsArrays P Q)
    {scope : Scope} (hscope : ∀ r v, scope.get? r = some v → P v.ty) {values : List Expr}
    (hvalues : ∀ e ∈ values, e.Confined P) (h : Q ((Expr.arrayLiteral values).typeIn scope)) :
    P ((Expr.arrayLiteral values).typeIn scope) := by
  cases values with
  | nil => exact hQ _ _ hP.unknown h
  | cons first rest => exact hQ _ _ ((hvalues first List.mem_cons_self).typeIn hP hscope) h

theorem Confined.dereference {e : Expr} (h : e.Confined P) : e.dereference.Confined P := by
  cases e <;> exact h

theorem Confined.negate {e : Expr} (h : e.Confined P) : e.negate.Confined P := by
  unfold Expr.negate
  split
  · split <;> exact h
  · exact h
  · exact h

/-- A field or an element, or one of these. -/
theorem Confined.selected {base e : Expr} (h : base.Confined P)
    (hselected : Relation.TransGen Selection base e) : e.Confined P := by
  have hstep : ∀ {base e : Expr}, Selection base e → base.Confined P → e.Confined P := by
    intro base e hselection hbase
    cases hselection with
    | field => exact hbase
    | element => exact ⟨hbase, trivial⟩
  induction hselected with
  | single hselection => exact hstep hselection h
  | tail _ hselection ih => exact hstep hselection ih

theorem Confined.explode {base : Expr} (h : base.Confined P) (ty : Ty) (count : Nat) :
    ∀ e ∈ ty.explode base count, e.Confined P := by
  intro e he
  rcases Ty.mem_explode he with ⟨rfl, -⟩ | hselected | ⟨elements, rfl, -⟩
  · exact h
  · exact h.selected hselected
  · exact h.elim

/-- A value by itself. -/
theorem Confined.operands {e : Expr} (h : e.Confined P) :
    ∀ operand ∈ e.operands, operand.Confined P := by
  cases e with
  | arrayLiteral => exact h.elim
  | _ => exact List.forall_mem_singleton.2 h

/-- Values by themselves. -/
theorem confined_operands {es : List Expr} (h : ∀ e ∈ es, e.Confined P) :
    ∀ e ∈ es.flatMap Expr.operands, e.Confined P := by
  intro e he
  obtain ⟨argument, hargument, hoperand⟩ := List.mem_flatMap.1 he
  exact (h argument hargument).operands e hoperand

end Expr

/-- The values that a statement is put together from. -/
def Stmt.operands : Stmt → List Expr
  | assign dest value => dest :: value.operands
  | declare _ (.call _ arguments _) | expr (.call _ arguments _) =>
    arguments.flatMap Expr.operands
  | declare _ e | expr e | ret (some e) | ifGoto e _ _ | switch e _ => [e]
  | ret none | goto _ | asm _ | comment _ => []

/-- Are the values that a statement is put together from confined? -/
def Stmt.Confined (P : Ty → Prop) (statement : Stmt) : Prop :=
  ∀ e ∈ statement.operands, e.Confined P

/-- Are the types of a signature among the types `P`? -/
structure Native.Signature.Confined (P : Ty → Prop) (signature : Signature) : Prop where
  parameters : ∀ parameter ∈ signature.parameters, P parameter.ty
  result : P signature.result

/-- A signature that is made up from a call site has types of blocks. -/
theorem Native.Signature.confined_synthesize {P : Ty → Prop} (hP : Ty.Closed P) (name : String)
    (inSlots : Nat) {outSlots : Nat} (h : outSlots ≤ maxExplodeSlots) :
    (synthesize name inSlots outSlots).Confined P := by
  refine ⟨fun parameter hparameter => ?_, ?_⟩
  · obtain ⟨i, -, rfl⟩ := List.mem_map.1 hparameter
    exact hP.unknown
  · unfold synthesize
    dsimp only
    split
    · exact hP.void
    · exact hP.unknown
    · exact hP.block _ h

/-- Does a native call push no more slots than an explode may? -/
def Bytecode.Instruction.PushesBlock (i : Instruction) : Prop :=
  ∀ inSlots outSlots index, i.operand = .native inSlots outSlots index → outSlots ≤ maxExplodeSlots

namespace Machine

open ScriptDecompiler.Bytecode (Instruction Operand opcodeInfo)

-- The opcode table is too large to be unfolded whenever terms are compared.
attribute [local irreducible] opcodeInfo

/-- Are the types of variables among the types `P`, and everything on the stack and in statements
confined to them? -/
structure State.Confined (P : Ty → Prop) (s : State) : Prop where
  store : s.store.Confined P
  stack : ∀ e ∈ s.stack, e.Confined P
  emitted : ∀ statement ∈ s.emitted, statement.Confined P

variable {P : Ty → Prop}

theorem State.Confined.scope {s : State} (h : s.Confined P) (current : Nat) (r : VarRef)
    (v : Variable) (hv : (s.store.scope current).get? r = some v) : P v.ty :=
  h.store.get? hv

namespace Replay

/-- Does a part of a replay leave a state confined, and return what `gives` says? -/
def Confines (P : Ty → Prop) {α : Type} (x : Replay α) (gives : α → Prop) : Prop :=
  ∀ s : State, s.Confined P → (x s).2.Confined P ∧ gives (x s).1

/-- A value of which nothing is asked. -/
abbrev anything {α : Type} : α → Prop :=
  fun _ => True

section Rules

variable {α β : Type} {x : Replay α} {gives : α → Prop} {gives' : β → Prop}

theorem Confines.bind {f : α → Replay β} (hx : Confines P x gives)
    (hf : ∀ a, gives a → Confines P (f a) gives') : Confines P (x >>= f) gives' :=
  fun s hs => hf _ (hx s hs).2 _ (hx s hs).1

/-- A part of whose value nothing is asked, and then another one. -/
theorem Confines.next {f : α → Replay β} (hx : Confines P x anything)
    (hf : ∀ a, Confines P (f a) gives') : Confines P (x >>= f) gives' :=
  hx.bind fun a _ => hf a

/-- Looking at the state. -/
theorem Confines.look {f : State → Replay β}
    (hf : ∀ s, s.Confined P → Confines P (f s) gives') : Confines P (get >>= f) gives' :=
  fun s hs => hf s hs s hs

theorem confines_pure {a : α} (h : gives a) : Confines P (pure a) gives :=
  fun _ hs => ⟨hs, h⟩

/-- A part that changes the store only. -/
theorem confines_store {x : Replay Unit} (change : Store → Store)
    (hx : ∀ s, x s = ((), { s with store := change s.store }))
    (h : ∀ s : Store, s.Confined P → (change s).Confined P) : Confines P x anything := by
  intro s hs
  rw [hx]
  exact ⟨⟨h s.store hs.store, hs.stack, hs.emitted⟩, trivial⟩

theorem confines_emit {statement : Stmt} (h : statement.Confined P) :
    Confines P (emit statement) anything := by
  refine fun s hs => ⟨⟨hs.store, hs.stack, fun other hother => ?_⟩, trivial⟩
  rcases Array.mem_push.1 hother with hold | rfl
  · exact hs.emitted other hold
  · exact h

theorem confines_pushAll {values : List Expr} (h : ∀ e ∈ values, e.Confined P) :
    Confines P (pushAll values) anything := by
  refine fun s hs => ⟨⟨hs.store, fun e he => ?_, hs.emitted⟩, trivial⟩
  rcases List.mem_append.1 he with hnew | hold
  · exact h e (List.mem_reverse.1 hnew)
  · exact hs.stack e hold

theorem confines_push {value : Expr} (h : value.Confined P) :
    Confines P (push value) anything :=
  confines_pushAll (List.forall_mem_singleton.2 h)

end Rules

section Parts

variable (hP : Ty.Closed P) (c : Context) (address : Nat)

theorem confines_diagnose (kind : DiagnosticKind) :
    Confines P (diagnose c address kind) anything :=
  confines_store _ (fun _ => rfl) fun _ hs => hs.diagnose c.current address kind

theorem confines_scope : Confines P (scope c) anything :=
  .look fun _ _ => confines_pure trivial

theorem confines_pop : Confines P (pop c address) (Expr.Confined P) := by
  intro s hs
  obtain ⟨store, stack, emitted⟩ := s
  cases stack with
  | nil => exact ⟨(confines_diagnose c address _ _ hs).1, trivial⟩
  | cons top rest =>
      obtain ⟨htop, hrest⟩ := List.forall_mem_cons.1 hs.stack
      exact ⟨⟨hs.store, hrest, hs.emitted⟩, htop⟩

theorem confines_peek : Confines P (peek c address) (Expr.Confined P) := by
  intro s hs
  obtain ⟨store, stack, emitted⟩ := s
  cases stack with
  | nil => exact ⟨(confines_diagnose c address _ _ hs).1, trivial⟩
  | cons top rest => exact ⟨hs, (List.forall_mem_cons.1 hs.stack).1⟩

theorem confines_popMany (count : Nat) :
    Confines P (popMany c address count) fun values => ∀ e ∈ values, e.Confined P := by
  intro s hs
  rw [popMany_apply]
  refine ⟨⟨?_, fun e he => hs.stack e (List.mem_of_mem_drop he), hs.emitted⟩, fun e he => ?_⟩
  · dsimp only
    split
    · exact hs.store.diagnose c.current address _
    · exact hs.store
  · rcases List.mem_append.1 he with hmissing | hthere
    · rw [List.eq_of_mem_replicate hmissing]
      trivial
    · exact hs.stack e (List.mem_of_mem_take (List.mem_reverse.1 hthere))

theorem confines_popLength : Confines P (popLength c address) anything := by
  refine .bind (confines_pop c address) fun e _ => ?_
  split
  · exact confines_pure trivial
  · refine .next (confines_scope c) fun scope => ?_
    exact .next (confines_diagnose c address _) fun _ => confines_pure trivial

theorem confines_bound (length limit : Nat) :
    Confines P (bound c address length limit) (· ≤ limit) := by
  unfold bound
  split
  · exact confines_pure ‹_›
  · exact .next (confines_diagnose c address _) fun _ => confines_pure (Nat.le_refl limit)

include hP

theorem confines_touch (r : VarRef) : Confines P (touch c r) anything :=
  confines_store _ (fun _ => rfl) fun _ hs => hs.touch hP.unknown r

theorem confines_typeOf {e : Expr} (h : e.Confined P) : Confines P (typeOf c e) P :=
  fun _ hs => ⟨hs, h.typeIn hP (hs.scope c.current)⟩

theorem confined_observed {s : Store} (hs : s.Confined P) (e : Expr) {ty : Ty} (hty : P ty) :
    (observed c address e ty s).Confined P := by
  unfold observed
  split
  · rename_i r seen hseen
    exact hs.inferVariable hP.unknown (hP.observed? hty hseen) address r
  · exact hs

theorem confines_infer (e : Expr) {ty : Ty} (hty : P ty) :
    Confines P (infer c address e ty) anything :=
  confines_store (observed c address e ty) (fun s => infer_eq c address s e ty)
    fun _ hs => confined_observed hP c address hs e hty

theorem confines_assign {dest value : Expr} (hdest : dest.Confined P) (hvalue : value.Confined P) :
    Confines P (assign c address dest value) anything := by
  refine .bind (confines_typeOf hP c hvalue) fun ty hty => ?_
  refine .next (confines_infer hP c address dest hty) fun _ => confines_emit ?_
  exact List.forall_mem_cons.2 ⟨hdest, hvalue.operands⟩

end Parts

section Calls

variable (hP : Ty.Closed P) (c : Context) (address : Nat)

theorem confined_resultSlots (temp : VarRef) (result : Ty) :
    ∀ e ∈ resultSlots temp result, e.Confined P := by
  have htemp : (Expr.var temp).Confined P := trivial
  unfold resultSlots
  split
  · exact List.forall_mem_nil _
  · split
    · exact List.forall_mem_singleton.2 htemp
    · exact htemp.explode result result.footprint

theorem confines_emitCall (name : String) {arguments : List Expr} {result : Ty} (hresult : P result)
    (harguments : ∀ e ∈ arguments.flatMap Expr.operands, e.Confined P) :
    Confines P (emitCall c name arguments result) anything := by
  by_cases hzero : result.footprint = 0
  · rw [emitCall_of_eq_zero c name arguments hzero]
    exact confines_emit harguments
  · intro s hs
    have hdeclaration : Stmt.Confined P
        (.declare (.temp (s.store.tempCount c.current)) (.call name arguments result)) := harguments
    have hemitted := (confines_emit hdeclaration s hs).1.emitted
    rw [emitCall_apply c name arguments hzero]
    refine ⟨⟨?_, fun e he => ?_, hemitted⟩, trivial⟩
    · exact hs.store.modifyFrame fun f hf => (hs.store.frame hf).addTemp hresult
    · rcases List.mem_append.1 he with hnew | hold
      · exact confined_resultSlots _ result e (List.mem_reverse.1 hnew)
      · exact hs.stack e hold

include hP

theorem confines_passArgument (callee index : Nat) {argument : Expr} (h : argument.Confined P) :
    Confines P (passArgument c address callee index argument) anything := by
  refine confines_store _ (fun s => passArgument_eq c address s callee index argument)
    fun s hs => ?_
  unfold passed
  split
  · exact hs
  · rename_i parameter hparameter
    obtain ⟨f, hf, hposition⟩ := Option.bind_eq_some_iff.1 hparameter
    split
    · have hty : P (argument.typeIn (s.scope c.current)) := h.typeIn hP fun r v hv => hs.get? hv
      exact hs.modifyFrame fun f hf => (hs.frame hf).modifyArgument hty index
    · exact confined_observed hP c address hs argument
        (hs.frame hf (.argument index) parameter hposition)

theorem confines_passArguments (callee index : Nat) {arguments : List Expr}
    (h : ∀ e ∈ arguments, e.Confined P) :
    Confines P (passArguments c address callee index arguments) anything := by
  induction arguments generalizing index with
  | nil => exact confines_pure trivial
  | cons argument rest ih =>
      obtain ⟨hfirst, hrest⟩ := List.forall_mem_cons.1 h
      exact .next (confines_passArgument hP c address callee index hfirst) fun _ =>
        ih (index + 1) hrest

theorem confines_callFunction (target : Nat) :
    Confines P (callFunction c address target) anything := by
  refine .look fun s _ => ?_
  dsimp only
  split
  · exact confines_pure trivial
  · rename_i callee _
    refine .bind (confines_popMany c address _) fun arguments harguments => ?_
    refine .next (confines_passArguments hP c address callee 0 harguments) fun _ => ?_
    refine .look fun s hs => ?_
    split
    · exact confines_pure trivial
    · rename_i frame hframe
      exact confines_emitCall c frame.name (hs.store.frame hframe .result _ rfl)
        (Expr.confined_operands harguments)

omit hP in
theorem confines_popArguments (parameters : List Native.Parameter) :
    Confines P (popArguments c address parameters) fun arguments =>
      ∀ e ∈ arguments.flatMap Expr.operands, e.Confined P := by
  induction parameters with
  | nil => exact confines_pure (List.forall_mem_nil _)
  | cons parameter rest ih =>
      refine .bind ih fun later hlater => ?_
      split
      · exact confines_pure hlater
      · refine .bind (confines_pop c address) fun value hvalue => confines_pure ?_
        rw [List.flatMap_cons]
        exact List.forall_mem_append.2 ⟨hvalue.operands, hlater⟩
      · refine .bind (confines_popMany c address _) fun values hvalues => confines_pure ?_
        rw [List.flatMap_cons]
        exact List.forall_mem_append.2 ⟨hvalues, hlater⟩

theorem confines_matchParameters (rename : Bool) {pairs : List (Expr × Native.Parameter)}
    (h : ∀ pair ∈ pairs, P pair.2.ty) :
    Confines P (matchParameters c address rename pairs) anything := by
  induction pairs with
  | nil => exact confines_pure trivial
  | cons pair rest ih =>
      obtain ⟨hfirst, hrest⟩ := List.forall_mem_cons.1 h
      obtain ⟨argument, parameter⟩ := pair
      rw [matchParameters]
      refine .next (confines_infer hP c address argument hfirst) fun _ => ?_
      split
      · rename_i _ _ index
        have hrename : Confines P
            (modifyStore (·.modifyFrame c.current (·.renameTemp index parameter.name))) anything :=
          confines_store _ (fun _ => rfl) fun _ hs =>
            hs.modifyFrame fun f hf => (hs.frame hf).renameTemp index parameter.name
        exact .next hrename fun _ => ih hrest
      · exact ih hrest

theorem confines_signatureFor (hnatives : c.natives.All (Native.Signature.Confined P))
    (hash : UInt64) (inSlots : Nat) {outSlots : Nat} (hout : outSlots ≤ maxExplodeSlots) :
    Confines P (signatureFor c address hash inSlots outSlots) fun found =>
      found.1.Confined P := by
  have hmade : ∀ name, (Native.Signature.synthesize name inSlots outSlots).Confined P :=
    fun name => Native.Signature.confined_synthesize hP name inSlots hout
  have hresolved : (c.natives.resolve hash inSlots outSlots).signature.Confined P := by
    unfold Native.Database.resolve
    split
    · exact hnatives hash _ ‹_›
    · exact hmade _
  unfold signatureFor
  dsimp only
  split
  · exact .next (confines_diagnose c address _) fun _ => confines_pure hresolved
  · split
    · exact .next (confines_diagnose c address _) fun _ => confines_pure (hmade _)
    · exact confines_pure hresolved

theorem confines_callNative (hnatives : c.natives.All (Native.Signature.Confined P))
    (inSlots : Nat) {outSlots : Nat} (hout : outSlots ≤ maxExplodeSlots) (index : Nat) :
    Confines P (callNative c address inSlots outSlots index) anything := by
  unfold callNative
  split
  · exact confines_pure trivial
  · refine .bind (confines_signatureFor hP c address hnatives _ inSlots hout) fun found hfound => ?_
    refine .bind (confines_popArguments c address _) fun arguments harguments => ?_
    refine .next (confines_matchParameters hP c address _ fun pair hpair => ?_) fun _ =>
      confines_emitCall c _ hfound.result harguments
    exact hfound.parameters _ (List.mem_filter.1 (List.of_mem_zip hpair).2).1

omit hP in
theorem confines_inferResult {ty : Ty} (hty : P ty) :
    Confines P (inferResult c address ty) anything :=
  confines_store _ (fun s => inferResult_eq c address s ty) fun _ hs => hs.observeResult hty address

theorem confines_returnValues (values : Nat) :
    Confines P (returnValues c address values) anything := by
  unfold returnValues
  split
  · exact .next (confines_inferResult c address hP.void) fun _ =>
      confines_emit (List.forall_mem_nil _)
  · refine .bind (confines_pop c address) fun value hvalue => ?_
    refine .bind (confines_typeOf hP c hvalue) fun ty hty => ?_
    exact .next (confines_inferResult c address hty) fun _ =>
      confines_emit (List.forall_mem_singleton.2 hvalue)

end Calls

section Implodes

variable (c : Context) (address : Nat)

/-- Does nothing change about statements and variables? -/
structure Quiet (s s' : State) : Prop where
  emitted : s'.emitted = s.emitted
  scope : s'.store.scope c.current = s.store.scope c.current

variable {c}

theorem Quiet.trans {s s' s'' : State} (h : Quiet c s s') (h' : Quiet c s' s'') :
    Quiet c s s'' :=
  ⟨h'.emitted.trans h.emitted, h'.scope.trans h.scope⟩

variable (c)

theorem quiet_diagnose (kind : DiagnosticKind) (s : State) :
    Quiet c s (diagnose c address kind s).2 := by
  refine ⟨rfl, congrArg Scope.mk (funext fun r => ?_)⟩
  cases r <;> rfl

theorem quiet_pop (s : State) : Quiet c s (pop c address s).2 := by
  obtain ⟨store, stack, emitted⟩ := s
  cases stack with
  | nil => exact quiet_diagnose c address .stackUnderflow _
  | cons top rest => exact ⟨rfl, rfl⟩

theorem quiet_popLength (s : State) : Quiet c s (popLength c address s).2 := by
  have hpop := quiet_pop c address s
  have hreport : ∀ kind, Quiet c s (diagnose c address kind (pop c address s).2).2 :=
    fun kind => hpop.trans (quiet_diagnose c address kind _)
  unfold popLength
  rw [bind_apply]
  rcases (pop c address s).1.integer? with _ | (_ | _)
  · exact hreport _
  · exact hpop
  · exact hreport _

theorem quiet_bound (length limit : Nat) (s : State) :
    Quiet c s (bound c address length limit s).2 := by
  unfold bound
  split
  · exact ⟨rfl, rfl⟩
  · exact quiet_diagnose c address _ s

theorem quiet_popMany (count : Nat) (s : State) : Quiet c s (popMany c address count s).2 := by
  have hdrop : Quiet c s { s with stack := s.stack.drop count } := ⟨rfl, rfl⟩
  rw [popMany_apply]
  split
  · exact hdrop.trans (quiet_diagnose c address .stackUnderflow _)
  · exact hdrop

/-- An implode takes values off the stack.  Then it does nothing, or it assigns the values to what
they are stored to, which is found to point to the array that they are. -/
theorem implode_eq (s : State) (hs : s.Confined P) :
    ∃ s', Quiet c s s' ∧ s'.Confined P ∧ (implode c address s = ((), s') ∨
      ∃ dest values, dest.Confined P ∧ (∀ e ∈ values, e.Confined P) ∧
        implode c address s =
          (infer c address dest
            (.pointer ((Expr.arrayLiteral values).typeIn (s.store.scope c.current))) >>= fun _ =>
              emit (.assign dest.dereference (.arrayLiteral values))) s') := by
  obtain ⟨hdest, hdestValue⟩ := confines_pop c address s hs
  have hdestQuiet := quiet_pop c address s
  unfold implode
  rw [bind_apply]
  generalize pop c address s = popped at *
  obtain ⟨dest, s₁⟩ := popped
  obtain ⟨hlength, -⟩ := confines_popLength c address s₁ hdest
  have hlengthQuiet := hdestQuiet.trans (quiet_popLength c address s₁)
  dsimp only
  rw [bind_apply]
  generalize popLength c address s₁ = popped at *
  obtain ⟨length, s₂⟩ := popped
  cases length with
  | none => exact ⟨s₂, hlengthQuiet, hlength, Or.inl rfl⟩
  | some length =>
      obtain ⟨hbound, -⟩ := confines_bound c address length s₂.stack.length s₂ hlength
      have hboundQuiet := hlengthQuiet.trans (quiet_bound c address length s₂.stack.length s₂)
      dsimp only
      rw [bind_apply, get_apply, bind_apply]
      dsimp only
      generalize bound c address length s₂.stack.length s₂ = bounded at *
      obtain ⟨count, s₃⟩ := bounded
      obtain ⟨hvalues, hvaluesValue⟩ := confines_popMany c address count s₃ hbound
      have hvaluesQuiet := hboundQuiet.trans (quiet_popMany c address count s₃)
      have hcount : (popMany c address count s₃).1.length = count := by
        rw [popMany_apply]
        exact length_topSlots count s₃.stack
      rw [bind_apply]
      generalize popMany c address count s₃ = popped at *
      obtain ⟨values, s₄⟩ := popped
      refine ⟨s₄, hvaluesQuiet, hvalues, Or.inr ⟨dest, values, hdestValue, hvaluesValue, ?_⟩⟩
      dsimp only at hcount
      subst hcount
      cases values with
      | nil => rfl
      | cons first rest =>
          rw [← hvaluesQuiet.scope]
          rfl

/-- An implode keeps a state confined if the array that it stores is admitted. -/
theorem confined_implode (hP : Ty.Closed P) {Q : Ty → Prop} (hQ : Ty.AdmitsArrays P Q) {s : State}
    (hs : s.Confined P) (hstored : ∀ dest values,
      (implode c address s).2.emitted = s.emitted.push (.assign dest (.arrayLiteral values)) →
        Q ((Expr.arrayLiteral values).typeIn (s.store.scope c.current))) :
    (implode c address s).2.Confined P := by
  obtain ⟨s', hquiet, hs', heq | ⟨dest, values, hdest, hvalues, heq⟩⟩ := implode_eq c address s hs
  · rw [heq]
    exact hs'
  · have hadmitted : Q ((Expr.arrayLiteral values).typeIn (s.store.scope c.current)) := by
      refine hstored dest.dereference values ?_
      rw [heq, bind_apply, infer_eq, ← hquiet.emitted]
      rfl
    have hpointer := (hP.pointer_iff _).2
      (Expr.Confined.arrayLiteral hP hQ (hs.scope c.current) hvalues hadmitted)
    rw [heq]
    refine (Confines.next (confines_infer hP c address dest hpointer) (fun _ => confines_emit ?_)
      s' hs').1
    exact List.forall_mem_cons.2 ⟨hdest.dereference, hvalues⟩

end Implodes

section Instructions

variable (hP : Ty.Closed P) (c : Context) (i : Instruction)

theorem confines_applyUnary (op : UnaryOp) : Confines P (applyUnary c i op) anything := by
  refine .bind (confines_popMany c i.address i.lanes) fun operands hoperands =>
    confines_pushAll fun e he => ?_
  obtain ⟨operand, hoperand, rfl⟩ := List.mem_map.1 he
  exact hoperands operand hoperand

theorem confines_applyBinary (op : BinaryOp) : Confines P (applyBinary c i op) anything := by
  unfold applyBinary
  split
  · refine .bind (confines_pop c i.address) fun left hleft => confines_push ?_
    exact ⟨hleft, trivial⟩
  · refine .bind (confines_popMany c i.address i.lanes) fun right hright => ?_
    refine .bind (confines_popMany c i.address i.lanes) fun left hleft =>
      confines_pushAll fun e he => ?_
    rw [← List.map_uncurry_zip_eq_zipWith] at he
    obtain ⟨⟨l, r⟩, hpair, rfl⟩ := List.mem_map.1 he
    obtain ⟨hl, hr⟩ := List.of_mem_zip hpair
    exact ⟨hleft l hl, hright r hr⟩

theorem confines_convert (address : Nat) {ty : Ty} (hty : P ty) :
    Confines P (convert c address ty) anything :=
  .bind (confines_pop c address) fun _ hvalue => confines_push ⟨hty, hvalue⟩

theorem confines_popElement (address : Nat) :
    Confines P (popElement c address) (Expr.Confined P) := by
  refine .bind (confines_pop c address) fun array harray => ?_
  exact .bind (confines_pop c address) fun index hindex => confines_pure ⟨harray, hindex⟩

theorem confines_branchOn (op : BinaryOp) : Confines P (branchOn c i op) anything := by
  refine .bind (confines_pop c i.address) fun right hright => ?_
  refine .bind (confines_pop c i.address) fun left hleft => ?_
  split
  · exact confines_emit (List.forall_mem_singleton.2 ⟨hleft, hright⟩)
  · exact confines_pure trivial

theorem confines_textOperation : Confines P (textOperation c i) anything := by
  refine .bind (confines_pop c i.address) fun dest hdest => ?_
  refine .bind (confines_pop c i.address) fun source hsource => confines_emit ?_
  refine Expr.confined_operands fun e he => ?_
  rcases List.mem_cons.1 he with rfl | he
  · exact hdest
  · rcases List.mem_cons.1 he with rfl | he
    · exact hsource
    · rw [List.mem_singleton.1 he]
      trivial

theorem confined_immediates (operand : Operand) : ∀ e ∈ immediates operand, e.Confined P := by
  cases operand <;> simp [immediates, Expr.int, Expr.Confined]

include hP

theorem confines_pushString (address : Nat) :
    Confines P (pushString c address) anything := by
  refine .bind (confines_pop c address) fun offset hoffset => ?_
  dsimp only
  split
  · exact confines_push trivial
  · exact confines_push ⟨hP.scalar _, hoffset⟩

theorem confines_popField : Confines P (popField c i) (Expr.Confined P) := by
  refine .bind (confines_pop c i.address) fun base hbase => ?_
  refine .bind (confines_typeOf hP c hbase) fun ty _ => ?_
  split <;> exact confines_pure hbase

theorem confines_loadVariable (r : VarRef) (address : Bool) :
    Confines P (loadVariable c r address) anything := by
  refine .next (confines_touch hP c r) fun _ => confines_push ?_
  split <;> trivial

theorem confines_storeVariable (address : Nat) (r : VarRef) :
    Confines P (storeVariable c address r) anything := by
  refine .next (confines_touch hP c r) fun _ => ?_
  exact .bind (confines_pop c address) fun value hvalue =>
    confines_assign hP c address trivial hvalue

theorem confines_explode (address : Nat) : Confines P (explode c address) anything := by
  refine .bind (confines_pop c address) fun source hsource => ?_
  refine .next (confines_popLength c address) fun length => ?_
  split
  · exact confines_pure trivial
  · refine .bind (confines_bound c address _ _) fun count hcount => ?_
    refine .bind (confines_typeOf hP c hsource) fun known _ => ?_
    have hrest : Confines P (do pushAll ((← typeOf c source).explode source count)) anything :=
      .bind (confines_typeOf hP c hsource) fun ty _ =>
        confines_pushAll (hsource.explode ty count)
    split
    · have hguess := (hP.pointer_iff _).2 (hP.guess hcount)
      exact .next (confines_infer hP c address source hguess) fun _ => hrest
    · exact hrest

/-- One instruction, implodes apart. -/
theorem confines_step (hnatives : c.natives.All (Native.Signature.Confined P))
    (hblock : i.PushesBlock) (himplode : i.operation ≠ .implode) :
    Confines P (step c i) anything := by
  unfold step
  cases hop : i.operation <;> dsimp only
  case nop | enter => exact confines_pure trivial
  case push => exact confines_pushAll (confined_immediates i.operand)
  case pushString => exact confines_pushString hP c i.address
  case dup => exact .bind (confines_peek c i.address) fun _ => confines_push
  case drop => exact .bind (confines_pop c i.address) fun _ _ => confines_pure trivial
  case not | neg => exact confines_applyUnary c i _
  case add | sub | mul | div | mod | and | or | xor => exact confines_applyBinary c i _
  case compareEq | compareNe | compareGt | compareGe | compareLt | compareLe =>
    exact confines_applyBinary c i _
  case intToFloat | floatToInt => exact confines_convert c i.address (hP.scalar _)
  case localLoad | staticLoad | globalLoad | localAddress | staticAddress | globalAddress =>
    exact confines_loadVariable hP c _ _
  case fieldLoad | fieldAddress =>
    exact .bind (confines_popField hP c i) fun _ hfield => confines_push hfield
  case arrayLoad | arrayAddress =>
    exact .bind (confines_popElement c i.address) fun _ helement => confines_push helement
  case load =>
    exact .bind (confines_pop c i.address) fun _ hvalue => confines_push hvalue.dereference
  case localStore | staticStore | globalStore => exact confines_storeVariable hP c i.address _
  case fieldStore =>
    refine .bind (confines_popField hP c i) fun dest hdest => ?_
    exact .bind (confines_pop c i.address) fun value hvalue =>
      confines_assign hP c i.address hdest hvalue
  case arrayStore =>
    refine .bind (confines_popElement c i.address) fun dest hdest => ?_
    exact .bind (confines_pop c i.address) fun value hvalue =>
      confines_assign hP c i.address hdest hvalue
  case store =>
    refine .bind (confines_pop c i.address) fun dest hdest => ?_
    exact .bind (confines_pop c i.address) fun value hvalue =>
      confines_assign hP c i.address hdest.dereference hvalue
  case storeKeep =>
    refine .bind (confines_pop c i.address) fun value hvalue => ?_
    exact .bind (confines_peek c i.address) fun dest hdest =>
      confines_assign hP c i.address hdest.dereference hvalue
  case implode => exact absurd hop himplode
  case explode => exact confines_explode hP c i.address
  case call =>
    split
    · exact confines_callFunction hP c i.address _
    · exact confines_pure trivial
  case callNative =>
    split
    · rename_i inSlots outSlots index hoperand
      exact confines_callNative hP c i.address hnatives inSlots
        (hblock inSlots outSlots index hoperand) index
    · exact confines_pure trivial
  case ret => split <;> exact confines_returnValues hP c i.address _
  case branch =>
    split
    · exact confines_emit (List.forall_mem_nil _)
    · exact confines_pure trivial
  case branchZero =>
    refine .bind (confines_pop c i.address) fun condition hcondition => ?_
    split
    · exact confines_emit (List.forall_mem_singleton.2 hcondition.negate)
    · exact confines_pure trivial
  case branchNe | branchEq | branchGt | branchGe | branchLt | branchLe =>
    exact confines_branchOn c i _
  case switch =>
    refine .bind (confines_pop c i.address) fun value hvalue => ?_
    split
    · exact confines_emit (List.forall_mem_singleton.2 hvalue)
    · exact confines_pure trivial
  case stringCopy | intToString | appendString | appendInt => exact confines_textOperation c i
  case unknown =>
    exact .next (confines_diagnose c i.address _) fun _ => confines_emit (List.forall_mem_nil _)
  case memoryCopy | catchOp | throwOp | callPointer => exact confines_emit (List.forall_mem_nil _)

end Instructions

end Replay

end Machine

end ScriptDecompiler
