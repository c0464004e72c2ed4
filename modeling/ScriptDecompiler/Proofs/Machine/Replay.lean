import ScriptDecompiler.Machine.Explore

/-!
# Replaying on a stack that is deep enough

Nothing is reported as long as there are enough values on the stack.  The first
lemmas say which values go and which ones take their place; the others are about
instructions replayed one after another.
-/

namespace ScriptDecompiler.Machine

open ScriptDecompiler.Bytecode (Instruction Operation opcodeInfo)

-- The opcode table is too large to be unfolded whenever terms are compared.
attribute [local irreducible] opcodeInfo

namespace Replay

theorem bind_apply {α β : Type} (x : Replay α) (f : α → Replay β) (s : State) :
    (x >>= f) s = f (x s).1 (x s).2 := rfl

theorem get_apply (s : State) : (get : Replay State) s = (s, s) := rfl

theorem pop_cons (c : Context) (address : Nat) {s : State} {e : Expr} {rest : List Expr}
    (h : s.stack = e :: rest) : pop c address s = (e, { s with stack := rest }) := by
  unfold pop
  simp only [bind_apply, get_apply, h]
  rfl

theorem peek_cons (c : Context) (address : Nat) {s : State} {e : Expr} {rest : List Expr}
    (h : s.stack = e :: rest) : peek c address s = (e, s) := by
  unfold peek
  simp only [bind_apply, get_apply, h]
  rfl

theorem popMany_append (c : Context) (address : Nat) {s : State} {popped rest : List Expr}
    (h : s.stack = popped ++ rest) :
    popMany c address popped.length s = (popped.reverse, { s with stack := rest }) := by
  have htake : s.stack.take popped.length = popped := by rw [h, List.take_left]
  have hdrop : s.stack.drop popped.length = rest := by rw [h, List.drop_left]
  unfold popMany
  simp only [bind_apply, get_apply, htake, Nat.lt_irrefl, if_false]
  show (popped.reverse, { s with stack := s.stack.drop popped.length }) = _
  rw [hdrop]

theorem applyUnary_append (c : Context) {i : Instruction} (op : UnaryOp) {s : State}
    {operands rest : List Expr} (h : s.stack = operands ++ rest)
    (hlanes : operands.length = i.lanes) :
    applyUnary c i op s = ((), { s with stack := operands.map (.unary op) ++ rest }) := by
  unfold applyUnary
  rw [bind_apply, ← hlanes, popMany_append c i.address h]
  show ((), { s with stack := (operands.reverse.map (Expr.unary op)).reverse ++ rest }) = _
  rw [List.map_reverse, List.reverse_reverse]

theorem applyBinary_append (c : Context) {i : Instruction} (op : BinaryOp) {s : State}
    {left right rest : List Expr} (h : s.stack = right ++ (left ++ rest))
    (himmediate : i.operand.integer? = none) (hright : right.length = i.lanes)
    (hleft : left.length = i.lanes) :
    applyBinary c i op s =
      ((), { s with stack := List.zipWith (.binary op) left right ++ rest }) := by
  unfold applyBinary
  simp only [himmediate, bind_apply]
  have hpopRight := popMany_append c i.address h
  rw [hright] at hpopRight
  rw [hpopRight]
  have hpopLeft := popMany_append c i.address
    (show { s with stack := left ++ rest }.stack = left ++ rest from rfl)
  rw [hleft] at hpopLeft
  rw [hpopLeft]
  show ((), { s with
    stack := (List.zipWith (Expr.binary op) left.reverse right.reverse).reverse ++ rest }) = _
  rw [← List.reverse_zipWith (hleft.trans hright.symm), List.reverse_reverse]

theorem applyBinary_immediate (c : Context) {i : Instruction} (op : BinaryOp) {s : State}
    {e : Expr} {rest : List Expr} {v : Int} (h : s.stack = e :: rest)
    (himmediate : i.operand.integer? = some v) :
    applyBinary c i op s = ((), { s with stack := .binary op e (.int v) :: rest }) := by
  unfold applyBinary
  simp only [himmediate]
  rw [bind_apply, pop_cons c i.address h]
  rfl

theorem convert_cons (c : Context) (address : Nat) (ty : Ty) {s : State} {e : Expr}
    {rest : List Expr} (h : s.stack = e :: rest) :
    convert c address ty s = ((), { s with stack := .cast ty e :: rest }) := by
  unfold convert
  rw [bind_apply, pop_cons c address h]
  rfl

theorem branchOn_cons (c : Context) {i : Instruction} (op : BinaryOp) {s : State}
    {left right : Expr} {rest : List Expr} {target : Nat} (h : s.stack = right :: left :: rest)
    (htarget : i.branchTarget? = some target) :
    branchOn c i op s = ((), { s with
      stack := rest
      emitted := s.emitted.push (.ifGoto (.binary op left right) target i.nextAddress) }) := by
  unfold branchOn
  simp only [bind_apply, htarget]
  rw [pop_cons c i.address h, pop_cons c i.address (show State.stack _ = left :: rest from rfl)]
  rfl

end Replay

/-- The comments that a replay of instructions adds. -/
def comments (c : Context) (body : List Instruction) : Array Stmt :=
  if c.annotate then (body.map instructionComment).toArray else #[]

theorem comments_append (c : Context) (body later : List Instruction) :
    comments c (body ++ later) = comments c body ++ comments c later := by
  unfold comments
  split <;> simp

theorem replayInstruction_apply (c : Context) (i : Instruction) (s : State) :
    replayInstruction c i s =
      Replay.step c i { s with emitted := s.emitted ++ comments c [i] } := by
  unfold replayInstruction comments
  generalize Replay.step c i = step
  cases c.annotate with
  | true => rfl
  | false => simp only [Bool.false_eq_true, if_false, Array.append_empty]

theorem fault?_eq_none (c : Context) (frames : Array Frame) {i : Instruction}
    (h : i.operation ∉ [Operation.ret, .call, .callNative]) : fault? c frames i = none := by
  have hkind : faultKind? c.unit frames i = none := by
    unfold faultKind?
    split <;> simp_all
  rw [fault?, hkind, Option.map_none]

theorem replay_cons (c : Context) (s : State) (i : Instruction) (rest : List Instruction) :
    replay c s (i :: rest) =
      match fault? c s.store.frames i with
      | some fault => (some fault, s)
      | none => replay c (replayInstruction c i s).2 rest := rfl

theorem replay_cons_of_not_mem (c : Context) {s : State} {i : Instruction}
    (rest : List Instruction) (h : i.operation ∉ [Operation.ret, .call, .callNative]) :
    replay c s (i :: rest) = replay c (replayInstruction c i s).2 rest := by
  rw [replay_cons, fault?_eq_none c _ h]

/-- A replay without a fault: its first instruction is not at fault. -/
theorem replay_cons_eq_none_iff {c : Context} {s s' : State} {i : Instruction}
    {rest : List Instruction} : replay c s (i :: rest) = (none, s') ↔
      fault? c s.store.frames i = none ∧
        replay c (replayInstruction c i s).2 rest = (none, s') := by
  rw [replay_cons]
  cases fault? c s.store.frames i <;> simp

/-- What is replayed behind instructions that are not at fault. -/
theorem replay_append (c : Context) {s s' : State} {body : List Instruction}
    (h : replay c s body = (none, s')) (later : List Instruction) :
    replay c s (body ++ later) = replay c s' later := by
  induction body generalizing s with
  | nil =>
      cases h
      rfl
  | cons i body ih =>
      obtain ⟨hfault, h⟩ := replay_cons_eq_none_iff.1 h
      rw [List.cons_append, replay_cons, hfault]
      exact ih h

/-- A replay without a fault, in two parts. -/
theorem exists_replay_of_append {c : Context} {s s' : State} {body later : List Instruction}
    (h : replay c s (body ++ later) = (none, s')) :
    ∃ middle, replay c s body = (none, middle) ∧ replay c middle later = (none, s') := by
  induction body generalizing s with
  | nil => exact ⟨s, rfl, h⟩
  | cons i body ih =>
      obtain ⟨hfault, h⟩ := replay_cons_eq_none_iff.1 h
      obtain ⟨middle, hbody, hlater⟩ := ih h
      exact ⟨middle, replay_cons_eq_none_iff.2 ⟨hfault, hbody⟩, hlater⟩

end ScriptDecompiler.Machine
