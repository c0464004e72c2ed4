import ScriptDecompiler.Bytecode.Instruction
import ScriptDecompiler.Proofs.Bytecode.OpcodeTable
import ScriptDecompiler.Proofs.Machine.Evaluation

/-!
# A machine with numbers on its stack

The instructions that only compute run on a stack of integers, which has its top
first.  The rules:

* a push leaves its immediates with the last one on top, 32-bit ones signed;
* an operator takes its right-hand operand from the top, or from the
  instruction if that holds an immediate;
* a three-lane operator takes three consecutive values for each operand;
* a conditional branch takes what it tests.

A run that asks for a value that is not there has no result.
-/

namespace ScriptDecompiler.Machine.Direct

open ScriptDecompiler.Bytecode (Instruction Operand Operation opcodeInfo_forall opcodeTable)

/-- Does the operation do nothing but compute on the stack? -/
def computes : Operation → Bool
  | .push | .dup | .drop => true
  | .not | .neg | .add | .sub | .mul | .div | .mod | .and | .or | .xor => true
  | .compareEq | .compareNe | .compareGt | .compareGe | .compareLt | .compareLe => true
  | .intToFloat | .floatToInt => true
  | .localLoad | .staticLoad | .globalLoad => true
  | _ => false

/-- The value of 32 bits in two's complement. -/
def signed32 (bits : Nat) : Int :=
  let low := bits % 0x100000000
  if low < 0x80000000 then low else low - 0x100000000

/-- The values that a push leaves, the top first. -/
def pushed (M : Meaning) : Operand → List Int
  | .imm8 v | .imm16 v | .imm24 v => [M.literal (.int v)]
  | .imm8x2 a b => [M.literal (.int b), M.literal (.int a)]
  | .imm8x3 a b c => [M.literal (.int c), M.literal (.int b), M.literal (.int a)]
  | .imm32 v => [M.literal (.int (signed32 v))]
  | .impliedInt v => [M.literal (.int v)]
  | .float32 v | .impliedFloat v => [M.literal (.float v)]
  | _ => []

/-- What an operation computes from one value. -/
def unaryMeaning (M : Meaning) : Operation → Option (Int → Int)
  | .not => some fun v => truth (v = 0)
  | .neg => some M.negation
  | _ => none

/-- What an operation computes from two values. -/
def binaryMeaning (M : Meaning) : Operation → Option (Int → Int → Int)
  | .add => some (M.arithmetic .add)
  | .sub => some (M.arithmetic .sub)
  | .mul => some (M.arithmetic .mul)
  | .div => some (M.arithmetic .div)
  | .mod => some (M.arithmetic .mod)
  | .and => some (M.arithmetic .and)
  | .or => some (M.arithmetic .or)
  | .xor => some (M.arithmetic .xor)
  | .compareEq => some fun left right => truth (left = right)
  | .compareNe => some fun left right => truth (left ≠ right)
  | .compareGt => some fun left right => truth (left > right)
  | .compareGe => some fun left right => truth (left ≥ right)
  | .compareLt => some fun left right => truth (left < right)
  | .compareLe => some fun left right => truth (left ≤ right)
  | _ => none

/-- Replace the operand on top of the stack, lane by lane. -/
def replaceOne (f : Int → Int) : (lanes : Nat) → List Int → Option (List Int)
  | 3, z :: y :: x :: rest => some (f z :: f y :: f x :: rest)
  | 1, x :: rest => some (f x :: rest)
  | _, _ => none

/-- Replace the two operands on top of the stack, lane by lane. -/
def replaceTwo (f : Int → Int → Int) : (lanes : Nat) → List Int → Option (List Int)
  | 3, z' :: y' :: x' :: z :: y :: x :: rest => some (f z z' :: f y y' :: f x x' :: rest)
  | 1, x' :: x :: rest => some (f x x' :: rest)
  | _, _ => none

/-- Run one instruction. -/
def exec (M : Meaning) (i : Instruction) (stack : List Int) : Option (List Int) :=
  let index := (i.operand.integer?.getD 0).toNat
  match i.operation with
  | .push => some (pushed M i.operand ++ stack)
  | .dup => stack.head?.map (· :: stack)
  | .drop => stack.tail?
  | .intToFloat => replaceOne (M.cast .float) 1 stack
  | .floatToInt => replaceOne (M.cast .int) 1 stack
  | .localLoad => some (M.var (.slot index) :: stack)
  | .staticLoad => some (M.var (.static index) :: stack)
  | .globalLoad => some (M.var (.global index) :: stack)
  | operation =>
    match unaryMeaning M operation, binaryMeaning M operation with
    | some f, _ => replaceOne f i.lanes stack
    | none, some f =>
      match i.operand.integer? with
      | some v => replaceOne (f · (M.literal (.int v))) 1 stack
      | none => replaceTwo f i.lanes stack
    | none, none => none

/-- Run instructions one after another. -/
def run (M : Meaning) : List Instruction → List Int → Option (List Int)
  | [], stack => some stack
  | i :: rest, stack => (exec M i stack).bind (run M rest)

/-- What a conditional branch tests of the two values that it takes. -/
def branchTest : Operation → Option (Int → Int → Bool)
  | .branchNe => some fun left right => left ≠ right
  | .branchEq => some fun left right => left = right
  | .branchGt => some fun left right => left > right
  | .branchGe => some fun left right => left ≥ right
  | .branchLt => some fun left right => left < right
  | .branchLe => some fun left right => left ≤ right
  | _ => none

/-- Does a conditional branch jump?  With the stack that it leaves. -/
def decideBranch (i : Instruction) (stack : List Int) : Option (Bool × List Int) :=
  if i.operation = .branchZero then
    match stack with
    | v :: rest => some (v = 0, rest)
    | [] => none
  else
    match branchTest i.operation, stack with
    | some test, right :: left :: rest => some (test left right, rest)
    | _, _ => none

/-- How many values a push leaves. -/
def pushCount : Operand → Nat
  | .imm8 _ | .imm16 _ | .imm24 _ | .imm32 _ | .impliedInt _ | .float32 _ | .impliedFloat _ => 1
  | .imm8x2 _ _ => 2
  | .imm8x3 _ _ _ => 3
  | _ => 0

/-- How many values an instruction looks at. -/
def needed (i : Instruction) : Nat :=
  match i.operation with
  | .push | .localLoad | .staticLoad | .globalLoad => 0
  | .dup | .drop | .intToFloat | .floatToInt | .branchZero => 1
  | .branchNe | .branchEq | .branchGt | .branchGe | .branchLt | .branchLe => 2
  | .not | .neg => i.lanes
  | _ => if i.operand.integer?.isSome then 1 else 2 * i.lanes

/-- How many values an instruction that computes leaves in their place. -/
def yielded (i : Instruction) : Nat :=
  match i.operation with
  | .push => pushCount i.operand
  | .drop => 0
  | .dup => 2
  | .localLoad | .staticLoad | .globalLoad | .intToFloat | .floatToInt => 1
  | .not | .neg => i.lanes
  | _ => if i.operand.integer?.isSome then 1 else i.lanes

/-- Is a stack of this depth deep enough for all instructions? -/
def DeepEnough : List Instruction → (depth : Nat) → Prop
  | [], _ => True
  | i :: rest, depth => needed i ≤ depth ∧ DeepEnough rest (depth - needed i + yielded i)

/-- An opcode works on one lane or on three. -/
theorem lanes_eq (i : Instruction) : i.lanes = 1 ∨ i.lanes = 3 := by
  have htable : ∀ row ∈ opcodeTable.toList.zipIdx, row.1.lanes = 1 ∨ row.1.lanes = 3 := by
    decide +kernel
  exact opcodeInfo_forall (P := fun info _ => info.lanes = 1 ∨ info.lanes = 3) htable
    (fun _ => Or.inl rfl) i.opcode

theorem length_pushed (M : Meaning) (operand : Operand) :
    (pushed M operand).length = pushCount operand := by
  cases operand <;> rfl

theorem replaceOne_of_le (f : Int → Int) {lanes : Nat} (hlanes : lanes = 1 ∨ lanes = 3)
    {stack : List Int} (h : lanes ≤ stack.length) :
    ∃ next, replaceOne f lanes stack = some next ∧ next.length = stack.length := by
  rcases hlanes with rfl | rfl
  · match stack, h with
    | x :: rest, _ => exact ⟨_, rfl, rfl⟩
  · match stack, h with
    | z :: y :: x :: rest, _ => exact ⟨_, rfl, rfl⟩

theorem replaceTwo_of_le (f : Int → Int → Int) {lanes : Nat} (hlanes : lanes = 1 ∨ lanes = 3)
    {stack : List Int} (h : 2 * lanes ≤ stack.length) :
    ∃ next, replaceTwo f lanes stack = some next ∧ next.length + lanes = stack.length := by
  rcases hlanes with rfl | rfl
  · match stack, h with
    | x' :: x :: rest, _ => exact ⟨_, rfl, rfl⟩
  · match stack, h with
    | z' :: y' :: x' :: z :: y :: x :: rest, _ => exact ⟨_, rfl, rfl⟩

theorem exec_unary {M : Meaning} {i : Instruction} {f : Int → Int}
    (h : unaryMeaning M i.operation = some f) (stack : List Int) :
    exec M i stack = replaceOne f i.lanes stack ∧ needed i = i.lanes ∧ yielded i = i.lanes := by
  unfold exec needed yielded
  cases hop : i.operation <;> rw [hop] at h <;> cases h <;> exact ⟨rfl, rfl, rfl⟩

theorem exec_binary {M : Meaning} {i : Instruction} {f : Int → Int → Int}
    (h : binaryMeaning M i.operation = some f) (stack : List Int) :
    exec M i stack =
        (match i.operand.integer? with
          | some v => replaceOne (f · (M.literal (.int v))) 1 stack
          | none => replaceTwo f i.lanes stack) ∧
      needed i = (if i.operand.integer?.isSome then 1 else 2 * i.lanes) ∧
      yielded i = (if i.operand.integer?.isSome then 1 else i.lanes) := by
  unfold exec needed yielded
  cases hop : i.operation <;> rw [hop] at h <;> cases h <;> exact ⟨rfl, rfl, rfl⟩

/-- Operations that compute on lanes, that look at one value, and that only push. -/
theorem computes_cases (M : Meaning) {operation : Operation} (h : computes operation = true) :
    (∃ f, unaryMeaning M operation = some f) ∨ (∃ f, binaryMeaning M operation = some f) ∨
      operation ∈ [Operation.dup, .drop, .intToFloat, .floatToInt] ∨
      operation ∈ [Operation.push, .localLoad, .staticLoad, .globalLoad] := by
  cases operation <;> simp_all [computes, unaryMeaning, binaryMeaning]

theorem exec_nil (M : Meaning) {i : Instruction}
    (h : i.operation ∈ [Operation.dup, .drop, .intToFloat, .floatToInt]) : exec M i [] = none := by
  simp only [List.mem_cons, List.not_mem_nil, or_false] at h
  unfold exec
  rcases h with hop | hop | hop | hop <;> rw [hop] <;> rfl

/-- On a stack that is deep enough an instruction has a result. -/
theorem exec_of_needed (M : Meaning) {i : Instruction} (hcomputes : computes i.operation = true)
    {stack : List Int} (h : needed i ≤ stack.length) :
    ∃ next, exec M i stack = some next ∧
      next.length = stack.length - needed i + yielded i := by
  rcases computes_cases M hcomputes with ⟨f, hf⟩ | ⟨f, hf⟩ | hmem | hmem
  · obtain ⟨hexec, hneeded, hyielded⟩ := exec_unary hf stack
    rw [hneeded] at h
    obtain ⟨next, hnext, hlength⟩ := replaceOne_of_le f (lanes_eq i) h
    exact ⟨next, hexec.trans hnext, by omega⟩
  · obtain ⟨hexec, hneeded, hyielded⟩ := exec_binary hf stack
    cases himmediate : i.operand.integer? with
    | some v =>
        simp only [himmediate, Option.isSome_some, if_true] at hexec hneeded hyielded
        rw [hneeded] at h
        obtain ⟨next, hnext, hlength⟩ :=
          replaceOne_of_le (f · (M.literal (.int v))) (Or.inl rfl) h
        exact ⟨next, hexec.trans hnext, by omega⟩
    | none =>
        simp only [himmediate, Option.isSome_none, Bool.false_eq_true, if_false]
          at hexec hneeded hyielded
        rw [hneeded] at h
        obtain ⟨next, hnext, hlength⟩ := replaceTwo_of_le f (lanes_eq i) h
        exact ⟨next, hexec.trans hnext, by omega⟩
  · simp only [List.mem_cons, List.not_mem_nil, or_false] at hmem
    unfold exec needed yielded at *
    rcases hmem with hop | hop | hop | hop <;> simp only [hop] at h ⊢ <;>
      obtain ⟨v, rest, rfl⟩ := List.exists_cons_of_length_pos h <;> exact ⟨_, rfl, rfl⟩
  · simp only [List.mem_cons, List.not_mem_nil, or_false] at hmem
    unfold exec needed yielded at *
    rcases hmem with hop | hop | hop | hop <;> simp only [hop]
    · refine ⟨_, rfl, ?_⟩
      rw [List.length_append, length_pushed]
      omega
    all_goals exact ⟨_, rfl, rfl⟩

/-- On a stack that is deep enough for all of them instructions have a result. -/
theorem run_of_deepEnough (M : Meaning) {body : List Instruction}
    (hcomputes : ∀ i ∈ body, computes i.operation = true) {stack : List Int}
    (h : DeepEnough body stack.length) : ∃ final, run M body stack = some final := by
  -- The depth that is demanded of the rest is the one that the first leaves.
  induction body generalizing stack with
  | nil => exact ⟨stack, rfl⟩
  | cons i body ih =>
      obtain ⟨next, hnext, hlength⟩ := exec_of_needed M (hcomputes i List.mem_cons_self) h.1
      have hrest := h.2
      rw [← hlength] at hrest
      obtain ⟨final, hfinal⟩ := ih (fun j hj => hcomputes j (List.mem_cons_of_mem _ hj)) hrest
      refine ⟨final, ?_⟩
      rw [run, hnext]
      exact hfinal

theorem conditionalBranch_cases {operation : Operation}
    (h : operation.isConditionalBranch = true) :
    operation = .branchZero ∨
      operation ≠ .branchZero ∧ ∃ test, branchTest operation = some test := by
  cases operation with
  | branchZero => exact Or.inl rfl
  | branchNe | branchEq | branchGt | branchGe | branchLt | branchLe =>
      exact Or.inr ⟨by decide, _, rfl⟩
  | _ => cases h

/-- On a stack that is deep enough a conditional branch is decided. -/
theorem decideBranch_of_needed {i : Instruction} (h : i.operation.isConditionalBranch = true)
    {stack : List Int} (hneeded : needed i ≤ stack.length) :
    ∃ taken rest, decideBranch i stack = some (taken, rest) := by
  rcases conditionalBranch_cases h with hzero | ⟨hne, test, htest⟩
  · have hone : needed i = 1 := by
      unfold needed
      rw [hzero]
    rw [hone] at hneeded
    obtain ⟨v, rest, rfl⟩ := List.exists_cons_of_length_pos hneeded
    refine ⟨decide (v = 0), rest, ?_⟩
    unfold decideBranch
    rw [hzero]
    rfl
  · have htwo : needed i = 2 := by
      unfold needed
      cases hop : i.operation <;> rw [hop] at htest <;> cases htest
    rw [htwo] at hneeded
    simp only [decideBranch, hne, if_false, htest]
    match stack, hneeded with
    | right :: left :: rest, _ => exact ⟨_, _, rfl⟩

end ScriptDecompiler.Machine.Direct
