import ScriptDecompiler.Proofs.Machine.Direct
import ScriptDecompiler.Proofs.Machine.Outlines
import ScriptDecompiler.Proofs.Machine.Replay

/-!
# The symbolic stack stands for the real one

A replay of instructions that compute leaves expressions whose values are what
the machine leaves that runs on the values of the initial expressions.  Nothing
is emitted on the way, apart from the comments of an annotated replay, and
nothing is reported.  A conditional branch behind them emits a condition that is
true exactly if the machine jumps.
-/

namespace ScriptDecompiler.Machine

open Direct
open ScriptDecompiler.Bytecode (Instruction Operand Operation opcodeInfo)

-- The opcode table is too large to be unfolded whenever terms are compared.
attribute [local irreducible] opcodeInfo

/-- The values that a symbolic stack stands for. -/
def values (M : Meaning) (stack : List Expr) : List Int :=
  stack.map (·.eval M)

/-- Nothing was emitted or reported between two states. -/
structure Quiet (s s' : State) : Prop where
  emitted : s'.emitted = s.emitted
  diagnostics : s'.store.diagnostics = s.store.diagnostics

theorem replaceOne_eq_some {f : Int → Int} {lanes : Nat} {stack next : List Int}
    (h : replaceOne f lanes stack = some next) :
    ∃ operands rest, stack = operands ++ rest ∧ operands.length = lanes ∧
      next = operands.map f ++ rest := by
  unfold replaceOne at h
  split at h
  · rename_i z y x rest
    cases h
    exact ⟨[z, y, x], rest, rfl, rfl, rfl⟩
  · rename_i x rest
    cases h
    exact ⟨[x], rest, rfl, rfl, rfl⟩
  · cases h

theorem replaceTwo_eq_some {f : Int → Int → Int} {lanes : Nat} {stack next : List Int}
    (h : replaceTwo f lanes stack = some next) :
    ∃ left right rest, stack = right ++ (left ++ rest) ∧ right.length = lanes ∧
      left.length = lanes ∧ next = List.zipWith f left right ++ rest := by
  unfold replaceTwo at h
  split at h
  · rename_i z' y' x' z y x rest
    cases h
    exact ⟨[z, y, x], [z', y', x'], rest, rfl, rfl, rfl, rfl⟩
  · rename_i x' x rest
    cases h
    exact ⟨[x], [x'], rest, rfl, rfl, rfl, rfl⟩
  · cases h

theorem step_unary {M : Meaning} {i : Instruction} {f : Int → Int}
    (h : unaryMeaning M i.operation = some f) (c : Context) :
    ∃ op, Replay.step c i = Replay.applyUnary c i op ∧ M.unary op = f := by
  unfold Replay.step
  cases hop : i.operation <;> rw [hop] at h <;> cases h
  · exact ⟨.not, rfl, rfl⟩
  · exact ⟨.neg, rfl, rfl⟩

theorem step_binary {M : Meaning} {i : Instruction} {f : Int → Int → Int}
    (h : binaryMeaning M i.operation = some f) (c : Context) :
    ∃ op, Replay.step c i = Replay.applyBinary c i op ∧ M.binary op = f := by
  unfold Replay.step
  cases hop : i.operation <;> rw [hop] at h <;> cases h <;> exact ⟨_, rfl, rfl⟩

theorem values_zipWith (M : Meaning) (op : BinaryOp) (left right : List Expr) :
    values M (List.zipWith (.binary op) left right) =
      List.zipWith (M.binary op) (values M left) (values M right) := by
  rw [values, values, values, List.map_zipWith, List.zipWith_map]
  rfl

theorem values_cons_inv {M : Meaning} {stack : List Expr} {v : Int} {rest : List Int}
    (h : values M stack = v :: rest) :
    ∃ e es, stack = e :: es ∧ e.eval M = v ∧ values M es = rest :=
  List.map_eq_cons_iff.1 h

theorem values_append_inv {M : Meaning} {stack : List Expr} {front rest : List Int}
    (h : values M stack = front ++ rest) :
    ∃ es es', stack = es ++ es' ∧ values M es = front ∧ values M es' = rest :=
  List.map_eq_append_iff.1 h

/-- What a push leaves has the values that the machine pushes. -/
theorem values_immediates (M : Meaning) (operand : Operand) :
    values M (Replay.immediates operand).reverse = pushed M operand := by
  cases operand with
  | imm32 v =>
      have hsigned : Int.bmod v 0x100000000 = signed32 v := by
        unfold signed32
        simp only [Int.bmod_def]
        split <;> omega
      show [M.literal (.int (Int.bmod v 0x100000000))] = [M.literal (.int (signed32 v))]
      rw [hsigned]
  | _ => rfl

/-- Does replaying `i` in `s` lead to a stack of these values, and change nothing
else that can be seen? -/
def StepMatches (M : Meaning) (c : Context) (i : Instruction) (s : State) (next : List Int) :
    Prop :=
  ∃ s', Replay.step c i s = ((), s') ∧ values M s'.stack = next ∧ Quiet s s'

section Step

variable {M : Meaning} {i : Instruction} {s : State} {next : List Int}

theorem unary_matches (c : Context) {f : Int → Int} (hf : unaryMeaning M i.operation = some f)
    (hexec : Direct.exec M i (values M s.stack) = some next) : StepMatches M c i s next := by
  obtain ⟨op, hstep, rfl⟩ := step_unary hf c
  rw [(exec_unary hf _).1] at hexec
  obtain ⟨operands, rest, hstack, hlanes, rfl⟩ := replaceOne_eq_some hexec
  obtain ⟨es, es', hes, rfl, rfl⟩ := values_append_inv hstack
  have hlanes' : es.length = i.lanes := by rw [← hlanes, values, List.length_map]
  rw [StepMatches, hstep, Replay.applyUnary_append c op hes hlanes']
  refine ⟨_, rfl, ?_, ⟨rfl, rfl⟩⟩
  simp [values, Expr.eval]

theorem binary_matches (c : Context) {f : Int → Int → Int}
    (hf : binaryMeaning M i.operation = some f)
    (hexec : Direct.exec M i (values M s.stack) = some next) : StepMatches M c i s next := by
  obtain ⟨op, hstep, rfl⟩ := step_binary hf c
  rw [(exec_binary hf _).1] at hexec
  cases himmediate : i.operand.integer? with
  | some v =>
      -- The right-hand operand is in the instruction, and there is one lane.
      simp only [himmediate] at hexec
      obtain ⟨operands, rest, hstack, hlanes, rfl⟩ := replaceOne_eq_some hexec
      obtain ⟨left, rfl⟩ := List.length_eq_one_iff.1 hlanes
      obtain ⟨e, es, hes, rfl, rfl⟩ := values_cons_inv hstack
      rw [StepMatches, hstep, Replay.applyBinary_immediate c op hes himmediate]
      exact ⟨_, rfl, rfl, ⟨rfl, rfl⟩⟩
  | none =>
      simp only [himmediate] at hexec
      obtain ⟨left, right, rest, hstack, hright, hleft, rfl⟩ := replaceTwo_eq_some hexec
      obtain ⟨rights, others, hothers, rfl, hvalues⟩ := values_append_inv hstack
      obtain ⟨lefts, es, rfl, rfl, rfl⟩ := values_append_inv hvalues
      rw [values, List.length_map] at hright hleft
      rw [StepMatches, hstep, Replay.applyBinary_append c op hothers himmediate hright hleft]
      refine ⟨_, rfl, ?_, ⟨rfl, rfl⟩⟩
      rw [← values_zipWith]
      exact List.map_append

theorem top_matches (c : Context)
    (hmem : i.operation ∈ [Operation.dup, .drop, .intToFloat, .floatToInt])
    (hexec : Direct.exec M i (values M s.stack) = some next) : StepMatches M c i s next := by
  obtain ⟨e, es, hes⟩ : ∃ e es, s.stack = e :: es := by
    cases hstack : s.stack with
    | nil =>
        rw [hstack, values, List.map_nil, exec_nil M hmem] at hexec
        cases hexec
    | cons e es => exact ⟨e, es, rfl⟩
  rw [hes] at hexec
  simp only [List.mem_cons, List.not_mem_nil, or_false] at hmem
  unfold Direct.exec at hexec
  unfold StepMatches Replay.step
  rcases hmem with hop | hop | hop | hop <;> simp only [hop] at hexec ⊢ <;> cases hexec
  · rw [Replay.bind_apply, Replay.peek_cons c i.address hes]
    refine ⟨_, rfl, ?_, ⟨rfl, rfl⟩⟩
    show values M (e :: s.stack) = _
    rw [hes]
    rfl
  · refine ⟨{ s with stack := es }, ?_, rfl, ⟨rfl, rfl⟩⟩
    exact congrArg (fun popped => ((), popped.2)) (Replay.pop_cons c i.address hes)
  · exact ⟨_, Replay.convert_cons c i.address .float hes, rfl, ⟨rfl, rfl⟩⟩
  · exact ⟨_, Replay.convert_cons c i.address .int hes, rfl, ⟨rfl, rfl⟩⟩

theorem push_matches (c : Context)
    (hmem : i.operation ∈ [Operation.push, .localLoad, .staticLoad, .globalLoad])
    (hexec : Direct.exec M i (values M s.stack) = some next) : StepMatches M c i s next := by
  simp only [List.mem_cons, List.not_mem_nil, or_false] at hmem
  unfold Direct.exec at hexec
  unfold StepMatches Replay.step
  rcases hmem with hop | hop | hop | hop <;> simp only [hop] at hexec ⊢ <;> cases hexec
  · refine ⟨_, rfl, ?_, ⟨rfl, rfl⟩⟩
    show values M ((Replay.immediates i.operand).reverse ++ s.stack) = _
    rw [values, List.map_append, ← values, values_immediates]
    rfl
  -- A load may bring its variable into being, which is not reported.
  all_goals exact ⟨_, rfl, rfl, ⟨rfl, Store.diagnostics_touch _ _ _⟩⟩

/-- One instruction. -/
theorem step_simulates (c : Context) (hcomputes : computes i.operation = true)
    (hexec : Direct.exec M i (values M s.stack) = some next) : StepMatches M c i s next := by
  rcases computes_cases M hcomputes with ⟨f, hf⟩ | ⟨f, hf⟩ | hmem | hmem
  · exact unary_matches c hf hexec
  · exact binary_matches c hf hexec
  · exact top_matches c hmem hexec
  · exact push_matches c hmem hexec

end Step

theorem step_branch {i : Instruction} {test : Int → Int → Bool}
    (h : branchTest i.operation = some test) (M : Meaning) (c : Context) :
    ∃ op, Replay.step c i = Replay.branchOn c i op ∧
      ∀ left right, M.binary op left right ≠ 0 ↔ test left right = true := by
  unfold Replay.step
  cases hop : i.operation <;> rw [hop] at h <;> cases h <;>
    exact ⟨_, rfl, fun left right => truth_ne_zero_iff.trans decide_eq_true_iff.symm⟩

/-- A conditional branch. -/
theorem branch_simulates (M : Meaning) (c : Context) {i : Instruction} {target : Nat}
    (htarget : i.branchTarget? = some target) {s : State} {taken : Bool} {rest : List Int}
    (hdecide : decideBranch i (values M s.stack) = some (taken, rest)) :
    ∃ condition s', Replay.step c i s = ((), s') ∧
      s'.emitted = s.emitted.push (.ifGoto condition target i.nextAddress) ∧
      (condition.eval M ≠ 0 ↔ taken = true) ∧ values M s'.stack = rest ∧
      s'.store.diagnostics = s.store.diagnostics := by
  unfold decideBranch at hdecide
  split at hdecide
  · rename_i hzero
    split at hdecide
    · rename_i v values' hvalues
      cases hdecide
      obtain ⟨e, es, hes, rfl, rfl⟩ := values_cons_inv hvalues
      unfold Replay.step
      simp only [hzero, Replay.bind_apply, htarget]
      rw [Replay.pop_cons c i.address hes]
      refine ⟨e.negate, _, rfl, rfl, ?_, rfl, rfl⟩
      rw [Expr.eval_negate, decide_eq_true_iff]
    · cases hdecide
  · split at hdecide
    · rename_i test right left values' htest hvalues
      cases hdecide
      obtain ⟨e', es', hes', rfl, hothers⟩ := values_cons_inv hvalues
      obtain ⟨e, es, rfl, rfl, rfl⟩ := values_cons_inv hothers
      obtain ⟨op, hstep, hop⟩ := step_branch htest M c
      rw [hstep, Replay.branchOn_cons c op hes' htarget]
      exact ⟨_, _, rfl, rfl, hop _ _, rfl, rfl⟩
    · cases hdecide

theorem not_mem_of_computes {operation : Operation} (h : computes operation = true) :
    operation ∉ [Operation.ret, .call, .callNative] := by
  intro hmem
  simp only [List.mem_cons, List.not_mem_nil, or_false] at hmem
  rcases hmem with rfl | rfl | rfl <;> cases h

theorem not_mem_of_isConditionalBranch {operation : Operation}
    (h : operation.isConditionalBranch = true) :
    operation ∉ [Operation.ret, .call, .callNative] := by
  intro hmem
  simp only [List.mem_cons, List.not_mem_nil, or_false] at hmem
  rcases hmem with rfl | rfl | rfl <;> cases h

/-- Instructions that compute, one after another. -/
theorem replay_simulates (M : Meaning) (c : Context) {body : List Instruction}
    (hcomputes : ∀ i ∈ body, computes i.operation = true) {s : State} {final : List Int}
    (hrun : Direct.run M body (values M s.stack) = some final) :
    ∃ s', replay c s body = (none, s') ∧ values M s'.stack = final ∧
      s'.emitted = s.emitted ++ comments c body ∧
      s'.store.diagnostics = s.store.diagnostics := by
  -- The invariant is that the values of the stack are those of the machine.
  induction body generalizing s with
  | nil =>
      cases hrun
      refine ⟨s, rfl, rfl, ?_, rfl⟩
      unfold comments
      split <;> simp
  | cons i body ih =>
      obtain ⟨next, hexec, hrest⟩ := Option.bind_eq_some_iff.1 hrun
      have hi := hcomputes i List.mem_cons_self
      obtain ⟨middle, hstep, rfl, hquiet⟩ := step_simulates c hi
        (s := { s with emitted := s.emitted ++ comments c [i] }) hexec
      obtain ⟨s', hreplay, hvalues, hemitted, hdiagnostics⟩ :=
        ih (fun j hj => hcomputes j (List.mem_cons_of_mem _ hj)) hrest
      refine ⟨s', ?_, hvalues, ?_, hdiagnostics.trans hquiet.diagnostics⟩
      · rw [replay_cons_of_not_mem c body (not_mem_of_computes hi), replayInstruction_apply, hstep]
        exact hreplay
      · rw [hemitted, hquiet.emitted, Array.append_assoc, ← comments_append]
        rfl

/-- The symbolic stack stands for the real one: instructions that compute end in
expressions with the values that the machine computes, and a conditional branch
behind them emits a condition that is true exactly if the machine jumps. -/
theorem replay_refines (M : Meaning) (c : Context) (s : State) {body : List Instruction}
    (hcomputes : ∀ i ∈ body, computes i.operation = true)
    (hdeep : DeepEnough body s.stack.length) :
    ∃ final s', Direct.run M body (values M s.stack) = some final ∧
      replay c s body = (none, s') ∧ values M s'.stack = final ∧
      s'.emitted = s.emitted ++ comments c body ∧
      s'.store.diagnostics = s.store.diagnostics ∧
      ∀ branch target, branch.operation.isConditionalBranch = true →
        branch.branchTarget? = some target → needed branch ≤ final.length →
          ∃ taken rest condition s'', decideBranch branch final = some (taken, rest) ∧
            replay c s (body ++ [branch]) = (none, s'') ∧
            s''.emitted = (s.emitted ++ comments c (body ++ [branch])).push
              (.ifGoto condition target branch.nextAddress) ∧
            (condition.eval M ≠ 0 ↔ taken = true) ∧ values M s''.stack = rest ∧
            s''.store.diagnostics = s.store.diagnostics := by
  have hdepth : DeepEnough body (values M s.stack).length := by
    rw [values, List.length_map]
    exact hdeep
  obtain ⟨final, hrun⟩ := run_of_deepEnough M hcomputes hdepth
  obtain ⟨s', hreplay, rfl, hemitted, hdiagnostics⟩ := replay_simulates M c hcomputes hrun
  refine ⟨_, s', hrun, hreplay, rfl, hemitted, hdiagnostics, ?_⟩
  intro branch target hbranch htarget hneeded
  obtain ⟨taken, rest, hdecide⟩ := decideBranch_of_needed hbranch hneeded
  obtain ⟨condition, s'', hstep, hpushed, hcondition, hrest, hquiet⟩ := branch_simulates M c
    htarget (s := { s' with emitted := s'.emitted ++ comments c [branch] }) hdecide
  refine ⟨taken, rest, condition, s'', hdecide, ?_, ?_, hcondition, hrest,
    hquiet.trans hdiagnostics⟩
  · have hfaultless := not_mem_of_isConditionalBranch hbranch
    rw [replay_append c hreplay, replay_cons_of_not_mem c [] hfaultless,
      replayInstruction_apply, hstep]
    rfl
  · rw [hpushed, hemitted, Array.append_assoc, ← comments_append]

/-- Two vectors are added on top of a value, and the two topmost sums compared. -/
theorem replay_refines_vectors :
    let M : Meaning :=
      { literal := fun l => match l with | .int v => v | _ => 0
        var := fun _ => 0
        arithmetic := fun op left right => if op = .add then left + right else 0
        negation := fun v => -v
        cast := fun _ v => v
        other := fun _ => 0 }
    let c : Context := ⟨⟨"unit", [], 0, [], #[], []⟩, Native.Database.empty, false, 0⟩
    let s : State := ⟨⟨#[], ⟨Table.empty, Table.empty⟩, #[]⟩, [.int 5], #[]⟩
    let body : List Instruction :=
      [⟨0, 39, .imm8x3 1 2 3, 4⟩, ⟨4, 39, .imm8x3 10 20 30, 4⟩, ⟨8, 26, .none, 1⟩]
    let branch : Instruction := ⟨9, 89, .branch 4 16, 3⟩
    (∀ i ∈ body, computes i.operation = true) ∧ DeepEnough body s.stack.length ∧
      ∃ s' condition s'', replay c s body = (none, s') ∧ values M s'.stack = [33, 22, 11, 5] ∧
        replay c s (body ++ [branch]) = (none, s'') ∧
        s''.emitted = #[.ifGoto condition 16 12] ∧ condition.eval M = 0 ∧
        values M s''.stack = [11, 5] := by
  intro M c s body branch
  have hcomputes : ∀ i ∈ body, computes i.operation = true := by decide +kernel
  have hdeep : DeepEnough body s.stack.length :=
    ⟨by decide +kernel, by decide +kernel, by decide +kernel, trivial⟩
  obtain ⟨final, s', hrun, hreplay, hvalues, -, -, hbranch⟩ := replay_refines M c s hcomputes hdeep
  have hsums : Direct.run M body (values M s.stack) = some [33, 22, 11, 5] := by decide +kernel
  have hfinal : final = [33, 22, 11, 5] := Option.some.inj (hrun.symm.trans hsums)
  subst hfinal
  obtain ⟨taken, rest, condition, s'', hdecide, hreplay', hemitted, hcondition, hrest, -⟩ :=
    hbranch branch 16 (by decide +kernel) rfl (by decide +kernel)
  have htest : decideBranch branch [33, 22, 11, 5] = some (false, [11, 5]) := by decide +kernel
  obtain ⟨rfl, rfl⟩ := Prod.mk.inj (Option.some.inj (hdecide.symm.trans htest))
  refine ⟨hcomputes, hdeep, s', condition, s'', hreplay, hvalues, hreplay', hemitted, ?_, hrest⟩
  simpa using hcondition

end ScriptDecompiler.Machine
