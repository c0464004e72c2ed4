import ScriptDecompiler.Proofs.Machine.Results
import ScriptDecompiler.Proofs.Machine.Simulation
import ScriptDecompiler.Proofs.Machine.Variables

/-!
# Assignments in order

A load leaves a reference to its variable on the stack, and a store adds its assignment
at once.  Nothing is copied out of the way: what stays on the stack is what was there
before, and a reference to the variable that was assigned to stands for its new value
from then on.

As long as no such stale reference is left, the assignments executed in order give every
variable the value that the machine gives it.  The invariant is that the values of the
symbolic stack, with the variables as the executed assignments leave them, are the
numbers on the stack of the machine.
-/

namespace ScriptDecompiler.Machine

open Direct
open ScriptDecompiler.Bytecode (Instruction Operation opcodeInfo)

-- The opcode table is too large to be unfolded whenever terms are compared.
attribute [local irreducible] opcodeInfo

namespace Replay

/-- Passing on a type changes what is known about variables only. -/
theorem infer_apply (c : Context) (address : Nat) (e : Expr) (ty : Ty) (s : State) :
    ∃ store, infer c address e ty s = ((), { s with store := store }) :=
  ⟨_, infer_eq c address s e ty⟩

theorem assign_apply (c : Context) (address : Nat) (dest value : Expr) (s : State) :
    ∃ store, assign c address dest value s =
      ((), ⟨store, s.stack, s.emitted.push (.assign dest value)⟩) := by
  obtain ⟨store, hinfer⟩ := infer_apply c address dest (value.typeIn (s.store.scope c.current)) s
  refine ⟨store, ?_⟩
  have hbind : assign c address dest value s =
      emit (.assign dest value)
        (infer c address dest (value.typeIn (s.store.scope c.current)) s).2 := rfl
  rw [hbind, hinfer]
  rfl

theorem inferResult_apply (c : Context) (address : Nat) (ty : Ty) (s : State) :
    ∃ store, inferResult c address ty s = ((), { s with store := store }) :=
  ⟨_, inferResult_eq c address s ty⟩

end Replay

/-- Is an instruction, on such a stack, covered by the machine?  It computes, works on
variables or transfers control; a pointer that it uses is the address of a variable. -/
inductive Covered (i : Instruction) : List Expr → Prop
  | compute {stack : List Expr} (hop : computes i.operation = true)
      (hdeep : needed i ≤ stack.length) : Covered i stack
  | idle {stack : List Expr} (hop : i.operation = .nop ∨ i.operation = .enter) : Covered i stack
  | takeAddress {stack : List Expr}
      (hop : i.operation ∈ [Operation.localAddress, .staticAddress, .globalAddress]) :
      Covered i stack
  | storeVariable {value : Expr} {rest : List Expr}
      (hop : i.operation ∈ [Operation.localStore, .staticStore, .globalStore]) :
      Covered i (value :: rest)
  | load {r : VarRef} {rest : List Expr} (hop : i.operation = .load) :
      Covered i (.addressOf (.var r) :: rest)
  | store {r : VarRef} {value : Expr} {rest : List Expr} (hop : i.operation = .store) :
      Covered i (.addressOf (.var r) :: value :: rest)
  | storeKeep {value : Expr} {r : VarRef} {rest : List Expr} (hop : i.operation = .storeKeep) :
      Covered i (value :: .addressOf (.var r) :: rest)
  | jump {stack : List Expr} (hop : i.operation = .branch) : Covered i stack
  | test {stack : List Expr} {target : Nat} (hop : i.operation.isConditionalBranch = true)
      (htarget : i.branchTarget? = some target) (hdeep : needed i ≤ stack.length) : Covered i stack
  | select {value : Expr} {rest : List Expr} (hop : i.operation = .switch) :
      Covered i (value :: rest)
  | leave {stack : List Expr} {arguments : Nat} (hop : i.operation = .ret)
      (hoperand : i.operand = .ret arguments 0) : Covered i stack
  | answer {value : Expr} {rest : List Expr} {arguments : Nat} (hop : i.operation = .ret)
      (hoperand : i.operand = .ret arguments 1) : Covered i (value :: rest)

/-- Does nothing on the stack read a variable to which the instruction has just added an
assignment? -/
def NoStaleRead (c : Context) (i : Instruction) (s : State) : Prop :=
  ∀ r ∈ (added c i s).filterMap Stmt.assigned?,
    ∀ e ∈ (replayInstruction c i s).2.stack, r ∉ e.reads

instance (c : Context) (i : Instruction) (s : State) : Decidable (NoStaleRead c i s) :=
  inferInstanceAs (Decidable (∀ r ∈ _, ∀ e ∈ _, r ∉ Expr.reads e))

theorem NoStaleRead.of_assign {c : Context} {i : Instruction} {s : State}
    (h : NoStaleRead c i s) {r : VarRef} {value : Expr}
    (hadded : .assign (.var r) value ∈ added c i s) :
    ∀ e ∈ (replayInstruction c i s).2.stack, r ∉ e.reads :=
  h r (List.mem_filterMap.2 ⟨_, hadded, rfl⟩)

section Steps

variable {D : Domain} {vars : VarRef → Int} {c : Context} {i : Instruction} {s s' : State}

/-- Do the statements added between two states, executed in order, lead to the variables of
`t`, and does the stack then stand for the numbers of `t`? -/
structure Tracks (D : Domain) (vars : VarRef → Int) (s s' : State) (t : Config) : Prop where
  executed : ∃ new, s'.emitted.toList = s.emitted.toList ++ new ∧
    Stmt.executeAll? D vars new = some t.vars
  stack : values (D.meaning t.vars) s'.stack = t.stack

theorem Tracks.trans {s'' : State} {t t' : Config} (h : Tracks D vars s s' t)
    (h' : Tracks D t.vars s' s'' t') : Tracks D vars s s'' t' := by
  obtain ⟨front, hfront, hexecuted⟩ := h.executed
  obtain ⟨back, hback, hexecuted'⟩ := h'.executed
  refine ⟨⟨front ++ back, by rw [hback, hfront, List.append_assoc], ?_⟩, h'.stack⟩
  rw [Stmt.executeAll?_append, hexecuted]
  exact hexecuted'

/-- Nothing is added. -/
theorem Tracks.of_emitted_eq {stack : List Int} (hemitted : s'.emitted = s.emitted)
    (hstack : values (D.meaning vars) s'.stack = stack) : Tracks D vars s s' ⟨stack, vars⟩ :=
  ⟨⟨[], by rw [hemitted, List.append_nil], rfl⟩, hstack⟩

/-- A statement that leaves the variables alone. -/
theorem Tracks.of_isNeutral {statement : Stmt} {stack : List Int}
    (hneutral : statement.isNeutral = true) (hemitted : s'.emitted = s.emitted.push statement)
    (hstack : values (D.meaning vars) s'.stack = stack) : Tracks D vars s s' ⟨stack, vars⟩ := by
  refine ⟨⟨[statement], by rw [hemitted, Array.toList_push], ?_⟩, hstack⟩
  rw [Stmt.executeAll?, Stmt.execute?_of_isNeutral hneutral]
  rfl

/-- A change of a variable leaves values alone that do not depend on it. -/
theorem values_update {stack : List Expr} {r : VarRef} (h : ∀ e ∈ stack, r ∉ e.reads)
    (D : Domain) (vars : VarRef → Int) (value : Int) :
    values (D.meaning (Function.update vars r value)) stack = values (D.meaning vars) stack := by
  refine List.map_congr_left fun e he => D.eval_congr fun r' hr' => ?_
  have hne : r' ≠ r := by
    rintro rfl
    exact h e he hr'
  exact Function.update_of_ne hne _ _

/-- An assignment to a variable that nothing on the stack reads. -/
theorem Tracks.of_assign {r : VarRef} {value : Expr} {stack : List Int}
    (hemitted : s'.emitted = s.emitted.push (.assign (.var r) value))
    (hfresh : ∀ e ∈ s'.stack, r ∉ e.reads)
    (hstack : values (D.meaning vars) s'.stack = stack) :
    Tracks D vars s s' ⟨stack, Function.update vars r (value.eval (D.meaning vars))⟩ := by
  refine ⟨⟨[.assign (.var r) value], by rw [hemitted, Array.toList_push], rfl⟩, ?_⟩
  rw [← hstack]
  exact values_update hfresh D vars _

theorem tracks_comments (D : Domain) (vars : VarRef → Int) (c : Context)
    (body : List Instruction) (s : State) :
    Tracks D vars s { s with emitted := s.emitted ++ comments c body }
      ⟨values (D.meaning vars) s.stack, vars⟩ := by
  have hcomments : ∀ body : List Instruction,
      Stmt.executeAll? D vars (body.map instructionComment) = some vars := by
    intro body
    induction body with
    | nil => rfl
    | cons i body ih => exact ih
  refine ⟨⟨(comments c body).toList, Array.toList_append, ?_⟩, rfl⟩
  unfold comments
  split
  · exact hcomments body
  · rfl

/-- Does replaying `i` in `s` do what the machine does, as far as the variables and the stack
go? -/
def StepTracks (D : Domain) (vars : VarRef → Int) (c : Context) (i : Instruction) (s : State) :
    Prop :=
  ∃ t, advance D i ⟨values (D.meaning vars) s.stack, vars⟩ = some t ∧
    Tracks D vars s (Replay.step c i s).2 t

theorem compute_tracks (hop : computes i.operation = true) (hdeep : needed i ≤ s.stack.length) :
    StepTracks D vars c i s := by
  have hvalues : needed i ≤ (values (D.meaning vars) s.stack).length := by
    rw [values, List.length_map]
    exact hdeep
  obtain ⟨next, hexec, -⟩ := exec_of_needed (D.meaning vars) hop hvalues
  obtain ⟨after, hstep, hnext, hquiet⟩ := step_simulates c hop hexec
  rw [StepTracks, advance_of_computes hop, hexec, hstep]
  exact ⟨_, rfl, .of_emitted_eq hquiet.emitted hnext⟩

theorem idle_tracks (hop : i.operation = .nop ∨ i.operation = .enter) :
    StepTracks D vars c i s := by
  unfold StepTracks Replay.step advance
  rcases hop with hop | hop <;> simp only [hop] <;> exact ⟨_, rfl, .of_emitted_eq rfl rfl⟩

/-- An address is pushed, and nothing is added. -/
theorem step_takeAddress
    (hop : i.operation ∈ [Operation.localAddress, .staticAddress, .globalAddress]) :
    ∃ store, (Replay.step c i s).2 =
      ⟨store, .addressOf (.var (variableOf i)) :: s.stack, s.emitted⟩ := by
  simp only [List.mem_cons, List.not_mem_nil, or_false] at hop
  unfold Replay.step variableOf
  rcases hop with hop | hop | hop <;> simp only [hop] <;> exact ⟨_, rfl⟩

theorem takeAddress_tracks
    (hop : i.operation ∈ [Operation.localAddress, .staticAddress, .globalAddress]) :
    StepTracks D vars c i s := by
  obtain ⟨store, hstep⟩ := step_takeAddress (c := c) (s := s) hop
  refine ⟨⟨D.address (variableOf i) :: values (D.meaning vars) s.stack, vars⟩, ?_, ?_⟩
  · simp only [List.mem_cons, List.not_mem_nil, or_false] at hop
    unfold advance
    rcases hop with hop | hop | hop <;> simp only [hop]
  · rw [hstep]
    refine .of_emitted_eq rfl ?_
    show D.other vars (.addressOf (.var (variableOf i))) :: values (D.meaning vars) s.stack = _
    rw [D.other_addressOf]

theorem load_tracks (hop : i.operation = .load) {r : VarRef} {rest : List Expr}
    (hstack : s.stack = .addressOf (.var r) :: rest) : StepTracks D vars c i s := by
  refine ⟨⟨vars r :: values (D.meaning vars) rest, vars⟩, ?_, ?_⟩
  · unfold advance
    simp only [hop, hstack, values, List.map_cons, D.variableAt?_eval, Option.map_some]
  · unfold Replay.step
    simp only [hop]
    rw [Replay.bind_apply, Replay.pop_cons c i.address hstack]
    exact .of_emitted_eq rfl rfl

section Stores

variable {r : VarRef} {value : Expr} {rest : List Expr}

/-- Does the step take a value off the stack and add an assignment of it? -/
def StepAssigns (c : Context) (i : Instruction) (s : State) (r : VarRef) (value : Expr)
    (rest : List Expr) : Prop :=
  ∃ store, (Replay.step c i s).2 = ⟨store, rest, s.emitted.push (.assign (.var r) value)⟩

theorem storeVariable_assigns
    (hop : i.operation ∈ [Operation.localStore, .staticStore, .globalStore])
    (hstack : s.stack = value :: rest) : StepAssigns c i s (variableOf i) value rest := by
  have hstore : ∀ r, ∃ store, (Replay.storeVariable c i.address r s).2 =
      ⟨store, rest, s.emitted.push (.assign (.var r) value)⟩ := by
    intro r
    have hpop := Replay.pop_cons c i.address
      (show (Replay.touch c r s).2.stack = value :: rest from hstack)
    obtain ⟨store, hassign⟩ := Replay.assign_apply c i.address (.var r) value
      { (Replay.touch c r s).2 with stack := rest }
    unfold Replay.storeVariable
    rw [Replay.bind_apply, Replay.bind_apply, hpop, hassign]
    exact ⟨store, rfl⟩
  simp only [List.mem_cons, List.not_mem_nil, or_false] at hop
  unfold StepAssigns Replay.step variableOf
  rcases hop with hop | hop | hop <;> simp only [hop] <;> exact hstore _

theorem store_assigns (hop : i.operation = .store)
    (hstack : s.stack = .addressOf (.var r) :: value :: rest) :
    StepAssigns c i s r value rest := by
  unfold StepAssigns Replay.step
  simp only [hop]
  rw [Replay.bind_apply, Replay.pop_cons c i.address hstack, Replay.bind_apply,
    Replay.pop_cons c i.address (show State.stack _ = value :: rest from rfl)]
  obtain ⟨store, hassign⟩ := Replay.assign_apply c i.address (.var r) value { s with stack := rest }
  exact ⟨store, congrArg Prod.snd hassign⟩

theorem storeKeep_assigns (hop : i.operation = .storeKeep)
    (hstack : s.stack = value :: .addressOf (.var r) :: rest) :
    StepAssigns c i s r value (.addressOf (.var r) :: rest) := by
  unfold StepAssigns Replay.step
  simp only [hop]
  rw [Replay.bind_apply, Replay.pop_cons c i.address hstack, Replay.bind_apply,
    Replay.peek_cons c i.address (show State.stack _ = .addressOf (.var r) :: rest from rfl)]
  obtain ⟨store, hassign⟩ := Replay.assign_apply c i.address (.var r) value
    { s with stack := .addressOf (.var r) :: rest }
  exact ⟨store, congrArg Prod.snd hassign⟩

/-- A store whose assignment leaves no stale read. -/
theorem StepAssigns.tracks (h : StepAssigns c i s r value rest)
    (hadvance : advance D i ⟨values (D.meaning vars) s.stack, vars⟩ =
      some ⟨values (D.meaning vars) rest,
        Function.update vars r (value.eval (D.meaning vars))⟩)
    (hfresh : ∀ e ∈ rest, r ∉ e.reads) : StepTracks D vars c i s := by
  obtain ⟨store, hstep⟩ := h
  rw [StepTracks, hstep]
  exact ⟨_, hadvance, .of_assign rfl hfresh rfl⟩

end Stores

theorem jump_tracks (hop : i.operation = .branch) : StepTracks D vars c i s := by
  unfold StepTracks Replay.step advance
  simp only [hop]
  cases i.branchTarget? with
  | some target => exact ⟨_, rfl, .of_isNeutral rfl rfl rfl⟩
  | none => exact ⟨_, rfl, .of_emitted_eq rfl rfl⟩

theorem test_tracks (hop : i.operation.isConditionalBranch = true) {target : Nat}
    (htarget : i.branchTarget? = some target) (hdeep : needed i ≤ s.stack.length) :
    StepTracks D vars c i s := by
  have hvalues : needed i ≤ (values (D.meaning vars) s.stack).length := by
    rw [values, List.length_map]
    exact hdeep
  obtain ⟨taken, rest, hdecide⟩ := decideBranch_of_needed hop hvalues
  obtain ⟨condition, after, hstep, hemitted, -, hrest, -⟩ :=
    branch_simulates (D.meaning vars) c htarget hdecide
  rw [StepTracks, advance_of_isConditionalBranch hop, hdecide, hstep]
  exact ⟨_, rfl, .of_isNeutral rfl hemitted hrest⟩

theorem select_tracks (hop : i.operation = .switch) {value : Expr} {rest : List Expr}
    (hstack : s.stack = value :: rest) : StepTracks D vars c i s := by
  refine ⟨⟨values (D.meaning vars) rest, vars⟩, ?_, ?_⟩
  · unfold advance
    simp only [hop, hstack, values, List.map_cons]
  · unfold Replay.step
    simp only [hop]
    rw [Replay.bind_apply, Replay.pop_cons c i.address hstack]
    cases i.operand with
    | switch cases => exact .of_isNeutral rfl rfl rfl
    | _ => exact .of_emitted_eq rfl rfl

theorem leave_tracks (hop : i.operation = .ret) {arguments : Nat}
    (hoperand : i.operand = .ret arguments 0) : StepTracks D vars c i s := by
  obtain ⟨store, hinfer⟩ := Replay.inferResult_apply c i.address .void s
  unfold StepTracks Replay.step Replay.returnValues advance
  simp only [hop, hoperand, if_true]
  rw [Replay.bind_apply, hinfer]
  exact ⟨_, rfl, .of_isNeutral rfl rfl rfl⟩

theorem answer_tracks (hop : i.operation = .ret) {arguments : Nat}
    (hoperand : i.operand = .ret arguments 1) {value : Expr} {rest : List Expr}
    (hstack : s.stack = value :: rest) : StepTracks D vars c i s := by
  refine ⟨⟨values (D.meaning vars) rest, vars⟩, ?_, ?_⟩
  · unfold advance
    simp only [hop, hoperand, hstack, values, List.map_cons]
  · let ty := value.typeIn (s.store.scope c.current)
    obtain ⟨store, hinfer⟩ := Replay.inferResult_apply c i.address ty { s with stack := rest }
    unfold Replay.step Replay.returnValues
    simp only [hop, hoperand, Nat.one_ne_zero, if_false]
    rw [Replay.bind_apply, Replay.pop_cons c i.address hstack]
    show Tracks D vars s (Replay.emit (.ret (some value))
      (Replay.inferResult c i.address ty { s with stack := rest }).2).2 _
    rw [hinfer]
    exact .of_isNeutral rfl rfl rfl

/-- One instruction. -/
theorem Covered.step (h : Covered i s.stack)
    (hfresh : ∀ r value rest, StepAssigns c i s r value rest → ∀ e ∈ rest, r ∉ e.reads) :
    StepTracks D vars c i s := by
  generalize hstack : s.stack = stack at h
  cases h with
  | compute hop hdeep => exact compute_tracks hop (hstack ▸ hdeep)
  | idle hop => exact idle_tracks hop
  | takeAddress hop => exact takeAddress_tracks hop
  | load hop => exact load_tracks hop hstack
  | storeVariable hop =>
      have hassigns := storeVariable_assigns (c := c) hop hstack
      refine hassigns.tracks ?_ (hfresh _ _ _ hassigns)
      simp only [List.mem_cons, List.not_mem_nil, or_false] at hop
      unfold advance
      rcases hop with hop | hop | hop <;> simp only [hop, hstack, values, List.map_cons]
  | store hop =>
      have hassigns := store_assigns (c := c) hop hstack
      refine hassigns.tracks ?_ (hfresh _ _ _ hassigns)
      unfold advance
      simp only [hop, hstack, values, List.map_cons, D.variableAt?_eval, Option.map_some]
  | storeKeep hop =>
      have hassigns := storeKeep_assigns (c := c) hop hstack
      refine hassigns.tracks ?_ (hfresh _ _ _ hassigns)
      unfold advance
      simp only [hop, hstack, values, List.map_cons, D.variableAt?_eval, Option.map_some]
  | jump hop => exact jump_tracks hop
  | test hop htarget hdeep => exact test_tracks hop htarget (hstack ▸ hdeep)
  | select hop => exact select_tracks hop hstack
  | leave hop hoperand => exact leave_tracks hop hoperand
  | answer hop hoperand => exact answer_tracks hop hoperand hstack

theorem Covered.fault?_eq_none {stack : List Expr} (h : Covered i stack) (c : Context)
    (frames : Array Frame) : fault? c frames i = none := by
  have hreturn : ∀ arguments values, i.operation = .ret → i.operand = .ret arguments values →
      values ≤ 1 → fault? c frames i = none := by
    intro arguments values hop hoperand hvalues
    unfold fault? faultKind?
    simp only [hop, hoperand, if_pos hvalues, Option.map_none]
  cases h with
  | leave hop hoperand => exact hreturn _ 0 hop hoperand (by decide)
  | answer hop hoperand => exact hreturn _ 1 hop hoperand (by decide)
  | compute hop => exact Machine.fault?_eq_none c frames (not_mem_of_computes hop)
  | test hop => exact Machine.fault?_eq_none c frames (not_mem_of_isConditionalBranch hop)
  | idle hop =>
      rcases hop with hop | hop <;>
        exact Machine.fault?_eq_none c frames (by rw [hop]; decide)
  | takeAddress hop | storeVariable hop =>
      simp only [List.mem_cons, List.not_mem_nil, or_false] at hop
      rcases hop with hop | hop | hop <;>
        exact Machine.fault?_eq_none c frames (by rw [hop]; decide)
  | load hop | store hop | storeKeep hop | jump hop | select hop =>
      exact Machine.fault?_eq_none c frames (by rw [hop]; decide)

/-- One instruction, with its comment. -/
theorem Covered.replayInstruction (h : Covered i s.stack) (hfresh : NoStaleRead c i s) :
    ∃ t, advance D i ⟨values (D.meaning vars) s.stack, vars⟩ = some t ∧
      Tracks D vars s (replayInstruction c i s).2 t := by
  let commented : State := { s with emitted := s.emitted ++ comments c [i] }
  have hsteps : ∀ r value rest, StepAssigns c i commented r value rest →
      ∀ e ∈ rest, r ∉ e.reads := by
    rintro r value rest ⟨store, hstep⟩
    have hnew := congrArg (fun after => after.emitted.toList) hstep
    rw [Array.toList_push] at hnew
    have hadded : .assign (.var r) value ∈ added c i s := by
      rw [added_eq c hnew]
      exact List.mem_append_right _ (List.mem_singleton.2 rfl)
    have hunread := hfresh.of_assign hadded
    rw [replayInstruction_apply, hstep] at hunread
    exact hunread
  obtain ⟨t, hadvance, htracks⟩ := Covered.step (D := D) (s := commented) h hsteps
  rw [replayInstruction_apply]
  exact ⟨t, hadvance, (tracks_comments D vars c [i] s).trans htracks⟩

/-- An instruction that does not store leaves no stale read. -/
theorem noStaleRead_of_not_stores (h : stores i.operation = false) (s : State) :
    NoStaleRead c i s := by
  intro r hr
  obtain ⟨statement, hmem, hassigned⟩ := List.mem_filterMap.1 hr
  obtain ⟨value, rfl⟩ := Stmt.assigned?_eq_some_iff.1 hassigned
  have hstores : stores i.operation = true := adds_of_mem_added c hmem
  rw [h] at hstores
  cases hstores

end Steps

section Runs

variable {c : Context} {start : State} {first : Instruction} {body : List Instruction}

/-- Instructions one after another. -/
theorem replay_tracks (D : Domain) (vars : VarRef → Int)
    (h : ∀ i s, ReplaysIn c start body i s → Covered i s.stack ∧ NoStaleRead c i s) :
    ∃ t s', advanceAll D body ⟨values (D.meaning vars) start.stack, vars⟩ = some t ∧
      replay c start body = (none, s') ∧ Tracks D vars start s' t := by
  induction body generalizing start vars with
  | nil => exact ⟨_, start, rfl, rfl, .of_emitted_eq rfl rfl⟩
  | cons i body ih =>
      have hcovered := (h i start ⟨[], body, rfl, rfl⟩).1
      have hfault := hcovered.fault?_eq_none c start.store.frames
      obtain ⟨⟨-, hfresh⟩, hrest⟩ := (forall_replaysIn_cons hfault).1 h
      obtain ⟨t, hadvance, htracks⟩ := hcovered.replayInstruction (D := D) hfresh
      obtain ⟨t', s', hrun, hreplay, htracks'⟩ := ih t.vars hrest
      refine ⟨t', s', ?_, ?_, htracks.trans htracks'⟩
      · rw [advanceAll, hadvance]
        rw [htracks.stack] at hrun
        exact hrun
      · exact replay_cons_eq_none_iff.2 ⟨hfault, hreplay⟩

/-- Only instructions that store add assignments, and what they leave on the stack was
there before; it keeps its values when an assignment to a variable is executed that
nothing there reads.  While no stale read is left, the statements executed in order give
the variables the values that the machine gives them, and the stack stands for the numbers
of the machine. -/
theorem assignments_execute (c : Context) :
    (∀ i s dest value, .assign dest value ∈ added c i s → stores i.operation = true ∧
      ∃ count, (replayInstruction c i s).2.stack = s.stack.drop count ∧
        (NoStaleRead c i s → ∀ r, dest = .var r → ∀ (D : Domain) (vars : VarRef → Int),
          values (D.meaning (Function.update vars r (value.eval (D.meaning vars))))
              (replayInstruction c i s).2.stack =
            (values (D.meaning vars) s.stack).drop count)) ∧
    ∀ (D : Domain) (vars : VarRef → Int) (start : State) (body : List Instruction),
      (∀ i s, ReplaysIn c start body i s → Covered i s.stack ∧ NoStaleRead c i s) →
      ∃ t s' new, advanceAll D body ⟨values (D.meaning vars) start.stack, vars⟩ = some t ∧
        replay c start body = (none, s') ∧ s'.emitted.toList = start.emitted.toList ++ new ∧
        Stmt.executeAll? D vars new = some t.vars ∧
        values (D.meaning t.vars) s'.stack = t.stack := by
  constructor
  · intro i s dest value hmem
    have hstores : stores i.operation = true := adds_of_mem_added c hmem
    obtain ⟨count, hcount⟩ := exists_dropped_of_stores c hstores s
    refine ⟨hstores, count, hcount, ?_⟩
    rintro hfresh r rfl D vars
    rw [values_update (hfresh.of_assign hmem), hcount]
    exact List.map_drop
  · intro D vars start body h
    obtain ⟨t, s', hrun, hreplay, htracks⟩ := replay_tracks D vars h
    obtain ⟨new, hnew, hexecuted⟩ := htracks.executed
    exact ⟨t, s', new, hrun, hreplay, hnew, hexecuted, htracks.stack⟩

/-- A store through the address of a variable, with a reference to another one below. -/
theorem assignments_execute_pointer :
    let c : Context := ⟨⟨"u", [], 0, [], #[], []⟩, .empty, true, 0⟩
    let start : State := ⟨⟨#[], ⟨Table.empty, Table.empty⟩, #[]⟩, [.var (.slot 2)], #[]⟩
    let load : Instruction := ⟨0, 56, .imm8 1, 2⟩
    let address : Instruction := ⟨2, 55, .imm8 0, 2⟩
    let store : Instruction := ⟨4, 48, .none, 1⟩
    let s : State := (replayInstruction c address (replayInstruction c load start).2).2
    let body : List Instruction := [load, address, store]
    let vars : VarRef → Int := fun r => if r = .slot 1 then 7 else 5
    (∃ value count, .assign (.var (.slot 0)) value ∈ added c store s ∧ NoStaleRead c store s ∧
      (replayInstruction c store s).2.stack = s.stack.drop count) ∧
    (∀ i s, ReplaysIn c start body i s → Covered i s.stack ∧ NoStaleRead c i s) ∧
      ∃ t s', advanceAll .integers body ⟨[5], vars⟩ = some t ∧
        replay c start body = (none, s') ∧
        Stmt.executeAll? .integers vars s'.emitted.toList = some t.vars ∧
        t.vars (.slot 0) = 7 ∧ values (Domain.integers.meaning t.vars) s'.stack = [5] := by
  intro c start load address store s body vars
  have hassigned : (added c store s).filterMap Stmt.assigned? = [.slot 0] := by decide +kernel
  have hfresh : NoStaleRead c store s := by decide +kernel
  obtain ⟨value, rest, hstack⟩ : ∃ value rest,
      s.stack = .addressOf (.var (variableOf address)) :: value :: rest := by
    obtain ⟨known, hstep⟩ := step_takeAddress (i := address)
      (show address.operation ∈ _ by decide +kernel)
    obtain ⟨value, rest, hloaded⟩ := List.exists_cons_of_length_pos
      (show 0 < (replayInstruction c load start).2.stack.length by decide +kernel)
    refine ⟨value, rest, ?_⟩
    rw [← hloaded]
    show (replayInstruction c address _).2.stack = _
    rw [replayInstruction_apply, hstep]
  have hcovered : ∀ i s, ReplaysIn c start body i s → Covered i s.stack ∧ NoStaleRead c i s := by
    refine (forall_replaysIn_cons (by decide +kernel)).2
      ⟨⟨.compute (by decide +kernel) (by decide +kernel),
        noStaleRead_of_not_stores (by decide +kernel) _⟩, ?_⟩
    refine (forall_replaysIn_cons (by decide +kernel)).2
      ⟨⟨.takeAddress (by decide +kernel), noStaleRead_of_not_stores (by decide +kernel) _⟩, ?_⟩
    refine (forall_replaysIn_cons (by decide +kernel)).2 ⟨⟨?_, hfresh⟩, ?_⟩
    · show Covered store s.stack
      rw [hstack]
      exact .store (by decide +kernel)
    · rintro i s ⟨before, after, hnil, -⟩
      simp at hnil
  obtain ⟨hleft, hexecutes⟩ := assignments_execute c
  obtain ⟨statement, hmem, hslot⟩ := List.mem_filterMap.1
    (show .slot 0 ∈ (added c store s).filterMap Stmt.assigned? by
      rw [hassigned]; exact List.mem_cons_self)
  obtain ⟨value, rfl⟩ := Stmt.assigned?_eq_some_iff.1 hslot
  obtain ⟨-, count, hcount, -⟩ := hleft store s _ value hmem
  obtain ⟨t, s', new, hrun, hreplay, hnew, hexecuted, hend⟩ :=
    hexecutes .integers vars start body hcovered
  have hfinal : (advanceAll .integers body ⟨[5], vars⟩).map (fun t => (t.stack, t.vars (.slot 0))) =
      some ([5], 7) := by decide +kernel
  rw [show advanceAll .integers body ⟨[5], vars⟩ = some t from hrun, Option.map_some,
    Option.some.injEq, Prod.mk.injEq] at hfinal
  refine ⟨⟨value, count, hmem, hfresh, hcount⟩, hcovered, t, s', hrun, hreplay, ?_, hfinal.2,
    hend.trans hfinal.1⟩
  rw [show s'.emitted.toList = new from hnew]
  exact hexecuted

/-- Two variables are exchanged over the stack.  The first assignment leaves a reference to
its variable on the stack, and so the second one gives back the value that was just
assigned, where the machine gives the old one. -/
theorem exists_stale_read :
    let code : List UInt8 := [45, 0, 3, 0, 1, 102, 56, 0, 56, 1, 57, 0, 57, 1, 46, 0, 0]
    let u : ScriptUnit := ⟨"u", code, code.length, [], #[], []⟩
    let c : Context := ⟨u, .empty, false, 0⟩
    let vars : VarRef → Int := fun r => if r = .slot 0 then 1 else 2
    ∃ instructions i s ret s' t vars', u.instructions = .ok instructions ∧
      Replays (u.program instructions) c i s ∧
      (added c i s).filterMap Stmt.assigned? = [.slot 0] ∧
      s.stack.map Expr.reads = [[.slot 1], [.slot 0]] ∧
      (replayInstruction c i s).2.stack.map Expr.reads = [[.slot 0]] ∧ ¬NoStaleRead c i s ∧
      Replays (u.program instructions) c ret s' ∧ instructions = instructions.dropLast ++ [ret] ∧
      advanceAll .integers instructions.dropLast ⟨[], vars⟩ = some t ∧ t.vars (.slot 1) = 1 ∧
      Stmt.executeAll? .integers vars s'.emitted.toList = some vars' ∧ vars' (.slot 1) = 2 := by
  intro code u c vars
  let instructions : List Instruction := [⟨0, 45, .enter 0 3 "f", 6⟩, ⟨6, 56, .imm8 0, 2⟩,
    ⟨8, 56, .imm8 1, 2⟩, ⟨10, 57, .imm8 0, 2⟩, ⟨12, 57, .imm8 1, 2⟩, ⟨14, 46, .ret 0 0, 3⟩]
  have hcode : u.instructions = .ok instructions := by decide +kernel
  have hfirst : ((u.program instructions).replayedWithin 9 c 0 3).map (fun (i, s) =>
      ((added c i s).filterMap Stmt.assigned?, s.stack.map Expr.reads,
        (replayInstruction c i s).2.stack.map Expr.reads, decide (NoStaleRead c i s))) =
      some ([.slot 0], [[.slot 1], [.slot 0]], [[.slot 0]], false) := by decide +kernel
  have hlast : ((u.program instructions).replayedWithin 9 c 0 5).map (fun (i, s) =>
      (i, (Stmt.executeAll? .integers vars s.emitted.toList).map (· (.slot 1)))) =
      some (⟨14, 46, .ret 0 0, 3⟩, some 2) := by decide +kernel
  have hdirect : (advanceAll .integers instructions.dropLast ⟨[], vars⟩).map (·.vars (.slot 1)) =
      some 1 := by decide +kernel
  obtain ⟨⟨i, s⟩, hi, hmoment⟩ := Option.map_eq_some_iff.1 hfirst
  simp only [Prod.mk.injEq, decide_eq_false_iff_not] at hmoment
  obtain ⟨hassigned, hbefore, hafter, hstale⟩ := hmoment
  obtain ⟨⟨ret, s'⟩, hret, hexecuted⟩ := Option.map_eq_some_iff.1 hlast
  simp only [Prod.mk.injEq] at hexecuted
  obtain ⟨rfl, hexecuted⟩ := hexecuted
  obtain ⟨vars', hvars', hvalue⟩ := Option.map_eq_some_iff.1 hexecuted
  obtain ⟨t, ht, hnumber⟩ := Option.map_eq_some_iff.1 hdirect
  exact ⟨instructions, i, s, _, s', t, vars', hcode, replays_of_replayedWithin hi, hassigned,
    hbefore, hafter, hstale, replays_of_replayedWithin hret, rfl, ht, hnumber, hvars', hvalue⟩

end Runs

end ScriptDecompiler.Machine
