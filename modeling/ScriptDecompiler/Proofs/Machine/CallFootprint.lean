import ScriptDecompiler.Proofs.Expr.Slots
import ScriptDecompiler.Proofs.Machine.Faults
import ScriptDecompiler.Proofs.Machine.Results

/-!
# What a call leaves on the stack

A direct call takes as many values off the stack as the callee has arguments, and pushes
as many as the known type of the callee's result takes.  This is the number of values
that the callee returns as long as the callee was not decompiled yet, if it returns
nothing, and if every value that it was seen to return takes one slot.

Otherwise it may be another number.  A function that returns one value, which it took
for a vector, is called with three slots pushed once it was decompiled, and with one
slot before.
-/

namespace ScriptDecompiler

namespace Machine

open ScriptDecompiler.Bytecode (Instruction opcodeInfo)
open ScriptDecompiler.Flow (buildFunctions resultType flatMap_linkBlocks
  exists_eq_of_mem_buildFunctions fresh_of_mem_buildFunctions)

-- The opcode table is too large to be unfolded whenever terms are compared.
attribute [local irreducible] opcodeInfo

namespace Replay

variable (c : Context) (address : Nat)

theorem length_resultSlots (temp : VarRef) (result : Ty) :
    (resultSlots temp result).length = result.footprint := by
  unfold resultSlots
  split
  · rename_i hzero
    exact hzero.symm
  · split
    · rename_i hone
      exact hone.symm
    · exact Ty.length_explode ..

/-- A call pushes the slots of its result. -/
theorem stack_emitCall (name : String) (arguments : List Expr) (result : Ty) (s : State) :
    ∃ pushed, (emitCall c name arguments result s).2.stack = pushed ++ s.stack ∧
      pushed.length = result.footprint := by
  by_cases hzero : result.footprint = 0
  · rw [emitCall_of_eq_zero c name arguments hzero]
    exact ⟨[], rfl, hzero.symm⟩
  · rw [emitCall_apply c name arguments hzero]
    exact ⟨_, rfl, by rw [List.length_reverse, length_resultSlots]⟩

/-- Matching arguments with parameters leaves the stack alone. -/
theorem stack_passArguments (callee index : Nat) (arguments : List Expr) (s : State) :
    (passArguments c address callee index arguments s).2.stack = s.stack := by
  induction arguments generalizing index s with
  | nil => rfl
  | cons argument rest ih =>
      rw [passArguments, bind_apply, ih, passArgument_eq]

/-- A call of function `k` on a stack that is deep enough. -/
theorem stack_callFunction {target k : Nat} {frame : Frame} {s : State}
    (htarget : functionAt? s.store.frames target = some k)
    (hframe : s.store.frames[k]? = some frame)
    (hdeep : frame.arguments.size ≤ s.stack.length) :
    ∃ pushed, (callFunction c address target s).2.stack =
        pushed ++ s.stack.drop frame.arguments.size ∧
      pushed.length = frame.result.ty.footprint := by
  have hpop := popMany_append c address
    (show s.stack = s.stack.take frame.arguments.size ++ s.stack.drop frame.arguments.size from
      (List.take_append_drop _ _).symm)
  rw [List.length_take_of_le hdeep] at hpop
  unfold callFunction
  rw [bind_apply, get_apply]
  dsimp only
  rw [htarget]
  simp only [hframe, Option.map_some, Option.getD_some]
  rw [bind_apply, hpop, bind_apply, bind_apply, get_apply]
  dsimp only
  have hstack := stack_passArguments c address k 0
    (s.stack.take frame.arguments.size).reverse
    { s with stack := s.stack.drop frame.arguments.size }
  have houtlines := (preserves_passArguments c address k 0
    (s.stack.take frame.arguments.size).reverse
    { s with stack := s.stack.drop frame.arguments.size }).outlines
  generalize (passArguments c address k 0 (s.stack.take frame.arguments.size).reverse
    { s with stack := s.stack.drop frame.arguments.size }).2 = passed at hstack houtlines ⊢
  -- What is known about the result of the callee is what was known before.
  have hresult : passed.store.result? k = some frame.result := by
    rw [Store.result?_eq_outlines, houtlines, ← Store.result?_eq_outlines, Store.result?]
    simp only [hframe, Option.map_some]
  obtain ⟨found, hfound, hsame⟩ := Option.map_eq_some_iff.1 hresult
  change passed.stack = s.stack.drop frame.arguments.size at hstack
  rw [hfound, ← hsame, ← hstack]
  exact stack_emitCall c found.name _ found.result.ty passed

end Replay

/-- Does a function have a RET, and does each of its RETs return `v` values? -/
def Returns (f : Flow.Function) (v : Nat) : Prop :=
  (∃ b ∈ f.graph.blocks, ∃ i ∈ b.instructions, returnCount? i = some v) ∧
    ∀ b ∈ f.graph.blocks, ∀ i ∈ b.instructions, returnCount? i = none ∨ returnCount? i = some v

instance (f : Flow.Function) (v : Nat) : Decidable (Returns f v) :=
  inferInstanceAs (Decidable (_ ∧ _))

section Functions

variable {instructions : List Instruction} {f : Flow.Function} {k v : Nat}

/-- The blocks of a function hold its instructions, the first RET among which shows what
the function returns. -/
theorem result_of_mem_buildFunctions (hf : f ∈ (buildFunctions instructions).1) :
    f.frame.result.ty = resultType (f.graph.blocks.flatMap (·.instructions)) := by
  obtain ⟨first, rest, arguments, slots, name, hframe, hgraph⟩ :=
    exists_eq_of_mem_buildFunctions hf
  rw [hframe, hgraph]
  exact congrArg resultType (flatMap_linkBlocks rfl).symm

/-- A function that was just built has a result of as many slots as it returns values, if
these are none or one. -/
theorem footprint_of_returns (hf : f ∈ (buildFunctions instructions).1) (hreturns : Returns f v)
    (hv : v ≤ 1) : f.frame.result.ty.footprint = v := by
  obtain ⟨⟨b, hb, i, hi, hcount⟩, hall⟩ := hreturns
  have hsome : ((f.graph.blocks.flatMap (·.instructions)).findSome? returnCount?).isSome := by
    rw [List.findSome?_isSome_iff]
    exact ⟨i, List.mem_flatMap.2 ⟨b, hb, hi⟩, by rw [hcount]; rfl⟩
  obtain ⟨values, hvalues⟩ := Option.isSome_iff_exists.1 hsome
  obtain ⟨first, hfirst, hfound⟩ := List.exists_of_findSome?_eq_some hvalues
  obtain ⟨block, hblock, hin⟩ := List.mem_flatMap.1 hfirst
  have hsame : values = v := by
    rcases hall block hblock first hin with hnone | hv'
    · rw [hnone] at hfound
      cases hfound
    · rw [hv'] at hfound
      exact (Option.some.inj hfound).symm
  have htype : f.frame.result.ty = if values = 0 then .void else .unknown := by
    rw [result_of_mem_buildFunctions hf]
    show (if ((f.graph.blocks.flatMap (·.instructions)).findSome? returnCount?).getD 0 = 0
      then _ else _) = _
    rw [hvalues, Option.getD_some]
  rw [htype, hsame]
  split
  · rename_i hzero
    rw [hzero]
    rfl
  · exact (show v = 1 by omega) ▸ rfl

/-- If a function returns nothing, none of its returns does, in whatever order functions
are decompiled. -/
theorem returnsSlots_zero (u : ScriptUnit)
    (hcallee : (buildFunctions instructions).1[k]? = some f) (hreturns : Returns f 0)
    (order : List Context) : ReturnsSlots k 0 (u.program instructions) order := by
  rintro before c after - rfl i s hreplays -
  obtain ⟨g, b, hgraph, hb, hi⟩ := hreplays.mem
  have hbare := bare_after (u.program instructions) before c.current
  rw [hgraph, graphs_program, hcallee] at hbare
  have hfresh := fresh_of_mem_buildFunctions (List.mem_of_getElem? hcallee)
  have hsame : g.bare = f.graph := (Option.some.inj hbare).trans hfresh.bare
  rw [hsame] at hb
  have hcount : (returnCount? i).getD 0 = 0 := by
    rcases hreturns.2 b hb i hi with hnone | hzero
    · rw [hnone]
      rfl
    · rw [hzero]
      rfl
  rw [returnedTy, if_pos hcount]
  rfl

end Functions

/-- A direct call on a stack that is deep enough, at any moment of decompiling the functions
of a unit in any order.  It takes its arguments off the stack and pushes as many slots as
the known type of the callee's result takes.  These are as many as the callee returns
values if it returns none, if it was not decompiled yet, or if each value that it returned
so far takes as many slots.

Slots are counted exactly; a word of 64 bits does the same for a type of fewer than `2 ^ 64`
slots (`Ty.toNat_stackSize_of_lt`). -/
theorem call_footprint (u : ScriptUnit) {instructions : List Instruction} {f : Flow.Function}
    {k v : Nat} (hcallee : (buildFunctions instructions).1[k]? = some f)
    (hreturns : Returns f v) (hv : v ≤ 1) (order : List Context) {c : Context}
    {i : Instruction} {s : State} {target : Nat}
    (hreplays : Replays ((u.program instructions).after order) c i s)
    (hoperation : i.operation = .call) (hoperand : i.operand = .call target)
    (htarget : functionAt? (u.program instructions).store.frames target = some k)
    (hdeep : f.frame.arguments.size ≤ s.stack.length) :
    ∃ result pushed, s.store.result? k = some result ∧
      (replayInstruction c i s).2.stack = pushed ++ s.stack.drop f.frame.arguments.size ∧
      pushed.length = result.ty.footprint ∧
      (v = 0 ∨ (∀ earlier ∈ order ++ [c], earlier.current ≠ k) ∨
          ReturnsSlots k v (u.program instructions) (order ++ [c]) → pushed.length = v) := by
  have hf := List.mem_of_getElem? hcallee
  have hbuilt : (u.program instructions).store.frames[k]? = some f.frame := by
    rw [frames_program, List.getElem?_toArray, List.getElem?_map, hcallee]
    rfl
  have hheads := hreplays.keeps.heads.trans (heads_after (u.program instructions) order)
  -- The callee as it is known now takes as many arguments as when it was built.
  have hhead : s.store.frames[k]?.map Frame.head = some f.frame.head := by
    have hsame := congrArg (·[k]?) hheads
    simp only [Store.heads, Array.getElem?_map, hbuilt, Option.map_some] at hsame
    exact hsame
  obtain ⟨frame, hframe, hsame⟩ := Option.map_eq_some_iff.1 hhead
  have hsize : frame.arguments.size = f.frame.arguments.size := congrArg Head.arguments hsame
  have hresult : s.store.result? k = some frame.result := by
    rw [Store.result?, hframe]
    rfl
  obtain ⟨pushed, hstack, hlength⟩ := Replay.stack_callFunction c i.address
    (s := { s with emitted := s.emitted ++ comments c [i] })
    ((functionAt?_congr hheads target).trans htarget) hframe (hsize ▸ hdeep)
  refine ⟨frame.result, pushed, hresult, ?_, hlength, fun hwhen => ?_⟩
  · rw [replayInstruction_apply]
    unfold Replay.step
    simp only [hoperation, hoperand]
    rw [hstack, hsize]
  · have hslots : ReturnsSlots k v (u.program instructions) (order ++ [c]) := by
      rcases hwhen with rfl | hnever | hslots
      · exact returnsSlots_zero u hcallee hreturns _
      · exact .of_forall_ne hnever
      · exact hslots
    have hstart : (u.program instructions).store.ResultTakes k v := by
      intro r hr
      rw [Store.result?, hbuilt] at hr
      cases hr
      exact footprint_of_returns hf hreturns hv
    have hknown := hreplays.resultTakes (resultTakes_after hstart hslots.of_append)
      (hslots order c [] rfl)
    exact hlength.trans (hknown frame.result hresult)

/-- Three functions, the last two of which call the first one.  It takes one argument and
returns it; the last one was decompiled already, the second one is. -/
theorem call_footprint_argument :
    let instructions : List Instruction := [⟨0, 45, .enter 1 3 "f", 6⟩, ⟨6, 56, .imm8 0, 2⟩,
      ⟨8, 46, .ret 1 1, 3⟩, ⟨11, 45, .enter 0 2 "g", 6⟩, ⟨17, 112, .impliedInt 2, 1⟩,
      ⟨18, 93, .call 0, 4⟩, ⟨22, 43, .none, 1⟩, ⟨23, 46, .ret 0 0, 3⟩,
      ⟨26, 45, .enter 0 2 "h", 6⟩, ⟨32, 113, .impliedInt 3, 1⟩, ⟨33, 93, .call 0, 4⟩,
      ⟨37, 43, .none, 1⟩, ⟨38, 46, .ret 0 0, 3⟩]
    let u : ScriptUnit := ⟨"u", [], 0, [], #[], []⟩
    let c : Context := ⟨u, .empty, false, 1⟩
    let other : Context := ⟨u, .empty, false, 2⟩
    ∃ f i s, (buildFunctions instructions).1[0]? = some f ∧ Returns f 1 ∧
      Replays ((u.program instructions).after [other]) c i s ∧
      i.operation = .call ∧ i.operand = .call 0 ∧
      functionAt? (u.program instructions).store.frames 0 = some 0 ∧
      f.frame.arguments.size = 1 ∧ s.stack.length = 1 ∧
      ∃ pushed, (replayInstruction c i s).2.stack = pushed ++ s.stack.drop f.frame.arguments.size ∧
        pushed.length = 1 := by
  intro instructions u c other
  have hfirst : (buildFunctions instructions).1[0]?.map (·.frame.arguments.size) = some 1 := by
    decide +kernel
  obtain ⟨f, hf, hsize⟩ := Option.map_eq_some_iff.1 hfirst
  have hreturns : ∀ g, (buildFunctions instructions).1[0]? = some g → Returns g 1 := by
    decide +kernel
  have hrun : (((u.program instructions).afterWithin 9 [other]).bind fun p =>
      (p.replayedWithin 9 c 11 2).map fun (i, s) =>
        (i.operation, i.operand, s.stack.length)) = some (.call, .call 0, 1) := by decide +kernel
  obtain ⟨p, hp, hmoment⟩ := Option.bind_eq_some_iff.1 hrun
  obtain ⟨⟨i, s⟩, hreplayed, hfound⟩ := Option.map_eq_some_iff.1 hmoment
  simp only [Prod.mk.injEq] at hfound
  obtain ⟨hoperation, hoperand, hstack⟩ := hfound
  have hreplays : Replays ((u.program instructions).after [other]) c i s :=
    after_of_afterWithin hp ▸ replays_of_replayedWithin hreplayed
  have htarget : functionAt? (u.program instructions).store.frames 0 = some 0 := by decide +kernel
  obtain ⟨result, pushed, -, hpushed, -, hwhen⟩ := call_footprint u hf (hreturns f hf)
    (Nat.le_refl 1) [other] hreplays hoperation hoperand htarget
    (Nat.le_of_eq (hsize.trans hstack.symm))
  refine ⟨f, i, s, hf, hreturns f hf, hreplays, hoperation, hoperand, htarget, hsize, hstack,
    pushed, hpushed, hwhen (Or.inr (Or.inl ?_))⟩
  decide

/-- A function that returns one value, which it took for a vector, and another function
that calls it.  Once the first one was decompiled, its call pushes three slots. -/
theorem exists_call_footprint_ne :
    let instructions : List Instruction := [⟨0, 45, .enter 0 3 "g", 6⟩, ⟨6, 113, .impliedInt 3, 1⟩,
      ⟨7, 55, .imm8 0, 2⟩, ⟨9, 50, .none, 1⟩, ⟨10, 43, .none, 1⟩, ⟨11, 43, .none, 1⟩,
      ⟨12, 43, .none, 1⟩, ⟨13, 56, .imm8 0, 2⟩, ⟨15, 46, .ret 0 1, 3⟩,
      ⟨18, 45, .enter 0 2 "h", 6⟩, ⟨24, 93, .call 0, 4⟩, ⟨28, 43, .none, 1⟩,
      ⟨29, 43, .none, 1⟩, ⟨30, 46, .ret 0 0, 3⟩]
    let code : List UInt8 := [45, 0, 3, 0, 1, 103, 113, 55, 0, 50, 43, 43, 43, 56, 0, 46, 0, 1,
      45, 0, 2, 0, 1, 104, 93, 0, 0, 0, 43, 43, 46, 0, 0]
    let u : ScriptUnit := ⟨"u", code, 33, [], #[], []⟩
    let callee : Context := ⟨u, .empty, false, 0⟩
    let caller : Context := ⟨u, .empty, false, 1⟩
    u.instructions = .ok instructions ∧
      ∃ f h i s, (buildFunctions instructions).1 = [f, h] ∧ Returns f 1 ∧ Returns h 0 ∧
        Replays ((u.program instructions).after [callee]) caller i s ∧
        i.operation = .call ∧ i.operand = .call 0 ∧
        functionAt? (u.program instructions).store.frames 0 = some 0 ∧
        f.frame.arguments.size = 0 ∧
        ∀ pushed, (replayInstruction caller i s).2.stack =
          pushed ++ s.stack.drop f.frame.arguments.size → pushed.length = 3 := by
  intro instructions code u callee caller
  have hcode : u.instructions = .ok instructions := by decide +kernel
  obtain ⟨f, h, hfunctions⟩ := List.length_eq_two.1
    (show (buildFunctions instructions).1.length = 2 by decide +kernel)
  have hfacts : (buildFunctions instructions).1.map (fun f =>
      (decide (Returns f 1), decide (Returns f 0), f.frame.arguments.size)) =
        [(true, false, 0), (false, true, 0)] := by decide +kernel
  rw [hfunctions] at hfacts
  simp only [List.map_cons, List.map_nil, List.cons.injEq, Prod.mk.injEq, decide_eq_true_eq,
    decide_eq_false_iff_not, and_true] at hfacts
  obtain ⟨⟨hone, -, hsize⟩, -, hzero, -⟩ := hfacts
  have hrun : (((u.program instructions).afterWithin 9 [callee]).bind fun p =>
      (p.replayedWithin 9 caller 18 1).map fun (i, s) => (i.operation, i.operand,
        s.stack.length, (replayInstruction caller i s).2.stack.length)) =
      some (.call, .call 0, 0, 3) := by decide +kernel
  obtain ⟨p, hp, hmoment⟩ := Option.bind_eq_some_iff.1 hrun
  obtain ⟨⟨i, s⟩, hreplayed, hfound⟩ := Option.map_eq_some_iff.1 hmoment
  simp only [Prod.mk.injEq] at hfound
  obtain ⟨hoperation, hoperand, hstack, hafter⟩ := hfound
  refine ⟨hcode, f, h, i, s, hfunctions, hone, hzero,
    after_of_afterWithin hp ▸ replays_of_replayedWithin hreplayed, hoperation, hoperand,
    by decide +kernel, hsize, fun pushed hpushed => ?_⟩
  rw [hpushed, List.length_append, List.length_drop, hstack] at hafter
  omega

end Machine

end ScriptDecompiler
