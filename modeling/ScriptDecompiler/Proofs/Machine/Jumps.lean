import ScriptDecompiler.Proofs.Machine.Results
import ScriptDecompiler.Proofs.Machine.Simulation
import ScriptDecompiler.Proofs.Machine.Statements

/-!
# Jumps in statements and edges between blocks

The builder takes the edges of a block from the operands of its instructions, and a
replay turns the same operands into jumps.  An instruction adds a statement that jumps
exactly if it transfers control itself, and then this one statement names the addresses
that it transfers control to.  So the statements of a visited block and its edges agree,
up to the edge on which control falls off its end.

An `ifGoto` comes from a conditional branch, which is the last instruction of its block.
It is therefore the last statement, and what is printed behind it is either the jump to
its fall-through or the block that starts there.
-/

namespace ScriptDecompiler

open ScriptDecompiler.Flow (Block)

/-- Where a statement jumps if its condition holds, and where if it does not. -/
def Stmt.branches? : Stmt → Option (Nat × Nat)
  | ifGoto _ target fallthrough => some (target, fallthrough)
  | _ => none

theorem Stmt.branches?_eq_some_iff {statement : Stmt} {target fallthrough : Nat} :
    statement.branches? = some (target, fallthrough) ↔
      ∃ condition, statement = .ifGoto condition target fallthrough := by
  constructor
  · intro h
    unfold branches? at h
    split at h
    · rename_i condition _ _
      cases h
      exact ⟨condition, rfl⟩
    · cases h
  · rintro ⟨condition, rfl⟩
    rfl

section Lines

variable (scope : Scope) (used : VarRef → Bool) (optimize : Bool)

/-- Only the last statement of a block is printed in a way of its own. -/
theorem Stmt.exists_linesOfAll_append (next : Option Nat) (front : List Stmt) {back : List Stmt}
    (hback : back ≠ []) :
    ∃ lines, linesOfAll scope used next optimize (front ++ back) =
      lines ++ linesOfAll scope used next optimize back := by
  induction front with
  | nil => exact ⟨[], rfl⟩
  | cons first front ih =>
      obtain ⟨lines, hlines⟩ := ih
      refine ⟨first.lines scope used next ++ lines, ?_⟩
      rw [List.append_assoc, ← hlines, List.cons_append]
      obtain ⟨second, rest, hrest⟩ :=
        List.exists_cons_of_ne_nil (List.append_ne_nil_of_right_ne_nil front hback)
      rw [hrest]
      cases first <;> rfl

theorem Flow.Block.exists_linesOfAll_append (before rest : List Block) :
    ∃ lines, Block.linesOfAll scope used optimize (before ++ rest) =
      lines ++ Block.linesOfAll scope used optimize rest := by
  induction before with
  | nil => exact ⟨[], rfl⟩
  | cons b before ih =>
      obtain ⟨lines, hlines⟩ := ih
      rw [List.cons_append, Block.linesOfAll, hlines]
      exact ⟨_, (List.append_assoc _ _ _).symm⟩

/-- Behind a condition at the end of a block come the later blocks, with a jump to its
fall-through in front unless the first of them starts there. -/
theorem Flow.Block.exists_lines_of_ifGoto {before after : List Block} {b : Block}
    {front : List Stmt} {condition : Expr} {target fallthrough : Nat} (hvisited : b.visited = true)
    (hstatements : b.statements = front ++ [.ifGoto condition target fallthrough]) :
    ∃ above, Block.linesOfAll scope used optimize (before ++ b :: after) =
      above ++ .branch (condition.render scope) target ::
        ((if after.head?.map (·.start) = some fallthrough then [] else [.goto fallthrough]) ++
          Block.linesOfAll scope used optimize after) := by
  obtain ⟨lines, hlines⟩ := Block.exists_linesOfAll_append scope used optimize before (b :: after)
  obtain ⟨inner, hinner⟩ := Stmt.exists_linesOfAll_append scope used optimize
    (after.head?.map (·.start)) front (List.cons_ne_nil (.ifGoto condition target fallthrough) [])
  rw [hlines, Block.linesOfAll, Block.lines, if_pos hvisited, hstatements, hinner]
  refine ⟨lines ++ .label b.start :: inner, ?_⟩
  simp [Stmt.linesOfAll, Stmt.lines]

end Lines

namespace Machine

open ScriptDecompiler.Bytecode (HoldsTargets Instruction Operation opcodeInfo)
open ScriptDecompiler.Flow (Graph transfers mem_transfers)

-- The opcode table is too large to be unfolded whenever terms are compared.
attribute [local irreducible] opcodeInfo

section Steps

variable {c : Context} {i : Instruction} {s : State}

theorem isBranch_of_isConditionalBranch {operation : Operation}
    (h : operation.isConditionalBranch = true) : operation.isBranch = true := by
  cases operation <;> first | rfl | cases h

theorem mem_jumpTargets_of_branchTarget? {target : Nat} (h : i.branchTarget? = some target) :
    target ∈ i.jumpTargets := by
  unfold Instruction.branchTarget? at h
  unfold Instruction.jumpTargets
  split at h
  · rename_i hoperand
    cases h
    rw [hoperand]
    exact List.mem_singleton.2 rfl
  · cases h

/-- A statement jumps only where the instruction that adds it transfers control to. -/
theorem mem_transfers_of_adds {statement : Stmt} (h : Adds i statement) {a : Nat}
    (ha : a ∈ statement.jumpTargets) : a ∈ transfers i := by
  rw [mem_transfers]
  cases statement with
  | ifGoto condition target fallthrough =>
      obtain ⟨hconditional, htarget, rfl⟩ := h
      rcases List.mem_cons.1 ha with rfl | ha
      · exact Or.inl ⟨Or.inl (isBranch_of_isConditionalBranch hconditional),
          mem_jumpTargets_of_branchTarget? htarget⟩
      · exact Or.inr ⟨hconditional, List.mem_singleton.1 ha⟩
  | goto target =>
      obtain ⟨hbranch, htarget⟩ := h
      rw [List.mem_singleton.1 ha]
      exact Or.inl ⟨Or.inl (by rw [hbranch]; rfl), mem_jumpTargets_of_branchTarget? htarget⟩
  | switch value cases =>
      obtain ⟨hswitch, hoperand⟩ := h
      refine Or.inl ⟨Or.inr hswitch, ?_⟩
      unfold Instruction.jumpTargets
      rw [hoperand]
      exact ha
  | assign | declare | expr | ret | asm | comment => cases ha

namespace Replay

theorem emitted_pop (c : Context) (address : Nat) (s : State) :
    (pop c address s).2.emitted = s.emitted := by
  have hpop : Makes (Plain c) (fun _ => False) False (pop c address) := makes_pop c address
  exact hpop.emitted_eq s

/-- What a conditional branch adds. -/
theorem exists_emitted_ifGoto {target : Nat} (h : i.operation.isConditionalBranch = true)
    (htarget : i.branchTarget? = some target) (c : Context) (s : State) :
    ∃ condition, (step c i s).2.emitted =
      s.emitted.push (.ifGoto condition target i.nextAddress) := by
  have hcompare : ∀ op, ∃ condition, (branchOn c i op s).2.emitted =
      s.emitted.push (.ifGoto condition target i.nextAddress) := by
    intro op
    unfold branchOn
    simp only [bind_apply, htarget]
    refine ⟨_, congrArg (Array.push · _) ?_⟩
    rw [emitted_pop, emitted_pop]
  unfold step
  cases hop : i.operation <;> rw [hop] at h <;> cases h <;> dsimp only
  case branchZero =>
    simp only [bind_apply, htarget]
    exact ⟨_, congrArg (Array.push · _) (emitted_pop c i.address s)⟩
  all_goals exact hcompare _

/-- What an unconditional branch adds. -/
theorem emitted_branch {target : Nat} (h : i.operation = .branch)
    (htarget : i.branchTarget? = some target) (c : Context) (s : State) :
    (step c i s).2.emitted = s.emitted.push (.goto target) := by
  unfold step
  simp only [h, htarget]
  rfl

/-- What a switch adds. -/
theorem exists_emitted_switch {cases : List (Nat × Nat)} (h : i.operation = .switch)
    (hoperand : i.operand = .switch cases) (c : Context) (s : State) :
    ∃ value, (step c i s).2.emitted = s.emitted.push (.switch value cases) := by
  unfold step
  simp only [h, hoperand, bind_apply]
  exact ⟨_, congrArg (Array.push · _) (emitted_pop c i.address s)⟩

end Replay

/-- What an instruction that jumps adds is one statement, which names all addresses that
the instruction transfers control to. -/
theorem exists_jump (hjump : i.operation.isBranch = true ∨ i.operation = .switch)
    (hholds : HoldsTargets i) (c : Context) (s : State) :
    ∃ statement, (Replay.step c i s).2.emitted = s.emitted.push statement ∧
      ∀ a ∈ transfers i, a ∈ statement.jumpTargets := by
  rcases hjump with hbranch | hswitch
  · obtain ⟨relative, target, hoperand⟩ := hholds.branch hbranch
    have htarget : i.branchTarget? = some target := by rw [Instruction.branchTarget?, hoperand]
    have htargets : i.jumpTargets = [target] := by rw [Instruction.jumpTargets, hoperand]
    by_cases hconditional : i.operation.isConditionalBranch = true
    · obtain ⟨condition, hemitted⟩ := Replay.exists_emitted_ifGoto hconditional htarget c s
      refine ⟨_, hemitted, fun a ha => ?_⟩
      rcases mem_transfers.1 ha with ⟨-, ha⟩ | ⟨-, rfl⟩
      · rw [htargets, List.mem_singleton] at ha
        simp [Stmt.jumpTargets, ha]
      · simp [Stmt.jumpTargets]
    · have hop : i.operation = .branch := by
        cases hop : i.operation <;> simp_all [Operation.isBranch, Operation.isConditionalBranch,
          Operation.code]
      refine ⟨_, Replay.emitted_branch hop htarget c s, fun a ha => ?_⟩
      rcases mem_transfers.1 ha with ⟨-, ha⟩ | ⟨hfalse, -⟩
      · rw [htargets] at ha
        exact ha
      · exact absurd hfalse hconditional
  · obtain ⟨cases, hoperand⟩ := hholds.switch hswitch
    obtain ⟨value, hemitted⟩ := Replay.exists_emitted_switch hswitch hoperand c s
    refine ⟨_, hemitted, fun a ha => ?_⟩
    rcases mem_transfers.1 ha with ⟨-, ha⟩ | ⟨hfalse, -⟩
    · rw [Instruction.jumpTargets, hoperand] at ha
      exact ha
    · rw [hswitch] at hfalse
      cases hfalse

/-- What replaying an instruction adds jumps where the instruction transfers control to. -/
theorem mem_jumpTargets_added (hholds : HoldsTargets i) (c : Context) (s : State) (a : Nat) :
    a ∈ (added c i s).flatMap Stmt.jumpTargets ↔ a ∈ transfers i := by
  constructor
  · intro ha
    obtain ⟨statement, hmem, ha⟩ := List.mem_flatMap.1 ha
    exact mem_transfers_of_adds (adds_of_mem_added c hmem) ha
  · intro ha
    have hjump : i.operation.isBranch = true ∨ i.operation = .switch := by
      rcases mem_transfers.1 ha with ⟨hjump, -⟩ | ⟨hconditional, -⟩
      · exact hjump
      · exact Or.inl (isBranch_of_isConditionalBranch hconditional)
    obtain ⟨statement, hemitted, htargets⟩ := exists_jump hjump hholds c
      { s with emitted := s.emitted ++ comments c [i] }
    have hnew := congrArg Array.toList hemitted
    rw [Array.toList_push] at hnew
    rw [added_eq c hnew]
    refine List.mem_flatMap.2 ⟨statement, ?_, htargets a ha⟩
    exact List.mem_append_right _ (List.mem_singleton.2 rfl)

end Steps

section Runs

variable {c : Context} {body : List Instruction} {s s' : State}

/-- What a replay without a fault adds: its instructions can add it, and it jumps where they
transfer control to. -/
theorem added_replay (hholds : ∀ i ∈ body, HoldsTargets i) (h : replay c s body = (none, s')) :
    ∃ added, s'.emitted.toList = s.emitted.toList ++ added ∧
      (∀ statement ∈ added, ∃ i ∈ body, Adds i statement) ∧
      ∀ a, a ∈ added.flatMap Stmt.jumpTargets ↔ a ∈ body.flatMap transfers := by
  induction body generalizing s with
  | nil =>
      cases h
      exact ⟨[], by simp, by simp, by simp⟩
  | cons i body ih =>
      obtain ⟨-, h⟩ := replay_cons_eq_none_iff.1 h
      have htargets := mem_jumpTargets_added (hholds i List.mem_cons_self) c s
      obtain ⟨later, hlater, hadds', htargets'⟩ :=
        ih (fun j hj => hholds j (List.mem_cons_of_mem _ hj)) h
      refine ⟨added c i s ++ later, ?_, ?_, fun a => ?_⟩
      · rw [hlater, emitted_replayInstruction, List.append_assoc]
      · intro statement hmem
        rcases List.mem_append.1 hmem with hmem | hmem
        · exact ⟨i, List.mem_cons_self, adds_of_mem_added c hmem⟩
        · obtain ⟨j, hj, hstatement⟩ := hadds' statement hmem
          exact ⟨j, List.mem_cons_of_mem _ hj, hstatement⟩
      · rw [List.flatMap_append, List.mem_append, List.flatMap_cons, List.mem_append, htargets,
          htargets']

/-- A conditional branch behind other instructions adds its `ifGoto` behind what they add,
which holds none. -/
theorem exists_last_ifGoto {earlier : List Instruction} {i : Instruction} {target : Nat}
    (hholds : ∀ j ∈ earlier ++ [i], HoldsTargets j)
    (hplain : ∀ j ∈ earlier, j.operation.isConditionalBranch = false)
    (hconditional : i.operation.isConditionalBranch = true)
    (htarget : i.branchTarget? = some target) (hempty : s.emitted = #[])
    (h : replay c s (earlier ++ [i]) = (none, s')) :
    ∃ added condition, s'.emitted.toList = added ++ [.ifGoto condition target i.nextAddress] ∧
      ∀ statement ∈ added, statement.branches? = none := by
  obtain ⟨middle, hearlier, hlast⟩ := exists_replay_of_append h
  obtain ⟨added, hadded, hadds, -⟩ := added_replay
    (fun j hj => hholds j (List.mem_append_left _ hj)) hearlier
  rw [hempty, List.nil_append] at hadded
  have hnofault := not_mem_of_isConditionalBranch hconditional
  rw [replay_cons_of_not_mem c [] hnofault, replayInstruction_apply] at hlast
  obtain ⟨condition, hemitted⟩ := Replay.exists_emitted_ifGoto hconditional htarget c
    { middle with emitted := middle.emitted ++ comments c [i] }
  refine ⟨added ++ (comments c [i]).toList, condition, ?_, fun statement hin => ?_⟩
  · obtain rfl : (Replay.step c i _).2 = s' := congrArg Prod.snd hlast
    rw [hemitted, Array.toList_push, Array.toList_append, hadded]
  · refine Option.eq_none_iff_forall_ne_some.2 fun targets htargets => ?_
    obtain ⟨condition, rfl⟩ := Stmt.branches?_eq_some_iff.1 htargets
    rcases List.mem_append.1 hin with hin | hin
    · obtain ⟨j, hj, hbranch, -⟩ := hadds _ hin
      rw [hplain j hj] at hbranch
      cases hbranch
    · unfold comments at hin
      split at hin <;> simp [instructionComment] at hin

end Runs

section Blocks

variable {c : Context} {g : Graph} {body : List Instruction} {b : Block}

/-- The statements of a block jump where its instructions transfer control to. -/
theorem Recorded.mem_jumpTargets (h : Recorded c b) (hbuilt : g.Built body) (hb : b ∈ g.blocks)
    (a : Nat) :
    a ∈ b.statements.flatMap Stmt.jumpTargets ↔ a ∈ b.instructions.flatMap transfers := by
  obtain ⟨before, after, hempty, hrun, hstatements⟩ := h
  obtain ⟨added, hadded, -, htargets⟩ := added_replay (hbuilt.holdsTargets hb) hrun
  rw [hempty, List.nil_append] at hadded
  rw [hstatements, hadded]
  exact htargets a

/-- Nothing stands behind an `ifGoto` in its block. -/
theorem Recorded.eq_nil_of_ifGoto (h : Recorded c b) (hbuilt : g.Built body) (hb : b ∈ g.blocks)
    {front back : List Stmt} {condition : Expr} {target fallthrough : Nat}
    (hsplit : b.statements = front ++ .ifGoto condition target fallthrough :: back) :
    back = [] := by
  obtain ⟨before, after, hempty, hrun, hstatements⟩ := h
  have hholds := hbuilt.holdsTargets hb
  rw [hstatements] at hsplit
  -- The `ifGoto` comes from a conditional branch, so from the last instruction.
  obtain ⟨added, hadded, hadds, -⟩ := added_replay hholds hrun
  rw [hempty, List.nil_append] at hadded
  obtain ⟨i, hi, hconditional, htarget, -⟩ := hadds (.ifGoto condition target fallthrough)
    (by rw [← hadded, hsplit]; exact List.mem_append_right _ List.mem_cons_self)
  obtain ⟨earlier, later, hinstructions⟩ := List.append_of_mem hi
  obtain rfl := hbuilt.eq_nil_of_isConditionalBranch hb hinstructions hconditional
  have hplain : ∀ j ∈ earlier, j.operation.isConditionalBranch = false := by
    intro j hj
    obtain ⟨first, second, rfl⟩ := List.append_of_mem hj
    refine Bool.eq_false_iff.2 fun hbranch => ?_
    rw [List.append_assoc, List.cons_append] at hinstructions
    have hnil := hbuilt.eq_nil_of_isConditionalBranch hb hinstructions hbranch
    exact List.append_ne_nil_of_right_ne_nil second (List.cons_ne_nil i []) hnil
  rw [hinstructions] at hrun hholds
  obtain ⟨added, condition', hlast, hnone⟩ :=
    exists_last_ifGoto hholds hplain hconditional htarget hempty hrun
  rcases List.eq_nil_or_concat back with rfl | ⟨between, final, rfl⟩
  · rfl
  · rw [hlast, List.concat_eq_append, ← List.cons_append, ← List.append_assoc] at hsplit
    obtain ⟨hfront, -⟩ := List.append_inj' hsplit rfl
    have hin : .ifGoto condition target fallthrough ∈ added := by
      rw [hfront]
      exact List.mem_append_right _ List.mem_cons_self
    cases hnone _ hin

end Blocks

section Units

variable {u : ScriptUnit} {natives : Native.Database} {annotate : Bool}
  {instructions : List Instruction} {p : Program} {index : Nat} {f : Flow.Function}

/-- When all functions of a unit were decompiled, the edges of a visited block are the
jumps of its statements to starts of blocks, and the edge on which control falls off its
end, which leads to the next block in order.  An `ifGoto` is the last statement of its
block; behind it the later blocks are printed, with a jump to its fall-through in front
unless the first of them starts there. -/
theorem run_edges_agree (hcode : u.instructions = .ok instructions)
    (hrun : (u.program instructions).run u natives annotate = (none, p))
    (hf : p.function? index = some f) {b : Block} (hb : b ∈ f.graph.blocks)
    (hvisited : b.visited = true) :
    (∀ a, a ∈ b.successors ↔ (∃ target ∈ f.graph.blocks, target.start = a) ∧
      (a ∈ b.statements.flatMap Stmt.jumpTargets ∨ b.FallsOff ∧ a = b.endAddress)) ∧
    (b.FallsOff → b.endAddress ∈ b.successors → ∃ before next after,
      f.graph.blocks = before ++ b :: next :: after ∧ next.start = b.endAddress) ∧
    ∀ front condition target fallthrough back,
      b.statements = front ++ .ifGoto condition target fallthrough :: back →
      back = [] ∧ ∀ globals optimize, ∃ before after above,
        f.graph.blocks = before ++ b :: after ∧
        f.bodyLines globals optimize =
          above ++ .branch (condition.render (f.scope globals)) target ::
            ((if after.head?.map (·.start) = some fallthrough then [] else [.goto fallthrough]) ++
              Block.linesOfAll (f.scope globals) f.usedVars.contains optimize after) := by
  obtain ⟨body, hbuilt, hrecorded⟩ := recorded_of_run hcode hrun hf
  have hrecord := hrecorded b hb hvisited
  refine ⟨fun a => ?_, fun _ hend => ?_, fun front condition target fallthrough back hsplit => ?_⟩
  · rw [hbuilt.linked b hb, Block.mem_exits, hrecord.mem_jumpTargets hbuilt hb, and_comm]
  · obtain ⟨-, next, hnext, hstart⟩ := (hbuilt.linked b hb _).1 hend
    obtain ⟨before, after, hblocks⟩ := hbuilt.next_of_start_eq hb hnext hstart
    exact ⟨before, next, after, hblocks, hstart⟩
  · obtain rfl := hrecord.eq_nil_of_ifGoto hbuilt hb hsplit
    refine ⟨rfl, fun globals optimize => ?_⟩
    obtain ⟨before, after, hblocks⟩ := List.append_of_mem hb
    obtain ⟨above, hlines⟩ := Block.exists_lines_of_ifGoto (f.scope globals)
      f.usedVars.contains optimize hvisited hsplit
    exact ⟨before, after, above, hblocks,
      (congrArg (Block.linesOfAll _ _ _) hblocks).trans hlines⟩

/-- A conditional branch, annotated, whose fall-through is printed next. -/
theorem run_edges_agree_branch :
    let code : List UInt8 := [45, 0, 2, 0, 1, 102, 111, 86, 1, 0, 0, 46, 0, 0]
    let u : ScriptUnit := ⟨"u", code, code.length, [], #[], []⟩
    ∃ instructions p f b, ∃ condition : Expr, u.instructions = .ok instructions ∧
      (u.program instructions).run u .empty true = (none, p) ∧ p.function? 0 = some f ∧
      b ∈ f.graph.blocks ∧ b.visited = true ∧
      (∀ a, a ∈ b.successors ↔ (∃ target ∈ f.graph.blocks, target.start = a) ∧
        (a ∈ b.statements.flatMap Stmt.jumpTargets ∨ b.FallsOff ∧ a = b.endAddress)) ∧
      ∀ globals optimize, ∃ above after, f.bodyLines globals optimize =
        above ++ .branch (condition.render (f.scope globals)) 11 ::
          Block.linesOfAll (f.scope globals) f.usedVars.contains optimize after := by
  intro code u
  let instructions : List Instruction := [⟨0, 45, .enter 0 2 "f", 6⟩,
    ⟨6, 111, .impliedInt 1, 1⟩, ⟨7, 86, .branch 1 11, 3⟩, ⟨10, 0, .none, 1⟩, ⟨11, 46, .ret 0 0, 3⟩]
  have hcode : u.instructions = .ok instructions := by decide +kernel
  let c : Context := ⟨u, .empty, true, 0⟩
  have hone : (u.program instructions).graphs.size = 1 := by decide +kernel
  have hwithin : (((u.program instructions).decompileWithin 9 c).bind fun out =>
      (out.2.2.function? 0).map fun f => (out.2.1, f.graph.blocks.map fun b =>
        (b.start, b.visited, decide ((11, 10) ∈ b.statements.filterMap Stmt.branches?)))) =
      some (none, [(0, true, true), (10, true, false), (11, true, false)]) := by decide +kernel
  obtain ⟨⟨visits, fault, p⟩, hout, hwithin⟩ := Option.bind_eq_some_iff.1 hwithin
  obtain ⟨f, hf, hwithin⟩ := Option.map_eq_some_iff.1 hwithin
  obtain ⟨rfl, hblocks⟩ := Prod.mk.inj hwithin
  obtain ⟨b, rest, hgraph, hb, hrest⟩ := List.map_eq_cons_iff.1 hblocks
  simp only [Prod.mk.injEq] at hb
  obtain ⟨hstart, hvisited, hlast⟩ := hb
  obtain ⟨statement, hstatement, htargets⟩ := List.mem_filterMap.1 (of_decide_eq_true hlast)
  obtain ⟨condition, rfl⟩ := Stmt.branches?_eq_some_iff.1 htargets
  obtain ⟨front, back, hstatements⟩ := List.append_of_mem hstatement
  have hrun : (u.program instructions).run u .empty true = (none, p) := by
    obtain ⟨-, -, -, -, hdecompile⟩ := walk_of_decompileWithin hout
    rw [Program.run, hone]
    show Program.decompileFunctions _ u .empty true [0] = _
    rw [Program.decompileFunctions, hdecompile]
    rfl
  have hb : b ∈ f.graph.blocks := hgraph ▸ List.mem_cons_self
  obtain ⟨hedges, -, hjumps⟩ := run_edges_agree hcode hrun hf hb hvisited
  refine ⟨instructions, p, f, b, condition, hcode, hrun, hf, hb, hvisited, hedges,
    fun globals optimize => ?_⟩
  obtain ⟨-, hprinted⟩ := hjumps front condition 11 10 back hstatements
  obtain ⟨before, after, above, hsplit, hlines⟩ := hprinted globals optimize
  -- The block is the first one, and the next one starts at its fall-through.
  have hnext : after.head?.map (·.start) = some 10 := by
    rw [hsplit, List.map_append, List.map_cons] at hblocks
    have hstarts := congrArg (List.map Prod.fst) hblocks
    simp only [List.map_append, List.map_map, List.map_cons, List.map_nil, hstart] at hstarts
    rcases before with _ | ⟨first, before⟩
    · obtain ⟨-, hafter⟩ := List.cons.inj hstarts
      rw [← List.head?_map]
      exact congrArg List.head? hafter
    · obtain ⟨-, hlater⟩ := List.cons.inj hstarts
      have hin : 0 ∈ [10, 11] := hlater ▸ List.mem_append_right _ List.mem_cons_self
      exact absurd hin (by decide)
  rw [if_pos hnext, List.nil_append] at hlines
  exact ⟨above, after, hlines⟩

end Units

end Machine

end ScriptDecompiler
