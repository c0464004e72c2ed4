import ScriptDecompiler.Proofs.Flow.Edges

/-!
# Edges from both ends

An edge stands in two lists: the block that it leaves lists it as a successor, and the block
that it enters lists it as a predecessor, each once.  The predecessors are read off the
successors of all blocks, so what one end says the other one says as well.

An edge leads to the first instruction of a block.  A target that is not the address of an
instruction of the function yields none.
-/

namespace ScriptDecompiler.Bytecode

theorem Operation.endsBlock_eq_false_iff {operation : Operation} :
    operation.endsBlock = false ↔
      operation.isBranch = false ∧ operation ≠ .switch ∧ operation ≠ .ret := by
  simp [endsBlock, and_assoc]

end ScriptDecompiler.Bytecode

namespace ScriptDecompiler.Flow

open ScriptDecompiler.Bytecode (Instruction Operation decodeCode)

section Link

variable {blocks : List Block} {q : Block}

/-- The predecessors of a linked block are the starts of some of the blocks, in their order. -/
theorem nodup_predecessors (h : (linkBlocks blocks).Pairwise (fun a b => a.start < b.start))
    (hq : q ∈ linkBlocks blocks) : q.predecessors.Nodup := by
  have hstarts : (blocks.map (·.start)).Nodup := by
    have hsame : (linkBlocks blocks).map (·.start) = blocks.map (·.start) := by
      simp only [linkBlocks, List.map_map, Function.comp_def]
    rw [← hsame]
    exact List.pairwise_map.2 (h.imp fun hlt => Nat.ne_of_lt hlt)
  simp only [linkBlocks, List.mem_map] at hq
  obtain ⟨-, ⟨target, -, rfl⟩, rfl⟩ := hq
  refine List.Nodup.sublist (List.filter_sublist.map _) ?_
  rwa [List.map_map]

/-- A linked block lists those blocks as its predecessors that list it as a successor. -/
theorem mem_predecessors_iff (hq : q ∈ linkBlocks blocks) {s : Nat} :
    s ∈ q.predecessors ↔ ∃ p ∈ linkBlocks blocks, q.start ∈ p.successors ∧ p.start = s := by
  simp only [linkBlocks, List.map_map, List.mem_map, Function.comp] at hq
  obtain ⟨target, -, rfl⟩ := hq
  simp only [linkBlocks, List.map_map, List.mem_map, List.mem_filter, Function.comp,
    List.contains_iff_mem]
  constructor
  · rintro ⟨-, ⟨⟨source, hsource, rfl⟩, hedge⟩, hs⟩
    exact ⟨_, ⟨source, hsource, rfl⟩, hedge, hs⟩
  · rintro ⟨-, ⟨source, hsource, rfl⟩, hedge, hs⟩
    exact ⟨_, ⟨⟨source, hsource, rfl⟩, hedge⟩, hs⟩

end Link

/-- No instruction begins inside of another one. -/
theorem Ascending.not_inside {body : List Instruction} (h : Ascending body) {i j : Instruction}
    (hi : i ∈ body) (hj : j ∈ body) : ¬(j.address < i.address ∧ i.address < j.nextAddress) := by
  rintro ⟨hbehind, hinside⟩
  have hnonempty := h.nonempty i hi
  obtain ⟨before, after, rfl⟩ := List.append_of_mem hi
  obtain ⟨-, hafter, hbefore⟩ := List.pairwise_append.1 h.apart
  rcases List.mem_append.1 hj with hj | hj
  · have hends := hbefore j hj i List.mem_cons_self
    omega
  · rcases List.mem_cons.1 hj with rfl | hj
    · omega
    · have hstarts := (List.pairwise_cons.1 hafter).1 j hj
      omega

/-- Does an address lie outside all instructions, or inside of one of them? -/
def Misses (body : List Instruction) (address : Nat) : Prop :=
  (∀ i ∈ body, address < i.address ∨ i.nextAddress ≤ address) ∨
    ∃ i ∈ body, i.address < address ∧ address < i.nextAddress

theorem not_misses_address {body : List Instruction} (h : Ascending body) {i : Instruction}
    (hi : i ∈ body) : ¬Misses body i.address := by
  rintro (houtside | ⟨j, hj, hinside⟩)
  · have hnonempty := h.nonempty i hi
    have houtside := houtside i hi
    omega
  · exact h.not_inside hi hj hinside

/-- The edges of a block, said without transfers. -/
theorem Block.mem_exits_iff {b : Block} {s : Nat} :
    s ∈ b.exits ↔
      (∃ i ∈ b.instructions,
        (i.operation.isBranch = true ∨ i.operation = .switch) ∧ s ∈ i.jumpTargets) ∨
      (∃ i ∈ b.instructions, i.operation.isConditionalBranch = true ∧ i.nextAddress = s) ∨
      ∃ last, b.instructions.getLast? = some last ∧ last.operation.isBranch = false ∧
        last.operation ≠ .switch ∧ last.operation ≠ .ret ∧ b.endAddress = s := by
  rw [Block.mem_exits, List.mem_flatMap, ← or_assoc]
  refine or_congr ?_ ?_
  · simp only [mem_transfers, and_or_left, exists_or, eq_comm]
  · simp only [Block.FallsOff, Operation.endsBlock_eq_false_iff]
    constructor
    · rintro ⟨⟨last, hlast, hbranch, hswitch, hret⟩, rfl⟩
      exact ⟨last, hlast, hbranch, hswitch, hret, rfl⟩
    · rintro ⟨last, hlast, hbranch, hswitch, hret, rfl⟩
      exact ⟨⟨last, hlast, hbranch, hswitch, hret⟩, rfl⟩

/-- An edge stands once in the list at each of its ends, and leads to a block of the function
that the block at its start jumps to, branches past, or falls off to.  No edge leads to an
address outside the code of the function or inside of an instruction. -/
theorem edges_mirrored {code : List UInt8} {codeLength : Nat} {instructions : List Instruction}
    (h : decodeCode code codeLength = .ok instructions) {f : Function}
    (hf : f ∈ (buildFunctions instructions).1) {p : Block} (hp : p ∈ f.graph.blocks) :
    p.successors.Nodup ∧ p.predecessors.Nodup ∧
    (∀ s ∈ p.successors ++ p.predecessors, ∃ q ∈ f.graph.blocks, q.start = s) ∧
    (∀ q ∈ f.graph.blocks, (q.start ∈ p.successors ↔ p.start ∈ q.predecessors) ∧
      (q.start ∈ p.successors →
        p.successors.count q.start = 1 ∧ q.predecessors.count p.start = 1)) ∧
    (∀ s, s ∈ p.successors ↔ (∃ q ∈ f.graph.blocks, q.start = s) ∧
      ((∃ i ∈ p.instructions,
          (i.operation.isBranch = true ∨ i.operation = .switch) ∧ s ∈ i.jumpTargets) ∨
        (∃ i ∈ p.instructions, i.operation.isConditionalBranch = true ∧ i.nextAddress = s) ∨
        ∃ last, p.instructions.getLast? = some last ∧ last.operation.isBranch = false ∧
          last.operation ≠ .switch ∧ last.operation ≠ .ret ∧ p.endAddress = s)) ∧
    ∀ target, Misses (f.graph.blocks.flatMap (·.instructions)) target →
      target ∉ p.successors := by
  obtain ⟨body, -, hbuilt⟩ := built_of_mem_buildFunctions h hf
  obtain ⟨first, rest, -, -, -, -, hgraph⟩ := exists_eq_of_mem_buildFunctions hf
  have hlinked : f.graph.blocks = linkBlocks (splitBlocks (first :: rest)) :=
    congrArg Graph.blocks hgraph
  have hends : ∀ q ∈ f.graph.blocks, q.successors.Nodup ∧
      (∀ s ∈ q.successors, ∃ target ∈ f.graph.blocks, target.start = s) ∧
      q.predecessors.Nodup ∧ ∀ s, s ∈ q.predecessors ↔
        ∃ source ∈ f.graph.blocks, q.start ∈ source.successors ∧ source.start = s := by
    have hascending := hbuilt.ascending
    rw [hlinked] at hascending ⊢
    exact fun q hq => ⟨(successors_linkBlocks hq).1, (successors_linkBlocks hq).2,
      nodup_predecessors hascending hq, fun s => mem_predecessors_iff hq⟩
  obtain ⟨hsuccessors, hleads, hpredecessors, hfrom⟩ := hends p hp
  refine ⟨hsuccessors, hpredecessors, ?_, ?_, ?_, ?_⟩
  · intro s hs
    rcases List.mem_append.1 hs with hs | hs
    · exact hleads s hs
    · obtain ⟨source, hsource, -, hstart⟩ := (hfrom s).1 hs
      exact ⟨source, hsource, hstart⟩
  · intro q hq
    obtain ⟨-, -, hdistinct, hinto⟩ := hends q hq
    have hmirror : q.start ∈ p.successors ↔ p.start ∈ q.predecessors := by
      rw [hinto]
      refine ⟨fun hedge => ⟨p, hp, hedge, rfl⟩, ?_⟩
      rintro ⟨source, hsource, hedge, hstart⟩
      -- Two blocks that start at the same address are one.
      have hsame := find?_start hbuilt.ascending hsource
      rw [hstart, find?_start hbuilt.ascending hp] at hsame
      rwa [Option.some.inj hsame]
    refine ⟨hmirror, fun hedge => ⟨?_, ?_⟩⟩
    · rw [hsuccessors.count, if_pos hedge]
    · rw [hdistinct.count, if_pos (hmirror.1 hedge)]
  · intro s
    rw [hbuilt.linked p hp, Block.mem_exits_iff, and_comm]
  · intro target hmisses hedge
    obtain ⟨block, hblock, hstart⟩ := hleads target hedge
    obtain ⟨-, i, hi, haddress⟩ := hbuilt.keyed block hblock
    rw [hbuilt.concat, ← hstart, ← haddress] at hmisses
    exact not_misses_address hbuilt.decoded.toAscending
      ((hbuilt.isInfix_block hblock).subset (List.mem_of_head? hi)) hmisses

/-- A switch with two cases for one block and a case for the inside of an instruction, in
front of a block that branches back to itself. -/
theorem edges_mirrored_switch :
    let code : List UInt8 := [45, 0, 2, 0, 1, 102, 111, 98, 3, 0, 0, 0, 0, 12, 0, 1, 0, 0, 0, 6, 0,
      2, 0, 0, 0, 2, 0, 111, 86, 252, 255, 46, 0, 0]
    let instructions : List Instruction := [⟨0, 45, .enter 0 2 "f", 6⟩,
      ⟨6, 111, .impliedInt 1, 1⟩, ⟨7, 98, .switch [(0, 27), (1, 27), (2, 29)], 20⟩,
      ⟨27, 111, .impliedInt 1, 1⟩, ⟨28, 86, .branch (-4) 27, 3⟩, ⟨31, 46, .ret 0 0, 3⟩]
    decodeCode code 34 = .ok instructions ∧
    ∃ f p q, f ∈ (buildFunctions instructions).1 ∧ f.graph.blocks.take 2 = [p, q] ∧
      p.start = 0 ∧ q.start = 27 ∧ 27 ∈ p.successors ∧ 27 ∈ q.successors ∧
      p.successors.count 27 = 1 ∧ q.predecessors.count 0 = 1 ∧ q.predecessors.count 27 = 1 ∧
      29 ∉ p.successors := by
  intro code instructions
  have hcode : decodeCode code 34 = .ok instructions := by decide +kernel
  obtain ⟨f, hf⟩ := List.length_eq_one_iff.1
    (show (buildFunctions instructions).1.length = 1 by decide +kernel)
  have hbuilt : (buildFunctions instructions).1.map (fun f =>
      f.graph.blocks.map fun b => (b.start, b.successors)) =
        [[(0, [27]), (27, [31, 27]), (31, [])]] := by decide +kernel
  rw [hf, List.map_singleton, List.singleton_inj] at hbuilt
  obtain ⟨p, later, hblocks, hp, hlater⟩ := List.map_eq_cons_iff.1 hbuilt
  obtain ⟨q, last, rfl, hq, -⟩ := List.map_eq_cons_iff.1 hlater
  obtain ⟨hpStart, hpEdges⟩ := Prod.mk.inj hp
  obtain ⟨hqStart, hqEdges⟩ := Prod.mk.inj hq
  have hfMem : f ∈ (buildFunctions instructions).1 := by simp [hf]
  have hpMem : p ∈ f.graph.blocks := by simp [hblocks]
  have hqMem : q ∈ f.graph.blocks := by simp [hblocks]
  have hpq : q.start ∈ p.successors := by simp [hpEdges, hqStart]
  have hqq : q.start ∈ q.successors := by simp [hqEdges, hqStart]
  obtain ⟨-, -, -, hfromP, -, hmissed⟩ := edges_mirrored hcode hfMem hpMem
  obtain ⟨-, -, -, hfromQ, -, -⟩ := edges_mirrored hcode hfMem hqMem
  obtain ⟨hout, hin⟩ := (hfromP q hqMem).2 hpq
  obtain ⟨-, hloop⟩ := (hfromQ q hqMem).2 hqq
  -- The third case leads into the branch.
  have hbody : (buildFunctions instructions).1.map (fun f =>
      f.graph.blocks.flatMap (·.instructions)) = [instructions] := by decide +kernel
  rw [hf, List.map_singleton, List.singleton_inj] at hbody
  have hinside : Misses (f.graph.blocks.flatMap (·.instructions)) 29 := by
    rw [hbody]
    exact Or.inr ⟨⟨28, 86, .branch (-4) 27, 3⟩, by simp [instructions], by decide, by decide⟩
  refine ⟨hcode, f, p, q, hfMem, by rw [hblocks]; rfl, hpStart, hqStart, hqStart ▸ hpq,
    hqStart ▸ hqq, hqStart ▸ hout, hpStart ▸ hin, hqStart ▸ hloop, hmissed 29 hinside⟩

end ScriptDecompiler.Flow
