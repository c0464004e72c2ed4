import Mathlib.Data.List.Perm.Subperm
import ScriptDecompiler.Proofs.Machine.Walk

/-!
# Which blocks are replayed

Decompiling a function ends after at most one visit of each block.  If it meets no
fault, the blocks that it marks are those that control can reach, each of them was
visited once, and nothing is left behind in the others.  Doing it again changes
nothing.
-/

namespace ScriptDecompiler.Machine

open ScriptDecompiler.Flow (Block Graph buildFunctions fresh_of_mem_buildFunctions)

/-- The entry block has the empty stack from the beginning. -/
theorem enters_openEntry {fresh : Graph} (hfresh : fresh.Fresh) :
    Enters (openEntry fresh) fresh.entry [] := by
  intro b hb hstart
  rcases Graph.of_mem_modifyBlock hb with ⟨original, hmem, -, rfl⟩ | ⟨hother, -⟩
  · rw [← hfresh.untouched hmem]
    rfl
  · exact absurd hstart hother

/-- A walk is no longer than the list of blocks. -/
theorem length_visits_le {c : Context} {fresh : Graph} {store : Store} {visits : List Visit}
    {out : Option Fault × Graph × Store} (hfresh : fresh.Fresh)
    (hwalk : Walk c (openEntry fresh) store [fresh.entry] visits out) :
    visits.length ≤ fresh.blocks.length := by
  have hstart := exploring_openEntry hfresh
  have hdistinct : (visits.map Visit.start).Nodup := by simpa using hwalk.distinct hstart hfresh
  have hsubset : visits.map Visit.start ⊆ fresh.blocks.map (·.start) := by
    intro a ha
    obtain ⟨v, hv, rfl⟩ := List.mem_map.1 ha
    have hblock := (hwalk.reaches hstart hfresh v hv).2
    obtain ⟨hmem, hsame⟩ := Graph.mem_of_block? hblock
    exact List.mem_map.2 ⟨_, hmem, hsame⟩
  simpa using (List.subperm_of_subset hdistinct hsubset).length_le

theorem openEntry_of_enters {g : Graph} {stack : List Expr} (h : Enters g g.entry stack) :
    openEntry g = g := by
  unfold openEntry Graph.modifyBlock
  cases g with
  | mk entry blocks =>
      simp only [Flow.Graph.mk.injEq, true_and]
      conv_rhs => rw [← List.map_id blocks]
      apply List.map_congr_left
      intro b hb
      split
      · rename_i hstart
        have hstack := h b hb hstart
        cases b
        simp_all
      · rfl

/-- Exploring again from the entry finds nothing to do. -/
theorem explore_again {fresh g : Graph} {visited : List Nat} {stack : List Expr}
    (h : Exploring fresh g visited []) (hentry : Enters g fresh.entry stack) (c : Context)
    (store : Store) : explore c (openEntry g) store [g.entry] = (none, g, store) := by
  have hopened : openEntry g = g := openEntry_of_enters (h.entry_eq ▸ hentry)
  have hvisited : ∀ b, g.block? g.entry = some b → b.visited = true := by
    intro b hb
    obtain ⟨hmem, hstart⟩ := Graph.mem_of_block? hb
    rw [h.marked b hmem, hstart, h.entry_eq, h.mem_visited_iff]
    exact .refl
  rw [hopened, explore_skip c store [] hvisited, explore]

/-- Decompiling a function that was just built, in whatever program. -/
theorem decompileFunction_explores {instructions : List Bytecode.Instruction}
    {f : Flow.Function} (hf : f ∈ (buildFunctions instructions).1) (p : Program) (c : Context)
    (hgraph : p.graphs[c.current]? = some f.graph) :
    ∃ visits fault g store,
      p.decompileFunction c = (fault, ⟨store, p.graphs.setIfInBounds c.current g⟩) ∧
      Walk c (openEntry f.graph) p.store [f.graph.entry] visits (fault, g, store) ∧
      visits.length ≤ f.graph.blocks.length ∧
      (fault = none →
        (∀ a, g.isVisited a = true ↔ f.graph.Reaches a) ∧
        (visits.map Visit.start).Nodup ∧
        (∀ a, a ∈ visits.map Visit.start ↔ f.graph.Reaches a) ∧
        (∀ b ∈ g.blocks, ¬ f.graph.Reaches b.start → b.statements = [] ∧ b.entryStack = none) ∧
        ∀ c' : Context, c'.current = c.current →
          (⟨store, p.graphs.setIfInBounds c.current g⟩ : Program).decompileFunction c' =
            (none, ⟨store, p.graphs.setIfInBounds c.current g⟩)) := by
  have hfresh := fresh_of_mem_buildFunctions hf
  obtain ⟨visits, ⟨fault, g, store⟩, hwalk, hrun⟩ := decompileFunction_eq hgraph
  refine ⟨visits, fault, g, store, hrun, hwalk, length_visits_le hfresh hwalk, ?_⟩
  rintro rfl
  have hexplored := hwalk.exploring (exploring_openEntry hfresh) hfresh rfl
  rw [List.nil_append] at hexplored
  change Exploring f.graph g _ [] at hexplored
  refine ⟨fun a => ⟨fun ha => ?_, fun ha => ?_⟩, hexplored.distinct,
    fun a => hexplored.mem_visited_iff, ?_, ?_⟩
  · exact hexplored.mem_visited_iff.1 (hexplored.mem_of_isVisited ha)
  · exact (hexplored.isVisited_iff (hfresh.block ha)).2 (hexplored.mem_visited_iff.2 ha)
  · intro b hb hnot
    constructor
    · by_contra hne
      exact hnot (hexplored.mem_visited_iff.1 (hexplored.stated b hb hne))
    · by_contra hne
      exact hnot (hexplored.stacked b hb hne)
  · intro c' hcurrent
    obtain ⟨hlt, -⟩ := Array.getElem?_eq_some_iff.1 hgraph
    have hagain : (p.graphs.setIfInBounds c.current g)[c.current]? = some g :=
      Array.getElem?_setIfInBounds_self_of_lt hlt
    have hnothing := explore_again hexplored ((enters_openEntry hfresh).walk hwalk) c' store
    unfold Program.decompileFunction
    simp only [hcurrent, hagain, hnothing, Array.setIfInBounds_setIfInBounds]

/-- A block that branches back to itself and on to a return, and a loop behind the
return that control never gets to. -/
theorem decompileFunction_explores_loop :
    let instructions : List Bytecode.Instruction := [⟨0, 45, .enter 0 2 "f", 6⟩,
      ⟨6, 111, .impliedInt 1, 1⟩, ⟨7, 86, .branch (-4) 6, 3⟩, ⟨10, 46, .ret 0 0, 3⟩,
      ⟨13, 85, .branch (-3) 13, 3⟩]
    let c : Context := ⟨⟨"u", [], 0, [], #[], []⟩, .empty, false, 0⟩
    ∃ f, (buildFunctions instructions).1 = [f] ∧ f.graph.blocks.length = 4 ∧
      ∃ (visits : List Visit) (g : Graph) (store : Store),
        (Program.ofFunctions [f] [] []).decompileFunction c =
          (none, ⟨store, #[g]⟩) ∧
        (visits.map Visit.start).Nodup ∧
        (∀ a, a ∈ visits.map Visit.start ↔ f.graph.Reaches a) ∧
        (⟨store, #[g]⟩ : Program).decompileFunction c = (none, ⟨store, #[g]⟩) := by
  intro instructions c
  obtain ⟨f, hf⟩ := List.length_eq_one_iff.1
    (show (buildFunctions instructions).1.length = 1 by decide +kernel)
  have hcount : (buildFunctions instructions).1.map (·.graph.blocks.length) = [4] := by
    decide +kernel
  have hsuccess : (buildFunctions instructions).1.map (fun f =>
      (walkWithin c 9 (openEntry f.graph) (Program.ofFunctions [f] [] []).store
        [f.graph.entry]).map (·.2.1)) = [some none] := by decide +kernel
  rw [hf] at hcount hsuccess
  obtain ⟨⟨visits, out⟩, hwithin, hnone⟩ := Option.map_eq_some_iff.1 (List.singleton_inj.1 hsuccess)
  have hout := explore_of_walk (walk_of_walkWithin hwithin)
  obtain ⟨visits, fault, g, store, hrun, hwalk, -, hsound⟩ := decompileFunction_explores
    (show f ∈ (buildFunctions instructions).1 from hf ▸ List.mem_cons_self)
    (Program.ofFunctions [f] [] []) c rfl
  have hfault : fault = none := by
    rw [explore_of_walk hwalk] at hout
    rw [← hnone, ← hout]
  subst hfault
  obtain ⟨-, hdistinct, hreaches, -, hagain⟩ := hsound rfl
  exact ⟨f, hf, List.singleton_inj.1 hcount, visits, g, store, hrun, hdistinct, hreaches,
    hagain c rfl⟩

end ScriptDecompiler.Machine
