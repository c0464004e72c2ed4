import ScriptDecompiler.Proofs.Machine.EntryStacks
import ScriptDecompiler.Proofs.Machine.Faults
import ScriptDecompiler.Proofs.Machine.Results

/-!
# Decompiling a function again

The first block that decompiling a function looks at is the entry block, and it is marked before
it is replayed.  So a function that was decompiled before has a marked entry block, whatever the
outcome was, and there is nothing to do the next time.  A fault is met by the first decompilation
of a function or by none; it leaves behind a marked block without statements, and nothing tells
it from a block that has none.
-/

namespace ScriptDecompiler.Machine

open ScriptDecompiler.Bytecode (Instruction opcodeInfo)
open ScriptDecompiler.Flow (Block Graph buildFunctions fresh_of_mem_buildFunctions)

-- The opcode table is too large to be unfolded whenever terms are compared.
attribute [local irreducible] opcodeInfo

/-- Was the function decompiled before, with whatever outcome: is its entry block given its stack
and marked? -/
structure Begun (g : Graph) : Prop where
  entered : Enters g g.entry []
  marked : ¬ g.IsOpen g.entry

section Walks

variable {c : Context} {fresh g : Graph} {store : Store} {worklist visited : List Nat}
  {visits : List Visit} {out : Option Fault × Graph × Store}

theorem not_isOpen_mark {b : Block} {start : Nat} (hblock : g.block? start = some b) :
    ¬ (mark g b.start).IsOpen start := by
  rintro ⟨marked, hmarked, hnew⟩
  rw [(Graph.mem_of_block? hblock).2, mark, g.block?_modifyBlock start start (by intro; rfl),
    hblock, Option.map_some, if_pos rfl] at hmarked
  cases hmarked
  cases hnew

/-- A marked block stays marked. -/
theorem Walk.not_isOpen (h : Walk c g store worklist visits out) {start : Nat}
    (hmarked : ¬ g.IsOpen start) : ¬ out.2.1.IsOpen start :=
  (h.invariant (I := fun g _ => ¬ g.IsOpen start) hmarked
    (fun _ _ _ _ _ hg _ hopen => hg (isOpen_of_mark hopen))
    (fun _ _ b s hg _ hopen => hg (isOpen_of_mark ((isOpen_leave c b s _).1 hopen)))).1

/-- The first block on the worklist is marked in the end. -/
theorem Walk.not_isOpen_first {start : Nat} {rest : List Nat}
    (h : Walk c g store (start :: rest) visits out) : ¬ out.2.1.IsOpen start := by
  cases h with
  | skip hvisited hrest =>
      refine hrest.not_isOpen ?_
      rintro ⟨b, hb, hnew⟩
      rw [hvisited b hb] at hnew
      cases hnew
  | stop _ hblock => exact not_isOpen_mark hblock
  | visit hblock _ _ hrest =>
      exact hrest.not_isOpen fun hopen => not_isOpen_mark hblock ((isOpen_leave c _ _ g).1 hopen)

/-- A fault is met in a block that is marked and has no statements. -/
theorem Walk.exists_aborted (h : Walk c g store worklist visits out)
    (hg : Exploring fresh g visited worklist) (hfresh : fresh.Fresh) {fault : Fault}
    (hout : out.1 = some fault) :
    ∃ b ∈ out.2.1.blocks, b.visited = true ∧ b.statements = [] ∧
      ∃ i ∈ b.instructions, fault? c store.frames i = some fault := by
  induction h generalizing visited with
  | done => cases hout
  | skip hvisited _ ih => exact ih (hg.skip hfresh hvisited) hout
  | @stop g store start b found s rest hblock hnew hreplay =>
      cases hout
      obtain ⟨hmem, hstart⟩ := Graph.mem_of_block? hblock
      refine ⟨{ b with visited := true }, ?_, rfl, ?_, exists_fault?_of_replay hreplay⟩
      · exact List.mem_map.2 ⟨b, hmem, if_pos rfl⟩
      · by_contra hne
        exact hg.not_mem_visited hblock hnew (hstart ▸ hg.stated b hmem hne)
  | @visit g store start rest b s visits out hblock hnew hreplay _ ih =>
      obtain ⟨aborted, hmem, hmarked, hempty, i, hi, hfault⟩ :=
        ih (hg.visit hfresh c hblock hnew s) hout
      refine ⟨aborted, hmem, hmarked, hempty, i, hi, ?_⟩
      rw [← hfault]
      exact (fault?_congr c (keeps_leave c hreplay g).heads i).symm

end Walks

section Programs

variable {p : Program} {c : Context} {g : Graph}

theorem begun_decompileFunction (hfresh : g.Fresh) (hgraph : p.graphs[c.current]? = some g) :
    ∃ g', (p.decompileFunction c).2.graphs[c.current]? = some g' ∧ Begun g' := by
  obtain ⟨visits, out, hwalk, hrun⟩ := decompileFunction_eq hgraph
  obtain ⟨hlt, -⟩ := Array.getElem?_eq_some_iff.1 hgraph
  have hentry : out.2.1.entry = g.entry := by
    have hbare := congrArg Graph.entry (hwalk.bare.1.trans (bare_openEntry g))
    exact hbare
  refine ⟨out.2.1, ?_, ?_, ?_⟩
  · rw [hrun]
    exact Array.getElem?_setIfInBounds_self_of_lt hlt
  · rw [hentry]
    exact (enters_openEntry hfresh).walk hwalk
  · rw [hentry]
    exact hwalk.not_isOpen_first

/-- Decompiling a function again does nothing. -/
theorem decompileFunction_of_begun (hgraph : p.graphs[c.current]? = some g) (h : Begun g) :
    p.decompileFunction c = (none, p) := by
  have hvisited : ∀ b, g.block? g.entry = some b → b.visited = true := by
    intro b hb
    by_contra hnew
    exact h.marked ⟨b, hb, by simpa using hnew⟩
  have hexplore : explore c (openEntry g) p.store [g.entry] = (none, g, p.store) := by
    rw [openEntry_of_enters h.entered, explore_skip c p.store [] hvisited, explore]
  have hsame : p.graphs.setIfInBounds c.current g = p.graphs := by grind
  unfold Program.decompileFunction
  simp only [hgraph, hexplore, hsame]

/-- The graph of a function, as it was built or after it was decompiled for the first time. -/
theorem graphs_after {f : Flow.Function} {k : Nat} (hfresh : f.graph.Fresh)
    (hgraph : p.graphs[k]? = some f.graph) (order : List Context) :
    ((∀ c ∈ order, c.current ≠ k) → (p.after order).graphs[k]? = some f.graph) ∧
      ((∃ c ∈ order, c.current = k) → ∃ g, (p.after order).graphs[k]? = some g ∧ Begun g) := by
  induction order using List.reverseRecOn with
  | nil => exact ⟨fun _ => hgraph, fun ⟨c, hc, _⟩ => absurd hc List.not_mem_nil⟩
  | append_singleton order c ih =>
      obtain ⟨hnever, hbefore⟩ := ih
      rw [Program.after_append_singleton]
      constructor
      · intro hother
        rw [graphs_decompileFunction _ _ (hother c (by simp)).symm]
        exact hnever fun c' hc' => hother c' (List.mem_append_left _ hc')
      · intro hsome
        by_cases horder : ∃ c' ∈ order, c'.current = k
        · obtain ⟨g, hg, hbegun⟩ := hbefore horder
          by_cases hcurrent : c.current = k
          · subst hcurrent
            rw [decompileFunction_of_begun hg hbegun]
            exact ⟨g, hg, hbegun⟩
          · rw [graphs_decompileFunction _ _ (Ne.symm hcurrent)]
            exact ⟨g, hg, hbegun⟩
        · obtain ⟨c', hc', hcurrent⟩ := hsome
          have hlast : c' = c := by
            rcases List.mem_append.1 hc' with hmem | hmem
            · exact absurd ⟨c', hmem, hcurrent⟩ horder
            · exact List.mem_singleton.1 hmem
          subst hlast hcurrent
          exact begun_decompileFunction hfresh
            (hnever fun c hc hsame => horder ⟨c, hc, hsame⟩)

/-- The graph of a function before anything is decompiled. -/
theorem graph_of_getElem? {instructions : List Instruction} {k : Nat} {f : Flow.Function}
    (u : ScriptUnit) (hf : (buildFunctions instructions).1[k]? = some f) :
    f.graph.Fresh ∧ (u.program instructions).graphs[k]? = some f.graph := by
  refine ⟨fresh_of_mem_buildFunctions (List.mem_of_getElem? hf), ?_⟩
  rw [graphs_program, hf]
  rfl

/-- A function that was decompiled is done. -/
theorem decompileFunction_of_mem (u : ScriptUnit) (instructions : List Instruction)
    {order : List Context} (hbefore : ∃ c' ∈ order, c'.current = c.current) :
    ((u.program instructions).after order).decompileFunction c =
      (none, (u.program instructions).after order) := by
  cases hf : (buildFunctions instructions).1[c.current]? with
  | none =>
      -- There is no such function, and nothing is decompiled.
      have hnone : ((u.program instructions).after order).graphs[c.current]? = none := by
        have hbare := bare_after (u.program instructions) order c.current
        rw [graphs_program, hf] at hbare
        exact Option.map_eq_none_iff.1 hbare
      unfold Program.decompileFunction
      rw [hnone]
  | some f =>
      obtain ⟨hfresh, hgraph⟩ := graph_of_getElem? u hf
      obtain ⟨g, hg, hbegun⟩ := (graphs_after hfresh hgraph order).2 hbefore
      exact decompileFunction_of_begun hg hbegun

section First

variable {instructions : List Instruction} {f : Flow.Function}
  (hheads : p.store.heads = (c.unit.program instructions).store.heads)
  (hf : (buildFunctions instructions).1[c.current]? = some f)
  (hp : p.graphs[c.current]? = some f.graph)

include hheads hf hp

/-- A function that was not decompiled fails exactly if control can reach a bad instruction. -/
theorem isSome_decompileFunction_iff :
    (p.decompileFunction c).1.isSome ↔ Faulty c.unit instructions f := by
  have hfresh := (graph_of_getElem? c.unit hf).1
  obtain ⟨visits, out, hwalk, hrun⟩ := decompileFunction_eq hp
  have hexplore := fault_explore (c := c) hfresh p.store
  rw [explore_of_walk hwalk] at hexplore
  rw [hrun, faulty_iff c.natives c.annotate c.current]
  simp only [← fault?_congr c hheads]
  cases hout : out.1 with
  | none =>
      rw [hout] at hexplore
      simpa using hexplore
  | some fault =>
      rw [hout] at hexplore
      obtain ⟨i, hi, hfault⟩ := hexplore
      simpa using ⟨i, hi, by simp [hfault]⟩

/-- If it fails, it leaves the block of a bad instruction behind marked and without statements. -/
theorem exists_aborted_of_fault {fault : Fault} (hfault : (p.decompileFunction c).1 = some fault) :
    ∃ g, (p.decompileFunction c).2.graphs[c.current]? = some g ∧ Begun g ∧
      ∃ b ∈ g.blocks, b.visited = true ∧ b.statements = [] ∧
        ∃ i ∈ b.instructions, Bad c.unit instructions i fault.kind ∧
          fault.address = i.address := by
  have hfresh := (graph_of_getElem? c.unit hf).1
  obtain ⟨g, hg, hbegun⟩ := begun_decompileFunction hfresh hp
  refine ⟨g, hg, hbegun, ?_⟩
  obtain ⟨visits, out, hwalk, hrun⟩ := decompileFunction_eq hp
  rw [hrun] at hfault hg
  obtain ⟨hlt, -⟩ := Array.getElem?_eq_some_iff.1 hp
  rw [Array.getElem?_setIfInBounds_self_of_lt hlt, Option.some.injEq] at hg
  obtain ⟨b, hb, hmarked, hempty, i, hi, hwhere⟩ :=
    hwalk.exists_aborted (exploring_openEntry hfresh) hfresh hfault
  rw [fault?_congr c hheads] at hwhere
  obtain ⟨hbad, -, haddress, -⟩ := of_fault?_eq_some hf hwhere
  exact ⟨b, hg ▸ hb, hmarked, hempty, i, hi, hbad, haddress⟩

end First

/-- Only the first decompilation of a function can fail.  Whatever functions of a unit were
decompiled before, in whatever order: a function among them is found to be done, and nothing
changes.  Any other one fails exactly if control can reach a bad instruction.  Then the block of a
bad instruction is left behind marked and without statements, and decompiling the function again,
in this program or in any other one with this graph, succeeds and changes nothing. -/
theorem decompileFunction_fails_once (u : ScriptUnit) (instructions : List Instruction)
    (order : List Context) (c : Context) :
    let p := (u.program instructions).after order
    ((∃ c' ∈ order, c'.current = c.current) → p.decompileFunction c = (none, p)) ∧
      ∀ f, (buildFunctions instructions).1[c.current]? = some f →
        (∀ c' ∈ order, c'.current ≠ c.current) →
        ((p.decompileFunction c).1.isSome ↔ Faulty c.unit instructions f) ∧
        ∀ fault, (p.decompileFunction c).1 = some fault →
          ∃ g, (p.decompileFunction c).2.graphs[c.current]? = some g ∧
            (∃ b ∈ g.blocks, b.visited = true ∧ b.statements = [] ∧
              ∃ i ∈ b.instructions, Bad c.unit instructions i fault.kind ∧
                fault.address = i.address) ∧
            ∀ (q : Program) (c' : Context), c'.current = c.current →
              q.graphs[c.current]? = some g → q.decompileFunction c' = (none, q) := by
  intro p
  refine ⟨decompileFunction_of_mem u instructions, fun f hf hnever => ?_⟩
  obtain ⟨hfresh, hgraph⟩ := graph_of_getElem? u hf
  have hp : p.graphs[c.current]? = some f.graph := (graphs_after hfresh hgraph order).1 hnever
  have hheads : p.store.heads = (c.unit.program instructions).store.heads :=
    (heads_after (u.program instructions) order).trans rfl
  refine ⟨isSome_decompileFunction_iff hheads hf hp, fun fault hfault => ?_⟩
  obtain ⟨g, hg, hbegun, haborted⟩ := exists_aborted_of_fault hheads hf hp hfault
  exact ⟨g, hg, haborted, fun q c' hcurrent hq => decompileFunction_of_begun (hcurrent ▸ hq) hbegun⟩

/-- A function that calls a native although the unit has none.  The first decompilation fails.
The second one succeeds, in the same program or in one that has got rid of the diagnostics, with
the only block marked and the return in it lost. -/
theorem exists_failure_forgotten :
    let code : List UInt8 := [45, 0, 0, 0, 1, 102, 44, 0, 0, 0, 46, 0, 0]
    let u : ScriptUnit := ⟨"u", code, 13, [], #[], []⟩
    let c : Context := ⟨u, .empty, false, 0⟩
    let instructions : List Instruction := [⟨0, 45, .enter 0 0 "f", 6⟩,
      ⟨6, 44, .native 0 0 0, 4⟩, ⟨10, 46, .ret 0 0, 3⟩]
    u.instructions = .ok instructions ∧
      ∃ q g, (u.program instructions).decompileFunction c =
          (some ⟨"f", 6, "calln #0 0 0", .invalidNativeIndex 0 0⟩, q) ∧
        q.graphs[0]? = some g ∧
        g.blocks.map (fun b => (b.start, b.visited, b.statements.length)) =
          [(0, true, 0)] ∧
        q.decompileFunction c = (none, q) ∧
        let fresh : Program := ⟨{ q.store with diagnostics := #[] }, q.graphs⟩
        fresh.decompileFunction c = (none, fresh) := by
  intro code u c instructions
  have hrun : ((u.program instructions).decompileWithin 9 c).map (fun run =>
      (run.2.1, run.2.2.graphs[0]?.map fun g =>
        g.blocks.map fun b => (b.start, b.visited, b.statements.length))) =
      some (some ⟨"f", 6, "calln #0 0 0", .invalidNativeIndex 0 0⟩,
        some [(0, true, 0)]) := by decide +kernel
  obtain ⟨⟨visits, fault, q⟩, hwithin, hfound⟩ := Option.map_eq_some_iff.1 hrun
  obtain ⟨g, out, hgraph, -, hdecompile⟩ := walk_of_decompileWithin hwithin
  simp only [Prod.mk.injEq] at hfound
  obtain ⟨rfl, hblocks⟩ := hfound
  obtain ⟨left, hleft, hblocks⟩ := Option.map_eq_some_iff.1 hblocks
  have hfresh : g.Fresh := by
    rw [graphs_program] at hgraph
    obtain ⟨f, hf, rfl⟩ := Option.map_eq_some_iff.1 hgraph
    exact fresh_of_mem_buildFunctions (List.mem_of_getElem? hf)
  obtain ⟨begun, hbegun, hdone⟩ := begun_decompileFunction hfresh hgraph
  rw [hdecompile] at hbegun
  exact ⟨by decide +kernel, q, left, hdecompile, hleft, hblocks,
    decompileFunction_of_begun hbegun hdone, decompileFunction_of_begun hbegun hdone⟩

end Programs

end ScriptDecompiler.Machine
