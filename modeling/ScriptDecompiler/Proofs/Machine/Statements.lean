import ScriptDecompiler.Decompile
import ScriptDecompiler.Proofs.Flow.Edges
import ScriptDecompiler.Proofs.Machine.Faults

/-!
# The statements of the visited blocks

When a unit was decompiled without a fault, the graph of each of its functions is what a
walk through the graph that was built has left behind, and the statements of each visited
block are those that a replay of its instructions added.
-/

namespace ScriptDecompiler.Machine

open ScriptDecompiler.Bytecode (Instruction)
open ScriptDecompiler.Flow (Block Graph buildFunctions fresh_of_mem_buildFunctions)

/-- Are the statements of a block those of a replay of its instructions? -/
def Recorded (c : Context) (b : Block) : Prop :=
  ∃ before after, before.emitted = #[] ∧ replay c before b.instructions = (none, after) ∧
    b.statements = after.emitted.toList

section Graphs

variable {c : Context} {g : Graph} {store : Store}

/-- Handing on a stack changes entry stacks only. -/
theorem of_mem_handOffAll {stack : List Expr} {targets : List Nat} {x : Block}
    (hx : x ∈ (handOffAll c stack targets g store).1.blocks) :
    ∃ original ∈ g.blocks, ∃ entry, x = { original with entryStack := entry } := by
  refine handOffAll_keeps c (P := fun after _ => ∀ x ∈ after.blocks,
    ∃ original ∈ g.blocks, ∃ entry, x = { original with entryStack := entry })
    (fun target _ after store h x hx => ?_) (fun x hx => ⟨x, hx, x.entryStack, rfl⟩) x hx
  rcases handOff_graph c stack target after store with hg | ⟨-, hg⟩
  · exact h x (hg ▸ hx)
  · rw [hg] at hx
    rcases Graph.of_mem_modifyBlock hx with ⟨middle, hmem, -, rfl⟩ | ⟨-, hmem⟩
    · obtain ⟨original, horiginal, entry, rfl⟩ := h middle hmem
      exact ⟨original, horiginal, _, rfl⟩
    · exact h x hmem

/-- A visit marks the visited block and leaves statements in it.  Other blocks keep what
they have, apart from entry stacks. -/
theorem of_mem_leave {b x : Block} {s : State} (hx : x ∈ (leave c b s g).1.blocks) :
    ∃ original ∈ g.blocks, original.start = x.start ∧ original.instructions = x.instructions ∧
      (x.start = b.start ∧ x.statements = s.emitted.toList ∨
        x.start ≠ b.start ∧ original.visited = x.visited ∧
          original.statements = x.statements) := by
  have hmarked : ∀ y ∈ (handOffAll c s.stack b.successors (mark g b.start) s.store).1.blocks,
      ∃ original ∈ g.blocks, original.start = y.start ∧
        original.instructions = y.instructions ∧
        (y.start ≠ b.start → original.visited = y.visited ∧
          original.statements = y.statements) := by
    intro y hy
    obtain ⟨middle, hmiddle, entry, rfl⟩ := of_mem_handOffAll hy
    rcases Graph.of_mem_modifyBlock hmiddle with ⟨original, hmem, hstart, rfl⟩ | ⟨-, hmem⟩
    · exact ⟨original, hmem, rfl, rfl, fun hne => absurd hstart hne⟩
    · exact ⟨middle, hmem, rfl, rfl, fun _ => ⟨rfl, rfl⟩⟩
  rcases Graph.of_mem_modifyBlock hx with ⟨y, hy, hstart, rfl⟩ | ⟨hne, hy⟩
  · obtain ⟨original, hmem, hsame, hinstructions, -⟩ := hmarked y hy
    exact ⟨original, hmem, hsame, hinstructions, Or.inl ⟨hstart, rfl⟩⟩
  · obtain ⟨original, hmem, hsame, hinstructions, hkept⟩ := hmarked x hy
    exact ⟨original, hmem, hsame, hinstructions, Or.inr ⟨hne, hkept hne⟩⟩

/-- A walk without a fault leaves statements of a replay in each block that it visits. -/
theorem Walk.recorded {worklist : List Nat} {visits : List Visit}
    {out : Option Fault × Graph × Store} (h : Walk c g store worklist visits out)
    (hout : out.1 = none)
    (hsame : ∀ a ∈ g.bare.blocks, ∀ b ∈ g.bare.blocks, a.start = b.start → a = b)
    (hstart : ∀ b ∈ g.blocks, b.visited = true → Recorded c b) :
    ∀ b ∈ out.2.1.blocks, b.visited = true → Recorded c b := by
  induction h with
  | done => exact hstart
  | skip _ _ ih => exact ih hout hsame hstart
  | stop => cases hout
  | @visit g store start rest b s visits out hblock _ hreplay _ ih =>
      refine ih hout (by rwa [bare_leave]) fun x hx hvisited => ?_
      obtain ⟨original, hmem, hkey, hinstructions, hcases⟩ := of_mem_leave hx
      rcases hcases with ⟨hhere, hstatements⟩ | ⟨-, hmarked, hstatements⟩
      · -- There is only one block at the start, so it is the one that was replayed.
        have hbare := hsame original.bare (List.mem_map_of_mem hmem) b.bare
          (List.mem_map_of_mem (Graph.mem_of_block? hblock).1) (hkey.trans hhere)
        have hbody : original.bare.instructions = b.bare.instructions := by rw [hbare]
        change original.instructions = b.instructions at hbody
        rw [← hbody, hinstructions] at hreplay
        exact ⟨_, s, rfl, hreplay, hstatements⟩
      · obtain ⟨before, after, hempty, hrun, hadded⟩ :=
          hstart original hmem (hmarked.trans hvisited)
        rw [hinstructions] at hrun
        exact ⟨before, after, hempty, hrun, hstatements ▸ hadded⟩

end Graphs

section Programs

variable {u : ScriptUnit} {natives : Native.Database} {annotate : Bool} {p p' : Program}

/-- What decompiling one function keeps, whether it meets a fault or not, decompiling several
ones keeps as well. -/
theorem decompileFunctions_keeps {P : Program → Prop} {order : List Nat}
    (hstep : ∀ p, ∀ index ∈ order, P p → P (p.decompileFunction ⟨u, natives, annotate, index⟩).2)
    (hp : P p) : P (p.decompileFunctions u natives annotate order).2 := by
  induction order generalizing p with
  | nil => exact hp
  | cons first rest ih =>
      have hfirst := hstep p first List.mem_cons_self hp
      rw [Program.decompileFunctions]
      generalize p.decompileFunction ⟨u, natives, annotate, first⟩ = out at hfirst
      obtain ⟨fault, out⟩ := out
      cases fault with
      | some fault => exact hfirst
      | none =>
          exact ih (fun q index hindex => hstep q index (List.mem_cons_of_mem _ hindex)) hfirst

/-- What decompiling a function without a fault keeps holds when all of them were decompiled. -/
theorem of_decompileFunctions {P : Program → Prop} {order : List Nat}
    (hstep : ∀ p c p', P p → p.decompileFunction c = (none, p') → P p') (hp : P p)
    (hrun : p.decompileFunctions u natives annotate order = (none, p')) : P p' := by
  induction order generalizing p with
  | nil =>
      cases hrun
      exact hp
  | cons first rest ih =>
      rw [Program.decompileFunctions] at hrun
      cases hfirst : p.decompileFunction ⟨u, natives, annotate, first⟩ with
      | mk fault middle =>
          rw [hfirst] at hrun
          cases fault with
          | some fault => cases hrun
          | none => exact ih (hstep p _ middle hp hfirst) hrun

variable (u natives annotate p) in
/-- Functions that are not decompiled keep their graphs. -/
theorem graphs_decompileFunctions {order : List Nat} {index : Nat} (hindex : index ∉ order) :
    (p.decompileFunctions u natives annotate order).2.graphs[index]? = p.graphs[index]? := by
  refine decompileFunctions_keeps (P := fun q => q.graphs[index]? = p.graphs[index]?)
    (fun q k hk hq => ?_) rfl
  have hne : index ≠ k := fun heq => hindex (heq ▸ hk)
  exact (graphs_decompileFunction q ⟨u, natives, annotate, k⟩ hne).trans hq

/-- If functions are decompiled without a fault, the graph of each one is what a walk has
left behind. -/
theorem walk_of_decompileFunctions {order : List Nat} (hdistinct : order.Nodup)
    (hrun : p.decompileFunctions u natives annotate order = (none, p')) {index : Nat}
    (hindex : index ∈ order) {g g' : Graph} (hg : p.graphs[index]? = some g)
    (hg' : p'.graphs[index]? = some g') :
    ∃ store visits store', Walk ⟨u, natives, annotate, index⟩ (openEntry g) store [g.entry] visits
      (none, g', store') := by
  induction order generalizing p with
  | nil => cases hindex
  | cons first rest ih =>
      obtain ⟨hnot, hrest⟩ := List.nodup_cons.1 hdistinct
      rw [Program.decompileFunctions] at hrun
      by_cases hfirst : index = first
      · subst hfirst
        obtain ⟨visits, ⟨fault, graph, store'⟩, hwalk, hout⟩ :=
          decompileFunction_eq (c := ⟨u, natives, annotate, index⟩) hg
        rw [hout] at hrun
        cases fault with
        | some fault => cases hrun
        | none =>
            have hkept := graphs_decompileFunctions u natives annotate
              ⟨store', p.graphs.setIfInBounds index graph⟩ hnot
            dsimp only at hrun
            rw [hrun] at hkept
            obtain ⟨hlt, -⟩ := Array.getElem?_eq_some_iff.1 hg
            rw [hg', Array.getElem?_setIfInBounds_self_of_lt hlt, Option.some.injEq] at hkept
            exact ⟨p.store, visits, store', hkept ▸ hwalk⟩
      · have hin : index ∈ rest := (List.mem_cons.1 hindex).resolve_left hfirst
        have hkept := graphs_decompileFunction p ⟨u, natives, annotate, first⟩ hfirst
        generalize p.decompileFunction ⟨u, natives, annotate, first⟩ = out at hrun hkept
        obtain ⟨fault, out⟩ := out
        cases fault with
        | some fault => cases hrun
        | none => exact ih hrest hrun hin (hkept.trans hg)

end Programs

section Units

variable {u : ScriptUnit} {natives : Native.Database} {annotate : Bool}
  {instructions : List Instruction} {p : Program} {index : Nat} {f : Flow.Function}

theorem graphs_of_function? (h : p.function? index = some f) :
    p.graphs[index]? = some f.graph := by
  unfold Program.function? at h
  split at h
  · rename_i frame graph _ hgraph
    cases h
    exact hgraph
  · cases h

theorem size_graphs_decompileFunction (p : Program) (c : Context) :
    (p.decompileFunction c).2.graphs.size = p.graphs.size := by
  unfold Program.decompileFunction
  split
  · rfl
  · exact Array.size_setIfInBounds

theorem size_graphs_decompileFunctions (p : Program) (u : ScriptUnit)
    (natives : Native.Database) (annotate : Bool) (order : List Nat) :
    (p.decompileFunctions u natives annotate order).2.graphs.size = p.graphs.size :=
  decompileFunctions_keeps (P := fun q => q.graphs.size = p.graphs.size)
    (fun q index _ hq => (size_graphs_decompileFunction q ⟨u, natives, annotate, index⟩).trans hq)
    rfl

/-- A function of a unit that was decompiled: its graph is built from a part of the decoded code,
and its visited blocks hold the statements of replays. -/
theorem exists_part_of_run (hcode : u.instructions = .ok instructions)
    (hrun : (u.program instructions).run u natives annotate = (none, p))
    (hf : p.function? index = some f) :
    ∃ body, body <:+: instructions ∧ f.graph.Built body ∧ ∀ b ∈ f.graph.blocks, b.visited = true →
      Recorded ⟨u, natives, annotate, index⟩ b := by
  have hg' := graphs_of_function? hf
  obtain ⟨hlt, -⟩ := Array.getElem?_eq_some_iff.1 hg'
  have hsize := size_graphs_decompileFunctions (u.program instructions) u natives annotate
    (List.range (u.program instructions).graphs.size)
  unfold Program.run at hrun
  rw [hrun] at hsize
  obtain ⟨g, hg⟩ : ∃ g, (u.program instructions).graphs[index]? = some g :=
    ⟨_, Array.getElem?_eq_getElem (hsize ▸ hlt)⟩
  obtain ⟨store, visits, store', hwalk⟩ := walk_of_decompileFunctions List.nodup_range hrun
    (List.mem_range.2 (hsize ▸ hlt)) hg hg'
  rw [graphs_program] at hg
  obtain ⟨built, hbuilt, rfl⟩ := Option.map_eq_some_iff.1 hg
  have hmem := List.mem_of_getElem? hbuilt
  have hfresh := fresh_of_mem_buildFunctions hmem
  obtain ⟨body, hpart, hbody⟩ := Flow.built_of_mem_buildFunctions hcode hmem
  have hbare : (openEntry built.graph).bare = built.graph :=
    (bare_openEntry built.graph).trans hfresh.bare
  refine ⟨body, hpart, Graph.Built.of_bare ?_, hwalk.recorded rfl ?_ ?_⟩
  · rw [hwalk.bare.1, hbare]
    exact hbody
  · rw [hbare]
    intro a ha b hb hsame
    have hfound := (hbody.keyed a ha).1
    rw [hsame, (hbody.keyed b hb).1] at hfound
    exact (Option.some.inj hfound).symm
  · intro b hb hvisited
    have hnone := ((exploring_openEntry hfresh).marked b hb).1 hvisited
    cases hnone

theorem recorded_of_run (hcode : u.instructions = .ok instructions)
    (hrun : (u.program instructions).run u natives annotate = (none, p))
    (hf : p.function? index = some f) :
    ∃ body, f.graph.Built body ∧ ∀ b ∈ f.graph.blocks, b.visited = true →
      Recorded ⟨u, natives, annotate, index⟩ b := by
  obtain ⟨body, -, h⟩ := exists_part_of_run hcode hrun hf
  exact ⟨body, h⟩

end Units

end ScriptDecompiler.Machine
