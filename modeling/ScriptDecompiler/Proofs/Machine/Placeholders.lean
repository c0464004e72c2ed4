import ScriptDecompiler.Proofs.Machine.Isolation
import ScriptDecompiler.Proofs.Machine.Points
import ScriptDecompiler.Proofs.Machine.Provenance

/-!
# Placeholders are reported

A placeholder stands for a value that was missing on the stack.  It may be duplicated, end up
deep inside other expressions, in statements, on the entry stacks of other blocks, and from
there in their statements.

The invariant: wherever there is a placeholder in what belongs to a function, an underflow was
reported for this function.  A replay makes placeholders only as it reports an underflow, and
reports stay.
-/

namespace ScriptDecompiler

open ScriptDecompiler.Expr (leavesOfAll)

namespace Store

/-- Was it reported that a value was missing in function `k`? -/
def ReportsUnderflow (s : Store) (k : Nat) : Prop :=
  ∃ f address, s.frames[k]? = some f ∧
    ⟨some f.name, some address, .stackUnderflow⟩ ∈ s.diagnostics

/-- Are the functions the same ones, and all reports still there? -/
structure Remembers (s s' : Store) : Prop where
  heads : s'.heads = s.heads
  diagnostics : ∃ added, s'.diagnostics = s.diagnostics ++ added

variable {s s' s'' : Store} {k : Nat}

theorem Remembers.refl (s : Store) : Remembers s s :=
  ⟨rfl, #[], by simp⟩

theorem Remembers.trans (h : s.Remembers s') (h' : s'.Remembers s'') : s.Remembers s'' := by
  obtain ⟨added, hadded⟩ := h.diagnostics
  obtain ⟨later, hlater⟩ := h'.diagnostics
  exact ⟨h'.heads.trans h.heads, added ++ later, by rw [hlater, hadded, Array.append_assoc]⟩

theorem Remembers.size (h : s.Remembers s') : s'.frames.size = s.frames.size :=
  size_frames_of_heads h.heads

theorem Remembers.reportsUnderflow (h : s.Remembers s') (hreport : s.ReportsUnderflow k) :
    s'.ReportsUnderflow k := by
  obtain ⟨f, address, hf, hmem⟩ := hreport
  obtain ⟨f', hf', hhead⟩ := exists_frame_of_heads h.heads hf
  obtain ⟨added, hadded⟩ := h.diagnostics
  have hname : f'.name = f.name := congrArg Head.name hhead
  refine ⟨f', address, hf', ?_⟩
  rw [hname, hadded]
  exact Array.mem_append_left added hmem

theorem Course.remembers {course : List (Nat × Update)} (h : s.Course course s') :
    s.Remembers s' :=
  ⟨h.heads, h.diagnostics⟩

theorem reportsUnderflow_diagnose (hk : k < s.frames.size) (address : Nat) :
    (s.diagnose k address .stackUnderflow).ReportsUnderflow k := by
  have hframe : s.frames[k]? = some s.frames[k] := Array.getElem?_eq_getElem hk
  refine ⟨s.frames[k], address, hframe, ?_⟩
  unfold diagnose
  rw [hframe]
  exact Array.mem_push_self

end Store

/-- Are there placeholders in a block only if `reported` holds? -/
structure Flow.Block.Excused (b : Block) (reported : Prop) : Prop where
  statements : ∀ statement ∈ b.statements, .placeholder ∈ statement.leaves → reported
  stack : ∀ entry, b.entryStack = some entry → .placeholder ∈ leavesOfAll entry → reported

theorem Flow.Block.Excused.mono {b : Block} {reported reported' : Prop}
    (h : b.Excused reported) (hmono : reported → reported') : b.Excused reported' :=
  ⟨fun statement hmem hleaf => hmono (h.statements statement hmem hleaf),
    fun entry hentry hleaf => hmono (h.stack entry hentry hleaf)⟩

namespace Machine

open ScriptDecompiler.Bytecode (Instruction)
open ScriptDecompiler.Flow (Block Graph)

/-- A placeholder needs a report, if there is a function to report it for. -/
def Excuses (current : Nat) (s : Store) (l : Leaf) : Prop :=
  l = .placeholder → current < s.frames.size → s.ReportsUnderflow current

theorem Excuses.mono {current : Nat} {s s' : Store} {l : Leaf} (h : Excuses current s l)
    (hs : s.Remembers s') : Excuses current s' l :=
  fun hl hcurrent => hs.reportsUnderflow (h hl (hs.size ▸ hcurrent))

/-- Placeholders, through a replay. -/
def reporting (current : Nat) : Provenance current where
  allows := Excuses current
  leads s new s' := s.Remembers s' ∧
    ∀ statement ∈ new, ∀ l ∈ statement.leaves, Excuses current s' l
  refl s := ⟨.refl s, by simp⟩
  trans h h' := by
    refine ⟨h.1.trans h'.1, fun statement hmem l hl => ?_⟩
    rcases List.mem_append.1 hmem with hmem | hmem
    · exact (h.2 statement hmem l hl).mono h'.1
    · exact h'.2 statement hmem l hl
  mono h hl := hl.mono h.1
  update hvalid _ := ⟨(Store.Course.single hvalid).remembers, by simp⟩
  emit {s statement} hleaves _ := by
    refine ⟨.refl s, fun other hother => ?_⟩
    rw [List.mem_singleton.1 hother]
    exact hleaves
  declare {s} name arguments result hleaves := by
    have hcourse : s.Course [(current, .addTemp result)]
        (s.modifyFrame current (·.addTemp result)) := .single trivial
    refine ⟨hcourse.remembers, fun statement hmem l hl => ?_⟩
    rw [List.mem_singleton.1 hmem] at hl
    exact (hleaves l hl).mono hcourse.remembers
  touched _ _ _ := nofun
  declared _ _ := nofun
  reported s address _ hcurrent := Store.reportsUnderflow_diagnose (s := s) hcurrent address

/-- Are there placeholders at a point of decompiling function `current` only if an underflow was
reported for it? -/
structure Point.Excused (x : Point) (current : Nat) : Prop where
  frame : current < x.state.store.frames.size
  stack : .placeholder ∈ leavesOfAll x.state.stack → x.state.store.ReportsUnderflow current
  emitted : ∀ statement ∈ x.state.emitted, .placeholder ∈ statement.leaves →
    x.state.store.ReportsUnderflow current
  blocks : ∀ b ∈ x.graph.blocks, b.Excused (x.state.store.ReportsUnderflow current)

section Steps

variable {c : Context} {x y : Point}

theorem remembers_handOff (c : Context) (stack : List Expr) (target : Nat) (g : Graph)
    (store : Store) : store.Remembers (handOff c stack target g store).2 := by
  obtain ⟨course, hcourse⟩ := exists_runs_handOff c stack target g store
  exact hcourse.leads.remembers

/-- One instruction. -/
theorem kept_replayInstruction {s : State} (i : Instruction)
    (hstack : ∀ l ∈ leavesOfAll s.stack, Excuses c.current s.store l) :
    ∃ new, Kept (reporting c.current) s new (replayInstruction c i s).2 := by
  have hcomment : ∀ s text, (reporting c.current).leads s [.comment text] s :=
    fun s _ => ⟨.refl s, by simp [Stmt.leaves]⟩
  exact exists_kept_replayInstruction hcomment i hstack

/-- Reports stay. -/
theorem Step.remembers (h : Step c x y) : x.state.store.Remembers y.state.store := by
  cases h with
  | skip | enter | stop | finish | keep => exact .refl _
  | @replay g s b i body rest hfault =>
      obtain ⟨course, hcourse⟩ := exists_runs_replayInstruction c i s
      exact hcourse.leads.remembers
  | @handOn g s b target targets rest => exact remembers_handOff c s.stack target g s.store

/-- A step keeps the invariant. -/
theorem Point.Excused.step (h : x.Excused c.current) (hstep : Step c x y) :
    y.Excused c.current := by
  have hremembers := hstep.remembers
  have hframe : c.current < y.state.store.frames.size := hremembers.size ▸ h.frame
  have hstays : x.state.store.ReportsUnderflow c.current →
      y.state.store.ReportsUnderflow c.current := hremembers.reportsUnderflow
  have hblocks : ∀ b ∈ x.graph.blocks, b.Excused (y.state.store.ReportsUnderflow c.current) :=
    fun b hb => (h.blocks b hb).mono hstays
  cases hstep with
  | skip | stop | finish => exact ⟨h.frame, h.stack, h.emitted, h.blocks⟩
  | @enter g s start rest b hblock hnew =>
      refine ⟨hframe, fun hleaf => ?_, by simp [opening], ?_⟩
      · -- What is on the stack is what was handed on to the block.
        cases hentry : b.entryStack with
        | none => simp [opening, hentry, leavesOfAll] at hleaf
        | some entry =>
            refine (hblocks b (Graph.mem_of_block? hblock).1).stack entry hentry ?_
            simpa [opening, hentry] using hleaf
      · exact Graph.forall_modifyBlock hblocks fun b hb _ => ⟨(hblocks b hb).1, (hblocks b hb).2⟩
  | @replay g s b i body rest hfault =>
      obtain ⟨new, hkept⟩ := kept_replayInstruction (c := c) (s := s) i
        fun l hl hplaceholder _ => h.stack (hplaceholder ▸ hl)
      refine ⟨hframe, fun hleaf => hkept.stack _ hleaf rfl hframe, fun statement hmem hleaf => ?_,
        hblocks⟩
      rw [← Array.mem_toList_iff, hkept.emitted] at hmem
      rcases List.mem_append.1 hmem with hmem | hmem
      · exact hstays (h.emitted statement (Array.mem_toList_iff.1 hmem) hleaf)
      · exact hkept.leads.2 statement hmem _ hleaf rfl hframe
  | @handOn g s b target targets rest =>
      have hstack : .placeholder ∈ leavesOfAll s.stack → _ := fun hleaf => hstays (h.stack hleaf)
      refine ⟨hframe, hstack, fun statement hmem hleaf => hstays (h.emitted statement hmem hleaf),
        ?_⟩
      rcases handOff_graph c s.stack target g s.store with hg | ⟨-, hg⟩ <;> dsimp only <;> rw [hg]
      · exact hblocks
      · refine Graph.forall_modifyBlock hblocks fun b hb _ => ⟨(hblocks b hb).1, ?_⟩
        rintro entry ⟨⟩
        exact hstack
  | @keep g kept s b rest hkept =>
      subst hkept
      refine ⟨hframe, by simp [Point.between, leavesOfAll], by simp [Point.between], ?_⟩
      refine Graph.forall_modifyBlock hblocks fun b hb _ => ⟨fun statement hmem => ?_,
        (hblocks b hb).2⟩
      exact h.emitted statement (Array.mem_toList_iff.1 hmem)

end Steps

/-- Are there placeholders in the blocks of functions only if an underflow was reported for the
function they are in? -/
structure GraphsExcused (graphs : Array Graph) (s : Store) : Prop where
  size : graphs.size = s.frames.size
  blocks : ∀ (k : Nat) (g : Graph), graphs[k]? = some g →
    ∀ b ∈ g.blocks, b.Excused (s.ReportsUnderflow k)

section Programs

variable {p : Program} {c : Context} {x : Point}

/-- Every point of decompiling a function. -/
theorem excused_of_passes (h : GraphsExcused p.graphs p.store) (hx : p.Passes c x) :
    x.Excused c.current ∧ p.store.Remembers x.state.store := by
  obtain ⟨g, hgraph, hsteps⟩ := hx
  obtain ⟨hlt, -⟩ := Array.getElem?_eq_some_iff.1 hgraph
  induction hsteps with
  | refl =>
      refine ⟨⟨h.size ▸ hlt, by simp [Point.between, leavesOfAll], by simp [Point.between], ?_⟩,
        .refl _⟩
      have hblocks := h.blocks c.current g hgraph
      refine Graph.forall_modifyBlock hblocks fun b hb _ => ⟨(hblocks b hb).1, ?_⟩
      rintro entry ⟨⟩ hleaf
      cases hentry : b.entryStack with
      | none => simp [hentry, leavesOfAll] at hleaf
      | some entry => exact (hblocks b hb).stack entry hentry (by simpa [hentry] using hleaf)
  | tail _ hstep ih => exact ⟨ih.1.step hstep, ih.2.trans hstep.remembers⟩

/-- The graphs of all functions, at a point of decompiling one of them. -/
theorem graphsExcused_of_passes (h : GraphsExcused p.graphs p.store) (hx : p.Passes c x) :
    GraphsExcused (p.graphs.setIfInBounds c.current x.graph) x.state.store := by
  obtain ⟨hexcused, hremembers⟩ := excused_of_passes h hx
  refine ⟨Array.size_setIfInBounds.trans (h.size.trans hremembers.size.symm), ?_⟩
  intro k g hg b hb
  by_cases hk : k = c.current
  · subst hk
    have hlt : c.current < p.graphs.size := by
      simpa using (Array.getElem?_eq_some_iff.1 hg).1
    rw [Array.getElem?_setIfInBounds_self_of_lt hlt] at hg
    cases hg
    exact hexcused.blocks b hb
  · rw [Array.getElem?_setIfInBounds_ne (Ne.symm hk)] at hg
    exact (h.blocks k g hg b hb).mono hremembers.reportsUnderflow

theorem graphsExcused_decompileFunction (h : GraphsExcused p.graphs p.store) (c : Context) :
    GraphsExcused (p.decompileFunction c).2.graphs (p.decompileFunction c).2.store := by
  cases hgraph : p.graphs[c.current]? with
  | none =>
      unfold Program.decompileFunction
      simp only [hgraph]
      exact h
  | some g =>
      obtain ⟨last, hlast, hrun⟩ := exists_passes_decompileFunction hgraph
      rw [hrun]
      exact graphsExcused_of_passes h hlast

/-- Before anything is replayed there are neither statements nor entry stacks. -/
theorem graphsExcused_program (u : ScriptUnit) (instructions : List Instruction) :
    GraphsExcused (u.program instructions).graphs (u.program instructions).store := by
  refine ⟨?_, fun k g hg b hb => ?_⟩
  · rw [frames_program]
    show ((Flow.buildFunctions instructions).1.map (·.graph)).toArray.size = _
    rw [List.size_toArray, List.size_toArray, List.length_map, List.length_map]
  · rw [graphs_program] at hg
    obtain ⟨built, hbuilt, rfl⟩ := Option.map_eq_some_iff.1 hg
    have hfresh := Flow.fresh_of_mem_buildFunctions (List.mem_of_getElem? hbuilt)
    rw [← hfresh.untouched hb]
    exact ⟨by simp [Block.bare], by simp [Block.bare]⟩

theorem graphsExcused_after (u : ScriptUnit) (instructions : List Instruction)
    (order : List Context) : GraphsExcused ((u.program instructions).after order).graphs
      ((u.program instructions).after order).store := by
  induction order using List.reverseRecOn with
  | nil => exact graphsExcused_program u instructions
  | append_singleton order c ih =>
      rw [Program.after_append_singleton]
      exact graphsExcused_decompileFunction ih c

/-- Placeholders are always reported.  After the functions of a unit were decompiled in any
order, whether they met a fault or not, there is a placeholder in a statement or on an entry
stack of a function only if it was reported that a value was missing in this function.  So it is
at every point of decompiling one more function, for the functions as they are then, for the
statements of the block that is replayed and for what is on the stack.  Where no missing value
was reported there is no placeholder in any statement. -/
theorem placeholders_are_reported (u : ScriptUnit) (instructions : List Instruction)
    (order : List Context) :
    let p := (u.program instructions).after order
    (∀ (k : Nat) (g : Graph), p.graphs[k]? = some g → ∀ b ∈ g.blocks,
        b.Excused (p.store.ReportsUnderflow k)) ∧
      (∀ c x, p.Passes c x →
        (.placeholder ∈ leavesOfAll x.state.stack →
          x.state.store.ReportsUnderflow c.current) ∧
        (∀ statement ∈ x.state.emitted, .placeholder ∈ statement.leaves →
          x.state.store.ReportsUnderflow c.current) ∧
        ∀ (k : Nat) (g : Graph), (p.graphs.setIfInBounds c.current x.graph)[k]? = some g →
          ∀ b ∈ g.blocks, b.Excused (x.state.store.ReportsUnderflow k)) ∧
      ((∀ d ∈ p.store.diagnostics, d.kind ≠ .stackUnderflow) →
        ∀ (k : Nat) (g : Graph), p.graphs[k]? = some g → ∀ b ∈ g.blocks,
          ∀ statement ∈ b.statements, .placeholder ∉ statement.leaves) := by
  intro p
  have hexcused : GraphsExcused p.graphs p.store := graphsExcused_after u instructions order
  refine ⟨hexcused.blocks, fun c x hx => ?_, fun hnone k g hg b hb statement hmem hleaf => ?_⟩
  · have hpoint := (excused_of_passes hexcused hx).1
    exact ⟨hpoint.stack, hpoint.emitted, (graphsExcused_of_passes hexcused hx).blocks⟩
  · obtain ⟨f, address, -, hreport⟩ :=
      (hexcused.blocks k g hg b hb).statements statement hmem hleaf
    exact hnone _ hreport rfl

/-- A missing value is negated, handed on to another block, and stored there. -/
example :
    let code : List UInt8 := [45, 0, 2, 0, 1, 102, 6, 85, 0, 0, 57, 0, 46, 0, 0]
    let u : ScriptUnit := ⟨"u", code, code.length, [], #[], []⟩
    (u.instructions.toOption.bind fun instructions =>
      ((u.program instructions).decompileWithin 9 ⟨u, .empty, false, 0⟩).map fun run =>
        (run.2.2.graphs.toList.flatMap fun g => g.blocks.map fun b =>
          (b.start, b.statements.map Stmt.leaves), run.2.2.store.diagnostics.toList)) =
      some ([(0, [[]]), (10, [[.var (.slot 0), .placeholder], []])],
        [⟨some "f", some 6, .stackUnderflow⟩]) := by
  decide +kernel

end Programs

end Machine

end ScriptDecompiler
