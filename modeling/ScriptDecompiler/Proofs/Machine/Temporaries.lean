import ScriptDecompiler.Proofs.Machine.Isolation
import ScriptDecompiler.Proofs.Machine.Scoping

/-!
# Temporaries of a function

A temporary comes into being in a call, which declares it; it may stay on the stack across
edges and be used in blocks that are visited much later.

The invariant of a walk (`Tidy`): every variable of an entry stack or of a statement can be
seen, and the statements of all blocks together declare the temporaries of the function, each
one once.  A visit adds the statements of one block that had none, and these declare the
temporaries that the replay of the block has added.
-/

namespace ScriptDecompiler

open ScriptDecompiler.Expr (varsOfAll)

namespace Flow

/-- Can all variables of a block be seen, and has it statements only if it was visited? -/
structure Block.Fits (b : Block) (s : Store) (current : Nat) : Prop where
  stack : ∀ entry, b.entryStack = some entry → ∀ r ∈ varsOfAll entry, s.Sees current r
  statements : ∀ statement ∈ b.statements, statement.Fits s current
  stated : b.visited = false → b.statements = []

namespace Block.Fits

variable {b : Block} {s s' : Store} {current : Nat}

theorem mono (h : b.Fits s current) (hgrows : s.Grows s') : b.Fits s' current :=
  ⟨fun entry hentry r hr => hgrows.sees (h.stack entry hentry r hr),
    fun statement hmem => (h.statements statement hmem).mono hgrows, h.stated⟩

/-- The stack on which the block is replayed. -/
theorem opening (h : b.Fits s current) :
    ∀ r ∈ varsOfAll (b.entryStack.getD []), s.Sees current r := by
  cases hentry : b.entryStack with
  | none => simp [varsOfAll]
  | some entry => exact h.stack entry hentry

end Block.Fits

namespace Graph

variable {g : Graph} {start : Nat} {change : Block → Block}

/-- The statements of each block, under its start. -/
def contents (g : Graph) : List (Nat × List Stmt) :=
  g.blocks.map fun b => (b.start, b.statements)

theorem flatMap_contents (g : Graph) :
    g.contents.flatMap (·.2) = g.blocks.flatMap (·.statements) :=
  List.flatMap_map _ _ _

theorem contents_modifyBlock (start : Nat) (hstart : ∀ b, (change b).start = b.start)
    (hstatements : ∀ b, (change b).statements = b.statements) :
    (g.modifyBlock start change).contents = g.contents := by
  simp only [contents, modifyBlock, List.map_map]
  refine List.map_congr_left fun b _ => ?_
  by_cases hb : b.start = start <;> simp [hb, hstart, hstatements]

theorem contents_setStatements (start : Nat) (statements : List Stmt) :
    (g.modifyBlock start ({ · with statements := statements })).contents =
      g.contents.map fun entry => if entry.1 = start then (entry.1, statements) else entry := by
  simp only [contents, modifyBlock, List.map_map]
  refine List.map_congr_left fun b _ => ?_
  by_cases hb : b.start = start <;> simp [hb]

end Graph

/-- Under one of different keys, something is put in the place of nothing. -/
theorem perm_flatMap_replace {α : Type} {l : List (Nat × List α)} {key : Nat} {new : List α}
    (hkeys : (l.map (·.1)).Nodup) (hkey : (key, []) ∈ l) :
    ((l.map fun entry => if entry.1 = key then (entry.1, new) else entry).flatMap (·.2)).Perm
      (l.flatMap (·.2) ++ new) := by
  induction l with
  | nil => cases hkey
  | cons first rest ih =>
      obtain ⟨hfirst, hrest⟩ := List.nodup_cons.1 hkeys
      rw [List.map_cons, List.flatMap_cons, List.flatMap_cons]
      rcases List.mem_cons.1 hkey with rfl | hkey
      · have hsame : (rest.map fun entry => if entry.1 = key then (entry.1, new) else entry) =
            rest := by
          conv_rhs => rw [← List.map_id rest]
          refine List.map_congr_left fun entry hentry => if_neg fun heq => hfirst ?_
          exact List.mem_map.2 ⟨entry, hentry, heq⟩
        rw [if_pos rfl, hsame, List.nil_append]
        exact List.perm_append_comm
      · have hne : first.1 ≠ key := fun heq => hfirst (List.mem_map.2 ⟨_, hkey, heq.symm⟩)
        rw [if_neg hne, List.append_assoc]
        exact (ih hrest hkey).append_left first.2

end Flow

namespace Machine

open ScriptDecompiler.Bytecode (Instruction)
open ScriptDecompiler.Flow (Block Graph)

section Handing

variable (c : Context) (stack : List Expr)

theorem refines_handOffAll (targets : List Nat) (g : Graph) (store : Store) :
    store.Refines c.current (handOffAll c stack targets g store).2 := by
  have hframes := frames_handOffAll c stack targets g store
  obtain ⟨course, hcourse⟩ := exists_runs_handOffAll c stack targets g store
  exact ⟨congrArg Array.size hframes, hcourse.leads.grows,
    Store.tempCount_congr hframes c.current⟩

theorem contents_handOff (target : Nat) (g : Graph) (store : Store) :
    (handOff c stack target g store).1.contents = g.contents := by
  rcases handOff_graph c stack target g store with hg | ⟨-, hg⟩
  · rw [hg]
  · rw [hg]
    exact Graph.contents_modifyBlock target (by intro; rfl) (by intro; rfl)

theorem contents_handOffAll (targets : List Nat) (g : Graph) (store : Store) :
    (handOffAll c stack targets g store).1.contents = g.contents :=
  handOffAll_keeps c (P := fun after _ => after.contents = g.contents)
    (fun target _ after store h => (contents_handOff c stack target after store).trans h) rfl

variable {s : Store}

/-- The variables of the stack that is handed on can be seen. -/
theorem fits_handOff (hstack : ∀ r ∈ varsOfAll stack, s.Sees c.current r) (target : Nat)
    {g : Graph} (store : Store) (h : ∀ b ∈ g.blocks, b.Fits s c.current) :
    ∀ b ∈ (handOff c stack target g store).1.blocks, b.Fits s c.current := by
  rcases handOff_graph c stack target g store with hg | ⟨-, hg⟩
  · rw [hg]
    exact h
  · rw [hg]
    refine Graph.forall_modifyBlock h fun b hb _ => { h b hb with stack := ?_ }
    rintro entry ⟨⟩
    exact hstack

theorem fits_handOffAll (hstack : ∀ r ∈ varsOfAll stack, s.Sees c.current r)
    (targets : List Nat) {g : Graph} (store : Store) (h : ∀ b ∈ g.blocks, b.Fits s c.current) :
    ∀ b ∈ (handOffAll c stack targets g store).1.blocks, b.Fits s c.current :=
  handOffAll_keeps c (P := fun after _ => ∀ b ∈ after.blocks, b.Fits s c.current)
    (fun target _ _ store h => fits_handOff c stack hstack target store h) h

/-- A marked block stays marked. -/
theorem visited_of_mem_handOffAll (targets : List Nat) (g : Graph) (store : Store)
    (start : Nat) : ∀ b ∈ (handOffAll c stack targets (mark g start) store).1.blocks,
      b.start = start → b.visited = true := by
  intro b hb hstart
  obtain ⟨original, horiginal, entry, rfl⟩ := of_mem_handOffAll hb
  rcases Graph.of_mem_modifyBlock horiginal with ⟨_, _, _, rfl⟩ | ⟨hne, -⟩
  · rfl
  · exact absurd hstart hne

variable (b : Block) (after : State) (g : Graph)

theorem contents_leave : (leave c b after g).1.contents =
    g.contents.map fun entry =>
      if entry.1 = b.start then (entry.1, after.emitted.toList) else entry := by
  unfold leave
  rw [Graph.contents_setStatements, contents_handOffAll]
  exact congrArg _ (Graph.contents_modifyBlock b.start (by intro; rfl) (by intro; rfl))

/-- What a visit leaves behind. -/
theorem fits_leave (hstack : ∀ r ∈ varsOfAll after.stack, s.Sees c.current r)
    (hadded : ∀ statement ∈ after.emitted.toList, statement.Fits s c.current)
    (h : ∀ x ∈ g.blocks, x.Fits s c.current) :
    ∀ x ∈ (leave c b after g).1.blocks, x.Fits s c.current := by
  have hmarked : ∀ x ∈ (mark g b.start).blocks, x.Fits s c.current :=
    Graph.forall_modifyBlock h fun x hx _ => { h x hx with stated := nofun }
  have hgiven := fits_handOffAll c after.stack hstack b.successors after.store hmarked
  refine Graph.forall_modifyBlock hgiven fun x hx hstart => ?_
  have hvisited := visited_of_mem_handOffAll c after.stack b.successors g after.store b.start x hx
  exact { hgiven x hx with statements := hadded, stated := by simp [hvisited hstart] }

end Handing

/-- Can the variables of all blocks be seen, and do the statements of all blocks together
declare each temporary of the function once? -/
structure Tidy (current : Nat) (g : Graph) (s : Store) : Prop where
  frame : current < s.frames.size
  starts : (g.contents.map (·.1)).Nodup
  fits : ∀ b ∈ g.blocks, b.Fits s current
  declared : (Stmt.declared (g.contents.flatMap (·.2))).Perm (temps 0 (s.tempCount current))

namespace Tidy

variable {current : Nat} {g : Graph} {s s' : Store}

theorem refines (h : Tidy current g s) (hs : s.Refines current s') : Tidy current g s' :=
  ⟨hs.size ▸ h.frame, h.starts, fun b hb => (h.fits b hb).mono hs.grows, hs.temps ▸ h.declared⟩

theorem openEntry (h : Tidy current g s) : Tidy current (openEntry g) s := by
  have hcontents : (Machine.openEntry g).contents = g.contents :=
    Graph.contents_modifyBlock g.entry (by intro; rfl) (by intro; rfl)
  refine ⟨h.frame, hcontents ▸ h.starts, ?_, hcontents ▸ h.declared⟩
  refine Graph.forall_modifyBlock h.fits fun b hb _ => { h.fits b hb with stack := ?_ }
  rintro entry ⟨⟩
  exact (h.fits b hb).opening

/-- A visit without a fault. -/
theorem leave {c : Context} {start : Nat} {b : Block} {after : State}
    (h : Tidy c.current g s) (hblock : g.block? start = some b) (hnew : b.visited = false)
    (hreplay : replay c (opening b s) b.instructions = (none, after)) :
    Tidy c.current (leave c b after g).1 (leave c b after g).2 := by
  have hmem := (Graph.mem_of_block? hblock).1
  obtain ⟨new, hkept⟩ := exists_scoped_replay (show c.current < (opening b s).store.frames.size
    from h.frame) (h.fits b hmem).opening hreplay
  obtain rfl : after.emitted.toList = new := hkept.emitted.trans (List.nil_append new)
  have hframe : c.current < after.store.frames.size := hkept.leads.size ▸ h.frame
  obtain ⟨count, hcount, hdeclared, hfits⟩ := hkept.leads.added h.frame
  have hhanded : after.store.Refines c.current (Machine.leave c b after g).2 :=
    refines_handOffAll c after.stack b.successors (mark g b.start) after.store
  have hgrown : ∀ x ∈ g.blocks, x.Fits after.store c.current :=
    fun x hx => (h.fits x hx).mono hkept.leads.grows
  have hleft := fits_leave c b after g ((allows_scoping_iff hframe).1 hkept.stack) hfits hgrown
  refine ⟨hhanded.size ▸ hframe, ?_,
    fun x hx => (hleft x hx).mono hhanded.grows, ?_⟩
  · rw [contents_leave, List.map_map]
    refine (congrArg List.Nodup (List.map_congr_left fun entry _ => ?_)).mpr h.starts
    by_cases hentry : entry.1 = b.start <;> simp [hentry]
  · -- The block had no statements before, so nothing that was declared is lost.
    have hempty : (b.start, []) ∈ g.contents :=
      List.mem_map.2 ⟨b, hmem, by rw [(h.fits b hmem).stated hnew]⟩
    rw [contents_leave, hhanded.temps, hcount, ← temps_append, Nat.zero_add]
    refine ((Flow.perm_flatMap_replace h.starts hempty).filterMap _).trans ?_
    rw [List.filterMap_append]
    exact h.declared.append (.of_eq hdeclared)

theorem visited (h : Tidy current g s) {b : Block} (hb : b ∈ g.blocks) {statement : Stmt}
    (hstatement : statement ∈ b.statements) : b.visited = true := by
  cases hvisited : b.visited with
  | true => rfl
  | false =>
      rw [(h.fits b hb).stated hvisited] at hstatement
      cases hstatement

/-- A walk without a fault. -/
theorem walk {c : Context} {worklist : List Nat} {visits : List Visit}
    {out : Option Fault × Graph × Store} (hwalk : Walk c g s worklist visits out)
    (h : Tidy c.current g s) (hout : out.1 = none) : Tidy c.current out.2.1 out.2.2 := by
  induction hwalk with
  | done => exact h
  | skip _ _ ih => exact ih h hout
  | stop => cases hout
  | visit hblock hnew hreplay _ ih => exact ih (h.leave hblock hnew hreplay) hout

end Tidy

/-- Are the graphs of all functions tidy? -/
def Program.Tidy (p : Program) : Prop :=
  ∀ k g, p.graphs[k]? = some g → Machine.Tidy k g p.store

section Programs

variable {p p' : Program} {c : Context}

/-- Another function gets no temporary. -/
theorem refines_decompileFunction (p : Program) (c : Context) {k : Nat} (hk : k ≠ c.current) :
    p.store.Refines k (p.decompileFunction c).2.store := by
  obtain ⟨course, hcourse⟩ := exists_runs_decompileFunction p c
  have hdevelops := hcourse.leads.develops hcourse.replayed
  have hheads := hcourse.leads.heads
  have hsize : (p.decompileFunction c).2.store.frames.size = p.store.frames.size :=
    Store.size_frames_of_heads hheads
  refine ⟨hsize, hcourse.leads.grows, ?_⟩
  unfold Store.tempCount
  cases hf : p.store.frames[k]? with
  | none => rw [Array.getElem?_eq_none (hsize.symm ▸ Array.getElem?_eq_none_iff.1 hf)]
  | some f =>
      obtain ⟨f', hf', hhead, hframe⟩ := hdevelops.exists_frame hheads hf
      rw [hf', Option.map_some, Option.map_some, (hframe.leftAlone hk hhead).temporaries]

theorem tidy_decompileFunction (h : p.Tidy) (hrun : p.decompileFunction c = (none, p')) :
    p'.Tidy := by
  intro k g' hg'
  by_cases hk : k = c.current
  · subst hk
    have hsize := size_graphs_decompileFunction p c
    rw [hrun] at hsize
    obtain ⟨hlt, -⟩ := Array.getElem?_eq_some_iff.1 hg'
    rw [hsize] at hlt
    have hg : p.graphs[c.current]? = some p.graphs[c.current] := Array.getElem?_eq_getElem hlt
    obtain ⟨visits, out, hwalk, hout⟩ := decompileFunction_eq hg
    obtain ⟨hnone, rfl⟩ := Prod.mk.inj (hrun.symm.trans hout)
    rw [Array.getElem?_setIfInBounds_self_of_lt hlt, Option.some.injEq] at hg'
    exact hg' ▸ Machine.Tidy.walk hwalk (h _ _ hg).openEntry hnone.symm
  · have hkept := graphs_decompileFunction p c hk
    have hrefines := refines_decompileFunction p c hk
    rw [hrun] at hkept hrefines
    exact (h k g' (hkept ▸ hg')).refines hrefines

end Programs

section Units

variable {u : ScriptUnit} {natives : Native.Database} {annotate : Bool}
  {instructions : List Instruction} {p : Program} {index : Nat} {f : Flow.Function}

/-- Before anything is replayed there are neither temporaries nor statements. -/
theorem tidy_program (hcode : u.instructions = .ok instructions) :
    (u.program instructions).Tidy := by
  intro k g hg
  rw [graphs_program] at hg
  obtain ⟨built, hbuilt, rfl⟩ := Option.map_eq_some_iff.1 hg
  have hmem := List.mem_of_getElem? hbuilt
  have hfresh := Flow.fresh_of_mem_buildFunctions hmem
  obtain ⟨body, -, hbody⟩ := Flow.built_of_mem_buildFunctions hcode hmem
  have hframe : (u.program instructions).store.frames[k]? = some built.frame := by
    rw [frames_program, List.getElem?_toArray, List.getElem?_map, hbuilt, Option.map_some]
  have hbare : ∀ b ∈ built.graph.blocks, b.entryStack = none ∧ b.statements = [] := by
    intro b hb
    rw [← hfresh.untouched hb]
    exact ⟨rfl, rfl⟩
  refine ⟨(Array.getElem?_eq_some_iff.1 hframe).1, ?_, fun b hb => ?_, ?_⟩
  · rw [Graph.contents, List.map_map]
    exact (List.pairwise_map.2 hbody.ascending).imp Nat.ne_of_lt
  · obtain ⟨hentry, hstatements⟩ := hbare b hb
    exact ⟨by simp [hentry], by simp [hstatements], fun _ => hstatements⟩
  · have hnone : built.graph.contents.flatMap (·.2) = [] := by
      rw [Graph.flatMap_contents]
      exact List.flatMap_eq_nil_iff.2 fun b hb => (hbare b hb).2
    have hcount : (u.program instructions).store.tempCount k = 0 := by
      obtain ⟨address, name, arguments, slots, ty, hdeclare⟩ :=
        Flow.exists_declare_of_mem_buildFunctions hmem
      rw [Store.tempCount, hframe, hdeclare]
      rfl
    rw [hnone, hcount]
    exact .refl _

theorem frames_of_function? (h : p.function? index = some f) :
    p.store.frames[index]? = some f.frame := by
  unfold Program.function? at h
  split at h
  · rename_i frame graph hframe _
    cases h
    exact hframe
  · cases h

theorem tempCount_of_function? (h : p.function? index = some f) :
    p.store.tempCount index = f.frame.temporaries.size := by
  rw [Store.tempCount, frames_of_function? h]
  rfl

theorem Tidy.declared_temps (h : Tidy index f.graph p.store) (hf : p.function? index = some f) :
    (Stmt.declared (f.graph.blocks.flatMap (·.statements))).Perm
      (temps 0 f.frame.temporaries.size) := by
  rw [← Graph.flatMap_contents, ← tempCount_of_function? hf]
  exact h.declared

/-- A function of a unit that was decompiled. -/
theorem tidy_of_run (hcode : u.instructions = .ok instructions)
    (hrun : (u.program instructions).run u natives annotate = (none, p))
    (hf : p.function? index = some f) : Tidy index f.graph p.store :=
  of_decompileFunctions (fun _ _ _ => tidy_decompileFunction) (tidy_program hcode) hrun index _
    (graphs_of_function? hf)

/-- Temporaries are assigned once.  After a unit was decompiled, the statements of a function
declare its temporaries, each in exactly one statement, and nothing else; and no other
temporary is mentioned in a statement or left on an entry stack. -/
theorem run_declares_temporaries_once (hcode : u.instructions = .ok instructions)
    (hrun : (u.program instructions).run u natives annotate = (none, p))
    (hf : p.function? index = some f) :
    (Stmt.declared (f.graph.blocks.flatMap (·.statements))).Perm
        ((List.range f.frame.temporaries.size).map .temp) ∧
      ∀ b ∈ f.graph.blocks,
        (∀ statement ∈ b.statements, ∀ i, .temp i ∈ statement.vars →
          i < f.frame.temporaries.size) ∧
        ∀ entry, b.entryStack = some entry → ∀ i, .temp i ∈ varsOfAll entry →
          i < f.frame.temporaries.size := by
  have htidy := tidy_of_run hcode hrun hf
  have hseen : ∀ i, p.store.Sees index (.temp i) → i < f.frame.temporaries.size :=
    fun i hi => tempCount_of_function? hf ▸ Store.sees_temp_iff.1 hi
  refine ⟨?_, fun b hb => ⟨fun statement hstatement i hi => ?_, fun entry hentry i hi => ?_⟩⟩
  · rw [List.range_eq_range']
    exact htidy.declared_temps hf
  · exact hseen i (((htidy.fits b hb).statements statement hstatement).sees _ hi)
  · exact hseen i ((htidy.fits b hb).stack entry hentry _ hi)

/-- A temporary that is still on the stack where a branch goes to. -/
theorem run_declares_temporaries_once_branch :
    let code : List UInt8 := [45, 0, 2, 0, 1, 102, 93, 20, 0, 0, 111, 86, 1, 0, 0, 57, 0, 46, 0, 0,
      45, 0, 2, 0, 1, 103, 111, 46, 0, 1]
    let u : ScriptUnit := ⟨"u", code, code.length, [], #[], []⟩
    ∃ instructions p f b entry, u.instructions = .ok instructions ∧
      (u.program instructions).run u .empty false = (none, p) ∧ p.function? 0 = some f ∧
      (Stmt.declared (f.graph.blocks.flatMap (·.statements))).Perm [.temp 0] ∧
      b ∈ f.graph.blocks ∧ b.start = 15 ∧ b.entryStack = some entry ∧
      .temp 0 ∈ varsOfAll entry ∧ 0 < f.frame.temporaries.size := by
  intro code u
  let instructions : List Instruction := [⟨0, 45, .enter 0 2 "f", 6⟩, ⟨6, 93, .call 20, 4⟩,
    ⟨10, 111, .impliedInt 1, 1⟩, ⟨11, 86, .branch 1 15, 3⟩, ⟨14, 0, .none, 1⟩,
    ⟨15, 57, .imm8 0, 2⟩, ⟨17, 46, .ret 0 0, 3⟩, ⟨20, 45, .enter 0 2 "g", 6⟩,
    ⟨26, 111, .impliedInt 1, 1⟩, ⟨27, 46, .ret 0 1, 3⟩]
  have hcode : u.instructions = .ok instructions := by decide +kernel
  have hwithin : (((u.program instructions).decompileFunctionsWithin 9 u .empty false
      (List.range (u.program instructions).graphs.size)).bind fun out =>
        (out.2.function? 0).map fun f => (out.1, f.frame.temporaries.size,
          decide ((15, some [.temp 0]) ∈ f.graph.blocks.map fun b =>
            (b.start, b.entryStack.map varsOfAll)))) = some (none, 1, true) := by
    decide +kernel
  obtain ⟨⟨fault, p⟩, hout, hwithin⟩ := Option.bind_eq_some_iff.1 hwithin
  obtain ⟨f, hf, hwithin⟩ := Option.map_eq_some_iff.1 hwithin
  simp only [Prod.mk.injEq] at hwithin
  obtain ⟨rfl, hsize, hblock⟩ := hwithin
  have hrun : (u.program instructions).run u .empty false = (none, p) :=
    decompileFunctions_of_within hout
  obtain ⟨b, hb, hfound⟩ := List.mem_map.1 (of_decide_eq_true hblock)
  obtain ⟨hstart, hentry⟩ := Prod.mk.inj hfound
  obtain ⟨entry, hentry, hvars⟩ := Option.map_eq_some_iff.1 hentry
  have htemp : .temp 0 ∈ varsOfAll entry := hvars ▸ List.mem_cons_self
  obtain ⟨hdeclared, hmentioned⟩ := run_declares_temporaries_once hcode hrun hf
  refine ⟨instructions, p, f, b, entry, hcode, hrun, hf, ?_, hb, hstart, hentry, htemp,
    (hmentioned b hb).2 entry hentry 0 htemp⟩
  rwa [hsize] at hdeclared

end Units

end Machine

end ScriptDecompiler
