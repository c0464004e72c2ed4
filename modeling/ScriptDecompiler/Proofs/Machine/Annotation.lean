import ScriptDecompiler.Proofs.Machine.Provenance
import ScriptDecompiler.Proofs.Machine.Statements

/-!
# Annotations change nothing but comments

An annotated decompilation adds a comment in front of the statements of each instruction, and
does everything else as one without annotations does: a replay never looks at the statements made
so far, and an instruction itself adds no comment.

So deleting the comments from what is left at any stage of an annotated decompilation gives what
is left at that stage of the other one.
-/

namespace ScriptDecompiler

namespace Stmt

/-- Is the statement a comment? -/
def isComment : Stmt → Bool
  | comment _ => true
  | _ => false

/-- Statements, with the comments deleted. -/
def withoutComments (statements : List Stmt) : List Stmt :=
  statements.filter (!·.isComment)

theorem withoutComments_append (statements later : List Stmt) :
    withoutComments (statements ++ later) = withoutComments statements ++ withoutComments later :=
  List.filter_append ..

theorem withoutComments_of_forall {statements : List Stmt}
    (h : ∀ statement ∈ statements, statement.isComment = false) :
    withoutComments statements = statements :=
  List.filter_eq_self.2 fun statement hmem => by rw [h statement hmem]; rfl

end Stmt

namespace Flow

/-- A block, with the comments among its statements deleted. -/
def Block.withoutComments (b : Block) : Block :=
  { b with statements := Stmt.withoutComments b.statements }

namespace Graph

/-- A graph, with the comments in its blocks deleted. -/
def withoutComments (g : Graph) : Graph :=
  { g with blocks := g.blocks.map Block.withoutComments }

variable (g : Graph) (start : Nat)

theorem block?_withoutComments :
    g.withoutComments.block? start = (g.block? start).map Block.withoutComments :=
  List.find?_map ..

theorem block?_withoutComments_of_eq_some {b : Block} (h : g.block? start = some b) :
    g.withoutComments.block? start = some b.withoutComments := by
  rw [block?_withoutComments, h, Option.map_some]

theorem isVisited_withoutComments : g.withoutComments.isVisited start = g.isVisited start :=
  List.any_map

theorem modifyBlock_withoutComments {change change' : Block → Block}
    (h : ∀ b : Block, change' b.withoutComments = (change b).withoutComments) :
    g.withoutComments.modifyBlock start change' =
      (g.modifyBlock start change).withoutComments := by
  unfold modifyBlock withoutComments
  simp only [List.map_map, Graph.mk.injEq, true_and]
  refine List.map_congr_left fun b _ => ?_
  have hstart : b.withoutComments.start = b.start := rfl
  by_cases hb : b.start = start
  · simp only [Function.comp_apply, hstart, hb, if_true, h]
  · simp only [Function.comp_apply, hstart, hb, if_false]

end Graph

end Flow

namespace Machine

open ScriptDecompiler.Bytecode (Instruction opcodeInfo)
open ScriptDecompiler.Flow (Block Graph)

-- The opcode table is too large to be unfolded whenever terms are compared.
attribute [local irreducible] opcodeInfo

/-- The same without annotations. -/
def Context.silent (c : Context) : Context :=
  { c with annotate := false }

namespace Replay

variable (c : Context) (address : Nat)

theorem infer_silent (e : Expr) (ty : Ty) : infer c.silent address e ty = infer c address e ty := by
  funext s
  rw [infer_eq, infer_eq]
  rfl

theorem passArguments_silent (callee index : Nat) (arguments : List Expr) :
    passArguments c.silent address callee index arguments =
      passArguments c address callee index arguments := by
  induction arguments generalizing index with
  | nil => rfl
  | cons argument rest ih =>
      have hfirst : passArgument c.silent address callee index argument =
          passArgument c address callee index argument := by
        funext s
        rw [passArgument_eq, passArgument_eq]
        rfl
      rw [passArguments, passArguments, hfirst, ih]

theorem popArguments_silent (parameters : List Native.Parameter) :
    popArguments c.silent address parameters = popArguments c address parameters := by
  induction parameters with
  | nil => rfl
  | cons parameter rest ih =>
      rw [popArguments, popArguments, ih]
      rfl

theorem matchParameters_silent (rename : Bool) (pairs : List (Expr × Native.Parameter)) :
    matchParameters c.silent address rename pairs = matchParameters c address rename pairs := by
  induction pairs with
  | nil => rfl
  | cons pair rest ih =>
      rw [matchParameters, matchParameters, infer_silent, ih]
      rfl

theorem assign_silent (dest value : Expr) :
    assign c.silent address dest value = assign c address dest value := by
  unfold assign
  simp only [infer_silent]
  rfl

theorem callFunction_silent (target : Nat) :
    callFunction c.silent address target = callFunction c address target := by
  unfold callFunction
  simp only [passArguments_silent]
  rfl

theorem callNative_silent (inSlots outSlots index : Nat) :
    callNative c.silent address inSlots outSlots index =
      callNative c address inSlots outSlots index := by
  unfold callNative
  simp only [popArguments_silent, matchParameters_silent]
  rfl

theorem implode_silent : implode c.silent address = implode c address := by
  unfold implode
  simp only [infer_silent]
  rfl

theorem explode_silent : explode c.silent address = explode c address := by
  unfold explode
  simp only [infer_silent]
  rfl

/-- An instruction does the same without annotations. -/
theorem step_silent (i : Instruction) : step c.silent i = step c i := by
  unfold step
  cases i.operation <;> dsimp only
  case store | storeKeep | fieldStore =>
    simp only [assign_silent]
    rfl
  case implode => exact implode_silent c i.address
  case explode => exact explode_silent c i.address
  case call => simp only [callFunction_silent]
  case callNative => simp only [callNative_silent]
  all_goals rfl

end Replay

/-- A state, with the comments among its statements deleted. -/
def State.withoutComments (s : State) : State :=
  { s with emitted := (Stmt.withoutComments s.emitted.toList).toArray }

/-- A program, with the comments in the blocks of its functions deleted. -/
def Program.withoutComments (p : Program) : Program :=
  { p with graphs := p.graphs.map Graph.withoutComments }

/-- An instruction itself adds no comment. -/
def speaking (current : Nat) : Provenance current where
  allows _ _ := True
  leads _ new _ := ∀ statement ∈ new, statement.isComment = false
  refl _ := by simp
  trans h h' := by
    intro statement hmem
    exact (List.mem_append.1 hmem).elim (h statement) (h' statement)
  mono _ _ := trivial
  update _ _ := by simp
  emit {s statement} _ haction := by
    intro other hother
    rw [List.mem_singleton.1 hother]
    cases statement with
    | comment => cases haction
    | _ => rfl
  declare _ _ _ _ := by
    intro other hother
    rw [List.mem_singleton.1 hother]
    rfl
  touched _ _ _ := trivial
  declared _ _ := trivial
  reported _ _ := trivial

variable (c : Context)

/-- What an instruction itself adds to the statements, whatever statements there are. -/
theorem exists_step_emitted (i : Instruction) (s : State) :
    ∃ new : List Stmt, (∀ statement ∈ new, statement.isComment = false) ∧
      ∀ emitted, Replay.step c i { s with emitted := emitted } =
        ((), { (Replay.step c i s).2 with emitted := emitted ++ new.toArray }) := by
  have hstep : Replay.Follows (speaking c.current) [] (Replay.step c i) Replay.nothing :=
    Replay.follows_step c i
  obtain ⟨new, htraced⟩ := hstep s (by simp) fun _ _ => trivial
  exact ⟨new, htraced.leads, htraced.blind⟩

/-- One instruction, with and without annotations. -/
theorem replayInstruction_silent (i : Instruction) (s : State) :
    (replayInstruction c.silent i s.withoutComments).2 =
      (replayInstruction c i s).2.withoutComments := by
  obtain ⟨new, hplain, hblind⟩ := exists_step_emitted c i s
  have hnew : Stmt.withoutComments new = new := Stmt.withoutComments_of_forall hplain
  have hcomments : Stmt.withoutComments (comments c [i]).toList = [] := by
    unfold comments
    split <;> rfl
  have hsilent : (replayInstruction c.silent i s.withoutComments).2 =
      { (Replay.step c i s).2 with emitted := s.withoutComments.emitted ++ new.toArray } := by
    rw [replayInstruction_apply, Replay.step_silent]
    exact congrArg Prod.snd (hblind _)
  have hannotated : (replayInstruction c i s).2 =
      { (Replay.step c i s).2 with emitted := s.emitted ++ comments c [i] ++ new.toArray } := by
    rw [replayInstruction_apply]
    exact congrArg Prod.snd (hblind _)
  rw [hsilent, hannotated]
  refine congrArg (State.mk _ _) (Array.toList_inj.1 ?_)
  simp only [State.withoutComments, Array.toList_append, Stmt.withoutComments_append, hcomments,
    hnew, List.append_nil]

/-- The comments among the statements of a replay are those of the instructions replayed. -/
theorem exists_instruction_of_replay {s : State} {body : List Instruction} {statement : Stmt}
    (hmem : statement ∈ (replay c s body).2.emitted.toList) (hcomment : statement.isComment = true) :
    statement ∈ s.emitted.toList ∨ ∃ i ∈ body, statement = instructionComment i := by
  induction body generalizing s with
  | nil => exact .inl hmem
  | cons i rest ih =>
      rw [replay_cons] at hmem
      cases hfault : fault? c s.store.frames i with
      | some fault =>
          rw [hfault] at hmem
          exact .inl hmem
      | none =>
          rw [hfault] at hmem
          rcases ih hmem with hearlier | ⟨j, hj, rfl⟩
          · obtain ⟨new, hnew, hblind⟩ := exists_step_emitted c i s
            rw [replayInstruction_apply, hblind, Array.toList_append, Array.toList_append] at hearlier
            rcases List.mem_append.1 hearlier with hearlier | hlast
            · refine (List.mem_append.1 hearlier).imp id fun hown => ⟨i, List.mem_cons_self, ?_⟩
              unfold comments at hown
              split at hown
              · exact List.mem_singleton.1 hown
              · cases hown
            · rw [hnew statement hlast] at hcomment
              cases hcomment
          · exact .inr ⟨j, List.mem_cons_of_mem _ hj, rfl⟩

theorem replay_silent (s : State) (body : List Instruction) :
    replay c.silent s.withoutComments body =
      ((replay c s body).1, (replay c s body).2.withoutComments) := by
  induction body generalizing s with
  | nil => rfl
  | cons i rest ih =>
      rw [replay_cons, replay_cons]
      have hfault : fault? c.silent s.withoutComments.store.frames i =
          fault? c s.store.frames i := rfl
      rw [hfault]
      cases fault? c s.store.frames i with
      | some fault => rfl
      | none =>
          dsimp only
          rw [replayInstruction_silent, ih]

/-- One block. -/
theorem replay_opening_silent {b : Block} {store : Store} {fault : Option Fault} {s : State}
    (h : replay c (opening b store) b.instructions = (fault, s)) :
    replay c.silent (opening b.withoutComments store) b.withoutComments.instructions =
      (fault, s.withoutComments) := by
  have hsilent := replay_silent c (opening b store) b.instructions
  rwa [h] at hsilent

section Handing

variable (stack : List Expr)

theorem handOff_silent (target : Nat) (g : Graph) (store : Store) :
    handOff c.silent stack target g.withoutComments store =
      ((handOff c stack target g store).1.withoutComments, (handOff c stack target g store).2) := by
  unfold handOff
  rw [Graph.block?_withoutComments]
  cases g.block? target with
  | none => rfl
  | some b =>
      simp only [Option.map_some]
      have hvisited : b.withoutComments.visited = b.visited := rfl
      have hentry : b.withoutComments.entryStack = b.entryStack := rfl
      rw [hvisited, hentry]
      split
      · rfl
      · split
        · exact congrArg (·, store) (Graph.modifyBlock_withoutComments g target fun _ => rfl)
        · split <;> rfl

theorem handOffAll_silent (targets : List Nat) (g : Graph) (store : Store) :
    handOffAll c.silent stack targets g.withoutComments store =
      ((handOffAll c stack targets g store).1.withoutComments,
        (handOffAll c stack targets g store).2) := by
  induction targets generalizing g store with
  | nil => rfl
  | cons target rest ih =>
      rw [handOffAll, handOffAll, handOff_silent]
      exact ih _ _

theorem mark_withoutComments (g : Graph) (start : Nat) :
    mark g.withoutComments start = (mark g start).withoutComments :=
  Graph.modifyBlock_withoutComments g start fun _ => rfl

theorem leave_silent (b : Block) (s : State) (g : Graph) :
    leave c.silent b.withoutComments s.withoutComments g.withoutComments =
      ((leave c b s g).1.withoutComments, (leave c b s g).2) := by
  have hstart : b.withoutComments.start = b.start := rfl
  have hsuccessors : b.withoutComments.successors = b.successors := rfl
  unfold leave
  rw [hstart, hsuccessors, mark_withoutComments]
  have hhanded := handOffAll_silent c s.stack b.successors (mark g b.start) s.store
  rw [show handOffAll c.silent s.withoutComments.stack b.successors
    (mark g b.start).withoutComments s.withoutComments.store = _ from hhanded]
  exact congrArg (·, _) (Graph.modifyBlock_withoutComments _ b.start fun _ => rfl)

end Handing

/-- A walk, with and without annotations. -/
theorem Walk.silent {c : Context} {g : Graph} {store : Store} {worklist : List Nat}
    {visits : List Visit} {out : Option Fault × Graph × Store}
    (h : Walk c g store worklist visits out) :
    ∃ visits', Walk c.silent g.withoutComments store worklist visits'
      (out.1, out.2.1.withoutComments, out.2.2) := by
  induction h with
  | done g store => exact ⟨[], .done g.withoutComments store⟩
  | @skip g store start rest visits out hvisited _ ih =>
      obtain ⟨visits', hrest⟩ := ih
      refine ⟨visits', .skip (fun b hb => ?_) hrest⟩
      rw [Graph.block?_withoutComments] at hb
      obtain ⟨original, horiginal, rfl⟩ := Option.map_eq_some_iff.1 hb
      exact hvisited original horiginal
  | @stop g store start b fault s rest hblock hnew hreplay =>
      have hfound := g.block?_withoutComments_of_eq_some start hblock
      refine ⟨[⟨b.withoutComments, opening b store, s.withoutComments⟩], ?_⟩
      rw [← mark_withoutComments]
      exact .stop rest hfound hnew (replay_opening_silent c hreplay)
  | @visit g store start rest b s visits out hblock hnew hreplay _ ih =>
      obtain ⟨visits', hrest⟩ := ih
      have hfound := g.block?_withoutComments_of_eq_some start hblock
      refine ⟨⟨b.withoutComments, opening b store, s.withoutComments⟩ :: visits',
        .visit hfound hnew (replay_opening_silent c hreplay) ?_⟩
      rw [leave_silent]
      simp only [Graph.isVisited_withoutComments]
      exact hrest

theorem explore_silent (g : Graph) (store : Store) (worklist : List Nat) :
    explore c.silent g.withoutComments store worklist =
      let out := explore c g store worklist
      (out.1, out.2.1.withoutComments, out.2.2) := by
  obtain ⟨visits, hwalk⟩ := walk_explore c g store worklist
  obtain ⟨visits', hsilent⟩ := hwalk.silent
  exact explore_of_walk hsilent

theorem openEntry_withoutComments (g : Graph) :
    openEntry g.withoutComments = (openEntry g).withoutComments :=
  Graph.modifyBlock_withoutComments g g.entry fun _ => rfl

section Programs

variable (p : Program)

/-- One function, with and without annotations. -/
theorem decompileFunction_silent : p.withoutComments.decompileFunction c.silent =
    ((p.decompileFunction c).1, (p.decompileFunction c).2.withoutComments) := by
  have hgraphs : p.withoutComments.graphs[c.silent.current]? =
      p.graphs[c.current]?.map Graph.withoutComments := Array.getElem?_map
  unfold Program.decompileFunction
  rw [hgraphs]
  cases p.graphs[c.current]? with
  | none => rfl
  | some g =>
      have hout := explore_silent c (openEntry g) p.store [g.entry]
      rw [← openEntry_withoutComments] at hout
      rw [Option.map_some]
      dsimp only
      rw [show explore c.silent (openEntry g.withoutComments) p.withoutComments.store
        [g.withoutComments.entry] = _ from hout]
      refine congrArg (fun graphs => (_, Program.mk _ graphs)) ?_
      exact (Array.map_setIfInBounds ..).symm

theorem decompileFunctions_silent (u : ScriptUnit) (natives : Native.Database) (annotate : Bool)
    (order : List Nat) : p.withoutComments.decompileFunctions u natives false order =
      ((p.decompileFunctions u natives annotate order).1,
        (p.decompileFunctions u natives annotate order).2.withoutComments) := by
  induction order generalizing p with
  | nil => rfl
  | cons index rest ih =>
      have hfirst := decompileFunction_silent ⟨u, natives, annotate, index⟩ p
      rw [Program.decompileFunctions, Program.decompileFunctions]
      rw [show p.withoutComments.decompileFunction ⟨u, natives, false, index⟩ = _ from hfirst]
      generalize p.decompileFunction ⟨u, natives, annotate, index⟩ = out
      obtain ⟨_ | fault, p'⟩ := out
      · exact ih p'
      · rfl

/-- Before anything is replayed there are no statements. -/
theorem withoutComments_program (u : ScriptUnit) (instructions : List Instruction) :
    (u.program instructions).withoutComments = u.program instructions := by
  refine congrArg (Program.mk _) (Array.ext_getElem? fun k => ?_)
  show _ = (u.program instructions).graphs[k]?
  rw [Array.getElem?_map, graphs_program]
  cases hbuilt : (Flow.buildFunctions instructions).1[k]? with
  | none => rfl
  | some f =>
      have hfresh := Flow.fresh_of_mem_buildFunctions (List.mem_of_getElem? hbuilt)
      have hblocks : f.graph.blocks.map Block.withoutComments = f.graph.blocks := by
        conv_rhs => rw [← List.map_id f.graph.blocks]
        refine List.map_congr_left fun b hb => ?_
        rw [← hfresh.untouched hb]
        rfl
      exact congrArg (fun blocks => some (Flow.Graph.mk f.graph.entry blocks)) hblocks

/-- Annotations are written only.  Decompiling a unit with and without them has the same
outcome: the same fault, if there is one, the same variables, and the same reports.  The graphs
of the functions are the same as well, apart from the comments: deleting those from the
statements of the annotated blocks gives the statements without annotations. -/
theorem run_annotated (u : ScriptUnit) (natives : Native.Database)
    (instructions : List Instruction) :
    let annotated := (u.program instructions).run u natives true
    let plain := (u.program instructions).run u natives false
    plain.1 = annotated.1 ∧ plain.2.store = annotated.2.store ∧
      plain.2.graphs = annotated.2.graphs.map fun g => { g with
        blocks := g.blocks.map fun b => { b with
          statements := b.statements.filter (!·.isComment) } } := by
  intro annotated plain
  have hsilent := decompileFunctions_silent (u.program instructions) u natives true
    (List.range (u.program instructions).graphs.size)
  rw [withoutComments_program] at hsilent
  have hplain : plain = (annotated.1, annotated.2.withoutComments) := hsilent
  rw [hplain]
  exact ⟨rfl, rfl, rfl⟩

end Programs

end Machine

end ScriptDecompiler
