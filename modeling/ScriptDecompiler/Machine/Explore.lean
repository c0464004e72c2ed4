import ScriptDecompiler.Flow.Build
import ScriptDecompiler.Machine.Step

/-!
# Replaying the blocks of a function

Blocks are visited from the entry along the edges, the latest discovered first.
The first block to reach another one hands its operand stack on to it; a later
one that brings a stack of another depth is reported.  Every block is marked
before it is replayed, so each one is replayed at most once, and the search ends
because marking leaves fewer blocks to mark.
-/

namespace ScriptDecompiler.Machine

open ScriptDecompiler.Bytecode (Instruction)
open ScriptDecompiler.Flow (Block Graph)

/-- The comment that an annotated replay puts in front of the statements of an
instruction. -/
def instructionComment (i : Instruction) : Stmt :=
  .comment ("asm(\"" ++ i.text ++ "\")")

/-- Replay one instruction, with its instructionComment if annotations are asked for. -/
def replayInstruction (c : Context) (i : Instruction) : Replay Unit := do
  if c.annotate then
    Replay.emit (instructionComment i)
  Replay.step c i

/-- Replay instructions up to the first one that is at fault. -/
def replay (c : Context) (s : State) : List Instruction → Option Fault × State
  | [] => (none, s)
  | i :: rest =>
    match fault? c s.store.frames i with
    | some fault => (some fault, s)
    | none => replay c (replayInstruction c i s).2 rest

/-- Hand the operand stack with which a block ended on to a successor.  A visited
block takes nothing any more; the first stack to arrive stays. -/
def handOff (c : Context) (stack : List Expr) (target : Nat) (g : Graph) (store : Store) :
    Graph × Store :=
  match g.block? target with
  | none => (g, store)
  | some b =>
    if b.visited then (g, store)
    else match b.entryStack with
      | none => (g.modifyBlock target ({ · with entryStack := some stack }), store)
      | some expected =>
        if expected.length = stack.length then (g, store)
        else
          (g, store.diagnose c.current target
            (.entryStackMismatch target expected.length stack.length))

/-- Hand an operand stack on to several successors, in order. -/
def handOffAll (c : Context) (stack : List Expr) :
    List Nat → Graph → Store → Graph × Store
  | [], g, store => (g, store)
  | target :: rest, g, store =>
    let (g, store) := handOff c stack target g store
    handOffAll c stack rest g store

theorem unvisited_modifyBlock (g : Graph) (start : Nat) (change : Block → Block)
    (h : ∀ b, (change b).visited = b.visited) :
    (g.modifyBlock start change).unvisited = g.unvisited := by
  unfold Graph.modifyBlock Graph.unvisited
  rw [List.countP_map]
  congr 1
  funext b
  by_cases hb : b.start = start <;> simp [hb, h]

/-- Handing a stack on marks no block. -/
theorem unvisited_handOff (c : Context) (stack : List Expr) (target : Nat) (g : Graph)
    (store : Store) : (handOff c stack target g store).1.unvisited = g.unvisited := by
  unfold handOff
  split
  · rfl
  · split
    · rfl
    · split
      · exact unvisited_modifyBlock g target _ fun _ => rfl
      · split <;> rfl

theorem unvisited_handOffAll (c : Context) (stack : List Expr) (targets : List Nat) (g : Graph)
    (store : Store) : (handOffAll c stack targets g store).1.unvisited = g.unvisited := by
  induction targets generalizing g store with
  | nil => rfl
  | cons target rest ih =>
    rw [handOffAll]
    exact (ih _ _).trans (unvisited_handOff c stack target g store)

/-- Mark the block that starts at an address. -/
def mark (g : Graph) (start : Nat) : Graph :=
  g.modifyBlock start ({ · with visited := true })

/-- Marking a block that was not marked leaves fewer to mark. -/
theorem unvisited_mark_lt {g : Graph} {start : Nat} {b : Block}
    (hfind : g.block? start = some b) (hb : b.visited = false) :
    (mark g start).unvisited < g.unvisited := by
  unfold Graph.block? at hfind
  unfold mark Graph.modifyBlock Graph.unvisited
  simp only [List.countP_map]
  generalize g.blocks = blocks at hfind
  induction blocks with
  | nil => cases hfind
  | cons first rest ih =>
    -- Whatever the other blocks are, marking does not add to the count.
    have hle : rest.countP ((!·.visited) ∘ fun b : Block =>
          if b.start = start then { b with visited := true } else b) ≤
        rest.countP (!·.visited) := by
      apply List.countP_mono_left
      intro b _ hb
      by_cases h : b.start = start <;> simp_all
    rw [List.find?_cons] at hfind
    by_cases h : first.start = start
    · simp only [h, decide_true, Option.some.injEq] at hfind
      subst hfind
      simp only [List.countP_cons, Function.comp, h, if_true, hb]
      exact Nat.lt_succ_of_le hle
    · simp only [h, decide_false] at hfind
      have hlt := ih hfind
      simp only [List.countP_cons, Function.comp, h, if_false]
      exact Nat.add_lt_add_right hlt _

/-- Visit a block: mark it, replay it on its entry stack, hand the final stack on
to its successors, and keep its statements. -/
def visit (c : Context) (b : Block) (g : Graph) (store : Store) : Option Fault × Graph × Store :=
  let marked := mark g b.start
  match replay c ⟨store, b.entryStack.getD [], #[]⟩ b.instructions with
  | (some fault, s) => (some fault, marked, s.store)
  | (none, s) =>
    let handed := handOffAll c s.stack b.successors marked s.store
    (none, handed.1.modifyBlock b.start ({ · with statements := s.emitted.toList }), handed.2)

theorem start_of_block? {g : Graph} {start : Nat} {b : Block} (h : g.block? start = some b) :
    b.start = start := by
  simpa using List.find?_some h

theorem unvisited_visit_lt (c : Context) {g : Graph} {start : Nat} {b : Block} (store : Store)
    (hfind : g.block? start = some b) (hb : b.visited = false) :
    (visit c b g store).2.1.unvisited < g.unvisited := by
  have hmark := unvisited_mark_lt hfind hb
  have hstart := start_of_block? hfind
  unfold visit
  rw [hstart]
  split
  · exact hmark
  · rename_i s _
    have hhand := unvisited_handOffAll c s.stack b.successors (mark g start) s.store
    have hkeep := unvisited_modifyBlock
      (handOffAll c s.stack b.successors (mark g start) s.store).1 start
      ({ · with statements := s.emitted.toList }) fun _ => rfl
    exact Nat.lt_of_le_of_lt (Nat.le_of_eq (hkeep.trans hhand)) hmark

/-- Visit the blocks on a worklist, and what can be reached from them. -/
def explore (c : Context) (g : Graph) (store : Store) (worklist : List Nat) :
    Option Fault × Graph × Store :=
  match worklist with
  | [] => (none, g, store)
  | start :: rest =>
    match hfind : g.block? start with
    | none => explore c g store rest
    | some b =>
      if hb : b.visited = true then explore c g store rest
      else
        let after := visit c b g store
        have : after.2.1.unvisited < g.unvisited :=
          unvisited_visit_lt c store hfind (Bool.eq_false_iff.2 hb)
        match after.1 with
        | some fault => (some fault, after.2)
        | none =>
          explore c after.2.1 after.2.2
            (b.successors.filter (!after.2.1.isVisited ·) ++ rest)
termination_by (g.unvisited, worklist.length)

/-- Give the entry block an empty operand stack, unless it has one already. -/
def openEntry (g : Graph) : Graph :=
  g.modifyBlock g.entry fun b => { b with entryStack := some (b.entryStack.getD []) }

/-- The functions of a unit while they are decompiled: what is known about
variables, and the blocks of each function. -/
structure Program where
  store : Store
  graphs : Array Graph

namespace Program

/-- The program of the given functions and statics. -/
def ofFunctions (functions : List Flow.Function) (diagnostics : List Diagnostic)
    (statics : List Int) : Program where
  store :=
    ⟨(functions.map (·.frame)).toArray, Globals.ofStatics statics, diagnostics.toArray⟩
  graphs := (functions.map (·.graph)).toArray

/-- A function of the program. -/
def function? (p : Program) (index : Nat) : Option Flow.Function :=
  match p.store.frames[index]?, p.graphs[index]? with
  | some frame, some graph => some ⟨frame, graph⟩
  | _, _ => none

/-- The functions of the program, in order. -/
def functions (p : Program) : List Flow.Function :=
  List.zipWith Flow.Function.mk p.store.frames.toList p.graphs.toList

/-- Decompile the function with index `c.current`.  A fault leaves behind what
was found up to it. -/
def decompileFunction (p : Program) (c : Context) : Option Fault × Program :=
  match p.graphs[c.current]? with
  | none => (none, p)
  | some g =>
    let (fault, g, store) := explore c (openEntry g) p.store [g.entry]
    (fault, ⟨store, p.graphs.setIfInBounds c.current g⟩)

/-- Decompile the functions with the given indexes, up to the first fault. -/
def decompileFunctions (p : Program) (unit : ScriptUnit) (natives : Native.Database)
    (annotate : Bool) : List Nat → Option Fault × Program
  | [] => (none, p)
  | index :: rest =>
    match p.decompileFunction ⟨unit, natives, annotate, index⟩ with
    | (some fault, p) => (some fault, p)
    | (none, p) => p.decompileFunctions unit natives annotate rest

/-- Decompile all functions in order, up to the first fault. -/
def run (p : Program) (unit : ScriptUnit) (natives : Native.Database) (annotate : Bool) :
    Option Fault × Program :=
  p.decompileFunctions unit natives annotate (List.range p.graphs.size)

end Program

end ScriptDecompiler.Machine
