import ScriptDecompiler.Flow.Block
import ScriptDecompiler.Store

/-!
# From instructions to functions and blocks

Every ENTER opens a function, which reaches up to the next ENTER.  Inside a
function, a block starts at the ENTER, at every jump target, and behind every
conditional branch.  An edge leads to each block that a jump of the block
targets, and to the block behind it if control can fall through.
-/

namespace ScriptDecompiler.Flow

open ScriptDecompiler.Bytecode (Instruction)

/-- Cut a list in front of every element that opens a piece.  The first result
holds what comes before the first such element. -/
def cutBefore {α : Type} (opens : α → Bool) (xs : List α) : List α × List (List α) :=
  xs.foldr (fun x (run, pieces) =>
    if opens x then ([], (x :: run) :: pieces) else (x :: run, pieces)) ([], [])

/-- The addresses at which an instruction makes a block start. -/
def blockStartsOf (i : Instruction) : List Nat :=
  i.jumpTargets ++ (if i.operation.isConditionalBranch then [i.nextAddress] else [])

/-- Where the blocks of a function may start: at its first instruction, and at
each of the addresses above that lies inside the function. -/
def blockStarts (body : List Instruction) : List Nat :=
  match body.head?, body.getLast? with
  | some first, some last =>
    first.address :: (body.flatMap blockStartsOf).filter fun address =>
      first.address ≤ address && address < last.nextAddress
  | _, _ => []

/-- Cut the instructions of a function into blocks. -/
def splitBlocks (body : List Instruction) : List Block :=
  let starts := blockStarts body
  (cutBefore (fun i => starts.contains i.address) body).2.filterMap fun run =>
    run.head?.map fun first => Block.ofInstructions first.address run

/-- The addresses that an instruction passes control to, its own fall-through
only if it is conditional. -/
def transfers (i : Instruction) : List Nat :=
  (if i.operation.isConditionalBranch then [i.nextAddress] else []) ++
    (if i.operation.isBranch || i.operation = .switch then i.jumpTargets else [])

/-- The addresses that a block passes control to, in the order in which its
instructions name them. -/
def Block.exits (b : Block) : List Nat :=
  b.instructions.flatMap transfers ++
    (match b.instructions.getLast? with
      | some last => if last.operation.endsBlock then [] else [last.nextAddress]
      | none => [])

/-- A list with only the first of equal elements kept. -/
def firstOccurrences (xs : List Nat) : List Nat :=
  xs.foldl (fun kept x => if kept.contains x then kept else kept ++ [x]) []

/-- The starts of the blocks that a block leads to. -/
def Block.exitsAmong (b : Block) (starts : List Nat) : List Nat :=
  firstOccurrences (b.exits.filter starts.contains)

/-- Enter the edges between blocks into the blocks. -/
def linkBlocks (blocks : List Block) : List Block :=
  let starts := blocks.map (·.start)
  let forward := blocks.map fun b => { b with successors := b.exitsAmong starts }
  forward.map fun b =>
    { b with
      predecessors := (forward.filter (·.successors.contains b.start)).map (·.start) }

/-- The type of a function's result as its first RET shows it. -/
def resultType (body : List Instruction) : Ty :=
  let values := body.findSome? fun i =>
    match i.operand with
    | .ret _ values => some values
    | _ => none
  if values.getD 0 = 0 then .void else .unknown

/-- A function: its variables and its blocks. -/
structure Function where
  frame : Frame
  graph : Graph

/-- The function whose instructions are given; the first one is its ENTER. -/
def Function.ofBody? (body : List Instruction) : Option Function :=
  match body with
  | [] => none
  | first :: _ =>
    match first.operand with
    | .enter arguments locals name =>
      let frame := Frame.declare first.address name arguments locals
      some
        ⟨{ frame with result := { frame.result with ty := resultType body } },
          ⟨first.address, linkBlocks (splitBlocks body)⟩⟩
    | _ => none

/-- The diagnostic for an instruction in front of the first function. -/
def orphan (i : Instruction) : Diagnostic :=
  ⟨none, some i.address, .orphanInstruction i.text⟩

/-- The functions of a unit, in order, and the diagnostics for instructions in
front of the first one. -/
def buildFunctions (instructions : List Instruction) : List Function × List Diagnostic :=
  let (before, bodies) := cutBefore Instruction.isEnter instructions
  (bodies.filterMap Function.ofBody?, (before.filter (·.operation ≠ .nop)).map orphan)

end ScriptDecompiler.Flow
