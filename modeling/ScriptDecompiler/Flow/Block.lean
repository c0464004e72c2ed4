import ScriptDecompiler.Bytecode.Instruction
import ScriptDecompiler.Stmt

/-!
# Basic blocks and flow graphs

A flow graph holds the blocks of one function in ascending order of their start
addresses.  Besides its instructions and edges, a block holds what replaying it
left behind: the operand stack on entry, the statements, and whether it was
visited.
-/

namespace ScriptDecompiler.Flow

open ScriptDecompiler.Bytecode (Instruction)

/-- A stretch of instructions that control enters at its start only.  The entry
stack has its top first. -/
structure Block where
  start : Nat
  instructions : List Instruction
  predecessors : List Nat
  successors : List Nat
  entryStack : Option (List Expr)
  statements : List Stmt
  visited : Bool

namespace Block

/-- A block of instructions that nothing else is known about. -/
def ofInstructions (start : Nat) (instructions : List Instruction) : Block :=
  ⟨start, instructions, [], [], none, [], false⟩

/-- The address behind the last instruction. -/
def endAddress (b : Block) : Nat :=
  match b.instructions.getLast? with
  | some i => i.nextAddress
  | none => b.start

end Block

/-- The blocks of a function.  `entry` is the start of the first one. -/
structure Graph where
  entry : Nat
  blocks : List Block

namespace Graph

/-- The block that starts at an address. -/
def block? (g : Graph) (start : Nat) : Option Block :=
  g.blocks.find? (·.start = start)

/-- Change the block that starts at an address. -/
def modifyBlock (g : Graph) (start : Nat) (change : Block → Block) : Graph :=
  { g with blocks := g.blocks.map fun b => if b.start = start then change b else b }

/-- How many edges there are. -/
def edgeCount (g : Graph) : Nat :=
  g.blocks.foldr (fun b edges => b.successors.length + edges) 0

/-- Has the block that starts at an address been visited? -/
def isVisited (g : Graph) (start : Nat) : Bool :=
  g.blocks.any fun b => b.start = start && b.visited

/-- How many blocks have not been visited. -/
def unvisited (g : Graph) : Nat :=
  g.blocks.countP (!·.visited)

end Graph

end ScriptDecompiler.Flow
