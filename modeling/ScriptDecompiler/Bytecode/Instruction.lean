import ScriptDecompiler.Bytecode.Opcode
import ScriptDecompiler.Number.Binary32
import ScriptDecompiler.Text.Digits

/-!
# Instructions

An instruction knows its address and its encoded size; the effect and the
mnemonic follow from the opcode.  Addresses are natural numbers; those of decoded
code whose length is below `2 ^ 32` are below it too (`addressed_of_mem`).
-/

namespace ScriptDecompiler.Bytecode

open ScriptDecompiler.Number (Binary32)
open ScriptDecompiler.Text (hexPadded)

/-- A decoded operand.  Targets are absolute addresses. -/
inductive Operand where
  | none
  | imm8 (value : Nat)
  | imm8x2 (first second : Nat)
  | imm8x3 (first second third : Nat)
  | imm16 (value : Nat)
  | imm24 (value : Nat)
  | imm32 (value : Nat)
  | float32 (value : Binary32)
  | branch (relative : Int) (target : Nat)
  | call (target : Nat)
  | native (inSlots outSlots index : Nat)
  | enter (arguments locals : Nat) (name : String)
  | ret (parameters values : Nat)
  | switch (cases : List (Nat × Nat))
  | stringRef
  | impliedInt (value : Int)
  | impliedFloat (value : Binary32)
  deriving DecidableEq, Repr

namespace Operand

/-- The integer that an operand holds, if it is one integer. -/
def integer? : Operand → Option Int
  | imm8 v | imm16 v | imm24 v | imm32 v => some (Int.ofNat v)
  | impliedInt v => some v
  | _ => Option.none

/-- A target as listings show it. -/
def targetText (target : Nat) : String :=
  hexPadded 8 target

/-- The text of an operand; empty if there is nothing to show. -/
def text : Operand → String
  | none | stringRef => ""
  | imm8 v | imm16 v | imm24 v | imm32 v => v.repr
  | imm8x2 a b => a.repr ++ " " ++ b.repr
  | imm8x3 a b c => a.repr ++ " " ++ b.repr ++ " " ++ c.repr
  | float32 v | impliedFloat v => v.text
  | branch _ target | call target => targetText target
  | native inSlots outSlots index =>
    "#" ++ index.repr ++ " " ++ inSlots.repr ++ " " ++ outSlots.repr
  | enter arguments locals name =>
    arguments.repr ++ " " ++ locals.repr ++ " <" ++ name ++ ">"
  | ret parameters values => parameters.repr ++ " " ++ values.repr
  | switch cases =>
    ", ".intercalate (cases.map fun (value, target) => value.repr ++ ": " ++ targetText target)
  | impliedInt v => toString v

end Operand

/-- A decoded instruction.  `size` counts the opcode byte. -/
structure Instruction where
  address : Nat
  opcode : UInt8
  operand : Operand
  size : Nat
  deriving DecidableEq, Repr

namespace Instruction

/-- What the instruction does. -/
def operation (i : Instruction) : Operation :=
  (opcodeInfo i.opcode).operation

/-- The name of the opcode. -/
def mnemonic (i : Instruction) : String :=
  (opcodeInfo i.opcode).mnemonic

/-- How many consecutive stack slots make up one operand. -/
def lanes (i : Instruction) : Nat :=
  (opcodeInfo i.opcode).lanes

/-- The address behind the instruction. -/
def nextAddress (i : Instruction) : Nat :=
  i.address + i.size

/-- The target of a branch. -/
def branchTarget? (i : Instruction) : Option Nat :=
  match i.operand with
  | .branch _ target => some target
  | _ => none

/-- Every address that the instruction can jump to. -/
def jumpTargets (i : Instruction) : List Nat :=
  match i.operand with
  | .branch _ target => [target]
  | .switch cases => cases.map (·.2)
  | _ => []

/-- Does the instruction open a function? -/
def isEnter (i : Instruction) : Bool :=
  match i.operand with
  | .enter .. => true
  | _ => false

/-- The mnemonic, and the operand if it has a text. -/
def text (i : Instruction) : String :=
  let operand := i.operand.text
  if operand.isEmpty then i.mnemonic else i.mnemonic ++ " " ++ operand

end Instruction

end ScriptDecompiler.Bytecode
