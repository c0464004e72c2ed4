import ScriptDecompiler.Bytecode.Instruction
import ScriptDecompiler.Native.Database
import ScriptDecompiler.Native.Hash
import ScriptDecompiler.ScriptUnit

/-!
# Listings

A listing shows every instruction on a line: the address, the mnemonic in a
column, the operand, and a note.  A function has a header in front of its ENTER.
-/

namespace ScriptDecompiler.Listing

open ScriptDecompiler.Bytecode (Instruction opcodeInfo?)
open ScriptDecompiler.Text (hexLiteral hexPadded opcodeLiteral padEnd)

/-- What a listing says about a native of the unit's table. -/
def nativeNote (unit : ScriptUnit) (natives : Native.Database) (index : Nat) : String :=
  match unit.natives[index]? with
  | none => "<bad native index>"
  | some raw =>
    let hash := Native.unmangle raw unit.codeLength index
    match natives.lookup? hash with
    | some signature => signature.name ++ " (" ++ hexLiteral hash.toNat ++ ")"
    | none => Native.unknownName hash

/-- The note behind an instruction, if there is one. -/
def note? (unit : ScriptUnit) (natives : Native.Database) (i : Instruction) : Option String :=
  match i.operand with
  | .native _ _ index => some (nativeNote unit natives index)
  | _ =>
    match opcodeInfo? i.opcode with
    | some _ => none
    | none => some ("unknown opcode " ++ opcodeLiteral i.opcode)

/-- The line of an instruction. -/
def line (unit : ScriptUnit) (natives : Native.Database) (i : Instruction) : String :=
  let operand := i.operand.text
  hexPadded 8 i.address ++ " " ++ padEnd 14 i.mnemonic ++
    (if operand.isEmpty then "" else " " ++ operand) ++
    (match note? unit natives i with
      | some note => " ; " ++ note
      | none => "") ++ "\n"

/-- The header in front of an ENTER; nothing in front of other instructions. -/
def header (i : Instruction) : String :=
  match i.operand with
  | .enter arguments locals name =>
    "function " ++ name ++ " (args=" ++ arguments.repr ++ ", locals=" ++ locals.repr ++ ")\n" ++
      "bytecode:\n"
  | _ => ""

/-- The listing of instructions.  There is a blank line in front of every header
that is not at the start. -/
def render (unit : ScriptUnit) (natives : Native.Database) (instructions : List Instruction) :
    String :=
  instructions.foldl (fun out i =>
    let separated := if i.isEnter && !out.isEmpty then out ++ "\n" else out
    separated ++ header i ++ line unit natives i) ""

end ScriptDecompiler.Listing
