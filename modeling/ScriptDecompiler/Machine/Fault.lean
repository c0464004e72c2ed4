import ScriptDecompiler.Bytecode.Instruction
import ScriptDecompiler.Machine.State

/-!
# Faults

Three things stop a replay: a call of an address where no function starts, a
native that is not in the unit's table, and a return of more than one value.
Whether an instruction is at fault depends on the unit and on where its
functions start, not on the operand stack.
-/

namespace ScriptDecompiler.Machine

open ScriptDecompiler.Bytecode (Instruction)
open ScriptDecompiler.Text (addressLiteral)

/-- What is wrong with an instruction. -/
inductive FaultKind where
  | tooManyReturnValues (count : Nat)
  | unknownCallTarget (target : Nat)
  | invalidNativeIndex (index count : Nat)
  deriving DecidableEq, Repr

/-- An instruction that stops a replay, and the function it is in. -/
structure Fault where
  function : String
  address : Nat
  instruction : String
  kind : FaultKind
  deriving DecidableEq, Repr

/-- The wording of a fault. -/
def Fault.message (f : Fault) : String :=
  f.function ++ ": `" ++ f.instruction ++ "` at " ++ addressLiteral f.address ++
    match f.kind with
    | .tooManyReturnValues count =>
      " returns " ++ count.repr ++ " values, at most one is supported"
    | .unknownCallTarget target =>
      " calls " ++ addressLiteral target ++ ", which is not the start of any function"
    | .invalidNativeIndex index count =>
      " references native #" ++ index.repr ++ ", but the native table has " ++ count.repr ++
        " entries"

/-- The index of the function that starts at an address. -/
def functionAt? (frames : Array Frame) (address : Nat) : Option Nat :=
  frames.findIdx? (·.address = address)

/-- What is wrong with an instruction, if anything. -/
def faultKind? (unit : ScriptUnit) (frames : Array Frame) (i : Instruction) : Option FaultKind :=
  match i.operation, i.operand with
  | .ret, .ret _ values => if values ≤ 1 then none else some (.tooManyReturnValues values)
  | .call, .call target =>
    match functionAt? frames target with
    | some _ => none
    | none => some (.unknownCallTarget target)
  | .callNative, .native _ _ index =>
    if index < unit.natives.size then none else some (.invalidNativeIndex index unit.natives.size)
  | _, _ => none

/-- The fault that stops the replay of the current function at an instruction. -/
def fault? (c : Context) (frames : Array Frame) (i : Instruction) : Option Fault :=
  (faultKind? c.unit frames i).map fun kind =>
    ⟨(frames[c.current]?.map (·.name)).getD "", i.address, i.text, kind⟩

end ScriptDecompiler.Machine
