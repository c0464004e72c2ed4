import ScriptDecompiler.Text.Digits

/-!
# Diagnostics

A diagnostic records something that could not be made out for sure.  It stands
beside the output and does not stop the work.
-/

namespace ScriptDecompiler

open ScriptDecompiler.Text (addressLiteral hexPadded opcodeLiteral)

/-- What could not be made out. -/
inductive DiagnosticKind where
  | stackUnderflow
  | synthesizedNative (hash : UInt64) (name : String)
  | nativeArityMismatch (name : String) (expectedIn expectedOut foundIn foundOut : Nat)
  | typeConflict (identifier existing inferred : String)
  | entryStackMismatch (block expected found : Nat)
  | unknownOpcode (opcode : UInt8)
  | orphanInstruction (instruction : String)
  | nonImmediateLength (found : String)
  | lengthOutOfRange (length limit : Nat)
  deriving DecidableEq, Repr

/-- The wording of what could not be made out. -/
def DiagnosticKind.text : DiagnosticKind → String
  | stackUnderflow => "operand stack underflow, substituted a placeholder"
  | synthesizedNative hash name =>
    "native 0x" ++ hexPadded 16 hash.toNat ++ " is not in the catalog, synthesized `" ++ name ++ "`"
  | nativeArityMismatch name expectedIn expectedOut foundIn foundOut =>
    "native `" ++ name ++ "` takes " ++ expectedIn.repr ++ " slots and returns " ++
      expectedOut.repr ++ ", call site says " ++ foundIn.repr ++ " and " ++ foundOut.repr
  | typeConflict identifier existing inferred =>
    "conflicting types for `" ++ identifier ++ "`: keeping `" ++ existing ++ "`, ignoring `" ++
      inferred ++ "`"
  | entryStackMismatch block expected found =>
    "block " ++ addressLiteral block ++ " entered with " ++ found.repr ++
      " stack values, expected " ++ expected.repr
  | unknownOpcode opcode => "unrecognized opcode " ++ opcodeLiteral opcode
  | orphanInstruction instruction => "`" ++ instruction ++ "` outside of any function"
  | nonImmediateLength found => "expected an immediate length operand, found `" ++ found ++ "`"
  | lengthOutOfRange length limit =>
    "length " ++ length.repr ++ " exceeds the " ++ limit.repr ++ " slots available, clamped"

/-- A diagnostic, with the function and the address that it concerns. -/
structure Diagnostic where
  function : Option String
  address : Option Nat
  kind : DiagnosticKind
  deriving DecidableEq, Repr

/-- The wording of a diagnostic. -/
def Diagnostic.text (d : Diagnostic) : String :=
  (match d.function with
    | some function => function ++ ": "
    | none => "") ++
  (match d.address with
    | some address => addressLiteral address ++ ": "
    | none => "") ++
  d.kind.text

end ScriptDecompiler
