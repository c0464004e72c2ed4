import ScriptDecompiler.Decompile
import ScriptDecompiler.Json.Document
import ScriptDecompiler.Json.Parse
import ScriptDecompiler.Json.Record

/-!
# Options, diagnostics and results as JSON

A choice without data is written as its name, or as an object with the name as
only key and null as the value.  A choice with data is an object with the name
as only key and a record as the value.
-/

namespace ScriptDecompiler

open ScriptDecompiler.Json (Document Record Value)

/-- A choice: its name and, if it is written as an object, what stands under the
name. -/
def choice? : Value → Option (String × Option Value)
  | .text name => name.map (·, none)
  | .object [(name, v)] => name.map (·, some v)
  | _ => none

/-- Does nothing, or null, stand under the name of a choice? -/
def isBare : Option Value → Bool
  | none | some .null => true
  | some _ => false

/-- The mode that a value writes. -/
def Mode.ofValue? (v : Value) : Option Mode := do
  let (name, data) ← choice? v
  if !isBare data then none
  match name with
  | "Pseudo" => some pseudo
  | "Disasm" => some disasm
  | _ => none

/-- A mode as a document. -/
def Mode.toDocument : Mode → Document
  | pseudo => .string "Pseudo"
  | disasm => .string "Disasm"

/-- The options that a value writes. -/
def Options.ofValue? (v : Value) : Option Options := do
  let r ← Record.ofValue? ["mode", "annotate", "optimize"] v
  return {
    mode := ← r.required? "mode" Mode.ofValue?
    annotate := ← r.required? "annotate" Value.bool?
    optimize := ← r.required? "optimize" Value.bool? }

/-- Options as a document. -/
def Options.toDocument (o : Options) : Document :=
  .object [("mode", o.mode.toDocument), ("annotate", .bool o.annotate),
    ("optimize", .bool o.optimize)]

namespace DiagnosticKind

/-- The kind that a value writes. -/
def ofValue? (v : Value) : Option DiagnosticKind := do
  let (name, data) ← choice? v
  match name with
  | "StackUnderflow" => if isBare data then some stackUnderflow else none
  | "SynthesizedNative" =>
    let r ← Record.ofValue? ["hash", "name"] (← data)
    let hash ← r.required? "hash" (Value.nat? 64)
    return synthesizedNative (UInt64.ofNat hash) (← r.required? "name" Value.string?)
  | "NativeArityMismatch" =>
    let r ← Record.ofValue? ["name", "expected_in", "expected_out", "found_in", "found_out"]
      (← data)
    return nativeArityMismatch (← r.required? "name" Value.string?)
      (← r.required? "expected_in" (Value.nat? 64)) (← r.required? "expected_out" (Value.nat? 64))
      (← r.required? "found_in" (Value.nat? 8)) (← r.required? "found_out" (Value.nat? 8))
  | "TypeConflict" =>
    let r ← Record.ofValue? ["variable", "existing", "inferred"] (← data)
    return typeConflict (← r.required? "variable" Value.string?)
      (← r.required? "existing" Value.string?) (← r.required? "inferred" Value.string?)
  | "EntryStackMismatch" =>
    let r ← Record.ofValue? ["block", "expected", "found"] (← data)
    return entryStackMismatch (← r.required? "block" (Value.nat? 32))
      (← r.required? "expected" (Value.nat? 64)) (← r.required? "found" (Value.nat? 64))
  | "UnknownOpcode" =>
    let r ← Record.ofValue? ["opcode"] (← data)
    return unknownOpcode (UInt8.ofNat (← r.required? "opcode" (Value.nat? 8)))
  | "OrphanInstruction" =>
    let r ← Record.ofValue? ["instruction"] (← data)
    return orphanInstruction (← r.required? "instruction" Value.string?)
  | "NonImmediateLength" =>
    let r ← Record.ofValue? ["found"] (← data)
    return nonImmediateLength (← r.required? "found" Value.string?)
  | "LengthOutOfRange" =>
    let r ← Record.ofValue? ["length", "limit"] (← data)
    return lengthOutOfRange (← r.required? "length" (Value.nat? 64))
      (← r.required? "limit" (Value.nat? 64))
  | _ => none

/-- A kind with data as a document. -/
def tagged (name : String) (fields : List (String × Document)) : Document :=
  .object [(name, .object fields)]

/-- A kind as a document. -/
def toDocument : DiagnosticKind → Document
  | stackUnderflow => .string "StackUnderflow"
  | synthesizedNative hash name =>
    tagged "SynthesizedNative" [("hash", .nat hash.toNat), ("name", .string name)]
  | nativeArityMismatch name expectedIn expectedOut foundIn foundOut =>
    tagged "NativeArityMismatch" [("name", .string name), ("expected_in", .nat expectedIn),
      ("expected_out", .nat expectedOut), ("found_in", .nat foundIn), ("found_out", .nat foundOut)]
  | typeConflict identifier existing inferred =>
    tagged "TypeConflict" [("variable", .string identifier), ("existing", .string existing),
      ("inferred", .string inferred)]
  | entryStackMismatch block expected found =>
    tagged "EntryStackMismatch" [("block", .nat block), ("expected", .nat expected),
      ("found", .nat found)]
  | unknownOpcode opcode => tagged "UnknownOpcode" [("opcode", .nat opcode.toNat)]
  | orphanInstruction instruction =>
    tagged "OrphanInstruction" [("instruction", .string instruction)]
  | nonImmediateLength found => tagged "NonImmediateLength" [("found", .string found)]
  | lengthOutOfRange length limit =>
    tagged "LengthOutOfRange" [("length", .nat length), ("limit", .nat limit)]

end DiagnosticKind

namespace Diagnostic

/-- The diagnostic that a value writes. -/
def ofValue? (v : Value) : Option Diagnostic := do
  let r ← Record.ofValue? ["function", "address", "kind"] v
  return {
    function := ← r.optional? "function" Value.string?
    address := ← r.optional? "address" (Value.nat? 32)
    kind := ← r.required? "kind" DiagnosticKind.ofValue? }

/-- A diagnostic as a document. -/
def toDocument (d : Diagnostic) : Document :=
  .object [("function", .nullable .string d.function), ("address", .nullable .nat d.address),
    ("kind", d.kind.toDocument)]

end Diagnostic

namespace Decompilation

/-- The decompiled unit that a value writes. -/
def ofValue? (v : Value) : Option Decompilation := do
  let r ← Record.ofValue? ["text", "diagnostics"] v
  return {
    text := ← r.required? "text" Value.string?
    diagnostics := ← r.required? "diagnostics" (Value.list? Diagnostic.ofValue?) }

/-- A decompiled unit as a document. -/
def toDocument (d : Decompilation) : Document :=
  .object [("text", .string d.text),
    ("diagnostics", .array (d.diagnostics.map Diagnostic.toDocument))]

/-- The diagnostics of a unit, under its name. -/
def report (unit : String) (d : Decompilation) : Document :=
  .object [("unit", .string unit),
    ("diagnostics", .array (d.diagnostics.map Diagnostic.toDocument))]

end Decompilation

end ScriptDecompiler
