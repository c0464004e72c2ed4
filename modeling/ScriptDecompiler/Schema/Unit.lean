import ScriptDecompiler.Json.Document
import ScriptDecompiler.Json.Parse
import ScriptDecompiler.Json.Record
import ScriptDecompiler.ScriptUnit

/-!
# Units as JSON

A unit is a record.  Its statics, natives and strings may be missing, and are
empty then.
-/

namespace ScriptDecompiler.ScriptUnit

open ScriptDecompiler.Json (Document Record Value)

/-- A byte. -/
def byte? (v : Value) : Option UInt8 :=
  (v.nat? 8).map UInt8.ofNat

/-- A 64-bit hash. -/
def hash? (v : Value) : Option UInt64 :=
  (v.nat? 64).map UInt64.ofNat

/-- The initial value of a static, a signed integer of 64 bits. -/
def initial? (v : Value) : Option Int :=
  v.integerBetween? (-0x8000000000000000) 0x7fffffffffffffff

/-- The unit that a value writes. -/
def ofValue? (v : Value) : Option ScriptUnit := do
  let r ← Record.ofValue? ["name", "code", "code_length", "statics", "natives", "strings"] v
  return {
    name := ← r.required? "name" Value.string?
    code := ← r.required? "code" (Value.list? byte?)
    codeLength := ← r.required? "code_length" (Value.nat? 32)
    statics := ← r.defaulted? "statics" [] (Value.list? initial?)
    natives := (← r.defaulted? "natives" [] (Value.list? hash?)).toArray
    strings := ← r.defaulted? "strings" [] (Value.list? byte?) }

/-- The unit that a text writes. -/
def ofJson? (s : String) : Option ScriptUnit :=
  (Json.parse? s).bind ofValue?

/-- A byte as a number. -/
def byteDocument (b : UInt8) : Document := .nat b.toNat

/-- A unit as a document. -/
def toDocument (u : ScriptUnit) : Document :=
  .object [
    ("name", .string u.name),
    ("code", .array (u.code.map byteDocument)),
    ("code_length", .nat u.codeLength),
    ("statics", .array (u.statics.map .integer)),
    ("natives", .array (u.natives.toList.map fun hash => .nat hash.toNat)),
    ("strings", .array (u.strings.map byteDocument))]

end ScriptDecompiler.ScriptUnit
