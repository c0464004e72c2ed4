import ScriptDecompiler.Text.Utf8

/-!
# Script units

A unit is one compiled script: its code with the declared length, the initial
values of its statics, its table of natives, and its strings.
-/

namespace ScriptDecompiler

/-- One compiled script.  The hashes in the native table are mangled. -/
structure ScriptUnit where
  name : String
  code : List UInt8
  codeLength : Nat
  statics : List Int
  natives : Array UInt64
  strings : List UInt8
  deriving DecidableEq, Repr

/-- The text at an offset of the string table, up to the next zero byte or the
end of the table. -/
def ScriptUnit.stringAt? (u : ScriptUnit) (offset : Nat) : Option String :=
  if offset ≤ u.strings.length then
    some (Text.decodeLossy ((u.strings.drop offset).takeWhile (· ≠ 0)))
  else none

end ScriptDecompiler
