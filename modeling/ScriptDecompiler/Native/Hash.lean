import ScriptDecompiler.Text.Blank
import ScriptDecompiler.Text.Digits

/-!
# Hashes of natives

Natives are known by hashes of 64 bits.  A unit stores them rotated; the amount
depends on the length of the code and on the place in the native table.
-/

namespace ScriptDecompiler.Native

open ScriptDecompiler.Text (hexNumber? trimChars)

/-- The hash behind entry `index` of the native table of a unit. -/
def unmangle (raw : UInt64) (codeLength index : Nat) : UInt64 :=
  UInt64.ofBitVec (raw.toBitVec.rotateLeft ((codeLength + index) % 64))

/-- The digits of a written hash: one leading `0x` or `0X` and then one leading
plus sign may stand in front of them. -/
def hashDigits : List Char → List Char
  | '0' :: 'x' :: '+' :: rest | '0' :: 'X' :: '+' :: rest => rest
  | '0' :: 'x' :: rest | '0' :: 'X' :: rest => rest
  | '+' :: rest => rest
  | cs => cs

/-- The hash that a text without blanks around it writes. -/
def hashOfTrimmed? (cs : List Char) : Option UInt64 := do
  let value ← hexNumber? (hashDigits cs)
  if value < 0x10000000000000000 then some (UInt64.ofNat value) else none

/-- The hash that a text writes, or the text without the blanks around it if it
writes none. -/
def parseHash (s : String) : Except String UInt64 :=
  let trimmed := trimChars s.toList
  match hashOfTrimmed? trimmed with
  | some hash => .ok hash
  | none => .error (String.ofList trimmed)

/-- The wording of a text that is no hash. -/
def badHashMessage (text : String) : String :=
  "invalid native hash `" ++ text ++ "`"

end ScriptDecompiler.Native
