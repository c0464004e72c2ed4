/-!
# Digits, padding and hexadecimal numbers

Numbers are written in lower case.  A width only ever adds characters: a number
that needs more digits than the width keeps them all.
-/

namespace ScriptDecompiler.Text

/-- Put `fill` in front of `cs` until `width` characters are reached. -/
def padStart (width : Nat) (fill : Char) (cs : List Char) : List Char :=
  List.replicate (width - cs.length) fill ++ cs

/-- Put blanks behind a text until `width` characters are reached. -/
def padEnd (width : Nat) (s : String) : String :=
  s ++ String.ofList (List.replicate (width - s.length) ' ')

/-- The hexadecimal digits of a number, without leading zeros. -/
def hex (n : Nat) : String :=
  String.ofList (Nat.toDigits 16 n)

/-- Hexadecimal digits, at least `width` of them. -/
def hexPadded (width n : Nat) : String :=
  String.ofList (padStart width '0' (Nat.toDigits 16 n))

/-- A number written as `0x` and its hexadecimal digits. -/
def hexLiteral (n : Nat) : String :=
  "0x" ++ hex n

/-- An address as messages show it: `0x` and at least eight digits. -/
def addressLiteral (address : Nat) : String :=
  "0x" ++ hexPadded 8 address

/-- An opcode as messages show it: `0x` and two digits. -/
def opcodeLiteral (opcode : UInt8) : String :=
  "0x" ++ hexPadded 2 opcode.toNat

/-- The value of a hexadecimal digit of either case. -/
def hexValue? (c : Char) : Option Nat :=
  if '0' ≤ c ∧ c ≤ '9' then some (c.toNat - 48)
  else if 'a' ≤ c ∧ c ≤ 'f' then some (c.toNat - 87)
  else if 'A' ≤ c ∧ c ≤ 'F' then some (c.toNat - 55)
  else none

/-- The number that one or more hexadecimal digits denote; any other character
makes the whole text unreadable. -/
def hexNumber? : List Char → Option Nat
  | [] => none
  | c :: cs => (c :: cs).foldl (fun acc d => do
      let high ← acc
      let low ← hexValue? d
      return 16 * high + low) (some 0)

end ScriptDecompiler.Text
