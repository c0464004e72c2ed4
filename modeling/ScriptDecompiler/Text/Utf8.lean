/-!
# Reading UTF-8 that may be malformed

Bytes are read from left to right.  A byte that cannot start a character, and a
started character that meets a byte it cannot continue with, are each replaced
by one U+FFFD.  The byte that broke a character off is then read afresh, and a
character left open at the end is replaced too.  So every maximal malformed
piece gives exactly one replacement.
-/

namespace ScriptDecompiler.Text

/-- A character whose first bytes have been read.  The next byte has to lie
between `low` and `high`; `more` bytes follow after it. -/
structure Utf8Pending where
  payload : Nat
  low : UInt8
  high : UInt8
  more : Nat
  deriving DecidableEq, Repr

/-- What a first byte can mean. -/
inductive Utf8Lead where
  | ascii (c : Char)
  | opens (pending : Utf8Pending)
  | malformed
  deriving DecidableEq, Repr

/-- The reading of a first byte.  The bounds on the second byte rule out
overlong forms, surrogates and values past U+10FFFF. -/
def Utf8Lead.ofByte (b : UInt8) : Utf8Lead :=
  if b < 0x80 then .ascii (Char.ofNat b.toNat)
  else if b < 0xC2 then .malformed
  else if b < 0xE0 then .opens ⟨b.toNat - 0xC0, 0x80, 0xBF, 0⟩
  else if b = 0xE0 then .opens ⟨0, 0xA0, 0xBF, 1⟩
  else if b = 0xED then .opens ⟨0xD, 0x80, 0x9F, 1⟩
  else if b < 0xF0 then .opens ⟨b.toNat - 0xE0, 0x80, 0xBF, 1⟩
  else if b = 0xF0 then .opens ⟨0, 0x90, 0xBF, 2⟩
  else if b < 0xF4 then .opens ⟨b.toNat - 0xF0, 0x80, 0xBF, 2⟩
  else if b = 0xF4 then .opens ⟨4, 0x80, 0x8F, 2⟩
  else .malformed

/-- The character that stands for a malformed piece. -/
def replacementChar : Char := '\ufffd'

/-- State of a reader: the open character, if any, and the characters read so
far with the latest first. -/
structure Utf8Reader where
  pending : Option Utf8Pending
  read : List Char

namespace Utf8Reader

/-- Nothing read yet. -/
def start : Utf8Reader := ⟨none, []⟩

/-- Read a byte with no character open. -/
def lead (read : List Char) (b : UInt8) : Utf8Reader :=
  match Utf8Lead.ofByte b with
  | .ascii c => ⟨none, c :: read⟩
  | .opens p => ⟨some p, read⟩
  | .malformed => ⟨none, replacementChar :: read⟩

/-- Read a byte. -/
def step (r : Utf8Reader) (b : UInt8) : Utf8Reader :=
  match r.pending with
  | none => lead r.read b
  | some p =>
    if p.low ≤ b ∧ b ≤ p.high then
      let payload := p.payload * 64 + (b.toNat - 0x80)
      match p.more with
      | 0 => ⟨none, Char.ofNat payload :: r.read⟩
      | more + 1 => ⟨some ⟨payload, 0x80, 0xBF, more⟩, r.read⟩
    else lead (replacementChar :: r.read) b

/-- The characters read, with a replacement for one left open. -/
def finish (r : Utf8Reader) : List Char :=
  match r.pending with
  | none => r.read.reverse
  | some _ => (replacementChar :: r.read).reverse

end Utf8Reader

/-- The characters of a byte sequence, malformed pieces replaced. -/
def decodeLossyChars (bytes : List UInt8) : List Char :=
  (bytes.foldl Utf8Reader.step Utf8Reader.start).finish

/-- The text of a byte sequence, malformed pieces replaced. -/
def decodeLossy (bytes : List UInt8) : String :=
  String.ofList (decodeLossyChars bytes)

/-- The text of a byte sequence if it is well formed. -/
def decodeStrict? (bytes : List UInt8) : Option String :=
  String.fromUTF8? ⟨bytes.toArray⟩

end ScriptDecompiler.Text
