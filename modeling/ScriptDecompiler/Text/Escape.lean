import ScriptDecompiler.Text.Digits
import ScriptDecompiler.Text.Printable

/-!
# Escaped text inside quotes

Printable ASCII stands for itself, except the two quotes and the backslash.
Tabs and line ends have short escapes.  Every other character is written by its
scalar value in hexadecimal, between braces.  In the paths that messages show,
all printable characters stand for themselves.
-/

namespace ScriptDecompiler.Text

/-- A character by its scalar value. -/
def unicodeEscape (c : Char) : List Char :=
  ['\\', 'u', '\x7b'] ++ Nat.toDigits 16 c.toNat ++ ['\x7d']

/-- The escaped form of one character. -/
def escapeChar (c : Char) : List Char :=
  if c = '\t' then ['\\', 't']
  else if c = '\r' then ['\\', 'r']
  else if c = '\n' then ['\\', 'n']
  else if c = '\'' || c = '"' || c = '\\' then ['\\', c]
  else if 0x20 ≤ c.toNat ∧ c.toNat ≤ 0x7E then [c]
  else unicodeEscape c

/-- A text with every character escaped. -/
def escape (s : String) : String :=
  String.ofList (s.toList.flatMap escapeChar)

/-- A text as a literal: escaped, between double quotes. -/
def quoted (s : String) : String :=
  "\"" ++ escape s ++ "\""

/-- The form of one character of a path in a message.  The double quote, the
backslash and the characters that do not show are escaped; a single quote is
not. -/
def escapePathChar (c : Char) : List Char :=
  if c = '\x00' then ['\\', '0']
  else if c = '\'' then [c]
  else if c.toNat ≤ 0x7F then escapeChar c
  else if isPrintable c then [c]
  else unicodeEscape c

/-- A path as messages show it. -/
def quotedPath (s : String) : String :=
  "\"" ++ String.ofList (s.toList.flatMap escapePathChar) ++ "\""

end ScriptDecompiler.Text
