import ScriptDecompiler.Text.Digits

/-!
# Writing JSON

A document is written on one line without blanks, or with every item and entry
on a line of its own, indented by two blanks for each level.
-/

namespace ScriptDecompiler.Json

open ScriptDecompiler.Text (hexPadded)

/-- What is written. -/
inductive Document where
  | null
  | bool (value : Bool)
  | integer (value : Int)
  | string (value : String)
  | array (items : List Document)
  | object (entries : List (String × Document))

/-- The written form of a character of a text. -/
def escapeChar (c : Char) : String :=
  if c = '"' then "\\\""
  else if c = '\\' then "\\\\"
  else if c = '\x08' then "\\b"
  else if c = '\x0c' then "\\f"
  else if c = '\n' then "\\n"
  else if c = '\r' then "\\r"
  else if c = '\t' then "\\t"
  else if c.toNat < 0x20 then "\\u" ++ hexPadded 4 c.toNat
  else String.singleton c

/-- The written form of a text. -/
def quoted (s : String) : String :=
  "\"" ++ String.join (s.toList.map escapeChar) ++ "\""

namespace Document

/-- A natural number. -/
def nat (n : Nat) : Document := integer (Int.ofNat n)

/-- A value or null. -/
def nullable {α : Type} (write : α → Document) : Option α → Document
  | some v => write v
  | none => null

mutual

/-- A document on one line. -/
def compact : Document → String
  | null => "null"
  | bool true => "true"
  | bool false => "false"
  | integer value => toString value
  | string value => quoted value
  | array items => "[" ++ ",".intercalate (compactItems items) ++ "]"
  | object entries => "\x7b" ++ ",".intercalate (compactEntries entries) ++ "\x7d"

/-- The items of an array. -/
def compactItems : List Document → List String
  | [] => []
  | item :: rest => item.compact :: compactItems rest

/-- The entries of an object. -/
def compactEntries : List (String × Document) → List String
  | [] => []
  | (key, v) :: rest => (quoted key ++ ":" ++ v.compact) :: compactEntries rest

end

/-- The start of a line at some level. -/
def indent (level : Nat) : String :=
  "\n" ++ String.ofList (List.replicate (2 * level) ' ')

/-- Lines at a level, between brackets that stand one level further out. -/
def bracketed (level : Nat) (left right : String) (lines : List String) : String :=
  if lines.isEmpty then left ++ right
  else
    left ++ indent (level + 1) ++ ("," ++ indent (level + 1)).intercalate lines ++
      indent level ++ right

mutual

/-- A document over several lines, from some level on. -/
def prettyAt (level : Nat) : Document → String
  | null => "null"
  | bool true => "true"
  | bool false => "false"
  | integer value => toString value
  | string value => quoted value
  | array items => bracketed level "[" "]" (prettyItems (level + 1) items)
  | object entries => bracketed level "\x7b" "\x7d" (prettyEntries (level + 1) entries)

/-- The items of an array. -/
def prettyItems (level : Nat) : List Document → List String
  | [] => []
  | item :: rest => item.prettyAt level :: prettyItems level rest

/-- The entries of an object. -/
def prettyEntries (level : Nat) : List (String × Document) → List String
  | [] => []
  | (key, v) :: rest => (quoted key ++ ": " ++ v.prettyAt level) :: prettyEntries level rest

end

/-- A document over several lines. -/
def pretty (d : Document) : String :=
  d.prettyAt 0

end Document

end ScriptDecompiler.Json
