/-!
# JSON values

Values as they are read.  Only what readers ask about is kept: of a number,
whether it is written as an integer; of a text, whether its escapes make up
characters.
-/

namespace ScriptDecompiler.Json

/-- A text that was read, or `none` if an escaped surrogate in it is not part of
a pair. -/
abbrev Text := Option String

/-- A value.  The entries of an object are in the order in which they stand. -/
inductive Value where
  | null
  | bool (value : Bool)
  | integer (value : Int)
  | otherNumber
  | text (value : Text)
  | array (items : List Value)
  | object (entries : List (Text × Value))

instance : Inhabited Value := ⟨.null⟩

end ScriptDecompiler.Json
