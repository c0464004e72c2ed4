import ScriptDecompiler.Text.Blank
import ScriptDecompiler.Ty.Basic

/-!
# Reading type names

Signatures in a catalog name their types as text.  A few names are known; any
other text that ends in an asterisk is a pointer to what stands before it, and
what is left is a scalar of its own.  Blanks around each part are dropped.
-/

namespace ScriptDecompiler.Ty

open ScriptDecompiler.Text (length_trimChars_le trimChars)

/-- The types that are known by name. -/
def ofKnownName? : String → Option Ty
  | "" | "Any" => some unknown
  | "void" => some void
  | "int" => some int
  | "float" => some float
  | "BOOL" | "bool" => some bool
  | "char*" | "const char*" => some string
  | "Vector3" => some vector3
  | _ => none

/-- The type that a sequence of characters names. -/
def parseChars (cs : List Char) : Ty :=
  match ofKnownName? (String.ofList (trimChars cs)) with
  | some ty => ty
  | none =>
    if h : (trimChars cs).getLast? = some '*' then
      have : 0 < (trimChars cs).length := by
        cases hcs : trimChars cs with
        | nil => simp [hcs] at h
        | cons c rest => simp
      have := length_trimChars_le cs
      pointer (parseChars (trimChars cs).dropLast)
    else scalar (String.ofList (trimChars cs))
termination_by cs.length
decreasing_by
  rw [List.length_dropLast]
  omega

/-- The type that a text names. -/
def parse (s : String) : Ty :=
  parseChars s.toList

end ScriptDecompiler.Ty
