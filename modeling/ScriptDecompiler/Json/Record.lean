import ScriptDecompiler.Json.Value

/-!
# Readers for the parts of JSON values

A record may be written as an object, whose keys are the names of the fields, or
as an array with the fields in order.  An object may have other entries beside
the fields, but no field twice; an array may end before the last field, but has
no items beyond it.
-/

namespace ScriptDecompiler.Json.Value

/-- An integer between two bounds, both included. -/
def integerBetween? (low high : Int) : Value → Option Int
  | integer value => if low ≤ value ∧ value ≤ high then some value else none
  | _ => none

/-- A natural number of at most `bits` bits. -/
def nat? (bits : Nat) (v : Value) : Option Nat :=
  (v.integerBetween? 0 (Int.ofNat (Nat.pow 2 bits - 1))).map Int.toNat

/-- A truth value. -/
def bool? : Value → Option Bool
  | bool value => some value
  | _ => none

/-- A text whose escapes make up characters. -/
def string? : Value → Option String
  | text value => value
  | _ => none

/-- The items of an array. -/
def array? : Value → Option (List Value)
  | array items => some items
  | _ => none

/-- An array all of whose items can be read. -/
def list? {α : Type} (item? : Value → Option α) (v : Value) : Option (List α) :=
  v.array?.bind (·.mapM item?)

/-- A value that may be null. -/
def nullable? {α : Type} (value? : Value → Option α) : Value → Option (Option α)
  | null => some none
  | v => (value? v).map some

/-- The entries of an object whose keys are all texts. -/
def entries? : Value → Option (List (String × Value))
  | object entries => entries.mapM fun (key, v) => key.map (·, v)
  | _ => none

end ScriptDecompiler.Json.Value

namespace ScriptDecompiler.Json

/-- The fields of a record.  `positional` tells that they come from an array. -/
structure Record where
  fields : List (String × Value)
  positional : Bool

namespace Record

/-- Read a record with the given fields. -/
def ofValue? (names : List String) (v : Value) : Option Record :=
  match v with
  | .array items =>
    if items.length ≤ names.length then some ⟨names.zip items, true⟩ else none
  | _ => do
    let entries ← v.entries?
    if names.all fun name => (entries.filter (·.1 = name)).length ≤ 1 then
      some ⟨entries, false⟩
    else none

/-- A field that has to be there. -/
def required? {α : Type} (r : Record) (name : String) (value? : Value → Option α) : Option α :=
  (r.fields.lookup name).bind value?

/-- A field with a value to use where it is missing. -/
def defaulted? {α : Type} (r : Record) (name : String) (default : α)
    (value? : Value → Option α) : Option α :=
  match r.fields.lookup name with
  | some v => value? v
  | none => some default

/-- A field that may be null.  In an object it may also be missing. -/
def optional? {α : Type} (r : Record) (name : String) (value? : Value → Option α) :
    Option (Option α) :=
  match r.fields.lookup name with
  | some v => v.nullable? value?
  | none => if r.positional then none else some none

end Record

end ScriptDecompiler.Json
