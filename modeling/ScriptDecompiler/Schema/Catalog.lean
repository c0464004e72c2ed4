import ScriptDecompiler.Json.Parse
import ScriptDecompiler.Json.Record
import ScriptDecompiler.Native.Database
import ScriptDecompiler.Native.Hash
import ScriptDecompiler.Text.Order
import ScriptDecompiler.Ty.Parse

/-!
# Catalogs of natives

A catalog is an object of categories; a category is an object of signatures
under their hashes.  Of several entries with one key, the last one counts.
Categories, and the hashes in a category, are taken in the order of their keys,
and a later signature replaces an earlier one with the same hash.
-/

namespace ScriptDecompiler.Native

open ScriptDecompiler.Json (Record Value)
open ScriptDecompiler.Text (precedes)

/-- Why a catalog cannot be used: it does not have the expected form, or a key
is no hash. -/
inductive CatalogError where
  | malformed
  | badHash (text : String)
  deriving DecidableEq, Repr

/-- The wording of a catalog that cannot be used. -/
def CatalogError.message : CatalogError → String
  | malformed => "the catalog does not have the expected form"
  | badHash text => badHashMessage text

/-- The parameter that a value writes. -/
def Parameter.ofValue? (v : Value) : Option Parameter := do
  let r ← Record.ofValue? ["name", "type"] v
  return ⟨← r.required? "name" Value.string?, Ty.parse (← r.required? "type" Value.string?)⟩

/-- The signature that a value writes. -/
def Signature.ofValue? (v : Value) : Option Signature := do
  let r ← Record.ofValue? ["name", "jhash", "params", "results"] v
  return {
    name := ← r.required? "name" Value.string?
    jhash := ← r.defaulted? "jhash" none (Value.nullable? Value.string?)
    parameters := ← r.defaulted? "params" [] (Value.list? Parameter.ofValue?)
    result := Ty.parse (← r.defaulted? "results" "" Value.string?) }

/-- Of neighbours with equal keys, only the last one. -/
def lastOfEqualKeys {α : Type} : List (String × α) → List (String × α)
  | [] => []
  | (key, v) :: rest =>
    match rest with
    | (next, _) :: _ =>
      if key = next then lastOfEqualKeys rest else (key, v) :: lastOfEqualKeys rest
    | [] => [(key, v)]

/-- The entries of a map in the order of their keys, the last one of each key. -/
def sortedEntries {α : Type} (entries : List (String × α)) : List (String × α) :=
  lastOfEqualKeys (entries.mergeSort fun a b => precedes a.1.toList b.1.toList)

/-- A map all of whose values can be read. -/
def sortedMap? {α : Type} (value? : Value → Option α) (v : Value) :
    Option (List (String × α)) := do
  let entries ← (← v.entries?).mapM fun (key, v) => (value? v).map (key, ·)
  return sortedEntries entries

/-- The signatures of a catalog under their written hashes, in order. -/
def catalogEntries? (s : String) : Option (List (String × Signature)) := do
  let categories ← sortedMap? (sortedMap? Signature.ofValue?) (← Json.parse? s)
  return categories.flatMap (·.2)

/-- Enter signatures under written hashes, one after the other. -/
def Database.insertAll (db : Database) : List (String × Signature) → Except CatalogError Database
  | [] => .ok db
  | (key, signature) :: rest =>
    match parseHash key with
    | .error text => .error (.badHash text)
    | .ok hash => (db.insert hash signature).insertAll rest

/-- The database of a catalog. -/
def Database.ofCatalog (s : String) : Except CatalogError Database :=
  match catalogEntries? s with
  | none => .error .malformed
  | some entries => Database.empty.insertAll entries

end ScriptDecompiler.Native
