import ScriptDecompiler.Native.Signature
import ScriptDecompiler.Table
import ScriptDecompiler.Text.Digits

/-!
# The database of natives

Signatures by hash.  A hash that has no signature gets one that is made up from
the call site.
-/

namespace ScriptDecompiler.Native

open ScriptDecompiler.Text (hex)

/-- Signatures by hash. -/
structure Database where
  table : Table Signature

namespace Database

/-- The database without signatures. -/
def empty : Database := ⟨Table.empty⟩

/-- Enter a signature, in place of the one there was. -/
def insert (db : Database) (hash : UInt64) (signature : Signature) : Database :=
  ⟨db.table.insert hash.toNat signature⟩

/-- The signature under a hash. -/
def lookup? (db : Database) (hash : UInt64) : Option Signature :=
  db.table.get? hash.toNat

/-- How many hashes have a signature. -/
def size (db : Database) : Nat :=
  db.table.size

/-- Give `target` the signature that `source` has at this moment, if any. -/
def copy? (db : Database) (target source : UInt64) : Option Database :=
  (db.lookup? source).map (db.insert target)

end Database

/-- The name of a native that is not in the database. -/
def unknownName (hash : UInt64) : String :=
  "unk_" ++ hex hash.toNat

/-- A signature for a call site.  The names of the parameters say something only
if the signature is not synthesized. -/
structure Resolved where
  signature : Signature
  synthesized : Bool
  deriving DecidableEq, Repr

/-- The signature under a hash, or one that states what the call site shows. -/
def Database.resolve (db : Database) (hash : UInt64) (inSlots outSlots : Nat) : Resolved :=
  match db.lookup? hash with
  | some signature => ⟨signature, false⟩
  | none => ⟨Signature.synthesize (unknownName hash) inSlots outSlots, true⟩

end ScriptDecompiler.Native
