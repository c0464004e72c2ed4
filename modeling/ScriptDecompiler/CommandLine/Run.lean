import ScriptDecompiler.CommandLine.Arguments
import ScriptDecompiler.Deflate.Inflate
import ScriptDecompiler.Native.Translation
import ScriptDecompiler.Schema.Catalog
import ScriptDecompiler.Schema.Report
import ScriptDecompiler.Schema.Unit
import ScriptDecompiler.Text.Escape

/-!
# Running the command line

What the program prints and returns depends on its arguments and on the bytes of
the files that they name.  A unit that cannot be read is a failure.  A catalog
that cannot be read leaves the database empty, and a translation table that
cannot be read to its end leaves what was copied.
-/

namespace ScriptDecompiler.CommandLine

open ScriptDecompiler.Native (Database)
open ScriptDecompiler.Text (decodeStrict? quotedPath)

/-- What a run prints, and the code that it returns. -/
structure Outcome where
  code : UInt32
  output : String
  errors : String
  deriving DecidableEq, Repr

/-- The files that a run reads; one that cannot be read is missing. -/
structure Files where
  unit : Option (List UInt8)
  natives : Option (List UInt8)
  translations : Option (List UInt8)

/-- The unit that is in a file, or why there is none. -/
def readUnit (contents : Option (List UInt8)) : Except String ScriptUnit := do
  let bytes ← contents.elim (.error "the file cannot be read") .ok
  let text ← (decodeStrict? bytes).elim (.error "the file is not UTF-8") .ok
  (ScriptUnit.ofJson? text).elim (.error "the file does not hold a unit") .ok

/-- The database of a catalog in a file; it is empty if there is no such one. -/
def readCatalog (contents : Option (List UInt8)) : Database :=
  match (contents.bind decodeStrict?).map Database.ofCatalog with
  | some (.ok db) => db
  | _ => Database.empty

/-- A database after the translations of a deflated table, if there is one. -/
def readTranslations (db : Database) (contents : Option (List UInt8)) : Database :=
  match contents with
  | none => db
  | some bytes =>
    let inflated := Deflate.inflate bytes
    (db.translate inflated.bytes inflated.damaged).database

/-- Decompile the unit that the settings name. -/
def decompileFile (settings : Settings) (files : Files) : Outcome :=
  match readUnit files.unit with
  | .error cause =>
    ⟨1, "", "failed to read " ++ quotedPath settings.path ++ ": " ++ cause ++ "\n"⟩
  | .ok u =>
    let natives := readTranslations (readCatalog files.natives) files.translations
    match u.decompile natives settings.options with
    | .error e => ⟨1, "", "decompile error: " ++ e.message ++ "\n"⟩
    | .ok result =>
      ⟨0, result.text,
        if settings.diagnostics then (result.report u.name).pretty ++ "\n" else ""⟩

/-- The text that explains the arguments. -/
def helpText : String :=
  "Decompiles compiled script units\n\n" ++
    "Usage: deysc_cli [--log FILTER] decompile file PATH" ++
    " [--natives FILE] [--translations FILE]\n" ++
    "         [--mode pseudo|disasm] [--annotate] [--optimize] [--diagnostics]\n"

/-- The name and the version of the program. -/
def versionText : String :=
  "deysc_cli 0.1.0\n"

/-- What a run with wrong arguments prints and returns. -/
def usageOutcome (e : UsageError) : Outcome :=
  ⟨2, "", "error: " ++ e.message ++ "\n\n" ++ helpText⟩

end ScriptDecompiler.CommandLine
