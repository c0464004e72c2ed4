import ScriptDecompiler.Native.Database
import ScriptDecompiler.Native.Hash
import ScriptDecompiler.Text.Utf8

/-!
# Translation tables

A translation table has lines of the form `first:second`.  A line copies the
signature that `second` has at that moment to `first`; if it has none, nothing
changes.  Blank lines are skipped.  The first line that cannot be read ends the
table; what was copied before stays.
-/

namespace ScriptDecompiler.Native

open ScriptDecompiler.Text (decodeStrict? trimChars)

/-- Why a translation table ends early: it cannot be read at this place, a line
has no colon, or one of its sides is no hash. -/
inductive TranslationError where
  | unreadable
  | malformedLine (line : String)
  | badHash (text : String)
  deriving DecidableEq, Repr

/-- The wording of an early end. -/
def TranslationError.message : TranslationError → String
  | unreadable => "the translation table cannot be read"
  | malformedLine line => "malformed native translation line: `" ++ line ++ "`"
  | badHash text => badHashMessage text

/-- What became of a translation table: the database, and how many signatures
were copied or why it ended early. -/
structure Translated where
  database : Database
  outcome : Except TranslationError Nat

/-- The two hashes of a line without blanks around it. -/
def readTranslation (trimmed : List Char) : Except TranslationError (UInt64 × UInt64) :=
  if trimmed.contains ':' then do
    let first ← (parseHash (String.ofList (trimmed.takeWhile (· ≠ ':')))).mapError .badHash
    let second ←
      (parseHash (String.ofList ((trimmed.dropWhile (· ≠ ':')).drop 1))).mapError .badHash
    return (first, second)
  else .error (.malformedLine (String.ofList trimmed))

/-- Apply lines in order; `copied` counts the signatures copied so far. -/
def Database.translateLines (db : Database) (copied : Nat) : List (Option String) → Translated
  | [] => ⟨db, .ok copied⟩
  | none :: _ => ⟨db, .error .unreadable⟩
  | some line :: rest =>
    let trimmed := trimChars line.toList
    if trimmed.isEmpty then db.translateLines copied rest
    else
      match readTranslation trimmed with
      | .error e => ⟨db, .error e⟩
      | .ok (target, source) =>
        match db.copy? target source with
        | some copy => copy.translateLines (copied + 1) rest
        | none => db.translateLines copied rest

/-- Bytes cut behind every line feed.  The first result is what stands behind
the last one. -/
def splitLines (bytes : List UInt8) : List UInt8 × List (List UInt8) :=
  let (rest, lines) := bytes.foldl (fun (current, lines) b =>
    if b = 10 then ([], current.reverse :: lines) else (b :: current, lines)) ([], [])
  (rest.reverse, lines.reverse)

/-- The lines of a table.  If it is cut short by damage, an unreadable line takes
the place of the one that is not complete. -/
def tableLines (bytes : List UInt8) (damaged : Bool) : List (Option String) :=
  let (rest, lines) := splitLines bytes
  lines.map decodeStrict? ++
    (if damaged then [none] else if rest.isEmpty then [] else [decodeStrict? rest])

/-- Apply a translation table. -/
def Database.translate (db : Database) (bytes : List UInt8) (damaged : Bool) : Translated :=
  db.translateLines 0 (tableLines bytes damaged)

end ScriptDecompiler.Native
