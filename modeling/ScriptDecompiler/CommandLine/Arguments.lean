import ScriptDecompiler.Decompile

/-!
# Arguments of the command line

`decompile file PATH` decompiles a unit.  An option takes its value from behind
an equals sign or from the next argument, which must not look like an option
then.  Nothing may be given twice.  Behind `--`, arguments are taken as they
are.
-/

namespace ScriptDecompiler.CommandLine

/-- What is wrong with the arguments. -/
inductive UsageError where
  | unknownArgument (argument : String)
  | unknownCommand (name : String)
  | missingCommand
  | missingPath
  | missingValue (option : String)
  | unexpectedValue (option : String)
  | invalidValue (option value : String)
  | repeated (option : String)
  deriving DecidableEq, Repr

/-- The wording of a wrong argument. -/
def UsageError.message : UsageError → String
  | unknownArgument argument => "unexpected argument `" ++ argument ++ "`"
  | unknownCommand name => "unrecognized command `" ++ name ++ "`"
  | missingCommand => "a command is required"
  | missingPath => "the path of a unit is required"
  | missingValue option => "a value is required for `" ++ option ++ "`"
  | unexpectedValue option => "`" ++ option ++ "` takes no value"
  | invalidValue option value => "invalid value `" ++ value ++ "` for `" ++ option ++ "`"
  | repeated option => "`" ++ option ++ "` cannot be given more than once"

/-- An argument that is not the value of an option. -/
inductive Argument where
  | option (name : String) (value : Option String)
  | short (text : String)
  | plain (text : String)
  | terminator
  deriving DecidableEq, Repr

/-- Tell what kind of argument a text is.  A single hyphen is a plain one. -/
def Argument.ofText (s : String) : Argument :=
  match s.toList with
  | ['-', '-'] => terminator
  | '-' :: '-' :: rest =>
    let name := String.ofList ('-' :: '-' :: rest.takeWhile (· ≠ '='))
    match rest.dropWhile (· ≠ '=') with
    | [] => option name none
    | _ :: value => option name (some (String.ofList value))
  | '-' :: _ :: _ => short s
  | _ => plain s

/-- The value of an option and the arguments behind it. -/
def takeValue (name : String) (value : Option String) (rest : List String) :
    Except UsageError (String × List String) :=
  match value, rest with
  | some v, _ => .ok (v, rest)
  | none, next :: others =>
    match Argument.ofText next with
    | .plain v => .ok (v, others)
    | _ => .error (.missingValue name)
  | none, [] => .error (.missingValue name)

/-- What to decompile, and how. -/
structure Settings where
  path : String
  natives : Option String
  translations : Option String
  options : Options
  diagnostics : Bool
  deriving DecidableEq, Repr

/-- The arguments of `decompile file` that have been read. -/
structure Draft where
  path : Option String
  natives : Option String
  translations : Option String
  mode : Option Mode
  log : Option String
  annotate : Bool
  optimize : Bool
  diagnostics : Bool

namespace Draft

/-- Nothing read yet. -/
def start : Draft := ⟨none, none, none, none, none, false, false, false⟩

/-- Set something that may be set once. -/
def once {α : Type} (name : String) (old : Option α) (new : α) : Except UsageError (Option α) :=
  match old with
  | none => .ok (some new)
  | some _ => .error (.repeated name)

/-- Raise a flag that may be raised once. -/
def raise (name : String) (old : Bool) : Except UsageError Bool :=
  if old then .error (.repeated name) else .ok true

/-- A path, which must not be empty. -/
def checkPath (name value : String) : Except UsageError String :=
  if value.isEmpty then .error (.invalidValue name value) else .ok value

/-- The mode that the command line calls by this name. -/
def checkMode (value : String) : Except UsageError Mode :=
  match value with
  | "pseudo" => .ok .pseudo
  | "disasm" => .ok .disasm
  | _ => .error (.invalidValue "--mode" value)

/-- Take an argument that is a path. -/
def setPath (d : Draft) (value : String) : Except UsageError Draft := do
  match d.path with
  | none => return { d with path := some (← checkPath "PATH" value) }
  | some _ => throw (.unknownArgument value)

/-- Take a flag, if the name is that of one. -/
def setFlag? (d : Draft) (name : String) : Option (Except UsageError Draft) :=
  match name with
  | "--annotate" => some ((raise name d.annotate).map ({ d with annotate := · }))
  | "--optimize" => some ((raise name d.optimize).map ({ d with optimize := · }))
  | "--diagnostics" => some ((raise name d.diagnostics).map ({ d with diagnostics := · }))
  | _ => none

/-- Take an option with its value, if the name is that of one. -/
def setValue? (d : Draft) (name : String) : Option (String → Except UsageError Draft) :=
  match name with
  | "--natives" => some fun v => do
    return { d with natives := ← once name d.natives (← checkPath name v) }
  | "--translations" => some fun v => do
    return { d with translations := ← once name d.translations (← checkPath name v) }
  | "--mode" => some fun v => do
    return { d with mode := ← once name d.mode (← checkMode v) }
  | "--log" => some fun v => do
    return { d with log := ← once name d.log v }
  | _ => none

/-- The settings that the arguments make up. -/
def finish (d : Draft) : Except UsageError Settings :=
  match d.path with
  | none => .error .missingPath
  | some path =>
    .ok ⟨path, d.natives, d.translations, ⟨d.mode.getD .pseudo, d.annotate, d.optimize⟩,
      d.diagnostics⟩

end Draft

/-- What the arguments ask for. -/
inductive Request where
  | help
  | version
  | decompile (settings : Settings)
  deriving DecidableEq, Repr

/-- Does the argument ask for help? -/
def isHelp (s : String) : Bool :=
  s = "-h" || s = "--help"

/-- Read the arguments of `decompile file`.  Every step takes at least one
argument, so `fuel` need not exceed their number. -/
def readFileArguments (d : Draft) : (fuel : Nat) → List String → Except UsageError Request
  | _, [] => d.finish.map .decompile
  | 0, next :: _ => .error (.unknownArgument next)
  | fuel + 1, argument :: rest =>
    if isHelp argument then .ok .help
    else match Argument.ofText argument with
      | .terminator => do
        return .decompile (← (← rest.foldlM Draft.setPath d).finish)
      | .short text => .error (.unknownArgument text)
      | .plain text => do readFileArguments (← d.setPath text) fuel rest
      | .option name value =>
        match d.setFlag? name, d.setValue? name with
        | some next, _ =>
          match value with
          | some _ => .error (.unexpectedValue name)
          | none => do readFileArguments (← next) fuel rest
        | none, some set => do
          let (value, rest) ← takeValue name value rest
          readFileArguments (← set value) fuel rest
        | none, none => .error (.unknownArgument argument)

/-- Read the arguments in front of a command, of which only `--log` may be an
option with a value, and go on with `command`.  If they end before a command,
they ask for `atEnd`. -/
def readCommand (atEnd : Except UsageError Request)
    (command : String → List String → Except UsageError Request) (logged : Bool) :
    (fuel : Nat) → List String → Except UsageError Request
  | _, [] => atEnd
  | 0, next :: _ => .error (.unknownArgument next)
  | fuel + 1, argument :: rest =>
    if isHelp argument || argument = "help" then .ok .help
    else match Argument.ofText argument with
      | .option "--log" value => do
        if logged then
          throw (.repeated "--log")
        let (_, rest) ← takeValue "--log" value rest
        readCommand atEnd command true fuel rest
      | _ => command argument rest

/-- The commands behind `decompile`. -/
def decompileCommand (name : String) (rest : List String) : Except UsageError Request :=
  if name = "file" then readFileArguments Draft.start rest.length rest
  else .error (.unknownCommand name)

/-- The commands of the program. -/
def topCommand (name : String) (rest : List String) : Except UsageError Request :=
  if name = "--version" ∨ name = "-V" then .ok .version
  else if name = "decompile" then
    readCommand (.error .missingCommand) decompileCommand false rest.length rest
  else .error (.unknownCommand name)

/-- What the arguments of the program ask for; without a command, it is help. -/
def readArguments (arguments : List String) : Except UsageError Request :=
  readCommand (.ok .help) topCommand false arguments.length arguments

end ScriptDecompiler.CommandLine
