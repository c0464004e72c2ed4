import ScriptDecompiler.Bytecode.Decode
import ScriptDecompiler.Listing
import ScriptDecompiler.Render.Function

/-!
# Decompiling a unit

The code of a unit is decoded; then it is either listed as it is, or replayed
and printed as statements.
-/

namespace ScriptDecompiler

/-- What is made of a unit. -/
inductive Mode where
  | pseudo
  | disasm
  deriving DecidableEq, Repr

/-- How a unit is decompiled. -/
structure Options where
  mode : Mode
  annotate : Bool
  optimize : Bool
  deriving DecidableEq, Repr

/-- A decompiled unit. -/
structure Decompilation where
  text : String
  diagnostics : List Diagnostic
  deriving DecidableEq, Repr

/-- Why a unit cannot be decompiled. -/
inductive DecompileError where
  | decode (error : Bytecode.DecodeError)
  | fault (fault : Machine.Fault)
  deriving DecidableEq, Repr

/-- The wording of a failure. -/
def DecompileError.message : DecompileError → String
  | decode error => error.message
  | fault f => f.message

namespace ScriptUnit

/-- The instructions of a unit. -/
def instructions (u : ScriptUnit) : Except Bytecode.DecodeError (List Bytecode.Instruction) :=
  Bytecode.decodeCode u.code u.codeLength

/-- The program of a unit before anything is replayed. -/
def program (u : ScriptUnit) (instructions : List Bytecode.Instruction) : Machine.Program :=
  let (functions, diagnostics) := Flow.buildFunctions instructions
  Machine.Program.ofFunctions functions diagnostics u.statics

/-- Decompile a unit. -/
def decompile (u : ScriptUnit) (natives : Native.Database) (options : Options) :
    Except DecompileError Decompilation :=
  match u.instructions with
  | .error e => .error (.decode e)
  | .ok instructions =>
    match options.mode with
    | .disasm => .ok ⟨Listing.render u natives instructions, []⟩
    | .pseudo =>
      match (u.program instructions).run u natives options.annotate with
      | (some fault, _) => .error (.fault fault)
      | (none, p) =>
        .ok ⟨renderUnit p.functions p.store.globals options.optimize, p.store.diagnostics.toList⟩

end ScriptUnit

end ScriptDecompiler
