import ScriptDecompiler.Ty.Basic

/-!
# Signatures of natives
-/

namespace ScriptDecompiler.Native

/-- A parameter of a native. -/
structure Parameter where
  name : String
  ty : Ty
  deriving DecidableEq, Repr

/-- What is known about a native. -/
structure Signature where
  name : String
  jhash : Option String
  parameters : List Parameter
  result : Ty
  deriving DecidableEq, Repr

namespace Signature

/-- A signature that states no more than a call site shows. -/
def synthesize (name : String) (inSlots outSlots : Nat) : Signature where
  name := name
  jhash := none
  parameters := (List.range inSlots).map fun i => ⟨"arg" ++ i.repr, .unknown⟩
  result := match outSlots with
    | 0 => .void
    | 1 => .unknown
    | n => .array .unknown n

/-- How many slots the parameters take. -/
def inSlots (s : Signature) : Nat :=
  s.parameters.foldr (fun p slots => p.ty.footprint + slots) 0

/-- How many slots the result takes. -/
def outSlots (s : Signature) : Nat :=
  s.result.footprint

end Signature

end ScriptDecompiler.Native
