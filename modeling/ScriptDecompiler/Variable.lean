import ScriptDecompiler.Ty.Basic

/-!
# Variables and what is inferred about them

A variable is named by a reference: a frame slot (arguments included), a static
or a global of the unit, or a temporary of the function.  Its type starts out
open; the first concrete observation locks it, and from then on only unknown
parts may be filled in.
-/

namespace ScriptDecompiler

/-- A reference to a variable. -/
inductive VarRef where
  | slot (index : Nat)
  | static (index : Nat)
  | global (index : Nat)
  | temp (index : Nat)
  deriving DecidableEq, Repr

/-- The name of a variable that has got no other one. -/
def VarRef.defaultName : VarRef → String
  | slot index => "local_" ++ index.repr
  | static index => "static_" ++ index.repr
  | global index => "global_" ++ index.repr
  | temp index => "temp_" ++ index.repr

/-- The part that a variable plays. -/
inductive VarKind where
  | argument | slot | static | global | temporary | result
  deriving DecidableEq, Repr

/-- What an observation of a variable's type led to. -/
inductive Inference where
  | unchanged
  | refined
  | conflict (existing inferred : Ty)
  deriving DecidableEq, Repr

/-- A variable.  `locked` is set once a concrete type has been observed. -/
structure Variable where
  index : Nat
  identifier : String
  ty : Ty
  kind : VarKind
  locked : Bool
  initial : Option Int
  deriving DecidableEq, Repr

namespace Variable

/-- A variable about which nothing is known. -/
def fresh (index : Nat) (identifier : String) (kind : VarKind) : Variable :=
  ⟨index, identifier, .unknown, kind, false, none⟩

/-- Observe that the variable holds a value of type `ty`.  The unknown type says
nothing.  An open variable takes the type over; a locked one accepts only what
it can be merged with, and is left alone otherwise. -/
def infer (v : Variable) (ty : Ty) : Variable × Inference :=
  if ty.isUnknown then (v, .unchanged)
  else if !v.locked then
    if v.ty = ty then ({ v with locked := true }, .unchanged)
    else ({ v with locked := true, ty := ty }, .refined)
  else
    match v.ty.merge ty with
    | some merged =>
      if merged = v.ty then (v, .unchanged) else ({ v with ty := merged }, .refined)
    | none => (v, .conflict v.ty ty)

/-- A variable as declarations show it: its type and its name. -/
def text (v : Variable) : String :=
  v.ty.text ++ " " ++ v.identifier

end Variable

/-- The variables that can be seen from some place. -/
structure Scope where
  get? : VarRef → Option Variable

/-- The name of a variable; one that cannot be seen has its default name. -/
def Scope.name (scope : Scope) (r : VarRef) : String :=
  match scope.get? r with
  | some v => v.identifier
  | none => r.defaultName

end ScriptDecompiler
