import ScriptDecompiler.Expr.Explode
import ScriptDecompiler.Native.Database
import ScriptDecompiler.Render.Expr
import ScriptDecompiler.ScriptUnit
import ScriptDecompiler.Stmt
import ScriptDecompiler.Store

/-!
# The state of a replay

A block is replayed on a symbolic operand stack.  The stack has its top first;
lists of values that are pushed or popped together are in push order, the top
last.  A value that is missing is replaced by a placeholder and reported.
-/

namespace ScriptDecompiler.Machine

/-- What a replay works with and does not change: the unit, the database of
natives, whether instructions are annotated, and the index of the function. -/
structure Context where
  unit : ScriptUnit
  natives : Native.Database
  annotate : Bool
  current : Nat

/-- What a replay changes: the store, the operand stack with its top first, and
the statements so far. -/
structure State where
  store : Store
  stack : List Expr
  emitted : Array Stmt

/-- A part of a replay that returns a value of type `α`. -/
abbrev Replay (α : Type) := StateM State α

namespace Replay

/-- Change the store. -/
def modifyStore (change : Store → Store) : Replay Unit :=
  modify fun s => { s with store := change s.store }

/-- Add a statement. -/
def emit (statement : Stmt) : Replay Unit :=
  modify fun s => { s with emitted := s.emitted.push statement }

/-- Push values, the last one ending on top. -/
def pushAll (values : List Expr) : Replay Unit :=
  modify fun s => { s with stack := values.reverse ++ s.stack }

/-- Push a value. -/
def push (value : Expr) : Replay Unit :=
  modify fun s => { s with stack := value :: s.stack }

/-- Add a diagnostic about the current function. -/
def diagnose (c : Context) (address : Nat) (kind : DiagnosticKind) : Replay Unit :=
  modifyStore (·.diagnose c.current address kind)

/-- What can be seen from the current function. -/
def scope (c : Context) : Replay Scope :=
  return (← get).store.scope c.current

/-- The type of an expression at this point. -/
def typeOf (c : Context) (e : Expr) : Replay Ty :=
  return e.typeIn (← scope c)

/-- Bring a variable into being. -/
def touch (c : Context) (r : VarRef) : Replay Unit :=
  modifyStore (·.touch c.current r)

/-- Pop a value. -/
def pop (c : Context) (address : Nat) : Replay Expr := do
  match (← get).stack with
  | top :: rest =>
    modify fun s => { s with stack := rest }
    return top
  | [] =>
    diagnose c address .stackUnderflow
    return .underflow

/-- The topmost value, which stays where it is. -/
def peek (c : Context) (address : Nat) : Replay Expr := do
  match (← get).stack with
  | top :: _ => return top
  | [] =>
    diagnose c address .stackUnderflow
    return .underflow

/-- Pop `count` values.  Missing ones are at the bottom, and reported once. -/
def popMany (c : Context) (address count : Nat) : Replay (List Expr) := do
  let popped := (← get).stack.take count
  modify fun s => { s with stack := s.stack.drop count }
  if popped.length < count then
    diagnose c address .stackUnderflow
    return List.replicate (count - popped.length) .underflow ++ popped.reverse
  else
    return popped.reverse

/-- Pop a length.  Anything but a constant that is not negative is reported. -/
def popLength (c : Context) (address : Nat) : Replay (Option Nat) := do
  let e ← pop c address
  match e.integer? with
  | some (.ofNat length) => return some length
  | _ =>
    diagnose c address (.nonImmediateLength (e.render (← scope c)))
    return none

/-- A length, or the limit if it is greater, which is reported. -/
def bound (c : Context) (address length limit : Nat) : Replay Nat := do
  if length ≤ limit then
    return length
  else
    diagnose c address (.lengthOutOfRange length limit)
    return limit

/-- Pass the knowledge that `e` has type `ty` down to the variable at the root
of its address-of and dereference nodes. -/
def infer (c : Context) (address : Nat) (e : Expr) (ty : Ty) : Replay Unit :=
  if ty.isUnknown then pure ()
  else match e with
    | .var r => modifyStore (·.inferVariable c.current address r ty)
    | .addressOf inner => infer c address inner ty.throughPointer
    | .deref inner => infer c address inner (.pointer ty)
    | _ => pure ()

/-- Add an assignment, after passing the type of the value on to what it is
assigned to. -/
def assign (c : Context) (address : Nat) (dest value : Expr) : Replay Unit := do
  infer c address dest (← typeOf c value)
  emit (.assign dest value)

end Replay

end ScriptDecompiler.Machine
