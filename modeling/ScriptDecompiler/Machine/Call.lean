import ScriptDecompiler.Machine.Fault
import ScriptDecompiler.Native.Hash

/-!
# Calls and returns

A call takes its arguments off the stack.  Types flow both ways: from an
argument to a parameter that is not known yet, otherwise from the parameter to
the variable behind the argument.  A call with a result declares a temporary,
whose slots are pushed.
-/

namespace ScriptDecompiler.Machine

open ScriptDecompiler.Bytecode (Instruction)

namespace Replay

/-- Add a call.  A result becomes a fresh temporary, whose slots are pushed. -/
def emitCall (c : Context) (name : String) (arguments : List Expr) (result : Ty) :
    Replay Unit := do
  let call := Expr.call name arguments result
  if result.footprint = 0 then
    emit (.expr call)
  else
    let index := ((← get).store.frames[c.current]?.map (·.temporaries.size)).getD 0
    let temp := VarRef.temp index
    modifyStore (·.modifyFrame c.current (·.addTemp result))
    emit (.declare temp call)
    if result.footprint = 1 then
      push (.var temp)
    else
      pushAll (result.explode (.var temp) result.footprint)

/-- Match one argument with parameter `index` of function `callee`. -/
def passArgument (c : Context) (address callee index : Nat) (argument : Expr) :
    Replay Unit := do
  match (← get).store.frames[callee]?.bind (·.arguments[index]?) with
  | none => pure ()
  | some parameter =>
    if parameter.ty.isUnknown then
      let ty ← typeOf c argument
      modifyStore (·.modifyFrame callee fun f =>
        { f with arguments := f.arguments.modify index fun v => (v.infer ty).1 })
    else
      infer c address argument parameter.ty

/-- Match the arguments of a call with the parameters of function `callee`, from
parameter `index` on. -/
def passArguments (c : Context) (address callee : Nat) : (index : Nat) → List Expr → Replay Unit
  | _, [] => pure ()
  | index, argument :: rest => do
    passArgument c address callee index argument
    passArguments c address callee (index + 1) rest

/-- Call the function that starts at `target`. -/
def callFunction (c : Context) (address target : Nat) : Replay Unit := do
  let frames := (← get).store.frames
  match functionAt? frames target with
  | none => pure ()
  | some callee =>
    let count := (frames[callee]?.map (·.arguments.size)).getD 0
    let arguments ← popMany c address count
    passArguments c address callee 0 arguments
    -- The call may be to the current function, so its frame is read afresh.
    match (← get).store.frames[callee]? with
    | none => pure ()
    | some frame => emitCall c frame.name arguments frame.result.ty

/-- Pop the arguments for the given parameters, the first parameter first.  One
slot is taken as it is, several are put together, and a parameter without slots
has no argument. -/
def popArguments (c : Context) (address : Nat) : List Native.Parameter → Replay (List Expr)
  | [] => return []
  | parameter :: rest => do
    -- The last parameter is on top of the stack.
    let later ← popArguments c address rest
    match parameter.ty.footprint with
    | 0 => return later
    | 1 => return (← pop c address) :: later
    | size => return .arrayLiteral (← popMany c address size) :: later

/-- Match the arguments of a native with its parameters.  With `rename`, a
temporary that is an argument is named after the parameter. -/
def matchParameters (c : Context) (address : Nat) (rename : Bool) :
    List (Expr × Native.Parameter) → Replay Unit
  | [] => pure ()
  | (argument, parameter) :: rest => do
    infer c address argument parameter.ty
    match rename, argument with
    | true, .var (.temp index) =>
      modifyStore (·.modifyFrame c.current (·.renameTemp index parameter.name))
    | _, _ => pure ()
    matchParameters c address rename rest

/-- The signature to use at a call site, and whether its parameter names say
something.  A signature whose slots do not agree with the call site is replaced
by one that does; both this and a missing signature are reported. -/
def signatureFor (c : Context) (address : Nat) (hash : UInt64) (inSlots outSlots : Nat) :
    Replay (Native.Signature × Bool) := do
  let resolved := c.natives.resolve hash inSlots outSlots
  let signature := resolved.signature
  if resolved.synthesized then
    diagnose c address (.synthesizedNative hash signature.name)
    return (signature, false)
  else if signature.inSlots ≠ inSlots ∨ signature.outSlots ≠ outSlots then
    diagnose c address
      (.nativeArityMismatch signature.name signature.inSlots signature.outSlots inSlots outSlots)
    return (Native.Signature.synthesize signature.name inSlots outSlots, false)
  else
    return (signature, true)

/-- Call entry `index` of the native table. -/
def callNative (c : Context) (address inSlots outSlots index : Nat) : Replay Unit := do
  match c.unit.natives[index]? with
  | none => pure ()
  | some raw =>
    let hash := Native.unmangle raw c.unit.codeLength index
    let (signature, rename) ← signatureFor c address hash inSlots outSlots
    let arguments ← popArguments c address signature.parameters
    let taken := signature.parameters.filter (0 < ·.ty.footprint)
    matchParameters c address rename (arguments.zip taken)
    emitCall c signature.name arguments signature.result

/-- Observe the type of the current function's result; a conflict is reported. -/
def inferResult (c : Context) (address : Nat) (ty : Ty) : Replay Unit := do
  match (← get).store.frames[c.current]? with
  | none => pure ()
  | some frame =>
    let (inferred, outcome) := frame.result.infer ty
    modifyStore (·.modifyFrame c.current ({ · with result := inferred }))
    match outcome with
    | .conflict existing found =>
      diagnose c address (.typeConflict inferred.identifier existing.text found.text)
    | _ => pure ()

/-- Return from the current function, with one value or with none. -/
def returnValues (c : Context) (address values : Nat) : Replay Unit := do
  if values = 0 then
    inferResult c address .void
    emit (.ret none)
  else
    let value ← pop c address
    inferResult c address (← typeOf c value)
    emit (.ret (some value))

end Replay

end ScriptDecompiler.Machine
