import ScriptDecompiler.Diagnostic
import ScriptDecompiler.Table
import ScriptDecompiler.Variable

/-!
# Frames, globals and the store

A frame holds the variables of one function.  Its slots are the arguments,
followed by the locals; there is no end of locals, the missing ones are added
when they are first named.  The statics and globals belong to the unit.  A store
holds the frames of all functions, the unit's variables, and the diagnostics so
far: everything about variables that may change while code is replayed.
-/

namespace ScriptDecompiler

/-- The variables of a function. -/
structure Frame where
  address : Nat
  name : String
  arguments : Array Variable
  locals : Array Variable
  temporaries : Array Variable
  result : Variable
  deriving DecidableEq, Repr

namespace Frame

/-- A variable for frame slot `index`. -/
def freshSlot (kind : VarKind) (index : Nat) : Variable :=
  Variable.fresh index (VarRef.slot index).defaultName kind

/-- The frame of a function that declares `arguments` of its `slots` slots to be
arguments. -/
def declare (address : Nat) (name : String) (arguments slots : Nat) : Frame where
  address := address
  name := name
  arguments := ((List.range arguments).map (freshSlot .argument)).toArray
  locals := ((List.range' arguments (slots - arguments)).map (freshSlot .slot)).toArray
  temporaries := #[]
  result := Variable.fresh 0 name .result

/-- The variable in a frame slot. -/
def slot? (f : Frame) (index : Nat) : Option Variable :=
  if index < f.arguments.size then f.arguments[index]?
  else f.locals[index - f.arguments.size]?

/-- Add the locals that are missing up to frame slot `index`. -/
def growSlots (f : Frame) (index : Nat) : Frame :=
  let present := f.arguments.size + f.locals.size
  { f with
    locals := f.locals ++
      ((List.range' present (index + 1 - present)).map (freshSlot .slot)).toArray }

/-- Put a variable into an existing frame slot. -/
def setSlot (f : Frame) (index : Nat) (v : Variable) : Frame :=
  if index < f.arguments.size then { f with arguments := f.arguments.setIfInBounds index v }
  else { f with locals := f.locals.setIfInBounds (index - f.arguments.size) v }

/-- A temporary that holds a value of type `ty`. -/
def freshTemp (ty : Ty) (index : Nat) : Variable :=
  { Variable.fresh index (VarRef.temp index).defaultName .temporary with ty := ty, locked := true }

/-- Add a temporary that holds a value of type `ty`. -/
def addTemp (f : Frame) (ty : Ty) : Frame :=
  { f with temporaries := f.temporaries.push (freshTemp ty f.temporaries.size) }

/-- Add the temporaries that are missing up to `index`. -/
def growTemps (f : Frame) (index : Nat) : Frame :=
  let present := f.temporaries.size
  { f with
    temporaries := f.temporaries ++
      ((List.range' present (index + 1 - present)).map (freshTemp .unknown)).toArray }

/-- Does a variable of the function have this name? -/
def isTaken (f : Frame) (name : String) : Bool :=
  f.arguments.any (·.identifier == name) || f.locals.any (·.identifier == name) ||
    f.temporaries.any (·.identifier == name)

/-- Name an existing temporary.  If the name is taken, its index is added. -/
def renameTemp (f : Frame) (index : Nat) (name : String) : Frame :=
  let identifier := if f.isTaken name then name ++ "_" ++ index.repr else name
  { f with temporaries := f.temporaries.modify index ({ · with identifier := identifier }) }

end Frame

/-- The statics and globals of a unit, by index. -/
structure Globals where
  statics : Table Variable
  globals : Table Variable

namespace Globals

/-- A static about which nothing is known. -/
def freshStatic (index : Nat) : Variable :=
  Variable.fresh index (VarRef.static index).defaultName .static

/-- A global about which nothing is known. -/
def freshGlobal (index : Nat) : Variable :=
  Variable.fresh index (VarRef.global index).defaultName .global

/-- One static for each initial value, an integer for the time being. -/
def ofStatics (values : List Int) : Globals where
  statics := values.zipIdx.foldr (fun (value, index) t =>
    t.insert index { freshStatic index with ty := .int, initial := some value }) Table.empty
  globals := Table.empty

end Globals

/-- The variables of all functions and of the unit, and the diagnostics. -/
structure Store where
  frames : Array Frame
  globals : Globals
  diagnostics : Array Diagnostic

namespace Store

/-- The variable that a reference in function `current` denotes. -/
def get? (s : Store) (current : Nat) : VarRef → Option Variable
  | .slot index => s.frames[current]?.bind (·.slot? index)
  | .temp index => s.frames[current]?.bind (·.temporaries[index]?)
  | .static index => s.globals.statics.get? index
  | .global index => s.globals.globals.get? index

/-- What can be seen from function `current`. -/
def scope (s : Store) (current : Nat) : Scope := ⟨s.get? current⟩

/-- Change the frame of function `current`. -/
def modifyFrame (s : Store) (current : Nat) (change : Frame → Frame) : Store :=
  { s with frames := s.frames.modify current change }

/-- Put a static in place. -/
def setStatic (s : Store) (index : Nat) (v : Variable) : Store :=
  { s with globals := { s.globals with statics := s.globals.statics.insert index v } }

/-- Put a global in place. -/
def setGlobal (s : Store) (index : Nat) (v : Variable) : Store :=
  { s with globals := { s.globals with globals := s.globals.globals.insert index v } }

/-- Bring the variable that a reference denotes into being, if it is not there. -/
def touch (s : Store) (current : Nat) : VarRef → Store
  | .slot index => s.modifyFrame current (·.growSlots index)
  | .temp index => s.modifyFrame current (·.growTemps index)
  | .static index =>
    match s.globals.statics.get? index with
    | some _ => s
    | none => s.setStatic index (Globals.freshStatic index)
  | .global index =>
    match s.globals.globals.get? index with
    | some _ => s
    | none => s.setGlobal index (Globals.freshGlobal index)

/-- Put a variable in the place of the one that a reference denotes. -/
def setVariable (s : Store) (current : Nat) (v : Variable) : VarRef → Store
  | .slot index => s.modifyFrame current (·.setSlot index v)
  | .temp index =>
    s.modifyFrame current fun f => { f with temporaries := f.temporaries.setIfInBounds index v }
  | .static index => s.setStatic index v
  | .global index => s.setGlobal index v

/-- Add a diagnostic about function `current`. -/
def diagnose (s : Store) (current address : Nat) (kind : DiagnosticKind) : Store :=
  { s with
    diagnostics := s.diagnostics.push ⟨s.frames[current]?.map (·.name), some address, kind⟩ }

/-- Observe the type of the variable that a reference denotes; a conflict is
reported.  The variable is brought into being first. -/
def inferVariable (s : Store) (current address : Nat) (r : VarRef) (ty : Ty) : Store :=
  let touched := s.touch current r
  match touched.get? current r with
  | none => touched
  | some v =>
    let (inferred, outcome) := v.infer ty
    let updated := touched.setVariable current inferred r
    match outcome with
    | .conflict existing found =>
      updated.diagnose current address (.typeConflict v.identifier existing.text found.text)
    | _ => updated

end Store

end ScriptDecompiler
