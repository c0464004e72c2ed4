import ScriptDecompiler.Machine.Explore
import ScriptDecompiler.Render.Expr
import ScriptDecompiler.Text.Escape

/-!
# Functions and units as text

The body of a function is a list of lines.  Every block starts with a label;
labels that no printed jump targets are left out in the end.  A jump to the
fall-through of a condition is left out if that block is printed next.  With
`optimize`, so is a jump at the end of a block to the block printed next.
-/

namespace ScriptDecompiler

open ScriptDecompiler.Flow (Block Graph)
open ScriptDecompiler.Text (escape hexPadded)

/-- The label of the block that starts at an address. -/
def labelText (address : Nat) : String :=
  "L_" ++ hexPadded 8 address

/-- A line of a function body.  A jump carries its condition, or its value and
cases, as text. -/
inductive Line where
  | label (address : Nat)
  | text (s : String)
  | goto (target : Nat)
  | branch (condition : String) (target : Nat)
  | switch (value : String) (cases : List (Nat × Nat))
  deriving DecidableEq, Repr

namespace Line

/-- The addresses that a line jumps to. -/
def targets : Line → List Nat
  | label _ | text _ => []
  | goto target | branch _ target => [target]
  | switch _ cases => cases.map (·.2)

/-- A line behind the indentation of a function body. -/
def indented (s : String) : String :=
  "    " ++ s ++ "\n"

/-- The text of a line, with its end. -/
def render : Line → String
  | label address => labelText address ++ ":\n"
  | text s => indented s
  | goto target => indented ("goto " ++ labelText target ++ ";")
  | branch condition target =>
    indented ("if (" ++ condition ++ ") goto " ++ labelText target ++ ";")
  | switch value cases =>
    indented ("switch (" ++ value ++ ") \x7b") ++
      String.join (cases.map fun (value, target) =>
        indented ("case " ++ value.repr ++ ": goto " ++ labelText target ++ ";")) ++
      indented "\x7d"

/-- Does the line belong into the text, if these are the targets of all jumps? -/
def isKept (targets : List Nat) : Line → Bool
  | label address => targets.contains address
  | _ => true

end Line

/-- The lines of a statement.  `next` is the block that is printed next, `used`
holds the variables that statements of the function mention. -/
def Stmt.lines (scope : Scope) (used : VarRef → Bool) (next : Option Nat) : Stmt → List Line
  | assign dest value => [.text (dest.render scope ++ " = " ++ value.render scope ++ ";")]
  | declare r value =>
    if used r then
      let declared := match scope.get? r with
        | some v => v.text
        | none => r.defaultName
      [.text (declared ++ " = " ++ value.render scope ++ ";")]
    else [.text (value.render scope ++ ";")]
  | expr e => [.text (e.render scope ++ ";")]
  | ret none => [.text "return;"]
  | ret (some value) => [.text ("return " ++ value.render scope ++ ";")]
  | ifGoto condition target fallthrough =>
    .branch (condition.render scope) target ::
      (if next = some fallthrough then [] else [.goto fallthrough])
  | goto target => [.goto target]
  | switch value cases => [.switch (value.render scope) cases]
  | asm s => [.text ("asm(\"" ++ escape s ++ "\");")]
  | comment s => [.text ("/* " ++ s ++ " */")]

/-- The lines of the statements of a block.  With `optimize`, a jump to the next
block is dropped if it is the last statement. -/
def Stmt.linesOfAll (scope : Scope) (used : VarRef → Bool) (next : Option Nat) (optimize : Bool) :
    List Stmt → List Line
  | [] => []
  | [goto target] =>
    if optimize && next = some target then [] else [.goto target]
  | s :: rest => s.lines scope used next ++ linesOfAll scope used next optimize rest

/-- The lines of a block, its label first.  A block that was not visited shows
its instructions. -/
def Flow.Block.lines (scope : Scope) (used : VarRef → Bool) (next : Option Nat) (optimize : Bool)
    (b : Block) : List Line :=
  .label b.start ::
    if b.visited then Stmt.linesOfAll scope used next optimize b.statements
    else
      .text "/* unreachable */" ::
        b.instructions.map fun i => .text ("/* asm(\"" ++ i.text ++ "\") */")

/-- The lines of blocks that are printed in the given order. -/
def Flow.Block.linesOfAll (scope : Scope) (used : VarRef → Bool) (optimize : Bool) :
    List Block → List Line
  | [] => []
  | b :: rest =>
    b.lines scope used (rest.head?.map (·.start)) optimize ++ linesOfAll scope used optimize rest

namespace Flow.Function

/-- The variables that the statements of a function mention. -/
def usedVars (f : Function) : List VarRef :=
  f.graph.blocks.flatMap fun b => b.statements.flatMap Stmt.vars

/-- What can be seen from a function. -/
def scope (f : Function) (globals : Globals) : Scope where
  get?
    | .slot index => f.frame.slot? index
    | .temp index => f.frame.temporaries[index]?
    | .static index => globals.statics.get? index
    | .global index => globals.globals.get? index

/-- The lines of the body of a function, before labels are left out. -/
def bodyLines (f : Function) (globals : Globals) (optimize : Bool) : List Line :=
  let used := f.usedVars
  Block.linesOfAll (f.scope globals) used.contains optimize f.graph.blocks

/-- The lines of the body of a function that are printed. -/
def printedLines (f : Function) (globals : Globals) (optimize : Bool) : List Line :=
  let lines := f.bodyLines globals optimize
  let targets := lines.flatMap Line.targets
  lines.filter (Line.isKept targets)

/-- The first line of a function. -/
def header (f : Function) : String :=
  f.frame.result.ty.text ++ " " ++ f.frame.name ++ "(" ++
    ", ".intercalate (f.frame.arguments.toList.map (·.text)) ++ ") \x7b\n"

/-- The declarations of the locals that a function uses. -/
def localLines (f : Function) : List String :=
  let used := f.usedVars
  (f.frame.locals.toList.filter fun v => used.contains (.slot v.index)).map fun v =>
    Line.indented (v.text ++ ";")

/-- A function as text. -/
def render (f : Function) (globals : Globals) (optimize : Bool) : String :=
  f.header ++ String.join f.localLines ++
    String.join ((f.printedLines globals optimize).map Line.render) ++ "\x7d\n"

end Flow.Function

namespace Globals

/-- The declaration of a static, with its initial value unless that is zero. -/
def staticLine (v : Variable) : String :=
  match v.initial with
  | some value =>
    if value = 0 then "static " ++ v.text ++ ";\n"
    else "static " ++ v.text ++ " = " ++ toString value ++ ";\n"
  | none => "static " ++ v.text ++ ";\n"

/-- The declaration of a global. -/
def globalLine (v : Variable) : String :=
  "extern " ++ v.text ++ ";\n"

/-- The declarations of the statics and globals, by index. -/
def declarations (g : Globals) : List String :=
  g.statics.values.map staticLine ++ g.globals.values.map globalLine

end Globals

/-- A unit as text: its declarations, and its functions, with a blank line in
front of every function that is not at the start. -/
def renderUnit (functions : List Flow.Function) (globals : Globals) (optimize : Bool) : String :=
  functions.foldl (fun out f =>
    let separated := if out.isEmpty then out else out ++ "\n"
    separated ++ f.render globals optimize) (String.join globals.declarations)

end ScriptDecompiler
