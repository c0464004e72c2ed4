import ScriptDecompiler.Expr.Basic

/-!
# Statements
-/

namespace ScriptDecompiler

/-- A statement of a block.  Targets are addresses; `fallthrough` is where
control goes if the condition does not hold.  `declare` introduces the temporary
that holds the result of a call. -/
inductive Stmt where
  | assign (dest value : Expr)
  | declare (r : VarRef) (value : Expr)
  | expr (e : Expr)
  | ret (value : Option Expr)
  | ifGoto (condition : Expr) (target fallthrough : Nat)
  | goto (target : Nat)
  | switch (value : Expr) (cases : List (Nat × Nat))
  | asm (text : String)
  | comment (text : String)
  deriving Repr

namespace Stmt

/-- The variables that a statement reads or writes, in order and with
repetitions.  A variable that it introduces does not count. -/
def vars : Stmt → List VarRef
  | assign dest value => dest.vars ++ value.vars
  | declare _ value => value.vars
  | expr e | ret (some e) | switch e _ | ifGoto e _ _ => e.vars
  | ret none | goto _ | asm _ | comment _ => []

/-- The addresses that a statement can transfer control to. -/
def jumpTargets : Stmt → List Nat
  | ifGoto _ target fallthrough => [target, fallthrough]
  | goto target => [target]
  | switch _ cases => cases.map (·.2)
  | _ => []

end Stmt

end ScriptDecompiler
