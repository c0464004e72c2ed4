import ScriptDecompiler.Expr.Basic
import ScriptDecompiler.Text.Escape

/-!
# Expressions as text

The operands of an operator stand in parentheses if they have two operands of
their own; nothing else does.  Selecting a field or an element of `&x` is
written as selecting it from `x`.
-/

namespace ScriptDecompiler

open ScriptDecompiler.Text (quoted)

/-- A constant as text. -/
def Literal.text : Literal → String
  | int value => toString value
  | float value => value.text
  | string value => quoted value

namespace Expr

/-- The text of an operand: in parentheses if it has two operands itself. -/
def operandText (e : Expr) (text : String) : String :=
  if e.isBinary then "(" ++ text ++ ")" else text

mutual

/-- The text of an expression. -/
def render (scope : Scope) : Expr → String
  | literal value => value.text
  | var r => scope.name r
  | addressOf inner => "&" ++ inner.operandText (inner.render scope)
  | deref inner => "*" ++ inner.operandText (inner.render scope)
  | field (addressOf inner) name => inner.operandText (inner.render scope) ++ "." ++ name
  | field base name =>
    let arrow := if (base.typeIn scope).isPointer then "->" else "."
    base.operandText (base.render scope) ++ arrow ++ name
  | index (addressOf inner) i =>
    inner.operandText (inner.render scope) ++ "[" ++ i.render scope ++ "]"
  | index base i => base.operandText (base.render scope) ++ "[" ++ i.render scope ++ "]"
  | binary op lhs rhs =>
    lhs.operandText (lhs.render scope) ++ " " ++ op.symbol ++ " " ++
      rhs.operandText (rhs.render scope)
  | unary op inner => op.symbol ++ inner.operandText (inner.render scope)
  | cast ty inner => "(" ++ ty.text ++ ")" ++ inner.operandText (inner.render scope)
  | call name arguments _ =>
    name ++ "(" ++ ", ".intercalate (renderAll scope arguments) ++ ")"
  | arrayLiteral elements => "\x7b" ++ ", ".intercalate (renderAll scope elements) ++ "\x7d"
  | underflow => "<underflow>"

/-- The texts of the expressions of a list. -/
def renderAll (scope : Scope) : List Expr → List String
  | [] => []
  | e :: rest => e.render scope :: renderAll scope rest

end

end Expr

end ScriptDecompiler
