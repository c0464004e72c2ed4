import ScriptDecompiler.Number.Binary32
import ScriptDecompiler.Variable

/-!
# Expressions

Expressions stand on the symbolic operand stack and in statements.  This module
holds their shape, their types in a scope, and the variables they mention.
-/

namespace ScriptDecompiler

open ScriptDecompiler.Number (Binary32)

/-- A constant. -/
inductive Literal where
  | int (value : Int)
  | float (value : Binary32)
  | string (value : String)
  deriving DecidableEq, Repr

/-- An operator with two operands. -/
inductive BinaryOp where
  | add | sub | mul | div | mod | and | or | xor
  | eq | ne | gt | ge | lt | le
  deriving DecidableEq, Repr

namespace BinaryOp

/-- How an operator is written. -/
def symbol : BinaryOp → String
  | add => "+"
  | sub => "-"
  | mul => "*"
  | div => "/"
  | mod => "%"
  | and => "&"
  | or => "|"
  | xor => "^"
  | eq => "=="
  | ne => "!="
  | gt => ">"
  | ge => ">="
  | lt => "<"
  | le => "<="

/-- The comparison that holds exactly when this one does not. -/
def negated? : BinaryOp → Option BinaryOp
  | eq => some ne
  | ne => some eq
  | gt => some le
  | ge => some lt
  | lt => some ge
  | le => some gt
  | _ => none

/-- Does the operator compare its operands? -/
def isComparison (op : BinaryOp) : Bool :=
  op.negated?.isSome

end BinaryOp

/-- An operator with one operand. -/
inductive UnaryOp where
  | not | neg
  deriving DecidableEq, Repr

/-- How an operator is written. -/
def UnaryOp.symbol : UnaryOp → String
  | not => "!"
  | neg => "-"

/-- An expression.  `underflow` stands in for a value taken from an empty
stack. -/
inductive Expr where
  | literal (value : Literal)
  | var (r : VarRef)
  | addressOf (inner : Expr)
  | deref (inner : Expr)
  | field (base : Expr) (name : String)
  | index (base index : Expr)
  | binary (op : BinaryOp) (lhs rhs : Expr)
  | unary (op : UnaryOp) (inner : Expr)
  | cast (ty : Ty) (inner : Expr)
  | call (name : String) (arguments : List Expr) (result : Ty)
  | arrayLiteral (elements : List Expr)
  | underflow
  deriving Repr

instance : Inhabited Expr := ⟨.underflow⟩

namespace Expr

/-- An integer constant. -/
def int (value : Int) : Expr := literal (.int value)

/-- Element `i` of `base`. -/
def element (base : Expr) (i : Nat) : Expr := index base (int i)

/-- The value of an integer constant. -/
def integer? : Expr → Option Int
  | literal (.int value) => some value
  | _ => none

/-- Is the expression an operator between two operands? -/
def isBinary : Expr → Bool
  | binary .. => true
  | _ => false

/-- What a pointer expression points to; `&x` points to `x`. -/
def dereference : Expr → Expr
  | addressOf inner => inner
  | e => deref e

/-- The logical negation.  Comparisons are turned round and a negation is taken
away. -/
def negate : Expr → Expr
  | binary op lhs rhs =>
    match op.negated? with
    | some opposite => binary opposite lhs rhs
    | none => unary .not (binary op lhs rhs)
  | unary .not inner => inner
  | e => unary .not e

/-- The type of an expression, as far as it is known. -/
def typeIn (scope : Scope) : Expr → Ty
  | literal (.int _) => .int
  | literal (.float _) => .float
  | literal (.string _) => .string
  | var r =>
    match scope.get? r with
    | some v => v.ty
    | none => .unknown
  | addressOf inner => .pointer (inner.typeIn scope)
  | deref inner => (inner.typeIn scope).pointee?.getD .unknown
  | field base name =>
    match (base.typeIn scope).throughPointer with
    | .struct _ fields => (fields.type? name).getD .unknown
    | _ => .unknown
  | index base _ =>
    match (base.typeIn scope).throughPointer with
    | .array element _ => element
    | _ => .unknown
  | binary op lhs rhs =>
    if op.isComparison then .bool
    else
      let left := lhs.typeIn scope
      if left.isUnknown then rhs.typeIn scope else left
  | unary .not _ => .bool
  | unary .neg inner => inner.typeIn scope
  | cast ty _ => ty
  | call _ _ result => result
  | arrayLiteral [] => .array .unknown 0
  | arrayLiteral (first :: rest) => .array (first.typeIn scope) (rest.length + 1)
  | underflow => .unknown

mutual

/-- The variables that an expression mentions, from left to right and with
repetitions. -/
def vars : Expr → List VarRef
  | literal _ | underflow => []
  | var r => [r]
  | addressOf inner | deref inner | field inner _ | unary _ inner | cast _ inner => inner.vars
  | index base i => base.vars ++ i.vars
  | binary _ lhs rhs => lhs.vars ++ rhs.vars
  | call _ arguments _ => varsOfAll arguments
  | arrayLiteral elements => varsOfAll elements

/-- The variables that the expressions of a list mention. -/
def varsOfAll : List Expr → List VarRef
  | [] => []
  | e :: rest => e.vars ++ varsOfAll rest

end

end Expr

end ScriptDecompiler
