import ScriptDecompiler.Expr.Basic

/-!
# The value of an expression

Integers are the values.  A comparison is 0 or 1 and `!` is logical; the meaning
of everything else is a parameter.
-/

namespace ScriptDecompiler

/-- Truth as an integer. -/
def truth (p : Prop) [Decidable p] : Int := if p then 1 else 0

theorem truth_ne_zero_iff {p : Prop} [Decidable p] : truth p ≠ 0 ↔ p := by
  unfold truth
  by_cases hp : p <;> simp [hp]

theorem truth_eq_zero_iff {p : Prop} [Decidable p] : truth p = 0 ↔ ¬p := by
  unfold truth
  by_cases hp : p <;> simp [hp]

/-- What the parts of an expression mean.  `other` is the meaning of the forms
that do not compute: addresses, fields, elements, calls, and placeholders. -/
structure Meaning where
  literal : Literal → Int
  var : VarRef → Int
  arithmetic : BinaryOp → Int → Int → Int
  negation : Int → Int
  cast : Ty → Int → Int
  other : Expr → Int

namespace Meaning

/-- The meaning of an operator with two operands. -/
def binary (M : Meaning) (op : BinaryOp) (left right : Int) : Int :=
  match op with
  | .eq => truth (left = right)
  | .ne => truth (left ≠ right)
  | .gt => truth (left > right)
  | .ge => truth (left ≥ right)
  | .lt => truth (left < right)
  | .le => truth (left ≤ right)
  | op => M.arithmetic op left right

/-- The meaning of an operator with one operand. -/
def unary (M : Meaning) (op : UnaryOp) (value : Int) : Int :=
  match op with
  | .not => truth (value = 0)
  | .neg => M.negation value

/-- The negated comparison holds exactly when the comparison does not. -/
theorem binary_negated {op opposite : BinaryOp} (h : op.negated? = some opposite) (M : Meaning)
    (left right : Int) : M.binary opposite left right ≠ 0 ↔ M.binary op left right = 0 := by
  cases op <;> cases h <;> rw [binary, binary, truth_ne_zero_iff, truth_eq_zero_iff] <;> omega

end Meaning

namespace Expr

/-- The value of an expression. -/
def eval (M : Meaning) : Expr → Int
  | literal v => M.literal v
  | var r => M.var r
  | binary op left right => M.binary op (left.eval M) (right.eval M)
  | unary op inner => M.unary op (inner.eval M)
  | cast ty inner => M.cast ty (inner.eval M)
  | e => M.other e

/-- The negation of an expression is true exactly when the expression is not. -/
theorem eval_negate (M : Meaning) (e : Expr) : e.negate.eval M ≠ 0 ↔ e.eval M = 0 := by
  have hnot : ∀ inner : Expr, (unary .not inner).eval M = truth (inner.eval M = 0) := fun _ => rfl
  unfold negate
  split
  · rename_i op left right
    split
    · rename_i opposite hopposite
      exact Meaning.binary_negated hopposite M _ _
    · rw [hnot, truth_ne_zero_iff]
  · rw [hnot, truth_eq_zero_iff]
  · rw [hnot, truth_ne_zero_iff]

end Expr

end ScriptDecompiler
