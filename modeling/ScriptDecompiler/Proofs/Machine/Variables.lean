import Mathlib.Logic.Function.Basic
import ScriptDecompiler.Proofs.Machine.Direct
import ScriptDecompiler.Stmt

/-!
# Variables that change

The machine that runs on numbers is given variables to store into.  Variables have
addresses, and a load or store through a pointer goes to the variable at the address on
the stack.  The statements that assign to variables are executed on the same variables;
jumps and returns leave them alone.

The value of an expression depends on the variables that it reads only.  Taking the
address of a variable does not read it.
-/

namespace ScriptDecompiler

open ScriptDecompiler.Bytecode (Instruction Operation opcodeInfo)

-- The opcode table is too large to be unfolded whenever terms are compared.
attribute [local irreducible] opcodeInfo

namespace Expr

mutual

/-- The variables that an expression mentions other than by taking their address. -/
def reads : Expr → List VarRef
  | literal _ | underflow | addressOf (var _) => []
  | var r => [r]
  | addressOf inner | deref inner | field inner _ | unary _ inner | cast _ inner => inner.reads
  | index base i => base.reads ++ i.reads
  | binary _ lhs rhs => lhs.reads ++ rhs.reads
  | call _ arguments _ => readsOfAll arguments
  | arrayLiteral elements => readsOfAll elements

/-- The variables that the expressions of a list read. -/
def readsOfAll : List Expr → List VarRef
  | [] => []
  | e :: rest => e.reads ++ readsOfAll rest

end

end Expr

/-- What expressions mean, whatever the values of variables are.  The forms that do not
compute have the same meaning wherever the variables that they read have the same values,
and the address of a variable can be told from those of the others. -/
structure Domain where
  literal : Literal → Int
  arithmetic : BinaryOp → Int → Int → Int
  negation : Int → Int
  cast : Ty → Int → Int
  other : (VarRef → Int) → Expr → Int
  address : VarRef → Int
  variableAt? : Int → Option VarRef
  other_congr : ∀ {vars vars' : VarRef → Int} {e : Expr},
    (∀ r ∈ e.reads, vars r = vars' r) → other vars e = other vars' e
  other_addressOf : ∀ vars r, other vars (.addressOf (.var r)) = address r
  variableAt?_address : ∀ r, variableAt? (address r) = some r

namespace Domain

/-- The meaning of expressions when the variables have the given values. -/
def meaning (D : Domain) (vars : VarRef → Int) : Meaning where
  literal := D.literal
  var := vars
  arithmetic := D.arithmetic
  negation := D.negation
  cast := D.cast
  other := D.other vars

/-- An expression has the same value wherever the variables that it reads have. -/
theorem eval_congr (D : Domain) {vars vars' : VarRef → Int} {e : Expr}
    (h : ∀ r ∈ e.reads, vars r = vars' r) : e.eval (D.meaning vars) = e.eval (D.meaning vars') := by
  induction e using Expr.eval.induct with
  | case1 => rfl
  | case2 r => exact h r (by simp [Expr.reads])
  | case3 op left right ihleft ihright =>
      rw [Expr.reads] at h
      rw [Expr.eval, Expr.eval, ihleft fun r hr => h r (List.mem_append_left _ hr),
        ihright fun r hr => h r (List.mem_append_right _ hr)]
      rfl
  | case4 op inner ih =>
      rw [Expr.reads] at h
      rw [Expr.eval, Expr.eval, ih h]
      rfl
  | case5 ty inner ih =>
      rw [Expr.reads] at h
      rw [Expr.eval, Expr.eval, ih h]
      rfl
  | case6 e hliteral hvar hbinary hunary hcast =>
      rw [Expr.eval, Expr.eval]
      · exact D.other_congr h
      all_goals assumption

/-- The address of a variable leads to the variable. -/
theorem variableAt?_eval (D : Domain) (vars : VarRef → Int) (r : VarRef) :
    D.variableAt? ((Expr.addressOf (.var r)).eval (D.meaning vars)) = some r := by
  show D.variableAt? (D.other vars _) = some r
  rw [D.other_addressOf, D.variableAt?_address]

/-- A cell of memory for every variable: the kinds of variables take turns. -/
def cellOf : VarRef → Nat
  | .slot n => 4 * n
  | .static n => 4 * n + 1
  | .global n => 4 * n + 2
  | .temp n => 4 * n + 3

/-- The variable in a cell. -/
def variableIn (cell : Nat) : VarRef :=
  match cell % 4 with
  | 0 => .slot (cell / 4)
  | 1 => .static (cell / 4)
  | 2 => .global (cell / 4)
  | _ => .temp (cell / 4)

theorem variableIn_cellOf (r : VarRef) : variableIn (cellOf r) = r := by
  cases r <;> simp [cellOf, variableIn, Nat.mul_add_div]

/-- Exact integers, without memory apart from the variables. -/
def integers : Domain where
  literal
    | .int v => v
    | _ => 0
  arithmetic
    | .add, left, right => left + right
    | .sub, left, right => left - right
    | .mul, left, right => left * right
    | .div, left, right => left.tdiv right
    | .mod, left, right => left.tmod right
    | _, _, _ => 0
  negation v := -v
  cast _ v := v
  other _
    | .addressOf (.var r) => cellOf r
    | _ => 0
  address r := cellOf r
  variableAt? v := some (variableIn v.toNat)
  other_congr _ := rfl
  other_addressOf _ _ := rfl
  variableAt?_address r := congrArg some (variableIn_cellOf r)

end Domain

/-- The variable that a statement assigns to. -/
def Stmt.assigned? : Stmt → Option VarRef
  | assign (.var r) _ => some r
  | _ => none

theorem Stmt.assigned?_eq_some_iff {statement : Stmt} {r : VarRef} :
    statement.assigned? = some r ↔ ∃ value, statement = .assign (.var r) value := by
  constructor
  · intro h
    unfold assigned? at h
    split at h
    · rename_i value
      cases h
      exact ⟨value, rfl⟩
    · cases h
  · rintro ⟨value, rfl⟩
    rfl

/-- Does a statement leave the variables alone?  Jumps and returns only transfer control. -/
def Stmt.isNeutral : Stmt → Bool
  | ifGoto .. | goto _ | switch .. | ret _ | comment _ => true
  | _ => false

/-- What a statement does to the variables.  Calls, and assignments to anything but a
variable, are not executed. -/
def Stmt.execute? (D : Domain) (vars : VarRef → Int) (statement : Stmt) :
    Option (VarRef → Int) :=
  match statement with
  | assign (.var r) value => some (Function.update vars r (value.eval (D.meaning vars)))
  | _ => if statement.isNeutral then some vars else none

theorem Stmt.execute?_of_isNeutral {s : Stmt} (h : s.isNeutral = true) (D : Domain)
    (vars : VarRef → Int) : s.execute? D vars = some vars := by
  cases s <;> first | rfl | cases h

/-- What statements do to the variables, one after another. -/
def Stmt.executeAll? (D : Domain) : (VarRef → Int) → List Stmt → Option (VarRef → Int)
  | vars, [] => some vars
  | vars, s :: rest => (s.execute? D vars).bind (executeAll? D · rest)

theorem Stmt.executeAll?_append (D : Domain) (vars : VarRef → Int) (front back : List Stmt) :
    executeAll? D vars (front ++ back) =
      (executeAll? D vars front).bind (executeAll? D · back) := by
  induction front generalizing vars with
  | nil => rfl
  | cons s front ih =>
      rw [List.cons_append, executeAll?, executeAll?, Option.bind_assoc]
      exact congrArg _ (funext ih)

namespace Machine.Direct

/-- The numbers on the stack, the top first, and the values of the variables. -/
structure Config where
  stack : List Int
  vars : VarRef → Int

/-- The variable that the operand of an instruction names. -/
def variableOf (i : Instruction) : VarRef :=
  let index := (i.operand.integer?.getD 0).toNat
  match i.operation with
  | .staticAddress | .staticStore => .static index
  | .globalAddress | .globalStore => .global index
  | _ => .slot index

/-- Run one instruction.  Calls, and what works on memory apart from the variables, have no
result. -/
def advance (D : Domain) (i : Instruction) (t : Config) : Option Config :=
  match i.operation, t.stack with
  | .nop, _ | .enter, _ => some t
  | .localAddress, stack | .staticAddress, stack | .globalAddress, stack =>
    some ⟨D.address (variableOf i) :: stack, t.vars⟩
  | .localStore, value :: rest | .staticStore, value :: rest | .globalStore, value :: rest =>
    some ⟨rest, Function.update t.vars (variableOf i) value⟩
  | .load, pointer :: rest =>
    (D.variableAt? pointer).map fun r => ⟨t.vars r :: rest, t.vars⟩
  | .store, pointer :: value :: rest =>
    (D.variableAt? pointer).map fun r => ⟨rest, Function.update t.vars r value⟩
  | .storeKeep, value :: pointer :: rest =>
    (D.variableAt? pointer).map fun r => ⟨pointer :: rest, Function.update t.vars r value⟩
  | .branch, _ => some t
  | .branchZero, stack | .branchNe, stack | .branchEq, stack | .branchGt, stack | .branchGe, stack
  | .branchLt, stack | .branchLe, stack =>
    (decideBranch i stack).map fun (_, rest) => ⟨rest, t.vars⟩
  | .switch, _ :: rest => some ⟨rest, t.vars⟩
  | .ret, stack =>
    match i.operand, stack with
    | .ret _ 0, _ => some t
    | .ret _ 1, _ :: rest => some ⟨rest, t.vars⟩
    | _, _ => none
  | _, stack => (exec (D.meaning t.vars) i stack).map fun next => ⟨next, t.vars⟩

/-- Run instructions one after another. -/
def advanceAll (D : Domain) : List Instruction → Config → Option Config
  | [], t => some t
  | i :: rest, t => (advance D i t).bind (advanceAll D rest)

/-- An instruction that computes leaves the variables alone. -/
theorem advance_of_computes {i : Instruction} (h : computes i.operation = true) (D : Domain)
    (t : Config) :
    advance D i t = (exec (D.meaning t.vars) i t.stack).map fun next => ⟨next, t.vars⟩ := by
  unfold advance
  cases hop : i.operation <;> rw [hop] at h <;> first | rfl | cases h

theorem advance_of_isConditionalBranch {i : Instruction}
    (h : i.operation.isConditionalBranch = true) (D : Domain) (t : Config) :
    advance D i t = (decideBranch i t.stack).map fun (_, rest) => ⟨rest, t.vars⟩ := by
  unfold advance
  cases hop : i.operation <;> rw [hop] at h <;> first | rfl | cases h

end Machine.Direct

end ScriptDecompiler
