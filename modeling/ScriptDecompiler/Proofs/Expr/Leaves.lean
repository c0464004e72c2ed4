import ScriptDecompiler.Proofs.Expr.Slots
import ScriptDecompiler.Stmt

/-!
# What expressions are made of

In the end an expression is made of variables, of placeholders for values that were missing,
and of constants.  Taking an expression apart, following a pointer and turning a condition
round bring in neither a variable nor a placeholder.
-/

namespace ScriptDecompiler

/-- What an expression is made of, constants apart. -/
inductive Leaf where
  | var (r : VarRef)
  | placeholder
  deriving DecidableEq, Repr

namespace Expr

mutual

/-- The variables and placeholders in an expression, from left to right and with
repetitions. -/
def leaves : Expr → List Leaf
  | literal _ => []
  | underflow => [.placeholder]
  | var r => [.var r]
  | addressOf inner | deref inner | field inner _ | unary _ inner | cast _ inner => inner.leaves
  | index base i => base.leaves ++ i.leaves
  | binary _ lhs rhs => lhs.leaves ++ rhs.leaves
  | call _ arguments _ => leavesOfAll arguments
  | arrayLiteral elements => leavesOfAll elements

/-- The variables and placeholders in the expressions of a list. -/
def leavesOfAll : List Expr → List Leaf
  | [] => []
  | e :: rest => e.leaves ++ leavesOfAll rest

end

mutual

theorem mem_vars_iff {r : VarRef} : {e : Expr} → r ∈ e.vars ↔ .var r ∈ e.leaves
  | literal _ | underflow | var _ => by simp [vars, leaves]
  | addressOf _ | deref _ | field _ _ | unary _ _ | cast _ _ => by
      rw [vars, leaves]
      exact mem_vars_iff
  | index _ _ | binary _ _ _ => by
      rw [vars, leaves, List.mem_append, List.mem_append, mem_vars_iff, mem_vars_iff]
  | call _ _ _ | arrayLiteral _ => by
      rw [vars, leaves]
      exact mem_varsOfAll_iff

/-- The variables of an expression are its leaves that are variables. -/
theorem mem_varsOfAll_iff {r : VarRef} :
    {es : List Expr} → r ∈ varsOfAll es ↔ .var r ∈ leavesOfAll es
  | [] => by simp [varsOfAll, leavesOfAll]
  | _ :: _ => by
      rw [varsOfAll, leavesOfAll, List.mem_append, List.mem_append, mem_vars_iff,
        mem_varsOfAll_iff]

end

theorem mem_leavesOfAll {es : List Expr} {l : Leaf} :
    l ∈ leavesOfAll es ↔ ∃ e ∈ es, l ∈ e.leaves := by
  induction es with
  | nil => simp [leavesOfAll]
  | cons e rest ih => simp [leavesOfAll, ih]

@[simp] theorem leavesOfAll_append (es others : List Expr) :
    leavesOfAll (es ++ others) = leavesOfAll es ++ leavesOfAll others := by
  induction es with
  | nil => rfl
  | cons e rest ih => rw [List.cons_append, leavesOfAll, leavesOfAll, ih, List.append_assoc]

theorem leavesOfAll_subset {es others : List Expr} (h : es ⊆ others) :
    leavesOfAll es ⊆ leavesOfAll others := by
  intro l hl
  obtain ⟨e, he, hleaf⟩ := mem_leavesOfAll.1 hl
  exact mem_leavesOfAll.2 ⟨e, h he, hleaf⟩

theorem leavesOfAll_replicate_underflow_subset (count : Nat) :
    leavesOfAll (List.replicate count underflow) ⊆ [.placeholder] := by
  intro l hl
  obtain ⟨e, he, hleaf⟩ := mem_leavesOfAll.1 hl
  rwa [List.eq_of_mem_replicate he] at hleaf

theorem leavesOfAll_map_unary (op : UnaryOp) (es : List Expr) :
    leavesOfAll (es.map (unary op)) = leavesOfAll es := by
  induction es with
  | nil => rfl
  | cons e rest ih => rw [List.map_cons, leavesOfAll, leavesOfAll, ih, leaves]

theorem leavesOfAll_zipWith_binary_subset (op : BinaryOp) (left right : List Expr) :
    leavesOfAll (List.zipWith (binary op) left right) ⊆ leavesOfAll left ++ leavesOfAll right := by
  induction left generalizing right with
  | nil => simp [leavesOfAll]
  | cons l left ih =>
      cases right with
      | nil => simp [leavesOfAll]
      | cons r right =>
          have hrest := ih right
          simp only [List.zipWith_cons_cons, leavesOfAll, leaves]
          grind

theorem leaves_element (base : Expr) (i : Nat) : (base.element i).leaves = base.leaves :=
  List.append_nil _

theorem leaves_dereference (e : Expr) : e.dereference.leaves = e.leaves := by
  cases e <;> rfl

theorem leaves_negate (e : Expr) : e.negate.leaves = e.leaves := by
  unfold negate
  split
  · split <;> rfl
  · rfl
  · rfl

/-- A field and an element have the leaves of what they are selected from. -/
theorem leaves_of_selected {base e : Expr} (h : Relation.TransGen Selection base e) :
    e.leaves = base.leaves := by
  have hstep : ∀ {base e : Expr}, Selection base e → e.leaves = base.leaves := by
    intro base e h
    cases h with
    | field => rfl
    | element i => exact base.leaves_element i
  induction h with
  | single h => exact hstep h
  | tail _ h ih => exact (hstep h).trans ih

end Expr

/-- The slots of a value have its leaves, or are elements of the literal that it is. -/
theorem Ty.leaves_of_mem_explode {ty : Ty} {base e : Expr} {count : Nat}
    (h : e ∈ ty.explode base count) : e.leaves = base.leaves ∨ base.Lists e := by
  rcases Ty.mem_explode h with ⟨rfl, -⟩ | h | h
  · exact Or.inl rfl
  · exact Or.inl (Expr.leaves_of_selected h)
  · exact Or.inr h

theorem Ty.leaves_explode_subset (ty : Ty) (base : Expr) (count : Nat) :
    Expr.leavesOfAll (ty.explode base count) ⊆ base.leaves := by
  intro l hl
  obtain ⟨e, he, hleaf⟩ := Expr.mem_leavesOfAll.1 hl
  rcases Ty.leaves_of_mem_explode he with hsame | ⟨elements, rfl, helement⟩
  · exact hsame ▸ hleaf
  · exact Expr.mem_leavesOfAll.2 ⟨e, helement, hleaf⟩

/-- Every slot of a variable refers to it, and to nothing else. -/
theorem Ty.leaves_of_mem_explode_var {ty : Ty} {r : VarRef} {count : Nat} {e : Expr}
    (h : e ∈ ty.explode (.var r) count) : e.leaves = [.var r] :=
  (Ty.leaves_of_mem_explode h).resolve_right fun ⟨_, heq, _⟩ => nomatch heq

namespace Stmt

/-- The variables and placeholders in the expressions of a statement.  A variable that it
introduces does not count. -/
def leaves : Stmt → List Leaf
  | assign dest value => dest.leaves ++ value.leaves
  | declare _ value => value.leaves
  | expr e | ret (some e) | switch e _ | ifGoto e _ _ => e.leaves
  | ret none | goto _ | asm _ | comment _ => []

theorem mem_vars_iff {statement : Stmt} {r : VarRef} :
    r ∈ statement.vars ↔ .var r ∈ statement.leaves := by
  cases statement with
  | assign => simp only [vars, leaves, List.mem_append, Expr.mem_vars_iff]
  | ret value => cases value <;> simp [vars, leaves, Expr.mem_vars_iff]
  | declare | expr | ifGoto | switch => exact Expr.mem_vars_iff
  | goto | asm | comment => simp [vars, leaves]

end Stmt

end ScriptDecompiler
