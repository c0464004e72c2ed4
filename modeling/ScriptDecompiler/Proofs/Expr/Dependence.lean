import ScriptDecompiler.Render.Expr

/-!
# What types and texts of expressions depend on

The type of an expression follows from the types of the variables that it mentions, and its
text from their names and types: an arrow or a dot stands in front of a field, depending on
the type of what the field is selected from.
-/

namespace ScriptDecompiler.Expr

variable {scope scope' : Scope}

/-- The type of an expression depends on the types of the variables that it mentions only. -/
theorem typeIn_congr : (e : Expr) →
    (∀ r ∈ e.vars, (Expr.var r).typeIn scope = (Expr.var r).typeIn scope') →
      e.typeIn scope = e.typeIn scope'
  | literal (.int _), _ | literal (.float _), _ | literal (.string _), _ | underflow, _ => rfl
  | var r, h => h r List.mem_cons_self
  | addressOf inner, h | deref inner, h | field inner _, h => by
      simp only [typeIn, typeIn_congr inner h]
  | index base i, h => by
      have hbase := typeIn_congr base fun r hr => h r (List.mem_append_left i.vars hr)
      simp only [typeIn, hbase]
  | binary _ lhs rhs, h => by
      have hlhs := typeIn_congr lhs fun r hr => h r (List.mem_append_left rhs.vars hr)
      have hrhs := typeIn_congr rhs fun r hr => h r (List.mem_append_right lhs.vars hr)
      simp only [typeIn, hlhs, hrhs]
  | unary .not _, _ | cast _ _, _ | call _ _ _, _ | arrayLiteral [], _ => rfl
  | unary .neg inner, h => typeIn_congr inner h
  | arrayLiteral (first :: rest), h => by
      have hfirst := typeIn_congr first fun r hr => h r (List.mem_append_left (varsOfAll rest) hr)
      simp only [typeIn, hfirst]

/-- Do the two scopes show the same name and type of a variable? -/
def ShownAlike (scope scope' : Scope) (r : VarRef) : Prop :=
  scope.name r = scope'.name r ∧ (Expr.var r).typeIn scope = (Expr.var r).typeIn scope'

theorem shownAlike_of_eq {r : VarRef} (h : scope.get? r = scope'.get? r) :
    ShownAlike scope scope' r := by
  simp only [ShownAlike, Scope.name, typeIn, h, and_self]

/-- A field that is not selected from an address. -/
theorem render_field_congr {base : Expr} {name : String} (hbase : ∀ inner, base ≠ addressOf inner)
    (htype : base.typeIn scope = base.typeIn scope') (h : base.render scope = base.render scope') :
    (field base name).render scope = (field base name).render scope' := by
  rw [render, render, htype, h]
  · exact hbase
  · exact hbase

/-- An element that is not selected from an address. -/
theorem render_index_congr {base i : Expr} (hbase : ∀ inner, base ≠ addressOf inner)
    (h : base.render scope = base.render scope') (hi : i.render scope = i.render scope') :
    (index base i).render scope = (index base i).render scope' := by
  rw [render, render, h, hi]
  · exact hbase
  · exact hbase

mutual

/-- The text of an expression depends on the variables that it mentions only. -/
theorem render_congr : (e : Expr) → (∀ r ∈ e.vars, ShownAlike scope scope' r) →
    e.render scope = e.render scope'
  | literal _, _ | underflow, _ => rfl
  | var r, h => (h r List.mem_cons_self).1
  | addressOf inner, h | deref inner, h | unary _ inner, h | cast _ inner, h => by
      simp only [render, render_congr inner h]
  | field base name, h => by
      have htype := typeIn_congr base fun r hr => (h r hr).2
      have hbase := render_congr base h
      cases base with
      | addressOf inner => simp only [render, render_congr inner h]
      | _ => exact render_field_congr nofun htype hbase
  | index base i, h => by
      have hbase := render_congr base fun r hr => h r (List.mem_append_left i.vars hr)
      have hi := render_congr i fun r hr => h r (List.mem_append_right base.vars hr)
      cases base with
      | addressOf inner =>
          have hinner := render_congr inner fun r hr => h r (List.mem_append_left i.vars hr)
          simp only [render, hinner, hi]
      | _ => exact render_index_congr nofun hbase hi
  | binary _ lhs rhs, h => by
      have hlhs := render_congr lhs fun r hr => h r (List.mem_append_left rhs.vars hr)
      have hrhs := render_congr rhs fun r hr => h r (List.mem_append_right lhs.vars hr)
      simp only [render, hlhs, hrhs]
  | call _ arguments _, h => by simp only [render, renderAll_congr arguments h]
  | arrayLiteral elements, h => by simp only [render, renderAll_congr elements h]

theorem renderAll_congr : (es : List Expr) → (∀ r ∈ varsOfAll es, ShownAlike scope scope' r) →
    renderAll scope es = renderAll scope' es
  | [], _ => rfl
  | e :: rest, h => by
      have he := render_congr e fun r hr => h r (List.mem_append_left (varsOfAll rest) hr)
      have hrest := renderAll_congr rest fun r hr => h r (List.mem_append_right e.vars hr)
      simp only [renderAll, he, hrest]

end

end ScriptDecompiler.Expr
