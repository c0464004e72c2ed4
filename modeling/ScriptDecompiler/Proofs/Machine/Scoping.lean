import ScriptDecompiler.Proofs.Machine.Provenance

/-!
# Variables of the stack and of statements

If all variables on the stack can be seen, a replay puts on the stack, and into statements,
only variables that can be seen: those that were on the stack, those that its instruction
names, which it brings into being, and the temporaries of calls.  A statement that declares a
temporary holds a call, and the declared temporaries are the new ones, in order.
-/

namespace ScriptDecompiler

/-- The variable that a statement declares. -/
def Stmt.declared? : Stmt → Option VarRef
  | declare r _ => some r
  | _ => none

theorem Stmt.declared?_eq_some {statement : Stmt} {r : VarRef} (h : statement.declared? = some r) :
    ∃ value, statement = declare r value := by
  cases statement with
  | declare r' value =>
      cases h
      exact ⟨value, rfl⟩
  | _ => cases h

/-- Can all variables of a statement be seen, and is what it declares a call? -/
structure Stmt.Fits (s : Store) (current : Nat) (statement : Stmt) : Prop where
  sees : ∀ r ∈ statement.vars, s.Sees current r
  call : ∀ r value, statement = declare r value →
    ∃ name arguments result, value = Expr.call name arguments result

theorem Stmt.Fits.mono {s s' : Store} {current : Nat} {statement : Stmt}
    (h : statement.Fits s current) (hgrows : s.Grows s') : statement.Fits s' current :=
  ⟨fun r hr => hgrows.sees (h.sees r hr), h.call⟩

theorem Stmt.fits_of_declared?_eq_none {s : Store} {current : Nat} {statement : Stmt}
    (hsees : ∀ r ∈ statement.vars, s.Sees current r) (hnone : statement.declared? = none) :
    statement.Fits s current := by
  refine ⟨hsees, ?_⟩
  rintro r value rfl
  cases hnone

/-- The variables that statements declare, in order. -/
def Stmt.declared (statements : List Stmt) : List VarRef :=
  statements.filterMap declared?

/-- The temporaries that were added to the first `first` ones, `count` of them. -/
def temps (first count : Nat) : List VarRef :=
  (List.range' first count).map .temp

theorem temps_append (first count more : Nat) :
    temps first count ++ temps (first + count) more = temps first (count + more) := by
  rw [temps, temps, temps, ← List.map_append, ← List.range'_append_1]

/-- As much is known in `s'` as in `s`, all variables of the statements `new` can be seen, and
they declare the temporaries that were added, in order. -/
structure Store.Declares (current : Nat) (s : Store) (new : List Stmt) (s' : Store) : Prop where
  size : s'.frames.size = s.frames.size
  grows : s.Grows s'
  added : current < s.frames.size → ∃ count, s'.tempCount current = s.tempCount current + count ∧
    Stmt.declared new = temps (s.tempCount current) count ∧
    ∀ statement ∈ new, statement.Fits s' current

namespace Store.Declares

variable {current : Nat} {s s' s'' : Store} {new new' : List Stmt}

theorem of_refines (h : s.Refines current s') : Declares current s [] s' :=
  ⟨h.size, h.grows, fun _ => ⟨0, h.temps, rfl, by simp⟩⟩

theorem trans (h : Declares current s new s') (h' : Declares current s' new' s'') :
    Declares current s (new ++ new') s'' := by
  refine ⟨h'.size.trans h.size, h.grows.trans h'.grows, fun hcurrent => ?_⟩
  obtain ⟨count, hcount, hdeclared, hfits⟩ := h.added hcurrent
  obtain ⟨count', hcount', hdeclared', hfits'⟩ := h'.added (h.size ▸ hcurrent)
  refine ⟨count + count', ?_, ?_, fun statement hmem => ?_⟩
  · rw [hcount', hcount, Nat.add_assoc]
  · have happend : Stmt.declared (new ++ new') = Stmt.declared new ++ Stmt.declared new' :=
      List.filterMap_append
    rw [happend, hdeclared, hdeclared', hcount, temps_append]
  · rcases List.mem_append.1 hmem with hmem | hmem
    · exact (hfits statement hmem).mono h'.grows
    · exact hfits' statement hmem

/-- A statement that declares nothing. -/
theorem single {statement : Stmt}
    (hsees : current < s.frames.size → ∀ r ∈ statement.vars, s.Sees current r)
    (hnone : statement.declared? = none) : Declares current s [statement] s := by
  have hrefl := Refines.refl current s
  refine ⟨hrefl.size, hrefl.grows, fun hcurrent => ⟨0, hrefl.temps, ?_, ?_⟩⟩
  · simp [Stmt.declared, hnone, temps]
  · intro other hother
    rw [List.mem_singleton.1 hother]
    exact Stmt.fits_of_declared?_eq_none (hsees hcurrent) hnone

/-- The declared temporary is the new one. -/
theorem call (name : String) {arguments : List Expr} (result : Ty)
    (hsees : current < s.frames.size → ∀ r ∈ Expr.varsOfAll arguments, s.Sees current r) :
    Declares current s [.declare (.temp (s.tempCount current)) (.call name arguments result)]
      (s.modifyFrame current (·.addTemp result)) := by
  have hdevelops : s.Develops current (s.modifyFrame current (·.addTemp result)) :=
    Update.develops_apply (u := .addTemp result) trivial
  refine ⟨Array.size_modify, hdevelops.grows, fun hcurrent => ⟨1, ?_, rfl, ?_⟩⟩
  · exact Store.tempCount_addTemp hcurrent result
  · intro statement hmem
    rw [List.mem_singleton.1 hmem]
    refine ⟨fun r hr => hdevelops.grows.sees (hsees hcurrent r hr), ?_⟩
    rintro _ _ ⟨⟩
    exact ⟨name, arguments, result, rfl⟩

end Store.Declares

/-- Can the variable be seen, if there is a function to see it from? -/
def Leaf.InSight (current : Nat) (s : Store) : Leaf → Prop
  | .var r => current < s.frames.size → s.Sees current r
  | .placeholder => True

namespace Machine

/-- Variables that can be seen, through a replay. -/
def scoping (current : Nat) : Provenance current where
  allows := Leaf.InSight current
  leads := Store.Declares current
  refl s := .of_refines (.refl current s)
  trans := .trans
  mono {s s' new l} hleads hl := by
    cases l with
    | var r => exact fun hcurrent => hleads.grows.sees (hl (hleads.size ▸ hcurrent))
    | placeholder => trivial
  update {s u} hvalid hneeds := by
    have hsize : (u.apply current s).frames.size = s.frames.size :=
      Store.size_frames_of_heads (Update.heads_apply u current s)
    refine ⟨hsize, (Update.develops_apply hvalid).grows, fun hcurrent => ?_⟩
    have hrefines := Update.refines_apply hvalid (hneeds.mono fun r hr => hr hcurrent)
    exact ⟨0, hrefines.temps, rfl, by simp⟩
  emit {s statement} hleaves haction := by
    refine .single (fun hcurrent r hr => hleaves _ (Stmt.mem_vars_iff.1 hr) hcurrent) ?_
    cases statement with
    | declare => cases haction
    | _ => rfl
  declare name _ result hleaves :=
    .call name result fun hcurrent r hr => hleaves _ (Expr.mem_varsOfAll_iff.1 hr) hcurrent
  touched s r _ hcurrent := by
    have hsize : (s.touch current r).frames.size = s.frames.size :=
      Store.size_frames_of_heads (Update.heads_apply (.touch r) current s)
    exact Store.sees_touch (hsize ▸ hcurrent) r
  declared s ty hcurrent := by
    have hsize : (s.modifyFrame current (·.addTemp ty)).frames.size = s.frames.size :=
      Array.size_modify
    rw [Store.sees_temp_iff, Store.tempCount_addTemp (hsize ▸ hcurrent)]
    exact Nat.lt_succ_self _
  reported _ _ := trivial

variable {current : Nat} {s : Store}

theorem allows_scoping_iff (hcurrent : current < s.frames.size) {es : List Expr} :
    (∀ l ∈ Expr.leavesOfAll es, (scoping current).allows s l) ↔
      ∀ r ∈ Expr.varsOfAll es, s.Sees current r := by
  refine ⟨fun h r hr => h _ (Expr.mem_varsOfAll_iff.1 hr) hcurrent, fun h l hl => ?_⟩
  cases l with
  | var r => exact fun _ => h r (Expr.mem_varsOfAll_iff.2 hl)
  | placeholder => trivial

/-- What a replay comes to if all variables on the stack can be seen. -/
theorem exists_scoped_replay {c : Context} {s s' : State} {fault : Option Fault}
    {body : List Bytecode.Instruction} (hcurrent : c.current < s.store.frames.size)
    (hstack : ∀ r ∈ Expr.varsOfAll s.stack, s.store.Sees c.current r)
    (h : replay c s body = (fault, s')) : ∃ new, Kept (scoping c.current) s new s' := by
  have hcomment : ∀ s text, (scoping c.current).leads s [.comment text] s :=
    fun s _ => .single (by simp [Stmt.vars]) rfl
  have hkept := exists_kept_replay hcomment body ((allows_scoping_iff hcurrent).2 hstack)
  rwa [h] at hkept

end Machine

end ScriptDecompiler
