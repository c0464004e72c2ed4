import ScriptDecompiler.Proofs.Store.Names

/-!
# Access to variables

A variable is fetched by a reference to it.  If it is not there, it comes into being, and so do
the locals or temporaries in front of it that are missing.  Nothing that comes into being has an
index beyond the one that was asked for, and whatever was there before stays as it is, where it
is.

What was fetched can be edited.  An edit may change everything about a variable but which one it
is, and it changes no other variable.
-/

namespace ScriptDecompiler

/-- A change of a variable that leaves open everything but which one it is. -/
structure Variable.Edit where
  apply : Variable → Variable
  index_apply : ∀ v, (apply v).index = v.index
  kind_apply : ∀ v, (apply v).kind = v.kind

namespace Variable.Edit

/-- Observing the type. -/
def observe (ty : Ty) : Variable.Edit where
  apply v := (v.infer ty).1
  index_apply v := (v.alike_infer ty).fields.1
  kind_apply v := (v.alike_infer ty).fields.2.2.1

/-- Giving another name. -/
def rename (identifier : String) : Variable.Edit where
  apply v := { v with identifier := identifier }
  index_apply _ := rfl
  kind_apply _ := rfl

end Variable.Edit

/-- Is a place as it was before, or was it empty and holds a variable now, with an index up to
`limit`? -/
def Place.Fills (limit : Nat) (o o' : Option Variable) : Prop :=
  o' = o ∨ o = none ∧ ∃ v, o' = some v ∧ v.index ≤ limit

namespace Store

/-- Fetch the variable that a reference denotes; it is brought into being first. -/
def fetch (s : Store) (current : Nat) (r : VarRef) : Option Variable × Store :=
  let touched := s.touch current r
  (touched.get? current r, touched)

/-- Fetch a variable and edit it. -/
def edit (s : Store) (current : Nat) (r : VarRef) (e : Variable.Edit) : Store :=
  match s.fetch current r with
  | (none, fetched) => fetched
  | (some v, fetched) => fetched.setVariable current (e.apply v) r

variable {s s' : Store} {current : Nat} {r : VarRef} {place : Place} {v : Variable}

/-- Changing a frame so that its spots are at most filled. -/
theorem fills_modifyFrame (s : Store) (current : Nat) {change : Frame → Frame} {limit : Nat}
    (h : ∀ f spot, Place.Fills limit (f.at? spot) ((change f).at? spot)) (place : Place) :
    Place.Fills limit (s.at? place) ((s.modifyFrame current change).at? place) := by
  cases place with
  | static | global => exact Or.inl rfl
  | own function spot =>
      simp only [at?, modifyFrame, Array.getElem?_modify]
      split
      · cases s.frames[function]? with
        | none => exact Or.inl rfl
        | some f => exact h f spot
      · exact Or.inl rfl

/-- Naming a variable fills places, none of them beyond what was named. -/
theorem fills_touch (s : Store) (current : Nat) (r : VarRef) (place : Place) :
    Place.Fills r.index (s.at? place) ((s.touch current r).at? place) := by
  cases r with
  | slot index =>
      refine s.fills_modifyFrame current (fun f spot => ?_) place
      rcases f.at?_growSlots index spot with hsame | ⟨i, hi, rfl, hnone, hsome⟩
      · exact Or.inl hsame
      · exact Or.inr ⟨hnone, _, hsome, hi⟩
  | temp index =>
      refine s.fills_modifyFrame current (fun f spot => ?_) place
      rcases f.at?_growTemps index spot with hsame | ⟨i, hi, rfl, hnone, hsome⟩
      · exact Or.inl hsame
      · exact Or.inr ⟨hnone, _, hsome, hi⟩
  | static index =>
      simp only [touch]
      split
      · exact Or.inl rfl
      · rename_i hnone
        cases place with
        | own | global => exact Or.inl rfl
        | static other =>
            simp only [at?, setStatic, Table.get?_insert]
            split
            · rename_i hhere
              exact Or.inr ⟨hhere ▸ hnone, _, rfl, Nat.le_refl index⟩
            · exact Or.inl rfl
  | global index =>
      simp only [touch]
      split
      · exact Or.inl rfl
      · rename_i hnone
        cases place with
        | own | static => exact Or.inl rfl
        | global other =>
            simp only [at?, setGlobal, Table.get?_insert]
            split
            · rename_i hhere
              exact Or.inr ⟨hhere ▸ hnone, _, rfl, Nat.le_refl index⟩
            · exact Or.inl rfl

theorem fetch_eq (h : s.Hosts current r) :
    s.fetch current r = (some ((s.get? current r).getD r.newborn), s.touch current r) := by
  simp only [fetch, get?_touch h]

/-- Functions that keep their numbers of arguments keep the places of their variables. -/
theorem placeOf_congr (h : s'.heads = s.heads) (current : Nat) (r : VarRef) :
    s'.placeOf current r = s.placeOf current r := by
  have harity : ∀ s : Store, s.frames[current]?.map (·.arguments.size) =
      s.heads[current]?.map (·.arguments) := by
    intro s
    simp [heads, Frame.head, Function.comp_def]
  cases r with
  | slot index => rw [placeOf, placeOf, harity, harity, h]
  | temp | static | global => rfl

/-- An edit is seen by whoever looks the variable up. -/
theorem get?_edit (h : s.Hosts current r) (e : Variable.Edit) :
    (s.edit current r e).get? current r =
      some (e.apply ((s.get? current r).getD r.newborn)) := by
  unfold edit
  rw [fetch_eq h]
  exact get?_setVariable_self (get?_touch h) _

/-- An edit concerns one variable. -/
theorem at?_edit_of_ne (e : Variable.Edit) (h : place ≠ s.placeOf current r) :
    (s.edit current r e).at? place = (s.touch current r).at? place := by
  unfold edit fetch
  dsimp only
  split <;> rename_i hfetch
  · rw [(Prod.mk.inj hfetch).2]
  · obtain ⟨-, rfl⟩ := Prod.mk.inj hfetch
    refine at?_setVariable_of_ne _ ?_
    rwa [placeOf_congr (s.preserves_touch current r).heads]

end Store

end ScriptDecompiler
