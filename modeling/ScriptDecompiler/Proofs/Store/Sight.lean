import ScriptDecompiler.Proofs.Store.Courses

/-!
# Variables that can be seen

What can be seen from a function stays in sight.  A temporary can be seen if its index is
below their number, and only a call adds to that: every other update that a replay makes
leaves their number alone, as long as what it observes is in sight already.
-/

namespace ScriptDecompiler

namespace Store

/-- Does the reference denote a variable, seen from function `current`? -/
def Sees (s : Store) (current : Nat) (r : VarRef) : Prop :=
  ∃ v, s.get? current r = some v

/-- How many temporaries a function has. -/
def tempCount (s : Store) (current : Nat) : Nat :=
  (s.frames[current]?.map (·.temporaries.size)).getD 0

variable {s s' s'' : Store} {current : Nat} {r : VarRef}

theorem Grows.sees (h : s.Grows s') (hr : s.Sees current r) : s'.Sees current r := by
  have hplace : ∀ place, (∃ v, s.at? place = some v) → ∃ v, s'.at? place = some v := by
    rintro place ⟨v, hv⟩
    obtain ⟨v', hv', -⟩ := h place v hv
    exact ⟨v', hv'⟩
  unfold Sees at hr ⊢
  rw [get?_eq] at hr ⊢
  cases r with
  | temp | static | global => exact hplace _ hr
  | slot index =>
      simp only [← Option.isSome_iff_exists, Option.isSome_or, Bool.or_eq_true] at hplace hr ⊢
      exact hr.imp (hplace _) (hplace _)

theorem sees_temp_iff {index : Nat} :
    s.Sees current (.temp index) ↔ index < s.tempCount current := by
  unfold Sees get? tempCount
  cases s.frames[current]? with
  | none => simp
  | some f => simp [← Option.isSome_iff_exists]

theorem sees_touch (hcurrent : current < s.frames.size) (r : VarRef) :
    (s.touch current r).Sees current r :=
  ⟨_, get?_touch (hosts_of_lt hcurrent r)⟩

theorem tempCount_congr (h : s'.frames = s.frames) (current : Nat) :
    s'.tempCount current = s.tempCount current := by
  unfold tempCount
  rw [h]

theorem tempCount_modifyFrame (s : Store) (current function : Nat) {change : Frame → Frame}
    (h : ∀ f, (change f).temporaries.size = f.temporaries.size) :
    (s.modifyFrame function change).tempCount current = s.tempCount current := by
  simp only [tempCount, modifyFrame, Array.getElem?_modify]
  split
  · cases s.frames[current]? with
    | none => rfl
    | some f => exact h f
  · rfl

theorem tempCount_touch (s : Store) (current : Nat) (hr : ∀ index, r ≠ .temp index) :
    (s.touch current r).tempCount current = s.tempCount current := by
  cases r with
  | slot index => exact s.tempCount_modifyFrame current current fun _ => rfl
  | temp index => exact absurd rfl (hr index)
  | static | global =>
      simp only [touch]
      split <;> rfl

theorem tempCount_setVariable (s : Store) (current : Nat) (v : Variable) (r : VarRef) :
    (s.setVariable current v r).tempCount current = s.tempCount current := by
  cases r with
  | slot index =>
      refine s.tempCount_modifyFrame current current fun f => ?_
      unfold Frame.setSlot
      split <;> rfl
  | temp index => exact s.tempCount_modifyFrame current current fun f => by simp
  | static | global => rfl

theorem tempCount_addTemp (hcurrent : current < s.frames.size) (ty : Ty) :
    (s.modifyFrame current (·.addTemp ty)).tempCount current = s.tempCount current + 1 := by
  have hframe : s.frames[current]? = some s.frames[current] := Array.getElem?_eq_getElem hcurrent
  simp [tempCount, modifyFrame, Array.getElem?_modify, hframe, Frame.addTemp]

/-- Is as much known about variables, without a new temporary of function `current`? -/
structure Refines (current : Nat) (s s' : Store) : Prop where
  size : s'.frames.size = s.frames.size
  grows : s.Grows s'
  temps : s'.tempCount current = s.tempCount current

theorem Refines.refl (current : Nat) (s : Store) : Refines current s s :=
  ⟨rfl, (Develops.refl current s).grows, rfl⟩

end Store

namespace Update

variable {current : Nat} {s : Store}

/-- Is the variable that the update needs at hand, so that it adds no temporary? -/
def Needs (has : VarRef → Prop) : Update → Prop
  | touch r => ∀ index, r ≠ .temp index
  | observe _ r _ => has r
  | addTemp _ => False
  | _ => True

theorem Needs.mono {has has' : VarRef → Prop} {u : Update} (h : u.Needs has)
    (hmono : ∀ r, has r → has' r) : u.Needs has' := by
  cases u with
  | observe address r ty => exact hmono r h
  | _ => exact h

theorem refines_apply {u : Update} (hvalid : u.Valid s) (htemps : u.Needs (s.Sees current)) :
    s.Refines current (u.apply current s) := by
  have hsize : (u.apply current s).frames.size = s.frames.size :=
    Store.size_frames_of_heads (heads_apply u current s)
  refine ⟨hsize, (develops_apply hvalid).grows, ?_⟩
  cases u with
  | touch r => exact s.tempCount_touch current htemps
  | addTemp => exact htemps.elim
  | observeParameter => exact s.tempCount_modifyFrame current _ fun _ => rfl
  | renameTemp => exact s.tempCount_modifyFrame current current fun f => by simp [Frame.renameTemp]
  | report => rfl
  | observe address r ty =>
      obtain ⟨v, hv⟩ := htemps
      have hset := s.tempCount_setVariable current (v.infer ty).1 r
      simp only [apply, Store.inferVariable, Store.touch_eq_self hv, hv]
      split <;> exact hset
  | observeResult address ty =>
      unfold apply Store.observeResult
      dsimp only
      split
      · rfl
      · rename_i frame _
        have hset (v : Variable) : (s.modifyFrame current ({ · with result := v })).tempCount
            current = s.tempCount current := s.tempCount_modifyFrame current current fun _ => rfl
        split <;> exact hset _

end Update

end ScriptDecompiler
