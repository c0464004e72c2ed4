import ScriptDecompiler.Variable

/-!
# What is known about a type

Types are ordered by what they say about a value.  The unknown type says nothing, and is
below every other one.  A pointer says what it says about its target, an array of a given
length what it says about its elements.  All other types are below themselves only.

Two observations are merged into a type that says what either of them says.  So the type of
a locked variable rises with every observation that does not conflict with it, and one that
does leaves the variable alone.
-/

namespace ScriptDecompiler

/-- Does the second type say everything that the first one does? -/
inductive Ty.Below : Ty → Ty → Prop
  | unknown (ty : Ty) : Below .unknown ty
  | refl (ty : Ty) : Below ty ty
  | pointer {a b : Ty} (h : Below a b) : Below (.pointer a) (.pointer b)
  | array {a b : Ty} (length : Nat) (h : Below a b) : Below (.array a length) (.array b length)

namespace Ty

theorem eq_unknown_of_isUnknown {ty : Ty} (h : ty.isUnknown = true) : ty = .unknown :=
  of_decide_eq_true h

theorem Below.trans {a b d : Ty} (h : Below a b) (h' : Below b d) : Below a d := by
  induction h generalizing d with
  | unknown => exact .unknown d
  | refl => exact h'
  | @pointer a b h ih =>
      generalize hmiddle : Ty.pointer b = middle at h'
      cases h' with
      | unknown => cases hmiddle
      | refl =>
          cases hmiddle
          exact .pointer h
      | pointer h' =>
          cases hmiddle
          exact .pointer (ih h')
      | array => cases hmiddle
  | @array a b length h ih =>
      generalize hmiddle : Ty.array b length = middle at h'
      cases h' with
      | unknown => cases hmiddle
      | refl =>
          cases hmiddle
          exact .array length h
      | pointer => cases hmiddle
      | array _ h' =>
          cases hmiddle
          exact .array length (ih h')

/-- A merged type says what either side says. -/
theorem below_of_merge {a b merged : Ty} (h : a.merge b = some merged) :
    Below a merged ∧ Below b merged := by
  fun_induction Ty.merge a b generalizing merged with
  | case1 a b hunknown =>
      cases h
      rw [eq_unknown_of_isUnknown hunknown]
      exact ⟨.unknown b, .refl b⟩
  | case2 a b _ hunknown =>
      cases h
      rw [eq_unknown_of_isUnknown hunknown]
      exact ⟨.refl a, .unknown a⟩
  | case3 _ _ x y ih =>
      obtain ⟨target, htarget, rfl⟩ := Option.map_eq_some_iff.1 h
      obtain ⟨hx, hy⟩ := ih htarget
      exact ⟨.pointer hx, .pointer hy⟩
  | case4 x y length _ _ ih =>
      obtain ⟨element, helement, rfl⟩ := Option.map_eq_some_iff.1 h
      obtain ⟨hx, hy⟩ := ih helement
      exact ⟨.array length hx, .array length hy⟩
  | case5 => cases h
  | case6 a =>
      cases h
      exact ⟨.refl a, .refl a⟩
  | case7 => cases h

/-- The unknown type is merged with any other one. -/
theorem merge_of_isUnknown {a : Ty} (h : a.isUnknown = true) (b : Ty) : a.merge b = some b := by
  unfold merge
  rw [if_pos h]

end Ty

namespace Variable

/-- If the type of a variable was settled, is it still, and does it say as much? -/
def Grows (v v' : Variable) : Prop :=
  v.locked = true → v'.locked = true ∧ v.ty.Below v'.ty

theorem Grows.refl (v : Variable) : Grows v v :=
  fun h => ⟨h, .refl v.ty⟩

theorem Grows.trans {v v' v'' : Variable} (h : Grows v v') (h' : Grows v' v'') : Grows v v'' := by
  intro hlocked
  obtain ⟨hlocked', hbelow⟩ := h hlocked
  obtain ⟨hlocked'', hbelow'⟩ := h' hlocked'
  exact ⟨hlocked'', hbelow.trans hbelow'⟩

/-- What is settled about a variable stays, whatever is observed. -/
theorem grows_infer (v : Variable) (ty : Ty) : Grows v (v.infer ty).1 := by
  intro hlocked
  unfold infer
  split
  · exact ⟨hlocked, .refl v.ty⟩
  · rw [hlocked]
    simp only [Bool.not_true, Bool.false_eq_true, if_false]
    split
    · rename_i merged hmerged
      split
      · exact ⟨hlocked, .refl v.ty⟩
      · exact ⟨rfl, (Ty.below_of_merge hmerged).1⟩
    · exact ⟨hlocked, .refl v.ty⟩

/-- Is there no difference but in what is known about the type? -/
def Alike (v v' : Variable) : Prop :=
  v' = { v with ty := v'.ty, locked := v'.locked }

theorem Alike.refl (v : Variable) : Alike v v := rfl

theorem Alike.trans {v v' v'' : Variable} (h : Alike v v') (h' : Alike v' v'') : Alike v v'' := by
  unfold Alike at h h' ⊢
  rw [h'.trans (congrArg (fun w : Variable => { w with ty := v''.ty, locked := v''.locked }) h)]

theorem Alike.fields {v v' : Variable} (h : Alike v v') :
    v'.index = v.index ∧ v'.identifier = v.identifier ∧ v'.kind = v.kind ∧
      v'.initial = v.initial := by
  unfold Alike at h
  rw [h]
  exact ⟨rfl, rfl, rfl, rfl⟩

/-- An observation concerns the type of a variable and nothing else. -/
theorem alike_infer (v : Variable) (ty : Ty) : v.Alike (v.infer ty).1 := by
  unfold Alike
  unfold infer
  split
  · rfl
  · split
    · split <;> rfl
    · split
      · split <;> rfl
      · rfl

/-- A conflict is one between a settled type and another one that it cannot be merged with;
it leaves the variable alone. -/
theorem of_infer_conflict {v : Variable} {ty existing found : Ty}
    (h : (v.infer ty).2 = .conflict existing found) :
    (v.infer ty).1 = v ∧ v.locked = true ∧ v.ty.merge ty = none ∧ existing = v.ty ∧
      found = ty := by
  unfold infer at h ⊢
  by_cases hunknown : ty.isUnknown = true
  · rw [if_pos hunknown] at h
    cases h
  · rw [if_neg hunknown] at h ⊢
    by_cases hlocked : v.locked = true
    · rw [hlocked] at h ⊢
      simp only [Bool.not_true, Bool.false_eq_true, if_false] at h ⊢
      cases hmerge : v.ty.merge ty with
      | some merged =>
          rw [hmerge] at h
          dsimp only at h
          split at h <;> cases h
      | none =>
          rw [hmerge] at h
          cases h
          exact ⟨rfl, trivial, rfl, rfl, rfl⟩
    · rw [Bool.not_eq_true] at hlocked
      rw [hlocked] at h
      simp only [Bool.not_false, if_true] at h
      split at h <;> cases h

end Variable

end ScriptDecompiler
