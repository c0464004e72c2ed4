import ScriptDecompiler.Proofs.Ty.Information
import ScriptDecompiler.Ty.Parse

/-!
# The parts of a type

The parts of a type are the type itself, what it points to, its elements and its fields, and the
parts of these.  Combining two observations makes up no new parts: one of the two already says
everything that both say.

Footprints multiply where arrays have arrays as their elements.  So a bound on them is a bound
on all parts of a type, those behind pointers included: any of them may be selected, and any
pointer may be followed.
-/

namespace ScriptDecompiler

/-- Of two observations that agree, one says all that both say. -/
theorem Ty.merge_eq_or {a b merged : Ty} (h : a.merge b = some merged) :
    merged = a ∨ merged = b := by
  fun_induction Ty.merge a b generalizing merged with
  | case1 =>
      cases h
      exact Or.inr rfl
  | case2 =>
      cases h
      exact Or.inl rfl
  | case3 _ _ x y ih =>
      obtain ⟨target, htarget, rfl⟩ := Option.map_eq_some_iff.1 h
      exact (ih htarget).imp (congrArg pointer) (congrArg pointer)
  | case4 x y length _ _ ih =>
      obtain ⟨element, helement, rfl⟩ := Option.map_eq_some_iff.1 h
      exact (ih helement).imp (congrArg (array · length)) (congrArg (array · length))
  | case5 => cases h
  | case6 =>
      cases h
      exact Or.inl rfl
  | case7 => cases h

/-- A variable has the type that it had, or the one that was observed. -/
theorem Variable.ty_infer_eq_or (v : Variable) (ty : Ty) :
    (v.infer ty).1.ty = v.ty ∨ (v.infer ty).1.ty = ty := by
  unfold infer
  split
  · exact Or.inl rfl
  · split
    · split
      · exact Or.inl rfl
      · exact Or.inr rfl
    · split
      · rename_i merged hmerged
        split
        · exact Or.inl rfl
        · exact Ty.merge_eq_or hmerged
      · exact Or.inl rfl

mutual

/-- Does no part of the type take more than `bound` slots? -/
def Ty.Fits (bound : Nat) : Ty → Prop
  | .void | .scalar _ => True
  | .pointer target => target.Fits bound
  | .array element length => element.footprint * length ≤ bound ∧ element.Fits bound
  | .struct _ fields => fields.footprint ≤ bound ∧ fields.Fits bound

/-- Does no part of a field take more than `bound` slots? -/
def Fields.Fits (bound : Nat) : Fields → Prop
  | .nil => True
  | .cons _ ty rest => ty.Fits bound ∧ rest.Fits bound

end

variable {bound : Nat}

theorem Ty.Fits.footprint_le {ty : Ty} (h : ty.Fits bound) (hbound : 0 < bound) :
    ty.footprint ≤ bound := by
  cases ty with
  | void => exact Nat.zero_le bound
  | scalar | pointer => exact hbound
  | array | struct => exact h.1

/-- The footprint of a type that fits a bound below `2 ^ 64` can be computed in a word. -/
theorem Ty.Fits.toNat_stackSize {ty : Ty} (h : ty.Fits bound) (hbound : 0 < bound)
    (hword : bound < UInt64.size) : ty.stackSize.toNat = ty.footprint :=
  toNat_stackSize_of_lt (Nat.lt_of_le_of_lt (h.footprint_le hbound) hword)

/-- A field is a part. -/
theorem Fields.Fits.type? {fields : Fields} (h : fields.Fits bound) {name : String} {ty : Ty}
    (hfield : fields.type? name = some ty) : ty.Fits bound := by
  fun_induction Fields.type? fields name with
  | case1 => cases hfield
  | case2 =>
      cases hfield
      exact h.1
  | case3 _ _ _ _ ih => exact ih h.2 hfield

theorem Ty.fits_vector3 (h : 3 ≤ bound) : Ty.vector3.Fits bound :=
  ⟨h, trivial, trivial, trivial, trivial⟩

theorem Ty.fits_ofKnownName? (h : 3 ≤ bound) {name : String} {ty : Ty}
    (hname : ofKnownName? name = some ty) : ty.Fits bound := by
  unfold ofKnownName? at hname
  split at hname <;> cases hname
  case h_10 => exact fits_vector3 h
  all_goals trivial

/-- No type that a name can have takes more than three slots. -/
theorem Ty.fits_parseChars (h : 3 ≤ bound) (cs : List Char) : (parseChars cs).Fits bound := by
  fun_induction parseChars cs with
  | case1 cs ty hname => exact fits_ofKnownName? h hname
  | case2 cs hname hlast _ _ ih => exact ih
  | case3 => trivial

theorem Ty.fits_parse (h : 3 ≤ bound) (s : String) : (parse s).Fits bound :=
  fits_parseChars h s.toList

end ScriptDecompiler
