import Mathlib.Order.Bounds.Basic
import ScriptDecompiler.Proofs.Ty.Information

/-!
# Types as a partial order

What types say about a value orders them, with the unknown type at the bottom.  Two types that
some third one lies above have a least such type, and merging finds it: merging two
observations fails only if nothing is compatible with both.
-/

namespace ScriptDecompiler.Ty

/-- Only the unknown type says as little as the unknown type. -/
theorem Below.eq_unknown {ty : Ty} (h : Below ty .unknown) : ty = .unknown := by
  generalize hbound : Ty.unknown = bound at h
  cases h with
  | unknown => exact hbound
  | refl => rfl
  | pointer | array => cases hbound

theorem Below.antisymm {a b : Ty} (h : Below a b) (h' : Below b a) : a = b := by
  induction h with
  | unknown => exact h'.eq_unknown.symm
  | refl => rfl
  | @pointer a b _ ih =>
      cases h' with
      | refl => rfl
      | pointer h' => rw [ih h']
  | @array a b length _ ih =>
      cases h' with
      | refl => rfl
      | array _ h' => rw [ih h']

instance : PartialOrder Ty where
  le := Below
  le_refl := .refl
  le_trans _ _ _ := .trans
  le_antisymm _ _ := Below.antisymm

instance : OrderBot Ty where
  bot := unknown
  bot_le := .unknown

theorem isUnknown_iff {ty : Ty} : ty.isUnknown = true ↔ ty = ⊥ :=
  decide_eq_true_iff

theorem pointer_le_iff {a u : Ty} : pointer a ≤ u ↔ ∃ b, u = pointer b ∧ a ≤ b := by
  constructor
  · intro h
    cases h with
    | refl => exact ⟨a, rfl, le_refl a⟩
    | pointer h => exact ⟨_, rfl, h⟩
  · rintro ⟨b, rfl, h⟩
    exact .pointer h

theorem array_le_iff {a u : Ty} {length : Nat} :
    array a length ≤ u ↔ ∃ b, u = array b length ∧ a ≤ b := by
  constructor
  · intro h
    cases h with
    | refl => exact ⟨a, rfl, le_refl a⟩
    | array _ h => exact ⟨_, rfl, h⟩
  · rintro ⟨b, rfl, h⟩
    exact .array length h

/-- Two types with a common bound are merged, into a type below that bound. -/
theorem exists_merge_le {a b u : Ty} (ha : a ≤ u) (hb : b ≤ u) :
    ∃ merged, a.merge b = some merged ∧ merged ≤ u := by
  fun_induction Ty.merge a b generalizing u with
  | case1 a b => exact ⟨b, rfl, hb⟩
  | case2 a b => exact ⟨a, rfl, ha⟩
  | case3 _ _ x y ih =>
      obtain ⟨target, rfl, hx⟩ := pointer_le_iff.1 ha
      obtain ⟨_, hsame, hy⟩ := pointer_le_iff.1 hb
      cases hsame
      obtain ⟨merged, hmerged, hle⟩ := ih hx hy
      exact ⟨.pointer merged, by rw [hmerged]; rfl, .pointer hle⟩
  | case4 x y length _ _ ih =>
      obtain ⟨element, rfl, hx⟩ := array_le_iff.1 ha
      obtain ⟨_, hsame, hy⟩ := array_le_iff.1 hb
      cases hsame
      obtain ⟨merged, hmerged, hle⟩ := ih hx hy
      exact ⟨.array merged length, by rw [hmerged]; rfl, .array length hle⟩
  | case5 x n y m hne =>
      obtain ⟨_, rfl, -⟩ := array_le_iff.1 ha
      obtain ⟨_, hsame, -⟩ := array_le_iff.1 hb
      cases hsame
      exact absurd rfl hne
  | case6 a => exact ⟨a, rfl, ha⟩
  | case7 a b hpointers harrays hne haUnknown hbUnknown =>
      -- A bound of both is above one of them only by being that one, or by having its shape.
      exfalso
      cases ha with
      | unknown => exact haUnknown (isUnknown_iff.2 rfl)
      | refl =>
          cases hb with
          | unknown => exact hbUnknown (isUnknown_iff.2 rfl)
          | refl => exact hne rfl
          | pointer => exact hpointers _ _ rfl rfl
          | array => exact harrays _ _ _ _ rfl rfl
      | pointer =>
          cases hb with
          | unknown => exact hbUnknown (isUnknown_iff.2 rfl)
          | refl | pointer => exact hpointers _ _ rfl rfl
      | array =>
          cases hb with
          | unknown => exact hbUnknown (isUnknown_iff.2 rfl)
          | refl | array => exact harrays _ _ _ _ rfl rfl

/-- What merging finds is the least type above both. -/
theorem isLUB_of_merge {a b merged : Ty} (h : a.merge b = some merged) :
    IsLUB {a, b} merged := by
  obtain ⟨ha, hb⟩ := below_of_merge h
  refine ⟨?_, fun u hu => ?_⟩
  · rintro ty (rfl | rfl)
    · exact ha
    · exact hb
  · obtain ⟨_, hmerged, hle⟩ := exists_merge_le (hu (Or.inl rfl)) (hu (Or.inr rfl))
    cases h.symm.trans hmerged
    exact hle

end ScriptDecompiler.Ty
