import Mathlib.Data.Set.Insert
import Mathlib.Order.Bounds.Basic
import ScriptDecompiler.Proofs.Ty.Order

/-!
# Merging is a partial join

A set of types need not have a type above it.  If it has one, then merging the types of the set,
in whatever order and grouping, finds the least one; if it has none, then merging fails.  The
set alone decides what the result is, and from this follow the laws of merging: it is
commutative and idempotent, the unknown type is its unit, and either grouping of three types
comes to the same, failures included.
-/

namespace ScriptDecompiler.Ty

/-- Is a result the partial join of a set, the least type above it if any type is? -/
structure Joins (types : Set Ty) (result : Option Ty) : Prop where
  least : ∀ joined, result = some joined → IsLUB types joined
  found : BddAbove types → ∃ joined, result = some joined

namespace Joins

variable {types others : Set Ty} {result other : Option Ty}

theorem eq_some_iff (h : Joins types result) {joined : Ty} :
    result = some joined ↔ IsLUB types joined := by
  refine ⟨h.least joined, fun hjoined => ?_⟩
  obtain ⟨found, hfound⟩ := h.found ⟨joined, hjoined.1⟩
  rw [hfound, (h.least found hfound).unique hjoined]

theorem isSome_iff (h : Joins types result) : result.isSome = true ↔ BddAbove types := by
  rw [Option.isSome_iff_exists]
  refine ⟨fun ⟨joined, hjoined⟩ => ⟨joined, (h.least joined hjoined).1⟩, h.found⟩

/-- A set has one partial join. -/
theorem unique (h : Joins types result) (h' : Joins types other) : result = other :=
  Option.ext fun _ => h.eq_some_iff.trans h'.eq_some_iff.symm

theorem singleton (ty : Ty) : Joins {ty} (some ty) where
  least _ h := Option.some.inj h ▸ isLUB_singleton
  found _ := ⟨ty, rfl⟩

theorem pair (a b : Ty) : Joins {a, b} (a.merge b) := by
  refine ⟨fun _ => isLUB_of_merge, fun hbounded => ?_⟩
  obtain ⟨_, hu⟩ := hbounded
  obtain ⟨joined, hjoined, -⟩ := exists_merge_le (hu (.inl rfl)) (hu (.inr rfl))
  exact ⟨joined, hjoined⟩

/-- Merging the joins of two sets joins all their types. -/
theorem union (h : Joins types result) (h' : Joins others other) :
    Joins (types ∪ others) (result.bind fun x => other.bind fun y => x.merge y) := by
  -- What is above all types of both sets is what is above the joins of the two.
  have hbounds {x y : Ty} (hx : result = some x) (hy : other = some y) :
      upperBounds (types ∪ others) = upperBounds {x, y} := by
    rw [upperBounds_union, (h.least x hx).upperBounds_eq, (h'.least y hy).upperBounds_eq,
      upperBounds_insert, upperBounds_singleton]
  constructor
  · intro joined hjoined
    obtain ⟨x, hx, hrest⟩ := Option.bind_eq_some_iff.1 hjoined
    obtain ⟨y, hy, hmerge⟩ := Option.bind_eq_some_iff.1 hrest
    rw [IsLUB, hbounds hx hy]
    exact isLUB_of_merge hmerge
  · intro hbounded
    obtain ⟨x, hx⟩ := h.found (hbounded.mono Set.subset_union_left)
    obtain ⟨y, hy⟩ := h'.found (hbounded.mono Set.subset_union_right)
    obtain ⟨joined, hmerge⟩ := (pair x y).found (by rwa [BddAbove, ← hbounds hx hy])
    exact ⟨joined, by rw [hx, hy]; exact hmerge⟩

end Joins

theorem merge_comm (a b : Ty) : a.merge b = b.merge a := by
  have hswapped := Joins.pair b a
  rw [Set.pair_comm] at hswapped
  exact (Joins.pair a b).unique hswapped

theorem merge_self (a : Ty) : a.merge a = some a := by
  have hpair := Joins.pair a a
  rw [Set.pair_eq_singleton] at hpair
  exact hpair.unique (.singleton a)

theorem unknown_merge (a : Ty) : unknown.merge a = some a :=
  merge_of_isUnknown (isUnknown_iff.2 rfl) a

/-- Three types are merged alike in either grouping. -/
theorem merge_assoc (a b c : Ty) :
    (a.merge b).bind (·.merge c) = (b.merge c).bind (a.merge ·) := by
  have hleft := (Joins.pair a b).union (Joins.singleton c)
  have hright := (Joins.singleton a).union (Joins.pair b c)
  rw [Set.insert_union] at hleft
  exact hleft.unique hright

/-- Merging is the partial join of types.  It succeeds if and only if some type is above
both, and its result is the least such type.  Hence the order and the grouping of what is
merged do not matter, not even for whether merging fails. -/
theorem merge_isPartialJoin (a b c : Ty) :
    ((a.merge b).isSome = true ↔ ∃ u, a ≤ u ∧ b ≤ u) ∧
      (∀ joined, a.merge b = some joined ↔ IsLeast {u | a ≤ u ∧ b ≤ u} joined) ∧
      a.merge b = b.merge a ∧
      a.merge a = some a ∧
      unknown.merge a = some a ∧ a.merge unknown = some a ∧
      (a.merge b).bind (·.merge c) = (b.merge c).bind (a.merge ·) := by
  have hbounds : upperBounds {a, b} = {u | a ≤ u ∧ b ≤ u} := by
    rw [upperBounds_insert, upperBounds_singleton]
    rfl
  refine ⟨?_, fun joined => ?_, merge_comm a b, merge_self a, unknown_merge a, ?_,
    merge_assoc a b c⟩
  · rw [(Joins.pair a b).isSome_iff, BddAbove, hbounds]
    rfl
  · rw [(Joins.pair a b).eq_some_iff, IsLUB, hbounds]
  · rw [merge_comm, unknown_merge]

end ScriptDecompiler.Ty
