import ScriptDecompiler.Proofs.Ty.Order

/-!
# Observing a type several times

A variable starts out open.  The first concrete type that is observed is taken over and locks
it; later ones are merged into what is known.  As long as nothing is known about an open
variable, both are the same: to take a type over is to merge it with the unknown one.  So what
is known after some observations is the least type above all of them, whichever came first and
however often each was made, and one of them meets a conflict exactly if there is no such type.
-/

namespace ScriptDecompiler

/-- Does an observation contradict what is known? -/
def Inference.isConflict : Inference → Bool
  | conflict .. => true
  | _ => false

namespace Variable

/-- Observe several types in turn.  A conflict does not end the observations. -/
def inferAll (v : Variable) : List Ty → Variable × List Inference
  | [] => (v, [])
  | ty :: rest =>
    let (observed, outcome) := v.infer ty
    let (final, outcomes) := observed.inferAll rest
    (final, outcome :: outcomes)

/-- Is nothing known about the variable while it is open? -/
def Coherent (v : Variable) : Prop :=
  v.locked = false → v.ty = ⊥

variable {v : Variable}

/-- An observation that can be merged with what is known is. -/
theorem infer_of_merge (h : v.Coherent) {ty merged : Ty} (hmerge : v.ty.merge ty = some merged) :
    v.infer ty = ({ v with ty := merged, locked := v.locked || !ty.isUnknown },
      if merged = v.ty then .unchanged else .refined) := by
  unfold Variable.infer
  by_cases hunknown : ty.isUnknown = true
  · -- The unknown type adds nothing.
    obtain ⟨known, hknown, hle⟩ := Ty.exists_merge_le (le_refl v.ty)
      (Ty.isUnknown_iff.1 hunknown ▸ bot_le : ty ≤ v.ty)
    cases hmerge.symm.trans hknown
    have hsame : merged = v.ty := hle.antisymm (Ty.below_of_merge hmerge).1
    rw [if_pos hunknown, if_pos hsame, hsame, hunknown]
    simp
  · rw [if_neg hunknown]
    cases hlocked : v.locked with
    | false =>
        -- Nothing was known, so the merged type is the observed one.
        have hopen := h hlocked
        rw [Ty.merge_of_isUnknown (Ty.isUnknown_iff.2 hopen)] at hmerge
        cases hmerge
        have hne : v.ty ≠ ty := fun heq => hunknown (Ty.isUnknown_iff.2 (heq ▸ hopen))
        simp [hunknown, hne, hne.symm]
    | true =>
        have hsame : ({ v with locked := true } : Variable) = v := by rw [← hlocked]
        rw [hmerge]
        by_cases hknown : merged = v.ty
        · simp [hknown, hsame]
        · simp [hknown]

/-- An observation that cannot be merged is reported, and changes nothing. -/
theorem infer_of_merge_eq_none (h : v.Coherent) {ty : Ty} (hmerge : v.ty.merge ty = none) :
    v.infer ty = (v, .conflict v.ty ty) := by
  have hunknown : ¬ty.isUnknown = true := by
    intro hunknown
    obtain ⟨_, hknown, -⟩ := Ty.exists_merge_le (le_refl v.ty)
      (Ty.isUnknown_iff.1 hunknown ▸ bot_le : ty ≤ v.ty)
    cases hmerge.symm.trans hknown
  have hlocked : v.locked = true := by
    rw [← Bool.not_eq_false]
    intro hopen
    rw [Ty.merge_of_isUnknown (Ty.isUnknown_iff.2 (h hopen))] at hmerge
    cases hmerge
  unfold Variable.infer
  rw [if_neg hunknown, hlocked, hmerge]
  simp

theorem Coherent.infer (h : v.Coherent) (ty : Ty) : (v.infer ty).1.Coherent := by
  cases hmerge : v.ty.merge ty with
  | none =>
      rw [infer_of_merge_eq_none h hmerge]
      exact h
  | some merged =>
      rw [infer_of_merge h hmerge]
      intro hopen
      -- A variable that is still open has been told nothing.
      obtain ⟨hwasOpen, hunknown⟩ : v.locked = false ∧ ty.isUnknown = true := by
        simpa using hopen
      rw [Ty.merge_of_isUnknown (Ty.isUnknown_iff.2 (h hwasOpen))] at hmerge
      cases hmerge
      exact Ty.isUnknown_iff.1 hunknown

/-- What is above the known type and an observed one is what is above the two merged. -/
theorem upperBounds_of_merge {known ty merged : Ty} (hmerge : known.merge ty = some merged)
    (others : Set Ty) :
    upperBounds (insert known (insert ty others)) = upperBounds (insert merged others) := by
  have hpair := (Ty.isLUB_of_merge hmerge).upperBounds_eq
  calc upperBounds (insert known (insert ty others))
      = upperBounds ({known, ty} ∪ others) := by
        rw [Set.insert_union, Set.singleton_union]
    _ = Set.Ici merged ∩ upperBounds others := by rw [upperBounds_union, hpair]
    _ = upperBounds (insert merged others) := (upperBounds_insert merged others).symm

/-- Observations meet no conflict exactly if some type is above all of them and what is known;
in the end the least such type is known. -/
theorem inferAll_spec (h : v.Coherent) (tys : List Ty) :
    ((∀ o ∈ (v.inferAll tys).2, o.isConflict = false) ↔
      BddAbove (insert v.ty {ty | ty ∈ tys})) ∧
    ((∀ o ∈ (v.inferAll tys).2, o.isConflict = false) →
      ∃ least, IsLUB (insert v.ty {ty | ty ∈ tys}) least ∧ (v.inferAll tys).1 =
        { v with ty := least, locked := v.locked || tys.any (!·.isUnknown) }) := by
  -- What is above the observations that are left and the known type stays the same.
  induction tys generalizing v with
  | nil =>
      refine ⟨iff_of_true (by simp [inferAll]) (by simp), fun _ => ⟨v.ty, by simp, ?_⟩⟩
      simp [inferAll]
  | cons ty rest ih =>
      have hset : {ty' | ty' ∈ ty :: rest} = insert ty {ty' | ty' ∈ rest} :=
        Set.ext fun _ => List.mem_cons
      rw [hset]
      cases hmerge : v.ty.merge ty with
      | none =>
          have hfirst : (v.infer ty).2 ∈ (v.inferAll (ty :: rest)).2 := List.mem_cons_self
          rw [infer_of_merge_eq_none h hmerge] at hfirst
          have hconflict : ¬∀ o ∈ (v.inferAll (ty :: rest)).2, o.isConflict = false :=
            fun hnone => Bool.noConfusion (hnone _ hfirst)
          refine ⟨iff_of_false hconflict ?_, fun hnone => absurd hnone hconflict⟩
          rintro ⟨u, hu⟩
          obtain ⟨_, hmerged, -⟩ := Ty.exists_merge_le (hu (Set.mem_insert _ _))
            (hu (Set.mem_insert_of_mem _ (Set.mem_insert _ _)))
          cases hmerge.symm.trans hmerged
      | some merged =>
          have hobserved := infer_of_merge h hmerge
          have hpass : (v.inferAll (ty :: rest)) = (((v.infer ty).1.inferAll rest).1,
            (v.infer ty).2 :: ((v.infer ty).1.inferAll rest).2) := rfl
          have hfirst : (v.infer ty).2.isConflict = false := by
            rw [hobserved]
            dsimp only
            split <;> rfl
          obtain ⟨hconflicts, hleast⟩ := ih (h.infer ty)
          have hbounds := upperBounds_of_merge hmerge {ty | ty ∈ rest}
          rw [hpass]
          simp only [List.forall_mem_cons, hfirst, true_and]
          rw [hobserved] at hconflicts hleast ⊢
          rw [hconflicts, BddAbove, BddAbove, hbounds]
          refine ⟨Iff.rfl, fun hbounded => ?_⟩
          obtain ⟨least, hlub, hfinal⟩ := hleast (hconflicts.2 hbounded)
          refine ⟨least, ?_, ?_⟩
          · rwa [IsLUB, hbounds]
          · rw [hfinal, List.any_cons, Bool.or_assoc]

/-- An observation that says nothing new changes nothing. -/
theorem infer_of_le (h : v.Coherent) {ty : Ty} (hle : ty ≤ v.ty) :
    v.infer ty = (v, .unchanged) := by
  obtain ⟨merged, hmerge, hmerged⟩ := Ty.exists_merge_le (le_refl v.ty) hle
  have hsame : merged = v.ty := hmerged.antisymm (Ty.below_of_merge hmerge).1
  have hlocked : (v.locked || !ty.isUnknown) = v.locked := by
    cases hlocked : v.locked with
    | true => rfl
    | false =>
        rw [h hlocked, le_bot_iff] at hle
        rw [Ty.isUnknown_iff.2 hle]
        rfl
  rw [infer_of_merge h hmerge, hlocked, hsame, if_pos rfl]

theorem inferAll_of_forall_le (h : v.Coherent) {tys : List Ty} (hle : ∀ ty ∈ tys, ty ≤ v.ty) :
    v.inferAll tys = (v, tys.map fun _ => .unchanged) := by
  induction tys with
  | nil => rfl
  | cons ty rest ih =>
      obtain ⟨hfirst, hrest⟩ := List.forall_mem_cons.1 hle
      rw [inferAll, infer_of_le h hfirst]
      dsimp only
      rw [ih hrest]
      rfl

theorem Coherent.inferAll (h : v.Coherent) (tys : List Ty) : (v.inferAll tys).1.Coherent := by
  induction tys generalizing v with
  | nil => exact h
  | cons ty rest ih => exact ih (h.infer ty)

/-- The order and the number of observations of a variable of which nothing is known do not
matter.  Whether observing the types of a list meets a conflict depends on which types occur in
it, and so does what is known in the end: the least type above all of them.  Observing them once
more says nothing new. -/
theorem inferAll_order_free (hunknown : v.ty = .unknown) {first second : List Ty}
    (hsame : ∀ ty, ty ∈ first ↔ ty ∈ second) :
    ((∃ o ∈ (v.inferAll first).2, o.isConflict = true) ↔
      ∃ o ∈ (v.inferAll second).2, o.isConflict = true) ∧
    ((∀ o ∈ (v.inferAll first).2, o.isConflict = false) →
      let final := (v.inferAll first).1
      (v.inferAll second).1 = final ∧ IsLUB {ty | ty ∈ first} final.ty ∧
        final.inferAll first = (final, first.map fun _ => .unchanged)) := by
  have hcoherent : v.Coherent := fun _ => hunknown
  have hset : {ty | ty ∈ second} = {ty | ty ∈ first} := Set.ext fun ty => (hsame ty).symm
  have hbounds : upperBounds (insert v.ty {ty | ty ∈ first}) = upperBounds {ty | ty ∈ first} := by
    rw [upperBounds_insert, show v.ty = ⊥ from hunknown, Set.Ici_bot, Set.univ_inter]
  obtain ⟨hfirst, hleast⟩ := inferAll_spec hcoherent first
  obtain ⟨hsecond, hleast'⟩ := inferAll_spec hcoherent second
  rw [hset] at hsecond hleast'
  have hconflicts : ∀ outcomes : List Inference, (∃ o ∈ outcomes, o.isConflict = true) ↔
      ¬∀ o ∈ outcomes, o.isConflict = false := by
    simp
  refine ⟨?_, fun hnone => ?_⟩
  · rw [hconflicts, hconflicts, hfirst, hsecond]
  · intro final
    obtain ⟨least, hlub, hfinal⟩ := hleast hnone
    obtain ⟨least', hlub', hfinal'⟩ := hleast' (hsecond.2 (hfirst.1 hnone))
    have hany : second.any (!·.isUnknown) = first.any (!·.isUnknown) := by
      rw [Bool.eq_iff_iff, List.any_eq_true, List.any_eq_true]
      simp only [hsame]
    have htype : final.ty = least := congrArg Variable.ty hfinal
    refine ⟨?_, ?_, ?_⟩
    · rw [hfinal', hlub'.unique hlub, hany]
      exact hfinal.symm
    · rwa [htype, IsLUB, ← hbounds]
    · refine inferAll_of_forall_le (hcoherent.inferAll first) fun ty hty => ?_
      rw [htype]
      exact hlub.1 (Set.mem_insert_of_mem _ hty)

/-- A pointer of which the target is known only from the second observation. -/
theorem inferAll_order_free_pointer :
    let v := Variable.fresh 0 "local_0" .slot
    let first : List Ty := [.pointer .unknown, .unknown, .pointer .int]
    let second : List Ty := [.pointer .int, .pointer .unknown, .pointer .int, .unknown]
    v.locked = false ∧ v.ty = .unknown ∧ (∀ ty, ty ∈ first ↔ ty ∈ second) ∧
      (v.inferAll first).2 = [.refined, .unchanged, .refined] ∧
      (v.inferAll second).2 = [.refined, .unchanged, .unchanged, .unchanged] ∧
      (v.inferAll second).1 = (v.inferAll first).1 ∧
      IsLUB {ty | ty ∈ first} (.pointer .int : Ty) := by
  intro v first second
  have hsame : ∀ ty, ty ∈ first ↔ ty ∈ second := by
    intro ty
    simp only [first, second, List.mem_cons, List.not_mem_nil, or_false]
    tauto
  have hfirst : (v.inferAll first).2 = [.refined, .unchanged, .refined] := by decide +kernel
  have hnone : ∀ o ∈ (v.inferAll first).2, o.isConflict = false := by
    rw [hfirst]
    decide
  obtain ⟨hfinal, hleast, -⟩ := (inferAll_order_free (show v.ty = .unknown from rfl) hsame).2 hnone
  exact ⟨rfl, rfl, hsame, hfirst, by decide +kernel, hfinal, hleast⟩

end Variable

end ScriptDecompiler
