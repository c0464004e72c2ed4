import ScriptDecompiler.Proofs.Store.Updates

/-!
# What a course of updates comes to

A course is a list of updates, each with the function that is replayed when it is made.
From any moment of a course to any later one, variables stay, what is settled about them
only grows, and reports are only added: of the reports about conflicting types, those of the
conflicts that are met.
-/

namespace ScriptDecompiler

namespace Store

/-- Are all variables still there, and what was settled about them? -/
def Grows (s s' : Store) : Prop :=
  ∀ place v, s.at? place = some v → ∃ v', s'.at? place = some v' ∧ v.Grows v'

theorem Grows.trans {s s' s'' : Store} (h : s.Grows s') (h' : s'.Grows s'') : s.Grows s'' := by
  intro place v hv
  obtain ⟨v', hv', hgrows⟩ := h place v hv
  obtain ⟨v'', hv'', hgrows'⟩ := h' place v' hv'
  exact ⟨v'', hv'', hgrows.trans hgrows'⟩

theorem Develops.grows {current : Nat} {s s' : Store} (h : s.Develops current s') :
    s.Grows s' := by
  intro place v hv
  have hturns := h place
  rw [hv] at hturns
  exact hturns.grows

/-- The store after updates, one after another, each with the function that is replayed. -/
inductive Course : Store → List (Nat × Update) → Store → Prop
  | nil (s : Store) : Course s [] s
  | cons {current : Nat} {u : Update} {s s' : Store} {rest : List (Nat × Update)}
      (hvalid : u.Valid s) (hrest : Course (u.apply current s) rest s') :
      Course s ((current, u) :: rest) s'

/-- The reports about the conflicts that are met on a course. -/
def conflictsMet (s : Store) : List (Nat × Update) → List Diagnostic
  | [] => []
  | (current, u) :: rest =>
    ((u.conflict? current s).map fun (address, kind) =>
      ⟨s.frames[current]?.map (·.name), some address, kind⟩).toList ++
        conflictsMet (u.apply current s) rest

namespace Course

variable {s s' s'' : Store} {front back course : List (Nat × Update)} {current : Nat}

theorem single {u : Update} (h : u.Valid s) : Course s [(current, u)] (u.apply current s) :=
  .cons h (.nil _)

theorem append (h : Course s front s') (h' : Course s' back s'') :
    Course s (front ++ back) s'' := by
  induction h with
  | nil => exact h'
  | cons hvalid _ ih => exact .cons hvalid (ih h')

theorem of_append (h : Course s (front ++ back) s'') :
    ∃ s', Course s front s' ∧ Course s' back s'' := by
  induction front generalizing s with
  | nil => exact ⟨s, .nil s, h⟩
  | cons first front ih =>
      cases h with
      | cons hvalid hrest =>
          obtain ⟨s', hfront, hback⟩ := ih hrest
          exact ⟨s', .cons hvalid hfront, hback⟩

/-- Where updates lead to is settled. -/
theorem unique (h : Course s front s') (h' : Course s front s'') : s' = s'' := by
  induction h with
  | nil =>
      cases h'
      rfl
  | cons _ _ ih =>
      cases h' with
      | cons _ hrest => exact ih hrest

/-- What happens at the places of variables if one function is replayed all the time. -/
theorem develops (h : Course s course s') (hcurrent : ∀ step ∈ course, step.1 = current) :
    s.Develops current s' := by
  induction h with
  | nil => exact .refl current _
  | cons hvalid _ ih =>
      obtain ⟨rfl, hrest⟩ := List.forall_mem_cons.1 hcurrent
      exact (Update.develops_apply hvalid).trans (ih hrest)

theorem grows (h : Course s course s') : s.Grows s' := by
  induction h with
  | nil => exact (Develops.refl 0 _).grows
  | cons hvalid _ ih => exact (Update.develops_apply hvalid).grows.trans ih

theorem heads (h : Course s course s') : s'.heads = s.heads := by
  induction h with
  | nil => rfl
  | cons _ _ ih => exact ih.trans (Update.heads_apply _ _ _)

/-- Reports are only added. -/
theorem diagnostics (h : Course s course s') :
    ∃ added, s'.diagnostics = s.diagnostics ++ added := by
  induction h with
  | nil => exact ⟨#[], by simp⟩
  | @cons current u s s' rest _ _ ih =>
      obtain ⟨added, hadded⟩ := ih
      rcases u.exists_diagnostics_apply current s with hsame | ⟨d, hpush, -⟩
      · exact ⟨added, hsame ▸ hadded⟩
      · refine ⟨#[d] ++ added, ?_⟩
        rw [hadded, hpush, Array.push_eq_append, Array.append_assoc]

/-- The conflicts that are met are reported, once each, and no others. -/
theorem conflicts (h : Course s course s') :
    s'.conflicts = s.conflicts ++ s.conflictsMet course := by
  induction h with
  | nil => simp [conflictsMet]
  | @cons current u s s' rest hvalid _ ih =>
      rw [ih, conflictsMet, ← List.append_assoc]
      congr 1
      cases hmet : u.conflict? current s with
      | none =>
          rw [Update.conflicts_apply hvalid hmet]
          simp
      | some report =>
          obtain ⟨address, kind⟩ := report
          obtain ⟨happly, hconflict⟩ := Update.apply_of_conflict? hmet
          rw [happly]
          simp [Store.conflicts, diagnose, hconflict]

end Course

/-- Is `s` the store at some moment of the course? -/
def Passes (start : Store) (course : List (Nat × Update)) (s : Store) : Prop :=
  ∃ front back, course = front ++ back ∧ Course start front s

namespace Passes

variable {start middle s : Store} {front back : List (Nat × Update)}

theorem self (s : Store) (course : List (Nat × Update)) : Passes s course s :=
  ⟨[], course, rfl, .nil s⟩

theorem append (h : Passes start front s) (back : List (Nat × Update)) :
    Passes start (front ++ back) s := by
  obtain ⟨before, after, rfl, hbefore⟩ := h
  exact ⟨before, after ++ back, List.append_assoc .., hbefore⟩

theorem behind (h : Passes middle back s) (hfront : Course start front middle) :
    Passes start (front ++ back) s := by
  obtain ⟨before, after, rfl, hbefore⟩ := h
  exact ⟨front ++ before, after, (List.append_assoc ..).symm, hfront.append hbefore⟩

end Passes

end Store

end ScriptDecompiler
