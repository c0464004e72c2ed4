import ScriptDecompiler.Proofs.Machine.Temporaries
import ScriptDecompiler.Proofs.Store.Names

/-!
# References of variables

Wherever a variable is kept, its kind and index say by which reference functions name it.  So
a variable that a reference denotes bears this reference, and no two variables that can be
seen from a function bear the same one.

Nothing that happens at a place changes kinds or indexes, and what comes into being there has
the right ones; so this holds of every program of a unit, however much of it was decompiled.
-/

namespace ScriptDecompiler

/-- The reference by which functions name a variable; a result has none. -/
def Variable.ref? (v : Variable) : Option VarRef :=
  match v.kind with
  | .argument | .slot => some (.slot v.index)
  | .static => some (.static v.index)
  | .global => some (.global v.index)
  | .temporary => some (.temp v.index)
  | .result => none

theorem Variable.Alike.ref?_eq {v v' : Variable} (h : v.Alike v') : v'.ref? = v.ref? := by
  obtain ⟨hindex, -, hkind, -⟩ := h.fields
  unfold ref?
  rw [hindex, hkind]

theorem Variable.index_of_ref? {v : Variable} {r : VarRef} (h : v.ref? = some r) :
    v.index = r.index := by
  unfold ref? at h
  split at h <;> cases h <;> rfl

theorem Variable.index_of_ref?_slot {v : Variable} {index : Nat}
    (h : v.ref? = some (.slot index)) : v.index = index :=
  index_of_ref? h

namespace Place

/-- The reference by which functions name what is at a place. -/
def ref? : Place → Option VarRef
  | own _ (.argument index) | own _ (.slot index) => some (.slot index)
  | own _ (.temp index) => some (.temp index)
  | own _ .result => none
  | static index => some (.static index)
  | global index => some (.global index)

theorem Newborn.ref?_eq {place : Place} {v : Variable} (h : Newborn place v) :
    v.ref? = place.ref? := by
  cases h <;> rfl

theorem Turns.ref?_eq {current : Nat} {place : Place} {o o' : Option Variable}
    (h : Turns current place o o') (hbefore : ∀ v, o = some v → v.ref? = place.ref?) :
    ∀ v, o' = some v → v.ref? = place.ref? := by
  induction h with
  | refl => exact hbefore
  | tail _ hturn ih =>
      rintro _ rfl
      cases hturn with
      | appear _ hnewborn => exact hnewborn.ref?_eq
      | observe v ty _ => exact (v.alike_infer ty).ref?_eq.trans (ih v rfl)
      | @parameter _ _ v _ ty => exact (v.alike_infer ty).ref?_eq.trans (ih v rfl)
      | rename _ v _ => exact ih v rfl

end Place

namespace Store

/-- Does every variable bear the reference of its place? -/
def Labelled (s : Store) : Prop :=
  ∀ place v, s.at? place = some v → v.ref? = place.ref?

variable {s s' : Store} {current : Nat}

theorem Labelled.develops (h : s.Labelled) (hs : s.Develops current s') : s'.Labelled :=
  fun place => (hs place).ref?_eq (h place)

/-- What a reference denotes bears it. -/
theorem Labelled.ref?_of_get? (h : s.Labelled) {r : VarRef} {v : Variable}
    (hv : s.get? current r = some v) : v.ref? = some r := by
  rw [get?_eq] at hv
  cases r with
  | slot index =>
      rcases Option.or_eq_some_iff.1 hv with hv | ⟨-, hv⟩
      · exact h _ v hv
      · exact h _ v hv
  | temp | static | global => exact h _ v hv

end Store

/-- The statics of a unit, one for each initial value. -/
theorem eq_of_get?_ofStatics {values : List Int} {index : Nat} {v : Variable}
    (h : (Globals.ofStatics values).statics.get? index = some v) :
    ∃ value, v = { Globals.freshStatic index with ty := .int, initial := some value } := by
  have hfold : ∀ (values : List Int) (first : Nat), ((values.zipIdx first).foldr
      (fun entry t => t.insert entry.2
        { Globals.freshStatic entry.2 with ty := .int, initial := some entry.1 })
      Table.empty).get? index = some v →
        ∃ value, v = { Globals.freshStatic index with ty := .int, initial := some value } := by
    intro values
    induction values with
    | nil => exact fun _ hnone => by cases hnone
    | cons value values ih =>
        intro first hv
        rw [List.zipIdx_cons, List.foldr_cons, Table.get?_insert] at hv
        split at hv
        · rename_i hindex
          cases hv
          exact ⟨value, by rw [hindex]⟩
        · exact ih (first + 1) hv
  exact hfold values 0 h

/-- The variables of a function that was just declared. -/
theorem Frame.eq_of_at?_declare {address arguments slots : Nat} {name : String} {ty : Ty}
    {spot : Spot} {v : Variable}
    (h : Frame.at? { Frame.declare address name arguments slots with
      result := { Variable.fresh 0 name .result with ty := ty } } spot = some v) :
    (∃ position, spot = .argument position ∧ v = freshSlot .argument position) ∨
      (∃ index, spot = .slot index ∧ v = freshSlot .slot index) ∨
        spot = .result ∧ v = { Variable.fresh 0 name .result with ty := ty } := by
  cases spot with
  | argument position =>
      obtain ⟨_, rfl⟩ := Array.getElem?_eq_some_iff.1 h
      refine Or.inl ⟨position, rfl, ?_⟩
      simp only [declare, List.getElem_toArray, List.getElem_map, List.getElem_range]
  | slot index =>
      simp only [at?] at h
      split at h
      · cases h
      · rename_i hlocal
        obtain ⟨_, rfl⟩ := Array.getElem?_eq_some_iff.1 h
        refine Or.inr (Or.inl ⟨index, rfl, ?_⟩)
        simp only [declare, List.size_toArray, List.length_map, List.length_range] at hlocal
        simp only [declare, List.getElem_toArray, List.getElem_map, List.getElem_range',
          List.size_toArray, List.length_map, List.length_range]
        rw [show arguments + 1 * (index - arguments) = index by omega]
  | temp index => simp [at?, declare] at h
  | result =>
      cases h
      exact Or.inr (Or.inr ⟨rfl, rfl⟩)

namespace Machine

variable {p : Program}

/-- Before anything is replayed. -/
theorem labelled_program (u : ScriptUnit) (instructions : List Bytecode.Instruction) :
    (u.program instructions).store.Labelled := by
  intro place v hv
  cases place with
  | own k spot =>
      obtain ⟨frame, hframe, hspot⟩ := Option.bind_eq_some_iff.1 hv
      rw [frames_program, List.getElem?_toArray, List.getElem?_map] at hframe
      obtain ⟨built, hbuilt, rfl⟩ := Option.map_eq_some_iff.1 hframe
      obtain ⟨address, name, arguments, slots, ty, hdeclare⟩ :=
        Flow.exists_declare_of_mem_buildFunctions (List.mem_of_getElem? hbuilt)
      rw [hdeclare] at hspot
      rcases Frame.eq_of_at?_declare hspot with ⟨_, rfl, rfl⟩ | ⟨_, rfl, rfl⟩ | ⟨rfl, rfl⟩ <;> rfl
  | static index =>
      obtain ⟨value, rfl⟩ := eq_of_get?_ofStatics hv
      rfl
  | global index => cases hv

theorem labelled_decompileFunction (h : p.store.Labelled) (c : Context) :
    (p.decompileFunction c).2.store.Labelled := by
  obtain ⟨course, hcourse⟩ := exists_runs_decompileFunction p c
  exact h.develops (hcourse.leads.develops hcourse.replayed)

theorem labelled_of_run {u : ScriptUnit} {natives : Native.Database} {annotate : Bool}
    {instructions : List Bytecode.Instruction} {fault : Option Fault}
    (hrun : (u.program instructions).run u natives annotate = (fault, p)) :
    p.store.Labelled := by
  obtain rfl : ((u.program instructions).run u natives annotate).2 = p := congrArg Prod.snd hrun
  exact decompileFunctions_keeps (P := fun p => p.store.Labelled)
    (fun _ index _ hp => labelled_decompileFunction hp ⟨u, natives, annotate, index⟩)
    (labelled_program u instructions)

end Machine

end ScriptDecompiler
