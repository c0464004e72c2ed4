import Mathlib.Logic.Relation
import ScriptDecompiler.Proofs.Ty.Information
import ScriptDecompiler.Store

/-!
# Places of variables

Every variable has a place: among the arguments, the other locals or the temporaries of a
function, as its result, or among the statics and globals of the unit.  A place never loses
its variable.  While a function is replayed, only this can happen at a place:

* a local or temporary of the function, a static or a global comes into being;
* the type of a variable of the function, of a static or of a global is observed;
* the type of an argument of any function is observed, while it is unknown;
* a temporary of the function gets another name.

Everything that is done to frames and to the globals is looked at here for which of these it
makes happen, at all places at once.
-/

namespace ScriptDecompiler

/-- A place for a variable in a frame.  Locals that are no arguments go by their slot. -/
inductive Spot where
  | argument (position : Nat)
  | slot (index : Nat)
  | temp (index : Nat)
  | result
  deriving DecidableEq, Repr

/-- A place for a variable. -/
inductive Place where
  | own (function : Nat) (spot : Spot)
  | static (index : Nat)
  | global (index : Nat)
  deriving DecidableEq, Repr

/-- The variable at a place of a frame. -/
def Frame.at? (f : Frame) : Spot → Option Variable
  | .argument position => f.arguments[position]?
  | .slot index =>
    if index < f.arguments.size then none else f.locals[index - f.arguments.size]?
  | .temp index => f.temporaries[index]?
  | .result => some f.result

/-- The variable at a place. -/
def Store.at? (s : Store) : Place → Option Variable
  | .own function spot => s.frames[function]?.bind (·.at? spot)
  | .static index => s.globals.statics.get? index
  | .global index => s.globals.globals.get? index

namespace Place

/-- Is the place one of function `current`, or of the unit? -/
def IsSeenFrom (current : Nat) : Place → Prop
  | own function _ => function = current
  | static _ | global _ => True

/-- The variables that can come into being at a place. -/
inductive Newborn : Place → Variable → Prop
  | slot (function index : Nat) :
    Newborn (own function (.slot index)) (Frame.freshSlot .slot index)
  | temp (function index : Nat) (ty : Ty) :
    Newborn (own function (.temp index)) (Frame.freshTemp ty index)
  | static (index : Nat) : Newborn (static index) (Globals.freshStatic index)
  | global (index : Nat) : Newborn (global index) (Globals.freshGlobal index)

/-- One thing that can happen at a place while function `current` is replayed. -/
inductive Turn (current : Nat) : Place → Option Variable → Option Variable → Prop
  | appear {place : Place} {v : Variable} (hseen : place.IsSeenFrom current)
      (h : Newborn place v) : Turn current place none (some v)
  | observe {place : Place} (v : Variable) (ty : Ty) (hseen : place.IsSeenFrom current) :
    Turn current place (some v) (some (v.infer ty).1)
  | parameter (callee position : Nat) {v : Variable} (hunknown : v.ty.isUnknown = true) (ty : Ty) :
    Turn current (own callee (.argument position)) (some v) (some (v.infer ty).1)
  | rename (index : Nat) (v : Variable) (identifier : String) :
    Turn current (own current (.temp index)) (some v) (some { v with identifier := identifier })

/-- What can happen at a place while function `current` is replayed. -/
abbrev Turns (current : Nat) (place : Place) : Option Variable → Option Variable → Prop :=
  Relation.ReflTransGen (Turn current place)

namespace Turns

variable {current : Nat} {place : Place} {v : Variable} {o o' : Option Variable}

theorem of_eq (h : o' = o) : Turns current place o o' := by
  rw [h]

/-- What is settled about a variable only grows. -/
theorem grows (h : Turns current place (some v) o) : ∃ v', o = some v' ∧ v.Grows v' := by
  induction h with
  | refl => exact ⟨v, rfl, .refl v⟩
  | tail _ hturn ih =>
      obtain ⟨middle, rfl, hgrows⟩ := ih
      cases hturn with
      | observe _ ty _ => exact ⟨_, rfl, hgrows.trans (middle.grows_infer ty)⟩
      | parameter _ _ _ ty => exact ⟨_, rfl, hgrows.trans (middle.grows_infer ty)⟩
      | rename _ _ identifier =>
          have hsame : middle.Grows { middle with identifier := identifier } :=
            fun hlocked => ⟨hlocked, .refl middle.ty⟩
          exact ⟨_, rfl, hgrows.trans hsame⟩

/-- Only a temporary of the current function gets another name. -/
theorem alike (h : Turns current place (some v) o)
    (hplace : ∀ index, place ≠ .own current (.temp index)) :
    ∃ v', o = some v' ∧ v.Alike v' := by
  induction h with
  | refl => exact ⟨v, rfl, .refl v⟩
  | tail _ hturn ih =>
      obtain ⟨middle, rfl, halike⟩ := ih
      cases hturn with
      | observe _ ty _ => exact ⟨_, rfl, halike.trans (middle.alike_infer ty)⟩
      | parameter _ _ _ ty => exact ⟨_, rfl, halike.trans (middle.alike_infer ty)⟩
      | rename index => exact absurd rfl (hplace index)

/-- What cannot be seen stays as it is, arguments apart. -/
theorem eq_of_not_isSeenFrom (h : Turns current place o o') (hunseen : ¬ place.IsSeenFrom current)
    (hplace : ∀ function position, place ≠ .own function (.argument position)) : o' = o := by
  induction h with
  | refl => rfl
  | tail _ hturn ih =>
      cases hturn with
      | appear hseen _ => exact absurd hseen hunseen
      | observe _ _ hseen => exact absurd hseen hunseen
      | parameter function position => exact absurd rfl (hplace function position)
      | rename => exact absurd rfl hunseen

/-- An argument of another function is observed only while nothing is known about it. -/
theorem eq_or_unknown {function position : Nat} (hfunction : function ≠ current)
    (h : Turns current (.own function (.argument position)) o o') :
    o' = o ∨ ∃ v v', o = some v ∧ o' = some v' ∧ v.Alike v' ∧ v.ty = .unknown := by
  induction h with
  | refl => exact Or.inl rfl
  | tail _ hturn ih =>
      cases hturn with
      | appear hseen _ => exact absurd hseen hfunction
      | observe _ _ hseen => exact absurd hseen hfunction
      | @parameter _ _ middle hunknown ty =>
          refine Or.inr ?_
          rcases ih with rfl | ⟨v, _, rfl, hmiddle, halike, hv⟩
          · exact ⟨middle, _, rfl, rfl, middle.alike_infer ty, Ty.eq_unknown_of_isUnknown hunknown⟩
          · cases hmiddle
            exact ⟨v, _, rfl, rfl, halike.trans (middle.alike_infer ty), hv⟩

end Turns

end Place

namespace Frame

/-- Can this happen to the frame of `function`, at each of its places, while function
`current` is replayed? -/
def Develops (current function : Nat) (f f' : Frame) : Prop :=
  ∀ spot, Place.Turns current (.own function spot) (f.at? spot) (f'.at? spot)

variable (current : Nat) (f : Frame)

/-- Another name of what is seen: a slot is an argument or one of the other locals. -/
theorem slot?_eq (index : Nat) :
    f.slot? index = (f.at? (.argument index)).or (f.at? (.slot index)) := by
  unfold slot? at?
  by_cases hargument : index < f.arguments.size
  · simp [hargument]
  · simp [hargument]

theorem at?_growSlots (index : Nat) (spot : Spot) :
    (f.growSlots index).at? spot = f.at? spot ∨
      ∃ i ≤ index, spot = .slot i ∧ f.at? spot = none ∧
        (f.growSlots index).at? spot = some (freshSlot .slot i) := by
  cases spot with
  | argument | temp | result => exact Or.inl rfl
  | slot i =>
      simp only [at?, growSlots, Array.getElem?_append, List.getElem?_toArray, List.getElem?_map]
      by_cases hargument : i < f.arguments.size
      · exact Or.inl (by simp [hargument])
      · by_cases hpresent : i - f.arguments.size < f.locals.size
        · exact Or.inl (by simp [hargument, hpresent])
        · by_cases hgrown : i ≤ index
          · refine Or.inr ⟨i, hgrown, rfl, by simp [hargument, hpresent], ?_⟩
            have hcount : i - f.arguments.size - f.locals.size <
                index + 1 - (f.arguments.size + f.locals.size) := by omega
            have hslot : f.arguments.size + f.locals.size +
                (i - f.arguments.size - f.locals.size) = i := by omega
            simp [hargument, hpresent, hcount, hslot]
          · refine Or.inl ?_
            have hcount : ¬ i - f.arguments.size - f.locals.size <
                index + 1 - (f.arguments.size + f.locals.size) := by omega
            simp [hargument, hpresent, hcount]

theorem develops_growSlots (index : Nat) : Develops current current f (f.growSlots index) := by
  intro spot
  rcases f.at?_growSlots index spot with hsame | ⟨i, -, rfl, hnone, hsome⟩
  · exact .of_eq hsame
  · rw [hnone, hsome]
    exact .single (.appear rfl (.slot current i))

theorem at?_growTemps (index : Nat) (spot : Spot) :
    (f.growTemps index).at? spot = f.at? spot ∨
      ∃ i ≤ index, spot = .temp i ∧ f.at? spot = none ∧
        (f.growTemps index).at? spot = some (freshTemp .unknown i) := by
  cases spot with
  | argument | slot | result => exact Or.inl rfl
  | temp i =>
      simp only [at?, growTemps, Array.getElem?_append, List.getElem?_toArray, List.getElem?_map]
      by_cases hpresent : i < f.temporaries.size
      · exact Or.inl (by simp [hpresent])
      · by_cases hgrown : i ≤ index
        · refine Or.inr ⟨i, hgrown, rfl, by simp [hpresent], ?_⟩
          have hcount : i - f.temporaries.size < index + 1 - f.temporaries.size := by omega
          have hindex : f.temporaries.size + (i - f.temporaries.size) = i := by omega
          simp [hpresent, hcount, hindex]
        · refine Or.inl ?_
          have hcount : ¬ i - f.temporaries.size < index + 1 - f.temporaries.size := by omega
          simp [hpresent, hcount]

theorem develops_growTemps (index : Nat) : Develops current current f (f.growTemps index) := by
  intro spot
  rcases f.at?_growTemps index spot with hsame | ⟨i, -, rfl, hnone, hsome⟩
  · exact .of_eq hsame
  · rw [hnone, hsome]
    exact .single (.appear rfl (.temp current i .unknown))

theorem develops_addTemp (ty : Ty) : Develops current current f (f.addTemp ty) := by
  intro spot
  cases spot with
  | argument | slot | result => exact .refl
  | temp i =>
      simp only [at?, addTemp, Array.getElem?_push]
      split
      · rename_i hlast
        rw [Array.getElem?_eq_none (Nat.le_of_eq hlast.symm), hlast]
        exact .single (.appear rfl (.temp current _ ty))
      · exact .refl

theorem develops_renameTemp (index : Nat) (name : String) :
    Develops current current f (f.renameTemp index name) := by
  intro spot
  cases spot with
  | argument | slot | result => exact .refl
  | temp i =>
      simp only [at?, renameTemp, Array.getElem?_modify]
      split
      · cases f.temporaries[i]? with
        | none => exact .refl
        | some v => exact .single (.rename i v _)
      · exact .refl

/-- Observing the type of a variable in a slot. -/
theorem develops_setSlot {index : Nat} {v : Variable} (h : f.slot? index = some v) (ty : Ty) :
    Develops current current f (f.setSlot index (v.infer ty).1) := by
  intro spot
  have hobserve : ∀ spot : Spot,
      Place.Turns current (.own current spot) (some v) (some (v.infer ty).1) :=
    fun _ => .single (.observe v ty rfl)
  unfold slot? at h
  unfold setSlot
  by_cases hargument : index < f.arguments.size
  · rw [if_pos hargument] at h ⊢
    cases spot with
    | slot i => exact .of_eq (by simp [at?])
    | temp | result => exact .refl
    | argument position =>
        simp only [at?, Array.getElem?_setIfInBounds]
        split
        · rename_i hhere
          rw [← hhere, h]
          exact hobserve _
        · exact .refl
  · rw [if_neg hargument] at h ⊢
    cases spot with
    | argument | temp | result => exact .refl
    | slot i =>
        simp only [at?, Array.getElem?_setIfInBounds]
        by_cases hslot : i < f.arguments.size
        · exact .of_eq (by simp [hslot])
        · simp only [hslot, if_false]
          split
          · rename_i hhere
            rw [← hhere, h, if_pos (Array.getElem?_eq_some_iff.1 h).1]
            exact hobserve _
          · exact .refl

/-- Observing the type of a temporary. -/
theorem develops_setTemp {index : Nat} {v : Variable} (h : f.temporaries[index]? = some v)
    (ty : Ty) : Develops current current f
      { f with temporaries := f.temporaries.setIfInBounds index (v.infer ty).1 } := by
  intro spot
  cases spot with
  | argument | slot | result => exact .refl
  | temp i =>
      simp only [at?, Array.getElem?_setIfInBounds]
      split
      · rename_i hhere
        rw [← hhere, h, if_pos (Array.getElem?_eq_some_iff.1 h).1]
        exact .single (.observe v ty rfl)
      · exact .refl

/-- Observing the type of the result. -/
theorem develops_setResult (ty : Ty) :
    Develops current current f { f with result := (f.result.infer ty).1 } := by
  intro spot
  cases spot with
  | argument | slot | temp => exact .refl
  | result => exact .single (.observe f.result ty rfl)

/-- Observing the type of an argument, while it is unknown. -/
theorem develops_modifyArgument (function : Nat) {position : Nat} {v : Variable}
    (h : f.arguments[position]? = some v) (hunknown : v.ty.isUnknown = true) (ty : Ty) :
    Develops current function f
      { f with arguments := f.arguments.modify position fun v => (v.infer ty).1 } := by
  intro spot
  cases spot with
  | slot i => exact .of_eq (by simp [at?])
  | temp | result => exact .refl
  | argument i =>
      simp only [at?, Array.getElem?_modify]
      split
      · rename_i hhere
        rw [← hhere, h]
        exact .single (.parameter function position hunknown ty)
      · exact .refl

end Frame

namespace Store

/-- Can this happen to a store, at each place, while function `current` is replayed? -/
def Develops (current : Nat) (s s' : Store) : Prop :=
  ∀ place, Place.Turns current place (s.at? place) (s'.at? place)

variable {current : Nat} {s s' s'' : Store}

theorem Develops.refl (current : Nat) (s : Store) : Develops current s s :=
  fun _ => .refl

theorem Develops.trans (h : Develops current s s') (h' : Develops current s' s'') :
    Develops current s s'' :=
  fun place => (h place).trans (h' place)

variable (s) in
/-- What a reference denotes, by its place. -/
theorem get?_eq (r : VarRef) :
    s.get? current r =
      match r with
      | .slot index =>
        (s.at? (.own current (.argument index))).or (s.at? (.own current (.slot index)))
      | .temp index => s.at? (.own current (.temp index))
      | .static index => s.at? (.static index)
      | .global index => s.at? (.global index) := by
  cases r with
  | temp | static | global => rfl
  | slot index =>
      simp only [get?, at?]
      cases s.frames[current]? with
      | none => rfl
      | some f => exact f.slot?_eq index

/-- Changing a frame. -/
theorem develops_modifyFrame {function : Nat} {change : Frame → Frame}
    (h : ∀ f, s.frames[function]? = some f → f.Develops current function (change f)) :
    Develops current s (s.modifyFrame function change) := by
  intro place
  cases place with
  | static | global => exact .refl
  | own other spot =>
      simp only [at?, modifyFrame, Array.getElem?_modify]
      split
      · rename_i hhere
        subst hhere
        cases hframe : s.frames[function]? with
        | none => exact .refl
        | some f => exact h f hframe spot
      · exact .refl

/-- Whatever happens to the diagnostics, variables stay as they are. -/
theorem develops_diagnose (s : Store) (current function address : Nat) (kind : DiagnosticKind) :
    Develops current s (s.diagnose function address kind) := by
  intro place
  cases place <;> exact .refl

theorem develops_setStatic {index : Nat} {v : Variable}
    (h : Place.Turns current (.static index) (s.globals.statics.get? index) (some v)) :
    Develops current s (s.setStatic index v) := by
  intro place
  cases place with
  | own | global => exact .refl
  | static other =>
      simp only [at?, setStatic, Table.get?_insert]
      split
      · rename_i hhere
        rw [hhere]
        exact h
      · exact .refl

theorem develops_setGlobal {index : Nat} {v : Variable}
    (h : Place.Turns current (.global index) (s.globals.globals.get? index) (some v)) :
    Develops current s (s.setGlobal index v) := by
  intro place
  cases place with
  | own | static => exact .refl
  | global other =>
      simp only [at?, setGlobal, Table.get?_insert]
      split
      · rename_i hhere
        rw [hhere]
        exact h
      · exact .refl

/-- Bringing a variable into being. -/
theorem develops_touch (s : Store) (current : Nat) (r : VarRef) :
    Develops current s (s.touch current r) := by
  cases r with
  | slot index => exact develops_modifyFrame fun f _ => f.develops_growSlots current index
  | temp index => exact develops_modifyFrame fun f _ => f.develops_growTemps current index
  | static index =>
      simp only [touch]
      split
      · exact .refl current s
      · rename_i hnone
        refine develops_setStatic ?_
        rw [hnone]
        exact .single (.appear trivial (.static index))
  | global index =>
      simp only [touch]
      split
      · exact .refl current s
      · rename_i hnone
        refine develops_setGlobal ?_
        rw [hnone]
        exact .single (.appear trivial (.global index))

/-- Observing the type of the variable that a reference denotes. -/
theorem develops_setVariable {r : VarRef} {v : Variable} (h : s.get? current r = some v)
    (ty : Ty) : Develops current s (s.setVariable current (v.infer ty).1 r) := by
  cases r with
  | slot index =>
      refine develops_modifyFrame fun f hf => f.develops_setSlot current ?_ ty
      rw [get?, hf] at h
      exact h
  | temp index =>
      refine develops_modifyFrame fun f hf => f.develops_setTemp current ?_ ty
      rw [get?, hf] at h
      exact h
  | static index =>
      refine develops_setStatic ?_
      rw [show s.globals.statics.get? index = some v from h]
      exact .single (.observe v ty trivial)
  | global index =>
      refine develops_setGlobal ?_
      rw [show s.globals.globals.get? index = some v from h]
      exact .single (.observe v ty trivial)

theorem develops_inferVariable (s : Store) (current address : Nat) (r : VarRef) (ty : Ty) :
    Develops current s (s.inferVariable current address r ty) := by
  have htouch := develops_touch s current r
  unfold inferVariable
  dsimp only
  split
  · exact htouch
  · rename_i v hv
    have hset := htouch.trans (develops_setVariable hv ty)
    split
    · exact hset.trans (develops_diagnose _ current current address _)
    · exact hset

/-- The place of the variable that a reference denotes. -/
def placeOf (s : Store) (current : Nat) : VarRef → Place
  | .slot index =>
    if index < (s.frames[current]?.map (·.arguments.size)).getD 0 then
      .own current (.argument index)
    else .own current (.slot index)
  | .temp index => .own current (.temp index)
  | .static index => .static index
  | .global index => .global index

theorem at?_placeOf (s : Store) (current : Nat) (r : VarRef) :
    s.at? (s.placeOf current r) = s.get? current r := by
  cases r with
  | temp | static | global => rfl
  | slot index =>
      unfold placeOf get?
      cases hf : s.frames[current]? with
      | none => simp [at?, hf]
      | some f =>
          simp only [Option.map_some, Option.getD_some, Option.bind_some, Frame.slot?]
          split <;> rename_i hargument <;> simp [at?, hf, Frame.at?, hargument]

/-- A variable that is put in place of another one changes nothing elsewhere. -/
theorem at?_setVariable_of_ne {r : VarRef} (v : Variable) {place : Place}
    (h : place ≠ s.placeOf current r) : (s.setVariable current v r).at? place = s.at? place := by
  cases r with
  | static index =>
      cases place with
      | own | global => rfl
      | static other =>
          have hne : other ≠ index := fun heq => h (congrArg Place.static heq)
          simp [setVariable, setStatic, at?, hne]
  | global index =>
      cases place with
      | own | static => rfl
      | global other =>
          have hne : other ≠ index := fun heq => h (congrArg Place.global heq)
          simp [setVariable, setGlobal, at?, hne]
  | temp index =>
      cases place with
      | static | global => rfl
      | own function spot =>
          simp only [setVariable, at?, modifyFrame, Array.getElem?_modify]
          split
          · rename_i hhere
            subst hhere
            cases s.frames[current]? with
            | none => rfl
            | some f =>
                cases spot with
                | argument | slot | result => rfl
                | temp other =>
                    have hne : index ≠ other := fun heq => h (by rw [heq]; rfl)
                    simp [Frame.at?, Array.getElem?_setIfInBounds_ne hne]
          · rfl
  | slot index =>
      cases place with
      | static | global => rfl
      | own function spot =>
          simp only [setVariable, at?, modifyFrame, Array.getElem?_modify]
          split
          · rename_i hhere
            subst hhere
            unfold placeOf at h
            cases hf : s.frames[current]? with
            | none => rfl
            | some f =>
                simp only [hf, Option.map_some, Option.getD_some] at h
                simp only [Option.map_some, Option.bind_some]
                unfold Frame.setSlot
                by_cases hargument : index < f.arguments.size
                · rw [if_pos hargument] at h ⊢
                  cases spot with
                  | temp | result => rfl
                  | slot other => simp [Frame.at?]
                  | argument other =>
                      have hne : index ≠ other := fun heq => h (by rw [heq])
                      exact Array.getElem?_setIfInBounds_ne hne
                · rw [if_neg hargument] at h ⊢
                  cases spot with
                  | temp | result | argument => rfl
                  | slot other =>
                      have hne : index ≠ other := fun heq => h (by rw [heq])
                      simp only [Frame.at?]
                      split
                      · rfl
                      · exact Array.getElem?_setIfInBounds_ne (by omega)
          · rfl

end Store

end ScriptDecompiler
