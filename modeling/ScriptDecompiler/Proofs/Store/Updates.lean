import ScriptDecompiler.Proofs.Machine.Outlines
import ScriptDecompiler.Proofs.Store.Places

/-!
# Updates of a store

There are seven things that a replay does to a store, and everything that happens to
variables and diagnostics comes of them.  Each is looked at once, for all that it leaves
alone.

An observation that conflicts with what is settled does nothing but add its report.  No
other update reports a conflict: a variable that has just come into being conflicts with
nothing, and a parameter is observed only while its type is unknown.
-/

namespace ScriptDecompiler

/-- Is the diagnostic about conflicting types? -/
def DiagnosticKind.isConflict : DiagnosticKind → Bool
  | .typeConflict .. => true
  | _ => false

/-- Is the diagnostic about the signature of a native? -/
def DiagnosticKind.isNative : DiagnosticKind → Bool
  | .synthesizedNative .. | .nativeArityMismatch .. => true
  | _ => false

/-- The variable that comes into being when a reference is followed for the first time. -/
def VarRef.newborn : VarRef → Variable
  | slot index => Frame.freshSlot .slot index
  | static index => Globals.freshStatic index
  | global index => Globals.freshGlobal index
  | temp index => Frame.freshTemp .unknown index

namespace Frame

variable {f : Frame} {index : Nat} {v : Variable}

theorem growSlots_eq_self (h : f.slot? index = some v) : f.growSlots index = f := by
  have hpresent : index + 1 - (f.arguments.size + f.locals.size) = 0 := by
    unfold slot? at h
    split at h
    · omega
    · obtain ⟨hlt, -⟩ := Array.getElem?_eq_some_iff.1 h
      omega
  unfold growSlots
  simp [hpresent]

theorem growTemps_eq_self (h : f.temporaries[index]? = some v) : f.growTemps index = f := by
  obtain ⟨hlt, -⟩ := Array.getElem?_eq_some_iff.1 h
  have hpresent : index + 1 - f.temporaries.size = 0 := by omega
  unfold growTemps
  simp [hpresent]

/-- A slot that was missing is there once it is named. -/
theorem slot?_growSlots_of_none (h : f.slot? index = none) :
    (f.growSlots index).slot? index = some (freshSlot .slot index) := by
  unfold slot? at h
  split at h
  · rename_i hargument
    exact absurd (Array.getElem?_eq_none_iff.1 h) (Nat.not_le.2 hargument)
  · rename_i hlocal
    have hmissing := Array.getElem?_eq_none_iff.1 h
    have hcount : index - f.arguments.size - f.locals.size <
        index + 1 - (f.arguments.size + f.locals.size) := by omega
    have hslot : f.arguments.size + f.locals.size +
        (index - f.arguments.size - f.locals.size) = index := by omega
    simp [slot?, growSlots, hlocal, Array.getElem?_append, Nat.not_lt.2 hmissing, hcount, hslot]

/-- So is a temporary. -/
theorem getElem?_growTemps_of_none (h : f.temporaries[index]? = none) :
    (f.growTemps index).temporaries[index]? = some (freshTemp .unknown index) := by
  have hmissing := Array.getElem?_eq_none_iff.1 h
  have hcount : index - f.temporaries.size < index + 1 - f.temporaries.size := by omega
  have hindex : f.temporaries.size + (index - f.temporaries.size) = index := by omega
  simp [growTemps, Array.getElem?_append, Nat.not_lt.2 hmissing, hcount, hindex]

theorem setSlot_eq_self (h : f.slot? index = some v) : f.setSlot index v = f := by
  unfold slot? at h
  unfold setSlot
  split at h <;> obtain ⟨hlt, rfl⟩ := Array.getElem?_eq_some_iff.1 h
  · rw [if_pos ‹_›, Array.setIfInBounds_def, dif_pos hlt, Array.set_getElem_self]
  · rw [if_neg ‹_›, Array.setIfInBounds_def, dif_pos hlt, Array.set_getElem_self]

theorem slot?_setSlot_self (h : f.slot? index = some v) (v' : Variable) :
    (f.setSlot index v').slot? index = some v' := by
  unfold slot? at h
  unfold setSlot slot?
  split at h <;> rename_i hargument <;> obtain ⟨hlt, -⟩ := Array.getElem?_eq_some_iff.1 h
  · simp [hargument]
  · simp [hargument, hlt]

end Frame

namespace Table

variable {α : Type} {key : Nat} {value : α}

theorem findEntry?_eq_some_iff {entries : List (Nat × α)}
    (hascending : entries.Pairwise (fun a b => a.1 < b.1)) :
    findEntry? key entries = some value ↔ (key, value) ∈ entries := by
  induction entries with
  | nil => simp [ findEntry?]
  | cons entry rest ih =>
      obtain ⟨k, v⟩ := entry
      obtain ⟨hfirst, hrest⟩ := List.pairwise_cons.1 hascending
      unfold findEntry?
      split
      · rename_i hkey
        have hnot : (key, value) ∉ rest := fun hmem =>
          Nat.ne_of_lt (hfirst _ hmem) hkey.symm
        simp [hkey ▸ hnot, hkey, eq_comm]
      · rename_i hkey
        rw [ih hrest, List.mem_cons, Prod.mk.injEq]
        exact (or_iff_right fun h => hkey h.1).symm

theorem get?_eq_some_iff {t : Table α} : t.get? key = some value ↔ (key, value) ∈ t.entries :=
  findEntry?_eq_some_iff t.ascending

theorem insertEntry_eq_self {entries : List (Nat × α)}
    (hascending : entries.Pairwise (fun a b => a.1 < b.1))
    (h : findEntry? key entries = some value) : insertEntry key value entries = entries := by
  induction entries with
  | nil => cases h
  | cons entry rest ih =>
      obtain ⟨k, v⟩ := entry
      obtain ⟨hfirst, hrest⟩ := List.pairwise_cons.1 hascending
      unfold findEntry? at h
      split at h
      · rename_i hkey
        cases h
        simp [insertEntry, hkey]
      · rename_i hkey
        have hlater : k < key := hfirst _ ((findEntry?_eq_some_iff hrest).1 h)
        rw [insertEntry, if_neg (by omega), if_neg hkey, ih hrest h]

theorem insert_eq_self {t : Table α} (h : t.get? key = some value) : t.insert key value = t := by
  cases t with
  | mk entries ascending =>
      unfold insert
      simp only [insertEntry_eq_self ascending h]

end Table

namespace Store

variable {s : Store} {current : Nat} {r : VarRef} {v : Variable}

theorem modifyFrame_eq_self {function : Nat} {change : Frame → Frame}
    (h : ∀ f, s.frames[function]? = some f → change f = f) :
    s.modifyFrame function change = s := by
  have hframes : s.frames.modify function change = s.frames := by
    apply Array.ext_getElem?
    intro k
    rw [Array.getElem?_modify]
    split
    · rename_i hhere
      subst hhere
      cases hframe : s.frames[function]? with
      | none => rfl
      | some f => rw [Option.map_some, h f hframe]
    · rfl
  unfold modifyFrame
  rw [hframes]

/-- Bringing a variable into being that is there already. -/
theorem touch_eq_self (h : s.get? current r = some v) : s.touch current r = s := by
  cases r with
  | slot index =>
      refine modifyFrame_eq_self fun f hf => Frame.growSlots_eq_self (v := v) ?_
      rwa [get?, hf] at h
  | temp index =>
      refine modifyFrame_eq_self fun f hf => Frame.growTemps_eq_self (v := v) ?_
      rwa [get?, hf] at h
  | static index =>
      change s.globals.statics.get? index = some v at h
      simp only [touch, h]
  | global index =>
      change s.globals.globals.get? index = some v at h
      simp only [touch, h]

/-- Naming a slot brings it into being, and the missing ones below it.  Nothing is known about
them. -/
theorem get?_touch_slot (s : Store) (current index : Nat) (r : VarRef) :
    (s.touch current (.slot index)).get? current r = s.get? current r ∨
      ∃ i, r = .slot i ∧ s.get? current r = none ∧
        (s.touch current (.slot index)).get? current r = some (Frame.freshSlot .slot i) := by
  cases r with
  | static | global => exact Or.inl rfl
  | temp i =>
      refine Or.inl ?_
      simp only [get?, touch, modifyFrame, Array.getElem?_modify, if_true]
      cases s.frames[current]? with
      | none => rfl
      | some f => rfl
  | slot i =>
      simp only [get?, touch, modifyFrame, Array.getElem?_modify, if_true]
      cases s.frames[current]? with
      | none => exact Or.inl rfl
      | some f =>
          simp only [Option.map_some, Option.bind_some, Frame.slot?_eq]
          have hargument : (f.growSlots index).at? (.argument i) = f.at? (.argument i) := rfl
          rw [hargument]
          rcases f.at?_growSlots index (.slot i) with hsame | ⟨j, -, hj, hnone, hsome⟩
          · exact Or.inl (by rw [hsame])
          · cases hj
            rw [hnone, hsome]
            cases f.at? (.argument i) with
            | none => exact Or.inr ⟨i, rfl, rfl, rfl⟩
            | some v => exact Or.inl rfl

/-- Is there a function to look into, if the reference asks for one? -/
def Hosts (s : Store) (current : Nat) : VarRef → Prop
  | .slot _ | .temp _ => current < s.frames.size
  | .static _ | .global _ => True

theorem hosts_of_lt (h : current < s.frames.size) (r : VarRef) : s.Hosts current r := by
  cases r with
  | slot | temp => exact h
  | static | global => trivial

theorem hosts_of_get? (h : s.get? current r = some v) : s.Hosts current r := by
  cases r with
  | slot | temp =>
      obtain ⟨f, hf, -⟩ := Option.bind_eq_some_iff.1 h
      exact (Array.getElem?_eq_some_iff.1 hf).1
  | static | global => trivial

theorem hosts_congr {s' : Store} (h : s'.heads = s.heads) :
    s'.Hosts current r ↔ s.Hosts current r := by
  cases r with
  | slot | temp => exact iff_of_eq (congrArg (current < ·) (size_frames_of_heads h))
  | static | global => exact Iff.rfl

/-- Naming a variable finds the one that is there, or else a new one. -/
theorem get?_touch (h : s.Hosts current r) :
    (s.touch current r).get? current r = some ((s.get? current r).getD r.newborn) := by
  cases hbefore : s.get? current r with
  | some v => rw [touch_eq_self hbefore, hbefore, Option.getD_some]
  | none =>
      rw [Option.getD_none]
      cases r with
      | slot index =>
          have hf : s.frames[current]? = some s.frames[current] := Array.getElem?_eq_getElem h
          simp only [get?, hf, Option.bind_some] at hbefore
          simp only [get?, touch, modifyFrame, Array.getElem?_modify, if_true, hf,
            Option.map_some, Option.bind_some]
          exact Frame.slot?_growSlots_of_none hbefore
      | temp index =>
          have hf : s.frames[current]? = some s.frames[current] := Array.getElem?_eq_getElem h
          simp only [get?, hf, Option.bind_some] at hbefore
          simp only [get?, touch, modifyFrame, Array.getElem?_modify, if_true, hf,
            Option.map_some, Option.bind_some]
          exact Frame.getElem?_growTemps_of_none hbefore
      | static index =>
          change s.globals.statics.get? index = none at hbefore
          simp only [touch, hbefore, get?, setStatic, Table.get?_insert, if_true]
          rfl
      | global index =>
          change s.globals.globals.get? index = none at hbefore
          simp only [touch, hbefore, get?, setGlobal, Table.get?_insert, if_true]
          rfl

/-- Nothing is known about a variable that has just come into being. -/
theorem ty_of_get?_touch (h : s.get? current r = none)
    (htouch : (s.touch current r).get? current r = some v) : v.ty = .unknown := by
  have hhosts := (hosts_congr (s.preserves_touch current r).heads).1 (hosts_of_get? htouch)
  rw [get?_touch hhosts, h, Option.getD_none] at htouch
  cases htouch
  cases r <;> rfl

/-- Putting a variable in its own place. -/
theorem setVariable_eq_self (h : s.get? current r = some v) :
    s.setVariable current v r = s := by
  cases r with
  | slot index =>
      refine modifyFrame_eq_self fun f hf => Frame.setSlot_eq_self ?_
      rwa [get?, hf] at h
  | temp index =>
      refine modifyFrame_eq_self fun f hf => ?_
      rw [get?, hf] at h
      obtain ⟨hlt, rfl⟩ := Array.getElem?_eq_some_iff.1 (show f.temporaries[index]? = some v from h)
      rw [Array.setIfInBounds_def, dif_pos hlt, Array.set_getElem_self]
  | static index =>
      change s.globals.statics.get? index = some v at h
      simp only [setVariable, setStatic, Table.insert_eq_self h]
  | global index =>
      change s.globals.globals.get? index = some v at h
      simp only [setVariable, setGlobal, Table.insert_eq_self h]

/-- A variable that is put in place of another one. -/
theorem get?_setVariable_self (h : s.get? current r = some v) (v' : Variable) :
    (s.setVariable current v' r).get? current r = some v' := by
  cases r with
  | static index => simp [setVariable, setStatic, get?]
  | global index => simp [setVariable, setGlobal, get?]
  | temp index =>
      simp only [get?, setVariable, modifyFrame, Array.getElem?_modify, if_true] at h ⊢
      cases hf : s.frames[current]? with
      | none => simp [hf] at h
      | some f =>
          rw [hf, Option.bind_some] at h
          obtain ⟨hlt, -⟩ := Array.getElem?_eq_some_iff.1 h
          simp [hlt]
  | slot index =>
      simp only [get?, setVariable, modifyFrame, Array.getElem?_modify, if_true] at h ⊢
      cases hf : s.frames[current]? with
      | none => simp [hf] at h
      | some f =>
          rw [hf, Option.bind_some] at h
          exact Frame.slot?_setSlot_self h v'

/-- The first observation of a variable about which nothing is known. -/
theorem inferVariable_of_open (h : s.get? current r = some v) (hty : v.ty = .unknown)
    (hlocked : v.locked = false) {ty : Ty} (hknown : ty.isUnknown = false) (address : Nat) :
    s.inferVariable current address r ty =
      s.setVariable current { v with ty := ty, locked := true } r := by
  have hne : v.ty ≠ ty := by
    rintro rfl
    rw [hty] at hknown
    cases hknown
  have hinfer : v.infer ty = ({ v with ty := ty, locked := true }, .refined) := by
    simp [Variable.infer, hknown, hlocked, hne]
  unfold inferVariable
  simp only [touch_eq_self h, h, hinfer]

/-- The reports about conflicting types. -/
def conflicts (s : Store) : List Diagnostic :=
  s.diagnostics.toList.filter (·.kind.isConflict)

theorem conflicts_congr {s s' : Store} (h : s'.diagnostics = s.diagnostics) :
    s'.conflicts = s.conflicts := by
  unfold conflicts
  rw [h]

theorem conflicts_diagnose (s : Store) (current address : Nat) {kind : DiagnosticKind}
    (h : kind.isConflict = false) : (s.diagnose current address kind).conflicts = s.conflicts := by
  simp [conflicts, diagnose, h]

/-- Observe the type of the result of function `current`; a conflict is reported. -/
def observeResult (s : Store) (current address : Nat) (ty : Ty) : Store :=
  match s.frames[current]? with
  | none => s
  | some frame =>
    let (inferred, outcome) := frame.result.infer ty
    let updated := s.modifyFrame current ({ · with result := inferred })
    match outcome with
    | .conflict existing found =>
      updated.diagnose current address (.typeConflict inferred.identifier existing.text found.text)
    | _ => updated

/-- Observe the type of a parameter of function `callee`. -/
def observeParameter (s : Store) (callee position : Nat) (ty : Ty) : Store :=
  s.modifyFrame callee fun f =>
    { f with arguments := f.arguments.modify position fun v => (v.infer ty).1 }

end Store

/-- One thing that a replay does to the store. -/
inductive Update where
  | touch (r : VarRef)
  | observe (address : Nat) (r : VarRef) (ty : Ty)
  | observeResult (address : Nat) (ty : Ty)
  | observeParameter (callee position : Nat) (ty : Ty)
  | addTemp (ty : Ty)
  | renameTemp (index : Nat) (name : String)
  | report (address : Nat) (kind : DiagnosticKind)

/-- The report about a conflict that observing the type of a variable leads to. -/
def Variable.conflict? (v : Variable) (ty : Ty) : Option DiagnosticKind :=
  match (v.infer ty).2 with
  | .conflict existing found => some (.typeConflict v.identifier existing.text found.text)
  | _ => none

theorem Variable.conflict?_eq_some {v : Variable} {ty : Ty} {kind : DiagnosticKind}
    (h : v.conflict? ty = some kind) :
    v.locked = true ∧ v.ty.merge ty = none ∧ v.infer ty = (v, .conflict v.ty ty) ∧
      kind = .typeConflict v.identifier v.ty.text ty.text := by
  unfold conflict? at h
  split at h
  · rename_i existing found houtcome
    obtain ⟨hsame, hlocked, hmerge, rfl, rfl⟩ := of_infer_conflict houtcome
    cases h
    exact ⟨hlocked, hmerge, Prod.ext hsame houtcome, rfl⟩
  · cases h

/-- A variable of which nothing is known conflicts with nothing. -/
theorem Variable.conflict?_of_isUnknown {v : Variable} (h : v.ty.isUnknown = true) (ty : Ty) :
    v.conflict? ty = none := by
  rw [Option.eq_none_iff_forall_ne_some]
  intro kind hkind
  obtain ⟨-, hmerge, -⟩ := conflict?_eq_some hkind
  rw [Ty.merge_of_isUnknown h] at hmerge
  cases hmerge

namespace Update

/-- What an update does while function `current` is replayed. -/
def apply (current : Nat) (s : Store) : Update → Store
  | touch r => s.touch current r
  | observe address r ty => s.inferVariable current address r ty
  | observeResult address ty => s.observeResult current address ty
  | observeParameter callee position ty => s.observeParameter callee position ty
  | addTemp ty => s.modifyFrame current (·.addTemp ty)
  | renameTemp index name => s.modifyFrame current (·.renameTemp index name)
  | report address kind => s.diagnose current address kind

/-- When an update can be made: a parameter is observed only while nothing is known about it,
and what is reported by itself is no conflict. -/
def Valid (s : Store) : Update → Prop
  | observeParameter callee position _ =>
    ∃ v, s.at? (.own callee (.argument position)) = some v ∧ v.ty.isUnknown = true
  | report _ kind => kind.isConflict = false
  | _ => True

/-- The conflict that an update meets: where it is met, and the report about it. -/
def conflict? (current : Nat) (s : Store) : Update → Option (Nat × DiagnosticKind)
  | observe address r ty => ((s.get? current r).bind (·.conflict? ty)).map (address, ·)
  | observeResult address ty => ((s.result? current).bind (·.conflict? ty)).map (address, ·)
  | _ => none

/-- Is this neither an observation of a result nor a report about stacks of different
depths? -/
def isOrdinary : Update → Bool
  | observeResult .. => false
  | report _ kind => !kind.isMismatch
  | _ => true

/-- Is this no report about stacks of different depths? -/
def isWithinBlock : Update → Bool
  | report _ kind => !kind.isMismatch
  | _ => true

/-- Is this neither an observation of a result, nor a new name, nor a report about stacks of
different depths or about a native? -/
def isPlain : Update → Bool
  | observeResult .. | renameTemp .. => false
  | report _ kind => !kind.isMismatch && !kind.isNative
  | _ => true

variable {current : Nat} {s : Store} {u : Update}

theorem isOrdinary_of_isPlain (h : u.isPlain = true) : u.isOrdinary = true := by
  cases u with
  | observeResult | renameTemp => cases h
  | touch | observe | observeParameter | addTemp => rfl
  | report => exact (Bool.and_eq_true_iff.1 h).1

/-- What happens at the places of variables. -/
theorem develops_apply (h : u.Valid s) : s.Develops current (u.apply current s) := by
  cases u with
  | touch r => exact s.develops_touch current r
  | observe address r ty => exact s.develops_inferVariable current address r ty
  | observeResult address ty =>
      unfold apply Store.observeResult
      dsimp only
      split
      · exact .refl current s
      · rename_i frame hframe
        have hresult : s.Develops current
            (s.modifyFrame current ({ · with result := (frame.result.infer ty).1 })) := by
          refine Store.develops_modifyFrame fun f hf => ?_
          rw [hframe] at hf
          cases hf
          exact frame.develops_setResult current ty
        split
        · exact hresult.trans (Store.develops_diagnose _ current current address _)
        · exact hresult
  | observeParameter callee position ty =>
      obtain ⟨v, hv, hunknown⟩ := h
      refine Store.develops_modifyFrame fun f hf => ?_
      rw [Store.at?, hf] at hv
      exact f.develops_modifyArgument current callee hv hunknown ty
  | addTemp ty => exact Store.develops_modifyFrame fun f _ => f.develops_addTemp current ty
  | renameTemp index name =>
      exact Store.develops_modifyFrame fun f _ => f.develops_renameTemp current index name
  | report address kind => exact s.develops_diagnose current current address kind

/-- What an ordinary update leaves alone. -/
theorem preserves_apply (h : u.isOrdinary = true) : s.Preserves (u.apply current s) := by
  cases u with
  | touch r => exact s.preserves_touch current r
  | observe address r ty => exact s.preserves_inferVariable current address r ty
  | observeResult => cases h
  | observeParameter callee position ty =>
      refine s.preserves_modifyFrame callee fun f => ?_
      simp [Frame.outline, Frame.head]
  | addTemp | renameTemp => exact s.preserves_modifyFrame current fun _ => rfl
  | report address kind =>
      exact s.preserves_diagnose current address (by simpa [isOrdinary] using h)

/-- What every update leaves alone, reports about stacks apart. -/
theorem continues_apply (h : u.isWithinBlock = true) :
    s.Continues current (u.apply current s) := by
  cases u with
  | observeResult address ty =>
      have hrefl : s.Continues current s := (Store.Preserves.refl s).continues current
      unfold apply Store.observeResult
      dsimp only
      split
      · exact hrefl
      · have hresult := s.continues_modifyResult current
        split
        · exact (hresult _).trans
            ((Store.preserves_diagnose _ current address rfl).continues current)
        · exact hresult _
  | touch | observe | observeParameter | addTemp | renameTemp =>
      exact (preserves_apply rfl).continues current
  | report address kind =>
      have hordinary : isOrdinary (report address kind) = true := h
      exact (preserves_apply hordinary).continues current

/-- Functions keep their names, addresses and numbers of arguments. -/
theorem heads_apply (u : Update) (current : Nat) (s : Store) :
    (u.apply current s).heads = s.heads := by
  cases u with
  | report => rfl
  | touch | observe | observeResult | observeParameter | addTemp | renameTemp =>
      exact (continues_apply rfl).heads

/-- An update adds at most one report, and removes none.  What is reported by itself is what the
update says, and everything else is a conflict. -/
theorem exists_diagnostics_apply (u : Update) (current : Nat) (s : Store) :
    (u.apply current s).diagnostics = s.diagnostics ∨
      ∃ d, (u.apply current s).diagnostics = s.diagnostics.push d ∧
        (d.kind.isConflict = true ∨ ∃ address, u = .report address d.kind) := by
  cases u with
  | touch r => exact Or.inl (s.diagnostics_touch current r)
  | observeParameter | addTemp | renameTemp => exact Or.inl rfl
  | report address => exact Or.inr ⟨_, rfl, Or.inr ⟨address, rfl⟩⟩
  | observe address r ty =>
      unfold apply Store.inferVariable
      dsimp only
      split
      · exact Or.inl (s.diagnostics_touch current r)
      · split
        · exact Or.inr ⟨_, congrArg (Array.push · _) (by simp), Or.inl rfl⟩
        · exact Or.inl (by simp)
  | observeResult address ty =>
      unfold apply Store.observeResult
      dsimp only
      split
      · exact Or.inl rfl
      · split
        · exact Or.inr ⟨_, rfl, Or.inl rfl⟩
        · exact Or.inl rfl

/-- An update that meets a conflict does nothing but report it. -/
theorem apply_of_conflict? {address : Nat} {kind : DiagnosticKind}
    (h : u.conflict? current s = some (address, kind)) :
    u.apply current s = s.diagnose current address kind ∧ kind.isConflict = true := by
  cases u with
  | touch | observeParameter | addTemp | renameTemp | report => cases h
  | observe at_ r ty =>
      obtain ⟨kind, hkind, hsame⟩ := Option.map_eq_some_iff.1 h
      cases hsame
      obtain ⟨v, hv, hconflict⟩ := Option.bind_eq_some_iff.1 hkind
      obtain ⟨-, -, hinfer, rfl⟩ := Variable.conflict?_eq_some hconflict
      refine ⟨?_, rfl⟩
      simp only [apply, Store.inferVariable, Store.touch_eq_self hv, hv, hinfer,
        Store.setVariable_eq_self hv]
  | observeResult at_ ty =>
      obtain ⟨kind, hkind, hsame⟩ := Option.map_eq_some_iff.1 h
      cases hsame
      obtain ⟨v, hv, hconflict⟩ := Option.bind_eq_some_iff.1 hkind
      obtain ⟨frame, hframe, rfl⟩ := Option.map_eq_some_iff.1 hv
      obtain ⟨-, -, hinfer, rfl⟩ := Variable.conflict?_eq_some hconflict
      have hsame : s.modifyFrame current ({ · with result := frame.result }) = s := by
        refine Store.modifyFrame_eq_self fun f hf => ?_
        rw [hframe] at hf
        cases hf
        rfl
      refine ⟨?_, rfl⟩
      simp only [apply, Store.observeResult, hframe, hinfer, hsame]

/-- An update that meets no conflict reports none. -/
theorem conflicts_apply (hvalid : u.Valid s) (h : u.conflict? current s = none) :
    (u.apply current s).conflicts = s.conflicts := by
  cases u with
  | touch r => exact Store.conflicts_congr (s.diagnostics_touch current r)
  | observeParameter | addTemp | renameTemp => rfl
  | report address kind => exact s.conflicts_diagnose current address hvalid
  | observe address r ty =>
      have hnone : ∀ v, (s.touch current r).get? current r = some v → v.conflict? ty = none := by
        intro v hv
        cases hbefore : s.get? current r with
        | none =>
            have hunknown := Store.ty_of_get?_touch hbefore hv
            exact Variable.conflict?_of_isUnknown (by rw [hunknown]; rfl) ty
        | some before =>
            rw [Store.touch_eq_self hbefore, hbefore] at hv
            cases hv
            simpa [conflict?, hbefore] using h
      unfold apply Store.inferVariable
      dsimp only
      split
      · exact Store.conflicts_congr (s.diagnostics_touch current r)
      · rename_i v hv
        split
        · rename_i houtcome
          have hconflict := hnone v hv
          simp [Variable.conflict?, houtcome] at hconflict
        · exact Store.conflicts_congr (by simp)
  | observeResult address ty =>
      unfold apply Store.observeResult
      dsimp only
      split
      · rfl
      · rename_i frame hframe
        split
        · rename_i houtcome
          simp [conflict?, Store.result?, hframe, Variable.conflict?, houtcome] at h
        · rfl

end Update

namespace Store

/-- Can the change from one store to the other be made by one update that `admits` admits? -/
def Performs (current : Nat) (admits : Update → Prop) (s s' : Store) : Prop :=
  ∃ u : Update, admits u ∧ u.Valid s ∧ u.apply current s = s'

variable {current : Nat} {admits admits' : Update → Prop} {s s' : Store}

theorem Performs.mono (h : Performs current admits s s') (hadmits : ∀ u, admits u → admits' u) :
    Performs current admits' s s' := by
  obtain ⟨u, hu, hvalid, happly⟩ := h
  exact ⟨u, hadmits u hu, hvalid, happly⟩

theorem Performs.preserves (h : Performs current admits s s')
    (hordinary : ∀ u, admits u → u.isOrdinary = true) : s.Preserves s' := by
  obtain ⟨u, hu, -, rfl⟩ := h
  exact Update.preserves_apply (hordinary u hu)

theorem Performs.continues (h : Performs current admits s s')
    (hwithin : ∀ u, admits u → u.isWithinBlock = true) : s.Continues current s' := by
  obtain ⟨u, hu, -, rfl⟩ := h
  exact Update.continues_apply (hwithin u hu)

end Store

end ScriptDecompiler
