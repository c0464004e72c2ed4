import Mathlib.Data.List.Nodup
import ScriptDecompiler.Proofs.Store.Updates

/-!
# Names of the variables of a function

A slot has the name `local_n` and a new temporary the name `temp_n`, where `n` is its index.  A
temporary may get another name: the one it is to have, or if a variable of the function has this
name, the same with the index of the temporary added to it.

The invariant: where the name of a variable ends in a number, it is the variable's index, and for
a temporary the stem is not that of slots.  So names tell variables apart.  Whatever comes into
being has such a name, and so has a temporary that got another one, unless the name that it was to
have already ends in a number, or is the stem of slots.
-/

namespace ScriptDecompiler

/-- A stem with a number added to it. -/
def numbered (stem : String) (index : Nat) : String :=
  stem ++ "_" ++ index.repr

/-- The stem and the number can be read off: there is no underscore in a number. -/
theorem numbered_inj {stem stem' : String} {index index' : Nat} :
    numbered stem index = numbered stem' index' ↔ stem = stem' ∧ index = index' := by
  refine ⟨fun h => ?_, fun ⟨hstem, hindex⟩ => by rw [hstem, hindex]⟩
  have hnone : ∀ (n : Nat) (more rest : List Char), n.repr.toList ≠ more ++ '_' :: rest := by
    intro n more rest hrepr
    have hmem : '_' ∈ n.repr.toList := hrepr ▸ List.mem_append_right more List.mem_cons_self
    rw [Nat.toList_repr] at hmem
    exact Nat.underscore_not_in_toDigits hmem
  have hchars : stem.toList ++ '_' :: index.repr.toList =
      stem'.toList ++ '_' :: index'.repr.toList := by
    simpa [numbered] using congrArg String.toList h
  have hsplit : stem.toList = stem'.toList ∧ index.repr.toList = index'.repr.toList := by
    -- Neither of the two stems goes beyond the other one.
    rcases List.append_eq_append_iff.1 hchars with ⟨more, hstem, hrest⟩ | ⟨more, hstem, hrest⟩ <;>
      cases more with
      | nil => simp_all
      | cons first more => exact absurd (List.cons.inj hrest).2 (hnone _ _ _)
  have hread := congrArg (fun digits => Nat.ofDigitChars 10 digits 0) hsplit.2
  exact ⟨String.toList_inj.1 hsplit.1, by simpa using hread⟩

/-- What the default name of a variable is made from, besides the index. -/
def VarRef.stem : VarRef → String
  | slot _ => "local"
  | static _ => "static"
  | global _ => "global"
  | temp _ => "temp"

def VarRef.index : VarRef → Nat
  | slot index | static index | global index | temp index => index

/-- Default names tell variables apart. -/
theorem VarRef.defaultName_injective : Function.Injective VarRef.defaultName := by
  have hnumbered : ∀ r : VarRef, r.defaultName = numbered r.stem r.index := by
    intro r
    cases r <;> rfl
  intro r r' h
  rw [hnumbered, hnumbered] at h
  obtain ⟨hstem, hindex⟩ := numbered_inj.1 h
  cases r <;> cases r' <;> first
    | exact congrArg _ hindex
    | exact absurd hstem (by simp [stem])

/-- Would a temporary of this name be taken for another variable, as it is or once a number is
added to the name? -/
def Imitates (name : String) : Prop :=
  name = "local" ∨ ∃ stem index, name = numbered stem index

/-- There is an underscore in a name that has a number. -/
theorem not_imitates {name : String} (hlocal : name ≠ "local") (h : '_' ∉ name.toList) :
    ¬ Imitates name := by
  rintro (hname | ⟨stem, index, rfl⟩)
  · exact hlocal hname
  · simp [numbered] at h

/-- Can this be the name of the temporary with this index? -/
def Belongs (index : Nat) (name : String) : Prop :=
  ∀ stem number, name = numbered stem number → stem ≠ "local" ∧ number = index

/-- A name with the index of the temporary added to it. -/
theorem belongs_numbered {stem : String} (hstem : stem ≠ "local") (index : Nat) :
    Belongs index (numbered stem index) := by
  intro stem' number h
  obtain ⟨rfl, rfl⟩ := numbered_inj.1 h
  exact ⟨hstem, rfl⟩

theorem belongs_of_not_imitates {name : String} (h : ¬ Imitates name) (index : Nat) :
    Belongs index name :=
  fun stem number hname => absurd (Or.inr ⟨stem, number, hname⟩) h

/-- The names of temporaries, in order: each belongs to its temporary, and no two are the same. -/
structure TempsNamed (names : List String) : Prop where
  belongs : ∀ (index : Nat) (name : String), names[index]? = some name → Belongs index name
  distinct : ∀ (index other : Nat) (name : String), names[index]? = some name →
    names[other]? = some name → index = other

/-- The default names of variables from `first` on. -/
def defaultNames (r : Nat → VarRef) (first count : Nat) : List String :=
  (List.range' first count).map fun index => (r index).defaultName

@[simp] theorem length_defaultNames (r : Nat → VarRef) (first count : Nat) :
    (defaultNames r first count).length = count := by
  simp [defaultNames]

theorem defaultNames_succ (r : Nat → VarRef) (first count : Nat) :
    defaultNames r first (count + 1) =
      defaultNames r first count ++ [(r (first + count)).defaultName] := by
  rw [defaultNames, List.range'_1_concat, List.map_append]
  rfl

theorem defaultNames_append (r : Nat → VarRef) (first count more : Nat) :
    defaultNames r first count ++ defaultNames r (first + count) more =
      defaultNames r first (count + more) := by
  rw [defaultNames, defaultNames, defaultNames, ← List.map_append, List.range'_append_1]

theorem getElem?_defaultNames {r : Nat → VarRef} {count index : Nat} {name : String}
    (h : (defaultNames r 0 count)[index]? = some name) : name = (r index).defaultName := by
  obtain ⟨hlt, rfl⟩ := List.getElem?_eq_some_iff.1 h
  simp [defaultNames]

namespace TempsNamed

variable {names : List String}

/-- At most the temporary with this index gets another name, or comes into being: one that belongs
to it and that no other temporary has. -/
theorem of_change {names' : List String} (h : TempsNamed names) {index : Nat} {name : String}
    (hname : Belongs index name) (hothers : ∀ other, names[other]? = some name → other = index)
    (hchange : ∀ (i : Nat) (found : String), names'[i]? = some found →
      i = index ∧ found = name ∨ names[i]? = some found) : TempsNamed names' := by
  refine ⟨fun i found hi => ?_, fun i j found hi hj => ?_⟩
  · rcases hchange i found hi with ⟨rfl, rfl⟩ | hi
    · exact hname
    · exact h.belongs i found hi
  · rcases hchange i found hi with ⟨rfl, rfl⟩ | hi
    · rcases hchange j found hj with ⟨rfl, -⟩ | hj
      · rfl
      · exact (hothers j hj).symm
    · rcases hchange j found hj with ⟨rfl, rfl⟩ | hj
      · exact hothers i hi
      · exact h.distinct i j found hi hj

/-- A temporary gets another name. -/
theorem set (h : TempsNamed names) {index : Nat} {name : String} (hname : Belongs index name)
    (hothers : ∀ other, names[other]? = some name → other = index) :
    TempsNamed (names.set index name) := by
  refine h.of_change hname hothers fun i found hfound => ?_
  rw [List.getElem?_set] at hfound
  split at hfound
  · rename_i hi
    split at hfound <;> cases hfound
    exact Or.inl ⟨hi.symm, rfl⟩
  · exact Or.inr hfound

/-- More temporaries come into being. -/
theorem append_defaultNames (h : TempsNamed names) (count : Nat) :
    TempsNamed (names ++ defaultNames .temp names.length count) := by
  induction count with
  | zero => simpa [defaultNames] using h
  | succ count ih =>
      have hbelongs : Belongs (names.length + count) (numbered "temp" (names.length + count)) :=
        belongs_numbered (by decide) _
      refine ih.of_change hbelongs (fun other hother => ?_) fun i found hfound => ?_
      · -- A name that is numbered belongs to one temporary only.
        exact ((ih.belongs other _ hother "temp" _ rfl).2).symm
      · rw [defaultNames_succ, ← List.append_assoc, List.getElem?_append] at hfound
        split at hfound
        · exact Or.inr hfound
        · rename_i hlast
          rw [List.length_append, length_defaultNames] at hlast hfound
          rw [List.getElem?_singleton] at hfound
          split at hfound <;> cases hfound
          exact Or.inl ⟨by omega, rfl⟩

end TempsNamed

namespace Frame

/-- The names of the slots. -/
def slotNames (f : Frame) : List String :=
  (f.arguments.toList ++ f.locals.toList).map (·.identifier)

/-- The names of the temporaries. -/
def tempNames (f : Frame) : List String :=
  f.temporaries.toList.map (·.identifier)

/-- The names of the arguments, locals and temporaries. -/
def identifiers (f : Frame) : List String :=
  f.slotNames ++ f.tempNames

/-- Is this all that happens to names: slots and temporaries come into being, under their default
names? -/
structure Extends (f f' : Frame) : Prop where
  slots : ∃ count, f'.slotNames = f.slotNames ++ defaultNames .slot f.slotNames.length count
  temps : ∃ count, f'.tempNames = f.tempNames ++ defaultNames .temp f.tempNames.length count

variable {f f' f'' : Frame}

theorem extends_of_eq (hslots : f'.slotNames = f.slotNames) (htemps : f'.tempNames = f.tempNames) :
    f.Extends f' :=
  ⟨⟨0, by simp [hslots, defaultNames]⟩, ⟨0, by simp [htemps, defaultNames]⟩⟩

theorem Extends.refl (f : Frame) : f.Extends f :=
  extends_of_eq rfl rfl

theorem Extends.trans (h : f.Extends f') (h' : f'.Extends f'') : f.Extends f'' := by
  obtain ⟨⟨slots, hslots⟩, ⟨temps, htemps⟩⟩ := h
  obtain ⟨⟨moreSlots, hslots'⟩, ⟨moreTemps, htemps'⟩⟩ := h'
  refine ⟨⟨slots + moreSlots, ?_⟩, ⟨temps + moreTemps, ?_⟩⟩
  · rw [hslots', hslots, List.length_append, length_defaultNames, List.append_assoc,
      defaultNames_append]
  · rw [htemps', htemps, List.length_append, length_defaultNames, List.append_assoc,
      defaultNames_append]

variable (f)

theorem extends_growSlots (index : Nat) : f.Extends (f.growSlots index) := by
  refine ⟨⟨index + 1 - (f.arguments.size + f.locals.size), ?_⟩, ⟨0, by simp [defaultNames]; rfl⟩⟩
  rw [slotNames, growSlots, Array.toList_append, ← List.append_assoc, List.map_append,
    List.map_map, slotNames, List.length_map, List.length_append, Array.length_toList,
    Array.length_toList]
  rfl

theorem extends_growTemps (index : Nat) : f.Extends (f.growTemps index) := by
  refine ⟨⟨0, by simp [defaultNames]; rfl⟩, ⟨index + 1 - f.temporaries.size, ?_⟩⟩
  rw [tempNames, growTemps, Array.toList_append, List.map_append, List.map_map, tempNames,
    List.length_map, Array.length_toList]
  rfl

theorem extends_addTemp (ty : Ty) : f.Extends (f.addTemp ty) := by
  refine ⟨⟨0, by simp [defaultNames]; rfl⟩, ⟨1, ?_⟩⟩
  simp [tempNames, addTemp, defaultNames]
  rfl

theorem map_identifier_setIfInBounds {vs : Array Variable} {index : Nat} {v v' : Variable}
    (h : vs[index]? = some v) (hname : v'.identifier = v.identifier) :
    (vs.setIfInBounds index v').toList.map (·.identifier) = vs.toList.map (·.identifier) := by
  apply List.ext_getElem?
  intro i
  simp only [List.getElem?_map, Array.getElem?_toList, Array.getElem?_setIfInBounds]
  split
  · rename_i hi
    rw [← hi, if_pos (Array.getElem?_eq_some_iff.1 h).1, h, Option.map_some, Option.map_some, hname]
  · rfl

/-- The type of a variable in a slot is observed. -/
theorem extends_setSlot {index : Nat} {v : Variable} (h : f.slot? index = some v) (ty : Ty) :
    f.Extends (f.setSlot index (v.infer ty).1) := by
  have hname : (v.infer ty).1.identifier = v.identifier := (v.alike_infer ty).fields.2.1
  unfold slot? at h
  unfold setSlot
  by_cases hargument : index < f.arguments.size
  · rw [if_pos hargument] at h ⊢
    refine extends_of_eq ?_ rfl
    rw [slotNames, slotNames, List.map_append, List.map_append,
      map_identifier_setIfInBounds h hname]
  · rw [if_neg hargument] at h ⊢
    refine extends_of_eq ?_ rfl
    rw [slotNames, slotNames, List.map_append, List.map_append,
      map_identifier_setIfInBounds h hname]

/-- The type of a temporary is observed. -/
theorem extends_setTemp {index : Nat} {v : Variable} (h : f.temporaries[index]? = some v)
    (ty : Ty) :
    f.Extends { f with temporaries := f.temporaries.setIfInBounds index (v.infer ty).1 } :=
  extends_of_eq rfl (map_identifier_setIfInBounds h (v.alike_infer ty).fields.2.1)

/-- The type of a parameter is observed. -/
theorem extends_modifyArgument (position : Nat) (ty : Ty) :
    f.Extends { f with arguments := f.arguments.modify position fun v => (v.infer ty).1 } := by
  refine extends_of_eq ?_ rfl
  rw [slotNames, slotNames, List.map_append, List.map_append, Array.toList_modify]
  congr 1
  apply List.ext_getElem?
  intro i
  simp only [List.getElem?_map, List.getElem?_modify]
  split <;> simp [Function.comp_def, (Variable.alike_infer _ ty).fields.2.1]

/-- A temporary gets another name. -/
theorem tempNames_renameTemp (index : Nat) (name : String) :
    (f.renameTemp index name).tempNames = f.tempNames.set index
      (if f.isTaken name then numbered name index else name) := by
  apply List.ext_getElem?
  intro i
  simp only [tempNames, renameTemp, List.getElem?_map, Array.getElem?_toList,
    Array.getElem?_modify, List.getElem?_set, List.length_map, Array.length_toList]
  by_cases hi : index = i
  · subst hi
    rw [if_pos rfl, if_pos rfl]
    by_cases hlt : index < f.temporaries.size
    · rw [if_pos hlt, Array.getElem?_eq_getElem hlt]
      rfl
    · rw [if_neg hlt, Array.getElem?_eq_none (Nat.le_of_not_lt hlt)]
      rfl
  · rw [if_neg hi, if_neg hi]

/-- A name that is not taken is not that of a temporary. -/
theorem not_mem_tempNames {name : String} (h : f.isTaken name = false) : name ∉ f.tempNames := by
  intro hmem
  obtain ⟨v, hv, rfl⟩ := List.mem_map.1 hmem
  have htaken : f.isTaken v.identifier = true :=
    Bool.or_eq_true_iff.2 (Or.inr (Array.any_eq_true'.2 ⟨v, Array.mem_toList_iff.1 hv, by simp⟩))
  rw [h] at htaken
  cases htaken

/-- Do names tell the variables of a frame apart?  Those of slots always do; those of temporaries
do if `sound` holds. -/
structure WellNamed (f : Frame) (sound : Prop) : Prop where
  slots : f.slotNames = defaultNames .slot 0 f.slotNames.length
  temps : sound → TempsNamed f.tempNames

/-- The variables of a function that was just declared. -/
theorem wellNamed_declare (address : Nat) (name : String) (arguments slots : Nat) (v : Variable)
    (sound : Prop) :
    WellNamed { declare address name arguments slots with result := v } sound := by
  have hslots : slotNames { declare address name arguments slots with result := v } =
      defaultNames .slot 0 arguments ++ defaultNames .slot (0 + arguments) (slots - arguments) := by
    simp only [slotNames, declare, defaultNames, List.range_eq_range', Nat.zero_add,
      List.map_append, List.map_map]
    rfl
  refine ⟨?_, fun _ => ⟨by simp [tempNames, declare], by simp [tempNames, declare]⟩⟩
  rw [hslots, defaultNames_append, length_defaultNames]

variable {f} {sound : Prop}

theorem WellNamed.mono {sound' : Prop} (h : f.WellNamed sound) (hsound : sound' → sound) :
    f.WellNamed sound' :=
  ⟨h.slots, fun hholds => h.temps (hsound hholds)⟩

/-- Names that come into being. -/
theorem WellNamed.extends (h : f.WellNamed sound) (hextends : f.Extends f') :
    f'.WellNamed sound := by
  obtain ⟨⟨slots, hslots⟩, ⟨temps, htemps⟩⟩ := hextends
  refine ⟨?_, fun hholds => ?_⟩
  · have hlength : f'.slotNames.length = f.slotNames.length + slots := by simp [hslots]
    have happend := defaultNames_append .slot 0 f.slotNames.length slots
    rw [Nat.zero_add, ← h.slots] at happend
    rw [hlength, ← happend, hslots]
  · rw [htemps]
    exact (h.temps hholds).append_defaultNames temps

/-- A new name of a temporary, unless it imitates others. -/
theorem WellNamed.renameTemp (h : f.WellNamed sound) (index : Nat) {name : String}
    (hname : sound → ¬ Imitates name) : (f.renameTemp index name).WellNamed sound := by
  refine ⟨h.slots, fun hholds => ?_⟩
  rw [tempNames_renameTemp]
  cases htaken : f.isTaken name with
  | true =>
      -- Whatever has this name with this number already, is this temporary.
      have hstem : name ≠ "local" := fun hlocal => hname hholds (Or.inl hlocal)
      refine (h.temps hholds).set (belongs_numbered hstem index) fun other hother => ?_
      exact ((h.temps hholds).belongs other _ hother name index rfl).2.symm
  | false =>
      refine (h.temps hholds).set (belongs_of_not_imitates (hname hholds) index) ?_
      intro other hother
      exact absurd (List.mem_of_getElem? hother) (f.not_mem_tempNames htaken)

/-- No two variables of the function have the same name. -/
theorem WellNamed.nodup (h : f.WellNamed sound) (hholds : sound) : f.identifiers.Nodup := by
  obtain ⟨hbelongs, hdistinct⟩ := h.temps hholds
  have hslot : ∀ index name, f.slotNames[index]? = some name → name = numbered "local" index := by
    intro index name hname
    rw [h.slots] at hname
    exact getElem?_defaultNames hname
  refine List.nodup_append.2 ⟨?_, ?_, ?_⟩
  · refine List.nodup_iff_getElem?_ne_getElem?.2 fun i j hlt hj heq => ?_
    rw [List.getElem?_eq_getElem hj] at heq
    have hsame := (hslot i _ heq).symm.trans (hslot j _ (List.getElem?_eq_getElem hj))
    exact Nat.ne_of_lt hlt (numbered_inj.1 hsame).2
  · refine List.nodup_iff_getElem?_ne_getElem?.2 fun i j hlt hj heq => ?_
    rw [List.getElem?_eq_getElem hj] at heq
    exact Nat.ne_of_lt hlt (hdistinct i j _ heq (List.getElem?_eq_getElem hj))
  · rintro name hname _ hname' rfl
    obtain ⟨i, hi⟩ := List.getElem?_of_mem hname
    obtain ⟨j, hj⟩ := List.getElem?_of_mem hname'
    exact (hbelongs j name hj "local" i (hslot i name hi)).1 rfl

end Frame

namespace Store

variable {s s' s'' : Store}

/-- Is this all that happens to the names of the variables of functions: more variables come into
being? -/
def Extends (s s' : Store) : Prop :=
  ∀ (k : Nat) (f' : Frame), s'.frames[k]? = some f' → ∃ f, s.frames[k]? = some f ∧ f.Extends f'

theorem Extends.of_frames (h : s'.frames = s.frames) : s.Extends s' :=
  fun _ f' hf' => ⟨f', h ▸ hf', .refl f'⟩

theorem Extends.trans (h : s.Extends s') (h' : s'.Extends s'') : s.Extends s'' := by
  intro k f'' hf''
  obtain ⟨f', hf', hextends'⟩ := h' k f'' hf''
  obtain ⟨f, hf, hextends⟩ := h k f' hf'
  exact ⟨f, hf, hextends.trans hextends'⟩

theorem extends_modifyFrame {current : Nat} {change : Frame → Frame}
    (h : ∀ f, s.frames[current]? = some f → f.Extends (change f)) :
    s.Extends (s.modifyFrame current change) := by
  intro k f' hf'
  rw [modifyFrame, Array.getElem?_modify] at hf'
  split at hf'
  · rename_i hk
    subst hk
    obtain ⟨f, hf, rfl⟩ := Option.map_eq_some_iff.1 hf'
    exact ⟨f, hf, h f hf⟩
  · exact ⟨f', hf', .refl f'⟩

variable (s) (current : Nat)

theorem extends_touch (r : VarRef) : s.Extends (s.touch current r) := by
  cases r with
  | slot index => exact extends_modifyFrame fun f _ => f.extends_growSlots index
  | temp index => exact extends_modifyFrame fun f _ => f.extends_growTemps index
  | static index | global index =>
      refine .of_frames ?_
      unfold touch
      dsimp only
      split <;> rfl

variable {s current} in
theorem extends_setVariable {r : VarRef} {v : Variable} (h : s.get? current r = some v) (ty : Ty) :
    s.Extends (s.setVariable current (v.infer ty).1 r) := by
  cases r with
  | static | global => exact .of_frames rfl
  | slot index =>
      refine extends_modifyFrame fun f hf => ?_
      rw [get?, hf] at h
      exact f.extends_setSlot h ty
  | temp index =>
      refine extends_modifyFrame fun f hf => ?_
      rw [get?, hf] at h
      exact f.extends_setTemp h ty

end Store

/-- Every update but a new name leaves the names of variables alone. -/
theorem Update.extends_apply {current : Nat} {s : Store} {u : Update}
    (h : ∀ index name, u ≠ .renameTemp index name) : s.Extends (u.apply current s) := by
  cases u with
  | renameTemp index name => exact absurd rfl (h index name)
  | report => exact .of_frames rfl
  | touch r => exact s.extends_touch current r
  | addTemp ty => exact Store.extends_modifyFrame fun f _ => f.extends_addTemp ty
  | observeParameter callee position ty =>
      exact Store.extends_modifyFrame fun f _ => f.extends_modifyArgument position ty
  | observe address r ty =>
      have htouch := s.extends_touch current r
      unfold apply Store.inferVariable
      dsimp only
      split
      · exact htouch
      · rename_i v hv
        have hset := htouch.trans (Store.extends_setVariable hv ty)
        split
        · exact hset.trans (.of_frames rfl)
        · exact hset
  | observeResult address ty =>
      unfold apply Store.observeResult
      dsimp only
      split
      · exact .of_frames rfl
      · have hresult : ∀ v : Variable, s.Extends (s.modifyFrame current ({ · with result := v })) :=
          fun v => Store.extends_modifyFrame fun f _ => Frame.extends_of_eq rfl rfl
        split
        · exact (hresult _).trans (.of_frames rfl)
        · exact hresult _

/-- Are the variables of function `k` well named? -/
def Store.WellNamed (s : Store) (k : Nat) (sound : Prop) : Prop :=
  ∀ f, s.frames[k]? = some f → f.WellNamed sound

/-- An update. -/
theorem Store.WellNamed.apply {s : Store} {k current : Nat} {sound : Prop} {u : Update}
    (h : s.WellNamed k sound)
    (hname : ∀ index name, u = .renameTemp index name → k = current → sound → ¬ Imitates name) :
    (u.apply current s).WellNamed k sound := by
  by_cases hrename : ∃ index name, u = .renameTemp index name
  · obtain ⟨index, name, rfl⟩ := hrename
    intro f' hf'
    rw [Update.apply, modifyFrame, Array.getElem?_modify] at hf'
    split at hf'
    · rename_i hk
      obtain ⟨f, hf, rfl⟩ := Option.map_eq_some_iff.1 hf'
      exact (h f hf).renameTemp index (hname index name rfl hk.symm)
    · exact h f' hf'
  · intro f' hf'
    have hextends : s.Extends (u.apply current s) :=
      Update.extends_apply fun index name hu => hrename ⟨index, name, hu⟩
    obtain ⟨f, hf, hextends⟩ := hextends k f' hf'
    exact (h f hf).extends hextends

end ScriptDecompiler
