import ScriptDecompiler.Proofs.Store.Updates
import ScriptDecompiler.Proofs.Ty.Parts

/-!
# Confining the types of variables

A set of types confines a store if every variable has one of them, wherever it stands.  What is
observed of a variable leaves it with the type that it had or with the one that was observed, so
an update can lead out of such a set only by the type that it brings in.
-/

namespace ScriptDecompiler

variable {P : Ty → Prop}

/-- Does every variable of a function have one of the types `P`? -/
def Frame.Confined (P : Ty → Prop) (f : Frame) : Prop :=
  ∀ spot v, f.at? spot = some v → P v.ty

/-- Does every variable have one of the types `P`? -/
def Store.Confined (P : Ty → Prop) (s : Store) : Prop :=
  ∀ place v, s.at? place = some v → P v.ty

theorem Variable.confined_infer {v : Variable} {ty : Ty} (hv : P v.ty) (hty : P ty) :
    P (v.infer ty).1.ty := by
  rcases v.ty_infer_eq_or ty with hsame | hnew
  · rwa [hsame]
  · rwa [hnew]

namespace Frame

variable {f f' : Frame}

/-- What is to be shown of a frame that has come of a confined one. -/
theorem Confined.change (h : f.Confined P)
    (hchange : ∀ spot v, f'.at? spot = some v → f.at? spot = some v ∨ P v.ty) :
    f'.Confined P :=
  fun spot v hv => (hchange spot v hv).elim (h spot v) id

theorem Confined.growSlots (h : f.Confined P) (hunknown : P .unknown) (index : Nat) :
    (f.growSlots index).Confined P := by
  refine h.change fun spot v hv => ?_
  rcases f.at?_growSlots index spot with hsame | ⟨i, -, -, -, hnew⟩
  · exact Or.inl (hsame ▸ hv)
  · rw [hnew] at hv
    cases hv
    exact Or.inr hunknown

theorem Confined.growTemps (h : f.Confined P) (hunknown : P .unknown) (index : Nat) :
    (f.growTemps index).Confined P := by
  refine h.change fun spot v hv => ?_
  rcases f.at?_growTemps index spot with hsame | ⟨i, -, -, -, hnew⟩
  · exact Or.inl (hsame ▸ hv)
  · rw [hnew] at hv
    cases hv
    exact Or.inr hunknown

theorem Confined.addTemp (h : f.Confined P) {ty : Ty} (hty : P ty) :
    (f.addTemp ty).Confined P := by
  refine h.change fun spot v hv => ?_
  cases spot with
  | argument | slot | result => exact Or.inl hv
  | temp i =>
      simp only [at?, Frame.addTemp, Array.getElem?_push] at hv ⊢
      split at hv
      · cases hv
        exact Or.inr hty
      · exact Or.inl hv

theorem Confined.renameTemp (h : f.Confined P) (index : Nat) (name : String) :
    (f.renameTemp index name).Confined P := by
  refine h.change fun spot v hv => ?_
  cases spot with
  | argument | slot | result => exact Or.inl hv
  | temp i =>
      simp only [at?, Frame.renameTemp, Array.getElem?_modify] at hv ⊢
      split at hv
      · obtain ⟨before, hbefore, rfl⟩ := Option.map_eq_some_iff.1 hv
        exact Or.inr (h (.temp i) before hbefore)
      · exact Or.inl hv

/-- Another variable in its place among others. -/
theorem of_getElem?_setIfInBounds {vs : Array Variable} {index i : Nat} {new v : Variable}
    (hnew : P new.ty) (h : (vs.setIfInBounds index new)[i]? = some v) :
    vs[i]? = some v ∨ P v.ty := by
  rw [Array.getElem?_setIfInBounds] at h
  split at h
  · split at h
    · cases h
      exact Or.inr hnew
    · cases h
  · exact Or.inl h

/-- Another variable in a slot. -/
theorem Confined.setSlot (h : f.Confined P) {new : Variable} (hnew : P new.ty) (index : Nat) :
    (f.setSlot index new).Confined P := by
  refine h.change fun spot v hv => ?_
  unfold Frame.setSlot at hv
  split at hv
  · cases spot with
    | temp | result => exact Or.inl hv
    | slot i => exact Or.inl (by simpa [at?] using hv)
    | argument i => exact of_getElem?_setIfInBounds hnew hv
  · cases spot with
    | argument | temp | result => exact Or.inl hv
    | slot i =>
        simp only [at?] at hv ⊢
        by_cases hargument : i < f.arguments.size
        · simp [hargument] at hv
        · rw [if_neg hargument] at hv ⊢
          exact of_getElem?_setIfInBounds hnew hv

/-- Another temporary. -/
theorem Confined.setTemp (h : f.Confined P) {new : Variable} (hnew : P new.ty) (index : Nat) :
    Confined P { f with temporaries := f.temporaries.setIfInBounds index new } := by
  refine h.change fun spot v hv => ?_
  cases spot with
  | argument | slot | result => exact Or.inl hv
  | temp i => exact of_getElem?_setIfInBounds hnew hv

/-- Another result. -/
theorem Confined.setResult (h : f.Confined P) {new : Variable} (hnew : P new.ty) :
    Confined P { f with result := new } := by
  refine h.change fun spot v hv => ?_
  cases spot with
  | argument | slot | temp => exact Or.inl hv
  | result =>
      cases hv
      exact Or.inr hnew

/-- A parameter that is observed. -/
theorem Confined.modifyArgument (h : f.Confined P) {ty : Ty} (hty : P ty) (position : Nat) :
    Confined P { f with arguments := f.arguments.modify position fun v => (v.infer ty).1 } := by
  refine h.change fun spot v hv => ?_
  cases spot with
  | temp | result => exact Or.inl hv
  | slot i => exact Or.inl (by simpa [at?] using hv)
  | argument i =>
      simp only [at?, Array.getElem?_modify] at hv ⊢
      split at hv
      · obtain ⟨before, hbefore, rfl⟩ := Option.map_eq_some_iff.1 hv
        exact Or.inr (Variable.confined_infer (h (.argument i) before hbefore) hty)
      · exact Or.inl hv

end Frame

namespace Store

variable {s s' : Store} {current : Nat}

theorem Confined.frame (h : s.Confined P) {function : Nat} {f : Frame}
    (hf : s.frames[function]? = some f) : f.Confined P :=
  fun spot v hv => h (.own function spot) v (by rwa [at?, hf])

/-- What a reference denotes. -/
theorem Confined.get? (h : s.Confined P) {r : VarRef} {v : Variable}
    (hv : s.get? current r = some v) : P v.ty := by
  rw [get?_eq] at hv
  cases r with
  | temp | static | global => exact h _ v hv
  | slot index => exact (Option.or_eq_some_iff.1 hv).elim (h _ v) fun hlocal => h _ v hlocal.2

/-- What is to be shown of a store that has come of a confined one. -/
theorem Confined.change (h : s.Confined P)
    (hchange : ∀ place v, s'.at? place = some v → s.at? place = some v ∨ P v.ty) :
    s'.Confined P :=
  fun place v hv => (hchange place v hv).elim (h place v) id

theorem Confined.modifyFrame (h : s.Confined P) {function : Nat} {change : Frame → Frame}
    (hchange : ∀ f, s.frames[function]? = some f → (change f).Confined P) :
    (s.modifyFrame function change).Confined P := by
  refine h.change fun place v hv => ?_
  cases place with
  | static | global => exact Or.inl hv
  | own other spot =>
      simp only [at?, Store.modifyFrame, Array.getElem?_modify] at hv ⊢
      split at hv
      · rename_i hhere
        subst hhere
        obtain ⟨f, hf, hv⟩ := Option.bind_eq_some_iff.1 hv
        obtain ⟨before, hbefore, rfl⟩ := Option.map_eq_some_iff.1 hf
        exact Or.inr (hchange before hbefore spot v hv)
      · exact Or.inl hv

theorem Confined.diagnose (h : s.Confined P) (function address : Nat) (kind : DiagnosticKind) :
    (s.diagnose function address kind).Confined P := by
  refine h.change fun place v hv => ?_
  cases place <;> exact Or.inl hv

theorem Confined.setStatic (h : s.Confined P) {new : Variable} (hnew : P new.ty) (index : Nat) :
    (s.setStatic index new).Confined P := by
  refine h.change fun place v hv => ?_
  cases place with
  | own | global => exact Or.inl hv
  | static other =>
      simp only [at?, Store.setStatic, Table.get?_insert] at hv ⊢
      split at hv
      · cases hv
        exact Or.inr hnew
      · exact Or.inl hv

theorem Confined.setGlobal (h : s.Confined P) {new : Variable} (hnew : P new.ty) (index : Nat) :
    (s.setGlobal index new).Confined P := by
  refine h.change fun place v hv => ?_
  cases place with
  | own | static => exact Or.inl hv
  | global other =>
      simp only [at?, Store.setGlobal, Table.get?_insert] at hv ⊢
      split at hv
      · cases hv
        exact Or.inr hnew
      · exact Or.inl hv

theorem Confined.touch (h : s.Confined P) (hunknown : P .unknown) (r : VarRef) :
    (s.touch current r).Confined P := by
  cases r with
  | slot index => exact h.modifyFrame fun f hf => (h.frame hf).growSlots hunknown index
  | temp index => exact h.modifyFrame fun f hf => (h.frame hf).growTemps hunknown index
  | static index =>
      have hfresh : P (Globals.freshStatic index).ty := hunknown
      simp only [Store.touch]
      split
      · exact h
      · exact h.setStatic hfresh index
  | global index =>
      have hfresh : P (Globals.freshGlobal index).ty := hunknown
      simp only [Store.touch]
      split
      · exact h
      · exact h.setGlobal hfresh index

theorem Confined.setVariable (h : s.Confined P) {new : Variable} (hnew : P new.ty) (r : VarRef) :
    (s.setVariable current new r).Confined P := by
  cases r with
  | slot index => exact h.modifyFrame fun f hf => (h.frame hf).setSlot hnew index
  | temp index => exact h.modifyFrame fun f hf => (h.frame hf).setTemp hnew index
  | static index => exact h.setStatic hnew index
  | global index => exact h.setGlobal hnew index

theorem Confined.inferVariable (h : s.Confined P) (hunknown : P .unknown) {ty : Ty} (hty : P ty)
    (address : Nat) (r : VarRef) : (s.inferVariable current address r ty).Confined P := by
  have htouch : (s.touch current r).Confined P := h.touch hunknown r
  unfold Store.inferVariable
  dsimp only
  split
  · exact htouch
  · rename_i v hv
    have hset : ((s.touch current r).setVariable current (v.infer ty).1 r).Confined P :=
      htouch.setVariable (Variable.confined_infer (htouch.get? hv) hty) r
    split
    · exact hset.diagnose current address _
    · exact hset

theorem Confined.observeResult (h : s.Confined P) {ty : Ty} (hty : P ty) (address : Nat) :
    (s.observeResult current address ty).Confined P := by
  unfold Store.observeResult
  dsimp only
  split
  · exact h
  · rename_i frame hframe
    have hnew : P (frame.result.infer ty).1.ty :=
      Variable.confined_infer (h.frame hframe .result _ rfl) hty
    have hset : (s.modifyFrame current
        ({ · with result := (frame.result.infer ty).1 })).Confined P :=
      h.modifyFrame fun f hf => (h.frame hf).setResult hnew
    split
    · exact hset.diagnose current address _
    · exact hset

end Store

end ScriptDecompiler
