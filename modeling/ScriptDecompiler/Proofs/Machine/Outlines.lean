import Mathlib.Data.List.Basic
import ScriptDecompiler.Store

/-!
# What is fixed about functions

Functions keep their names, addresses and numbers of arguments, whatever is found out
about variables.  Observations do not report that a block was entered with stacks of
different depths either, and what is known about a result changes only where the
result itself is observed.
-/

namespace ScriptDecompiler

/-- What is fixed about a function once it is built. -/
structure Head where
  address : Nat
  name : String
  arguments : Nat
  deriving DecidableEq, Repr

/-- The head of a function. -/
def Frame.head (f : Frame) : Head :=
  ⟨f.address, f.name, f.arguments.size⟩

/-- The head of a function, and what is known about its result. -/
def Frame.outline (f : Frame) : Head × Variable :=
  (f.head, f.result)

/-- Does the diagnostic say that a block was entered with stacks of different
depths? -/
def DiagnosticKind.isMismatch : DiagnosticKind → Bool
  | .entryStackMismatch .. => true
  | _ => false

namespace Store

/-- The heads of all functions. -/
def heads (s : Store) : Array Head :=
  s.frames.map Frame.head

theorem size_frames_of_heads {s s' : Store} (h : s'.heads = s.heads) :
    s'.frames.size = s.frames.size := by
  simpa [heads] using congrArg Array.size h

/-- The outlines of all functions. -/
def outlines (s : Store) : Array (Head × Variable) :=
  s.frames.map Frame.outline

/-- What is known about the result of a function. -/
def result? (s : Store) (index : Nat) : Option Variable :=
  s.frames[index]?.map (·.result)

/-- The reports of blocks that were entered with stacks of different depths. -/
def mismatches (s : Store) : List Diagnostic :=
  s.diagnostics.toList.filter (·.kind.isMismatch)

/-- Are the outlines and the reported mismatches of two stores the same? -/
structure Preserves (s s' : Store) : Prop where
  outlines : s'.outlines = s.outlines
  mismatches : s'.mismatches = s.mismatches

namespace Preserves

theorem refl (s : Store) : Preserves s s := ⟨rfl, rfl⟩

theorem trans {s s' s'' : Store} (h : Preserves s s') (h' : Preserves s' s'') :
    Preserves s s'' :=
  ⟨h'.outlines.trans h.outlines, h'.mismatches.trans h.mismatches⟩

end Preserves

/-- Changing a frame keeps the outlines if it keeps that of the frame. -/
theorem preserves_modifyFrame (s : Store) (current : Nat) {change : Frame → Frame}
    (h : ∀ f, (change f).outline = f.outline) : Preserves s (s.modifyFrame current change) := by
  refine ⟨?_, rfl⟩
  apply Array.ext_getElem?
  intro k
  simp only [outlines, modifyFrame, Array.getElem?_map, Array.getElem?_modify]
  split
  · rw [Option.map_map]
    exact congrArg (fun g => Option.map g s.frames[k]?) (funext h)
  · rfl

theorem preserves_diagnose (s : Store) (current address : Nat) {kind : DiagnosticKind}
    (h : kind.isMismatch = false) : Preserves s (s.diagnose current address kind) := by
  refine ⟨rfl, ?_⟩
  simp [mismatches, diagnose, h]

theorem heads_eq_map_outlines (s : Store) : s.heads = s.outlines.map (·.1) := by
  simp [heads, outlines, Frame.outline, Function.comp_def]

theorem result?_eq_outlines (s : Store) (index : Nat) :
    s.result? index = s.outlines[index]?.map (·.2) := by
  simp [result?, outlines, Frame.outline, Function.comp_def]

/-- Between two stores, are the functions the same ones, and is nothing new known about
results except that of function `current`? -/
structure Keeps (current : Nat) (s s' : Store) : Prop where
  heads : s'.heads = s.heads
  results : ∀ index, index ≠ current → s'.result? index = s.result? index

namespace Keeps

variable {current : Nat} {s s' s'' : Store}

theorem refl (current : Nat) (s : Store) : Keeps current s s := ⟨rfl, fun _ _ => rfl⟩

theorem trans (h : Keeps current s s') (h' : Keeps current s' s'') : Keeps current s s'' :=
  ⟨h'.heads.trans h.heads,
    fun index hindex => (h'.results index hindex).trans (h.results index hindex)⟩

/-- Adding to what is known about anything but functions. -/
theorem of_frames (current : Nat) (h : s'.frames = s.frames) : Keeps current s s' :=
  ⟨congrArg (Array.map Frame.head) h,
    fun index _ => congrArg (fun frames : Array Frame => frames[index]?.map Frame.result) h⟩

end Keeps

/-- Besides, are the reported mismatches the same? -/
structure Continues (current : Nat) (s s' : Store) : Prop extends Keeps current s s' where
  mismatches : s'.mismatches = s.mismatches

theorem Continues.trans {current : Nat} {s s' s'' : Store} (h : Continues current s s')
    (h' : Continues current s' s'') : Continues current s s'' :=
  ⟨h.toKeeps.trans h'.toKeeps, h'.mismatches.trans h.mismatches⟩

theorem Preserves.heads {s s' : Store} (h : Preserves s s') : s'.heads = s.heads := by
  rw [heads_eq_map_outlines, heads_eq_map_outlines, h.outlines]

theorem Preserves.continues {s s' : Store} (h : Preserves s s') (current : Nat) :
    Continues current s s' := by
  refine ⟨⟨h.heads, fun index _ => ?_⟩, h.mismatches⟩
  rw [result?_eq_outlines, result?_eq_outlines, h.outlines]

/-- Getting to know a result. -/
theorem continues_modifyResult (s : Store) (current : Nat) (v : Variable) :
    Continues current s (s.modifyFrame current ({ · with result := v })) := by
  refine ⟨⟨?_, fun index hindex => ?_⟩, rfl⟩
  · apply Array.ext_getElem?
    intro k
    simp only [heads, modifyFrame, Array.getElem?_map, Array.getElem?_modify]
    split
    · rw [Option.map_map]
      rfl
    · rfl
  · simp only [result?, modifyFrame, Array.getElem?_modify, if_neg (Ne.symm hindex)]

theorem outline_setSlot (f : Frame) (index : Nat) (v : Variable) :
    (f.setSlot index v).outline = f.outline := by
  unfold Frame.setSlot
  split
  · simp [Frame.outline, Frame.head]
  · rfl

@[simp] theorem diagnostics_touch (s : Store) (current : Nat) (r : VarRef) :
    (s.touch current r).diagnostics = s.diagnostics := by
  cases r with
  | slot | temp => rfl
  | static | global =>
      simp only [touch]
      split <;> rfl

@[simp] theorem diagnostics_setVariable (s : Store) (current : Nat) (v : Variable) (r : VarRef) :
    (s.setVariable current v r).diagnostics = s.diagnostics := by
  cases r <;> rfl

theorem preserves_touch (s : Store) (current : Nat) (r : VarRef) :
    Preserves s (s.touch current r) := by
  cases r with
  | slot index => exact preserves_modifyFrame s current fun _ => rfl
  | temp index => exact preserves_modifyFrame s current fun _ => rfl
  | static | global =>
      simp only [touch]
      split <;> exact ⟨rfl, rfl⟩

theorem preserves_setVariable (s : Store) (current : Nat) (v : Variable) (r : VarRef) :
    Preserves s (s.setVariable current v r) := by
  cases r with
  | slot index => exact preserves_modifyFrame s current fun f => outline_setSlot f index v
  | temp index => exact preserves_modifyFrame s current fun _ => rfl
  | static | global => exact ⟨rfl, rfl⟩

theorem preserves_inferVariable (s : Store) (current address : Nat) (r : VarRef) (ty : Ty) :
    Preserves s (s.inferVariable current address r ty) := by
  have htouch := preserves_touch s current r
  unfold inferVariable
  dsimp only
  split
  · exact htouch
  · rename_i v _
    have hset := htouch.trans (preserves_setVariable _ current (v.infer ty).1 r)
    split
    · exact hset.trans (preserves_diagnose _ current address rfl)
    · exact hset

end Store

end ScriptDecompiler
