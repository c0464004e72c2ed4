import Mathlib.Data.List.Forall2
import ScriptDecompiler.Proofs.Bytecode.Tiling
import ScriptDecompiler.Proofs.Flow.Blocks

/-!
# The functions of a unit

Every ENTER opens a function, whose blocks partition the code up to the next
ENTER.  Whatever stands in front of the first ENTER is reported, except for
NOPs.
-/

namespace ScriptDecompiler.Flow

open ScriptDecompiler.Bytecode (Instruction decodeCode decodeCode_eq_ok_iff instruction_of_mem)

/-- Decoded code is in order. -/
theorem ascending_of_decodeCode {code : List UInt8} {codeLength : Nat}
    {instructions : List Instruction} (h : decodeCode code codeLength = .ok instructions) :
    Ascending instructions := by
  obtain ⟨-, _, hlayout⟩ := decodeCode_eq_ok_iff.1 h
  exact ⟨hlayout.pairwise, fun i hi => (instruction_of_mem h hi).1⟩

/-- Is `body` the code of `f`: one ENTER, which `f` is named and placed after, at
its beginning, and the blocks of `f` a partition of it? -/
structure Function.HasBody (f : Function) (body : List Instruction) : Prop where
  opened : ∃ enter rest arguments slots name, body = enter :: rest ∧
    enter.operand = .enter arguments slots name ∧ (∀ i ∈ rest, i.isEnter = false) ∧
    f.frame.address = enter.address ∧ f.frame.name = name ∧
    f.frame.arguments.size = arguments ∧ f.graph.entry = enter.address
  partitions : f.graph.Partitions body

theorem exists_enter {i : Instruction} (h : i.isEnter = true) :
    ∃ arguments slots name, i.operand = .enter arguments slots name := by
  unfold Instruction.isEnter at h
  split at h
  · exact ⟨_, _, _, ‹_›⟩
  · cases h

/-- The instructions from one ENTER up to the next are the body of a function. -/
theorem ofBody?_eq_some {body rest : List Instruction} {enter : Instruction}
    (hbody : body = enter :: rest) (henter : enter.isEnter = true)
    (hrest : ∀ i ∈ rest, i.isEnter = false) (h : Ascending body) :
    ∃ f, Function.ofBody? body = some f ∧ f.HasBody body := by
  obtain ⟨arguments, slots, name, hoperand⟩ := exists_enter henter
  subst hbody
  simp only [Function.ofBody?, hoperand]
  refine ⟨_, rfl, ?_, partitions_linkBlocks h rfl⟩
  refine ⟨enter, rest, arguments, slots, name, rfl, hoperand, hrest, rfl, rfl, ?_, rfl⟩
  simp [Frame.declare]

/-- The variables of a function are those that its ENTER declares, apart from the type of the
result. -/
theorem exists_declare_of_mem_buildFunctions {instructions : List Instruction} {f : Function}
    (hf : f ∈ (buildFunctions instructions).1) :
    ∃ address name arguments slots ty, f.frame =
      { Frame.declare address name arguments slots with
        result := { Variable.fresh 0 name .result with ty := ty } } := by
  obtain ⟨first, rest, arguments, slots, name, hframe, -⟩ := exists_eq_of_mem_buildFunctions hf
  exact ⟨_, _, _, _, _, hframe⟩

theorem forall₂_filterMap {α β : Type} {f : α → Option β} {R : β → α → Prop} {xs : List α}
    (h : ∀ x ∈ xs, ∃ y, f x = some y ∧ R y x) : List.Forall₂ R (xs.filterMap f) xs := by
  induction xs with
  | nil => exact .nil
  | cons x xs ih =>
      obtain ⟨y, hy, hR⟩ := h x List.mem_cons_self
      rw [List.filterMap_cons_some hy]
      exact .cons hR (ih fun z hz => h z (List.mem_cons_of_mem _ hz))

/-- The functions of decoded code: one for each ENTER, in order, and nothing but
NOPs is dropped in front of the first one without a diagnostic. -/
theorem buildFunctions_partition {code : List UInt8} {codeLength : Nat}
    {instructions : List Instruction} (h : decodeCode code codeLength = .ok instructions) :
    ∃ before bodies, instructions = before ++ bodies.flatten ∧
      (∀ i ∈ before, i.isEnter = false) ∧
      List.Forall₂ Function.HasBody (buildFunctions instructions).1 bodies ∧
      (buildFunctions instructions).2 = (before.filter (·.operation ≠ .nop)).map orphan := by
  have hascending := ascending_of_decodeCode h
  have hflatten := flatten_cutBefore Instruction.isEnter instructions
  refine ⟨_, _, hflatten.symm, opens_of_mem_before, forall₂_filterMap fun body hbody => ?_, rfl⟩
  obtain ⟨enter, rest, hcons, henter, hrest⟩ := opens_of_mem_pieces body hbody
  -- A body is a stretch of the code, and so in ascending order as well.
  have hpart : body.Sublist instructions := by
    rw [← hflatten]
    exact (List.sublist_flatten_of_mem hbody).trans (List.sublist_append_right _ _)
  exact ofBody?_eq_some hcons henter hrest (hascending.sublist hpart)

/-- An instruction in front of two functions, the first of which branches. -/
theorem buildFunctions_partition_branch :
    let code : List UInt8 := [1, 45, 0, 2, 0, 1, 102, 110, 86, 0, 0, 46, 0, 0,
      45, 0, 2, 0, 1, 103, 46, 0, 0]
    let instructions : List Instruction := [⟨0, 1, .none, 1⟩, ⟨1, 45, .enter 0 2 "f", 6⟩,
      ⟨7, 110, .impliedInt 0, 1⟩, ⟨8, 86, .branch 0 11, 3⟩, ⟨11, 46, .ret 0 0, 3⟩,
      ⟨14, 45, .enter 0 2 "g", 6⟩, ⟨20, 46, .ret 0 0, 3⟩]
    decodeCode code 23 = .ok instructions ∧ ∃ before bodies,
      instructions = before ++ bodies.flatten ∧ bodies.length = 2 ∧
        List.Forall₂ Function.HasBody (buildFunctions instructions).1 bodies := by
  intro code instructions
  have hcode : decodeCode code 23 = .ok instructions := by decide +kernel
  obtain ⟨before, bodies, hflatten, -, hbodies, -⟩ := buildFunctions_partition hcode
  have hcount : (buildFunctions instructions).1.length = 2 := by decide +kernel
  exact ⟨hcode, before, bodies, hflatten, hbodies.length_eq ▸ hcount, hbodies⟩

end ScriptDecompiler.Flow
