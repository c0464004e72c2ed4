import Mathlib.Data.List.Infix
import ScriptDecompiler.Proofs.Bytecode.Tiling

/-!
# Which instruction comes next

The instruction behind another one stands at its end, unless that is a sentinel:
then it stands at the beginning of the next page.  Between the two there is nothing
but the gap of that sentinel, for decoding does not begin a page with one.
-/

namespace ScriptDecompiler.Bytecode

/-- Does `address` follow the instruction `i`, immediately or behind the gap of a
sentinel, in front of which `i` is the NOP? -/
def Follows (code : List UInt8) (instructions : List Instruction) (i : Instruction)
    (address : Nat) : Prop :=
  address = i.nextAddress ∨
    i.operation = .nop ∧ IsSentinel code instructions i.nextAddress ∧
      address = pageEnd i.nextAddress

namespace Layout

variable {code : List UInt8} {afterNop : Bool} {position : Nat}
variable {instructions : List Instruction} {sentinels : List Nat}

/-- Where the first instruction of a layout stands. -/
theorem head_address (h : Layout code afterNop position instructions sentinels)
    {first : Instruction} (hfirst : instructions.head? = some first) :
    first.address = position ∨
      afterNop = true ∧ position ∈ sentinels ∧ first.address = pageEnd position := by
  cases h with
  | finished => cases hfirst
  | instruction =>
      cases hfirst
      exact Or.inl rfl
  | sentinel _ _ hrest =>
      refine Or.inr ⟨rfl, List.mem_cons_self, ?_⟩
      -- No sentinel comes right behind a sentinel.
      generalize pageEnd _ = behind at hrest ⊢
      generalize hfalse : false = afterNop at hrest
      cases hrest with
      | finished => cases hfirst
      | sentinel => cases hfalse
      | instruction =>
          cases hfirst
          rfl

/-- Where the second of two instructions in a row stands. -/
theorem address_of_neighbours (h : Layout code afterNop position instructions sentinels)
    {i j : Instruction} (hij : [i, j] <:+: instructions) :
    j.address = i.nextAddress ∨
      i.operation = .nop ∧ i.nextAddress ∈ sentinels ∧ j.address = pageEnd i.nextAddress := by
  induction h with
  | finished => exact absurd (List.infix_nil.1 hij) (by simp)
  | sentinel _ _ _ ih =>
      rcases ih hij with hnext | ⟨hnop, hmem, hpage⟩
      · exact Or.inl hnext
      · exact Or.inr ⟨hnop, List.mem_cons_of_mem _ hmem, hpage⟩
  | instruction _ _ hrest ih =>
      rcases List.infix_cons_iff.1 hij with hfront | hpart
      · obtain ⟨rfl, hhead⟩ := List.cons_prefix_cons.1 hfront
        obtain ⟨later, rfl⟩ := hhead
        rcases hrest.head_address rfl with hnext | ⟨hopens, hmem, hpage⟩
        · exact Or.inl hnext
        · have hopens : i.operation = .nop ∧ pageOf i.nextAddress = pageOf i.address := by
            simpa [opensSentinel] using hopens
          exact Or.inr ⟨hopens.1, hmem, hpage⟩
      · exact ih hpart

end Layout

section Declared

variable {code : List UInt8} {codeLength : Nat} {instructions : List Instruction}

/-- Of two instructions of decoded code in a row, the second follows the first. -/
theorem follows_of_neighbours (h : decodeCode code codeLength = .ok instructions)
    {i j : Instruction} (hij : [i, j] <:+: instructions) : Follows code instructions i j.address := by
  obtain ⟨hle, sentinels, hlayout⟩ := decodeCode_eq_ok_iff.1 h
  refine (hlayout.address_of_neighbours hij).imp id fun ⟨hnop, hmem, hpage⟩ => ⟨hnop, ?_, hpage⟩
  obtain ⟨hlt, hsentinel⟩ := hlayout.mem_sentinels_iff.1 hmem
  rw [List.length_take_of_le hle] at hlt
  exact (isSentinel_take_iff hlt).1 hsentinel

/-- Does the operand of an instruction that jumps hold the addresses that it jumps to? -/
structure HoldsTargets (i : Instruction) : Prop where
  branch : i.operation.isBranch = true → ∃ relative target, i.operand = .branch relative target
  switch : i.operation = .switch → ∃ cases, i.operand = .switch cases

/-- What a jump of decoded code jumps to is in its operand. -/
theorem holdsTargets_of_mem (h : decodeCode code codeLength = .ok instructions) {i : Instruction}
    (hi : i ∈ instructions) : HoldsTargets i := by
  obtain ⟨-, -, hnext, -⟩ := instruction_of_mem h hi
  exact ⟨Cursor.operand_of_isBranch hnext, Cursor.operand_of_switch hnext⟩

end Declared

end ScriptDecompiler.Bytecode
