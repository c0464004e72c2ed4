import ScriptDecompiler.Bytecode.Opcode

/-!
# Properties of all opcodes

A property of every row of the opcode table with its number, and of the row that
stands in for the opcodes outside the table, is a property of every opcode.
-/

namespace ScriptDecompiler.Bytecode

theorem opcodeInfo_forall {P : OpcodeInfo → Nat → Prop}
    (htable : ∀ row ∈ opcodeTable.toList.zipIdx, P row.1 row.2)
    (hunknown : ∀ n, P unknownOpcode n) (opcode : UInt8) :
    P (opcodeInfo opcode) opcode.toNat := by
  unfold opcodeInfo opcodeInfo?
  cases hrow : opcodeTable[opcode.toNat]? with
  | none => exact hunknown _
  | some info =>
      rw [← Array.getElem?_toList] at hrow
      exact htable (info, opcode.toNat) (List.mem_zipIdx_iff_getElem?.2 hrow)

/-- Only an ENTER has the format of an ENTER. -/
theorem operation_eq_enter {opcode : UInt8} (h : (opcodeInfo opcode).format = .enter) :
    (opcodeInfo opcode).operation = .enter := by
  have htable : ∀ row ∈ opcodeTable.toList.zipIdx,
      row.1.format = .enter → row.1.operation = .enter := by decide +kernel
  exact opcodeInfo_forall (P := fun info _ => info.format = .enter → info.operation = .enter)
    htable (fun _ hunknown => absurd hunknown (by decide)) opcode h

/-- There is one NOP, and it has no operand. -/
theorem opcode_of_nop {opcode : UInt8} (h : (opcodeInfo opcode).operation = .nop) :
    (opcodeInfo opcode).format = .none ∧ opcode = 0 := by
  have htable : ∀ row ∈ opcodeTable.toList.zipIdx,
      row.1.operation = .nop → row.1.format = .none ∧ row.2 = 0 := by decide +kernel
  obtain ⟨hformat, hzero⟩ := opcodeInfo_forall
    (P := fun info n => info.operation = .nop → info.format = .none ∧ n = 0)
    htable (fun _ hunknown => absurd hunknown (by decide)) opcode h
  exact ⟨hformat, UInt8.toNat_inj.1 hzero⟩

/-- A jump to one target has the format of a branch. -/
theorem format_of_isBranch {opcode : UInt8}
    (h : (opcodeInfo opcode).operation.isBranch = true) : (opcodeInfo opcode).format = .branch := by
  have htable : ∀ row ∈ opcodeTable.toList.zipIdx,
      row.1.operation.isBranch = true → row.1.format = .branch := by decide +kernel
  exact opcodeInfo_forall
    (P := fun info _ => info.operation.isBranch = true → info.format = .branch)
    htable (fun _ hunknown => absurd hunknown (by decide)) opcode h

/-- A switch has the format of a switch. -/
theorem format_of_switch {opcode : UInt8} (h : (opcodeInfo opcode).operation = .switch) :
    (opcodeInfo opcode).format = .switch := by
  have htable : ∀ row ∈ opcodeTable.toList.zipIdx,
      row.1.operation = .switch → row.1.format = .switch := by decide +kernel
  exact opcodeInfo_forall (P := fun info _ => info.operation = .switch → info.format = .switch)
    htable (fun _ hunknown => absurd hunknown (by decide)) opcode h

/-- A native call has the format of a native call, and nothing else has. -/
theorem operation_eq_callNative_iff {opcode : UInt8} :
    (opcodeInfo opcode).operation = .callNative ↔ (opcodeInfo opcode).format = .native := by
  have htable : ∀ row ∈ opcodeTable.toList.zipIdx,
      row.1.operation = .callNative ↔ row.1.format = .native := by decide +kernel
  exact opcodeInfo_forall (P := fun info _ => info.operation = .callNative ↔ info.format = .native)
    htable (fun _ => by decide) opcode

end ScriptDecompiler.Bytecode
