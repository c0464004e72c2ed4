import ScriptDecompiler.Proofs.Bytecode.Encoding
import ScriptDecompiler.Proofs.Bytecode.OpcodeTable

/-!
# Decoding loses nothing

Decoding where an instruction is encoded returns the instruction and stops
behind it, whatever surrounds it.  Conversely a decoded instruction encodes to
the bytes it covers, unless it is an ENTER.
-/

namespace ScriptDecompiler.Bytecode

namespace Cursor

theorem next_encode (unused : UInt8) {i : Instruction}
    (hadmits : (opcodeInfo i.opcode).format.Admits i.address i.opcode i.operand)
    (hsize : i.size = (i.encode unused).length) (rest : List UInt8) :
    (⟨i.address, i.encode unused ++ rest⟩ : Cursor).next =
      .decoded i ⟨i.nextAddress, rest⟩ := by
  cases i with
  | mk address opcode operand size =>
      have hread := Format.read_encode unused hadmits rest
      have hlength : size = (operand.encode unused address).length + 1 := hsize
      subst hlength
      exact next_of_read hread

theorem encode_of_next (unused : UInt8) {c after : Cursor} {i : Instruction}
    (h : c.next = .decoded i after) (henter : i.operation ≠ .enter) :
    (opcodeInfo i.opcode).format.Admits i.address i.opcode i.operand ∧
      c.rest = i.encode unused ++ after.rest := by
  obtain ⟨bytes, read, hrest, hread, hi, hafter⟩ := next_eq_decoded h
  have hformat : (opcodeInfo i.opcode).format ≠ .enter := fun hf =>
    henter (operation_eq_enter hf)
  obtain ⟨hadmits, hbytes⟩ := Format.encode_of_read unused hread hformat
  have haddress : i.address = c.position := by rw [hi]
  have hoperand : i.operand = read.operand := by rw [hi]
  rw [Instruction.encode, haddress, hoperand, hafter, hrest, hbytes]
  exact ⟨hadmits, rfl⟩

/-- The cases of a SWITCH take six bytes each. -/
theorem size_of_switch {c after : Cursor} {i : Instruction} {cases : List (Nat × Nat)}
    (h : c.next = .decoded i after) (hoperand : i.operand = .switch cases) :
    i.size = 2 + 6 * cases.length := by
  obtain ⟨bytes, read, hrest, hread, hi, hafter⟩ := next_eq_decoded h
  have hswitch : read.operand = .switch cases := by
    rw [← hoperand, hi]
  have hformat : (opcodeInfo i.opcode).format ≠ .enter := by
    intro hf
    rw [hf] at hread
    obtain ⟨arguments, locals, name, hread⟩ := operand_of_readEnter hread
    rw [hread] at hswitch
    cases hswitch
  -- The size is that of the encoding, whatever byte stands for the unused one.
  obtain ⟨-, hbytes⟩ := Format.encode_of_read 0 hread hformat
  have hlength := Format.read_rest hread
  rw [hbytes, hswitch, List.length_append, Operand.encode, List.length_cons,
    length_encodeCases] at hlength
  rw [hi]
  show read.size + 1 = _
  omega

/-- Decoding is lossless.  The first part is about any instruction whose operand
its format admits, the second about any position at which one is found. -/
theorem next_lossless (unused : UInt8) :
    (∀ (before after : List UInt8) (i : Instruction) (info : OpcodeInfo),
      opcodeInfo? i.opcode = some info → info.format.Admits i.address i.opcode i.operand →
      i.size = (i.encode unused).length → before.length = i.address →
        (ofCode (before ++ i.encode unused ++ after) i.address).next =
          .decoded i (ofCode (before ++ i.encode unused ++ after) i.nextAddress)) ∧
    (∀ (code : List UInt8) (position : Nat) (i : Instruction) (after : Cursor),
      (ofCode code position).next = .decoded i after → i.operation ≠ .enter →
        i.address = position ∧
          (opcodeInfo i.opcode).format.Admits i.address i.opcode i.operand ∧
          (code.drop i.address).take i.size = i.encode unused ∧
          after = ofCode code i.nextAddress) := by
  constructor
  · intro before after i info hinfo hadmits hsize hbefore
    have hformat : opcodeInfo i.opcode = info := by rw [opcodeInfo, hinfo, Option.getD_some]
    have hnext : i.nextAddress = (before ++ i.encode unused).length := by
      rw [List.length_append, ← hsize, hbefore]
      rfl
    rw [hnext, ofCode_append, ← hnext, List.append_assoc, ← hbefore, ofCode_append, hbefore]
    exact next_encode unused (hformat ▸ hadmits) hsize after
  · intro code position i after hnext henter
    obtain ⟨haddress, -, hafter⟩ := next_ofCode hnext
    obtain ⟨hadmits, hrest⟩ := encode_of_next unused hnext henter
    have hbytes := next_rest hnext
    have hcovered : (i.encode unused).length = i.size := by
      have hlength := congrArg List.length hrest
      rw [List.length_append] at hlength
      omega
    refine ⟨haddress, hadmits, ?_, hafter⟩
    rw [haddress, show code.drop position = i.encode unused ++ after.rest from hrest, ← hcovered,
      List.take_left]

/-- Both parts at a SWITCH with two cases that lies between other bytes. -/
theorem next_lossless_switch :
    let i : Instruction := ⟨3, 98, .switch [(7, 11), (9, 21)], 14⟩
    let code : List UInt8 := [1, 2, 3, 98, 2, 7, 0, 0, 0, 0, 0, 9, 0, 0, 0, 4, 0, 5]
    opcodeInfo? i.opcode = some ⟨"switch", .switch, .switch, 1⟩ ∧
      Format.Admits i.address i.opcode .switch i.operand ∧ i.size = (i.encode 0).length ∧
      i.operation ≠ .enter ∧ (ofCode code 3).next = .decoded i (ofCode code 17) ∧
      (code.drop 3).take 14 = i.encode 0 := by
  intro i code
  obtain ⟨hencoded, hdecoded⟩ := next_lossless 0
  have hinfo : opcodeInfo? i.opcode = some ⟨"switch", .switch, .switch, 1⟩ := by decide +kernel
  have hcases : CasesAt 11 [(7, 11), (9, 21)] :=
    ⟨by decide, ⟨0, by decide, rfl⟩, by decide, ⟨4, by decide, rfl⟩, trivial⟩
  have hadmits : Format.Admits i.address i.opcode .switch i.operand := .switch (by decide) hcases
  have hsize : i.size = (i.encode 0).length := by decide +kernel
  have hoperation : i.operation ≠ .enter := by decide +kernel
  have hcode : [1, 2, 3] ++ i.encode 0 ++ [5] = code := by decide +kernel
  have hnext := hencoded [1, 2, 3] [5] i _ hinfo hadmits hsize rfl
  rw [hcode] at hnext
  obtain ⟨-, -, hbytes, -⟩ := hdecoded code 3 i _ hnext hoperation
  exact ⟨hinfo, hadmits, hsize, hoperation, hnext, hbytes⟩

end Cursor

end ScriptDecompiler.Bytecode
