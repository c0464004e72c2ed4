import ScriptDecompiler.Decompile
import ScriptDecompiler.Proofs.Bytecode.Tiling
import ScriptDecompiler.Schema.Unit

/-!
# Addresses fit into words of 32 bits

Addresses are natural numbers here.  Where an instruction lies is below the declared length of the
code, and what its operand names is wrapped around or read from three bytes.  So if the declared
length fits into a word of 32 bits, as it does in every unit that is read, all addresses do.
-/

namespace ScriptDecompiler

namespace Bytecode

/-- The addresses that an operand names. -/
def Operand.addresses : Operand → List Nat
  | .branch _ target | .call target => [target]
  | .switch cases => cases.map (·.2)
  | _ => []

/-- Do the addresses that an instruction shows fit into words of 32 bits? -/
structure Instruction.Addressed (i : Instruction) : Prop where
  next : i.nextAddress < UInt32.size
  operand : ∀ a ∈ i.operand.addresses, a < UInt32.size

namespace Instruction.Addressed

variable {i : Instruction}

theorem address (h : i.Addressed) : i.address < UInt32.size :=
  Nat.lt_of_le_of_lt (Nat.le_add_right ..) h.next

theorem jumpTarget (h : i.Addressed) : ∀ target ∈ i.jumpTargets, target < UInt32.size := by
  intro target htarget
  refine h.operand target ?_
  unfold jumpTargets at htarget
  split at htarget <;> rename_i hoperand
  · rwa [hoperand]
  · rwa [hoperand]
  · cases htarget

end Instruction.Addressed

theorem wrapAddress_lt (x : Int) : wrapAddress x < UInt32.size := by
  rw [UInt32.size, wrapAddress]
  omega

theorem CasesAt.target_lt : {cases : List (Nat × Nat)} → ∀ {caseEnd : Nat},
    CasesAt caseEnd cases → ∀ entry ∈ cases, entry.2 < UInt32.size
  | [], _, _, _, hentry => absurd hentry List.not_mem_nil
  | (_, _) :: _, _, ⟨_, ⟨_, _, htarget⟩, hrest⟩, entry, hentry => by
      rcases List.mem_cons.1 hentry with rfl | hentry
      · exact lt_of_eq_of_lt htarget (wrapAddress_lt _)
      · exact hrest.target_lt entry hentry

theorem Format.Admits.address_lt {format : Format} {address : Nat} {opcode : UInt8}
    {operand : Operand} (h : format.Admits address opcode operand) :
    ∀ a ∈ operand.addresses, a < UInt32.size := by
  intro a ha
  cases h with
  | branch =>
      rw [List.mem_singleton.1 ha]
      exact wrapAddress_lt _
  | call htarget =>
      rw [List.mem_singleton.1 ha]
      exact Nat.lt_trans htarget (by decide)
  | switch _ hcases =>
      obtain ⟨entry, hentry, rfl⟩ := List.mem_map.1 ha
      exact hcases.target_lt entry hentry
  | _ => cases ha

/-- What the operand of a decoded instruction names is an address, wherever it was decoded. -/
theorem Cursor.address_lt_of_next {c after : Cursor} {i : Instruction}
    (h : c.next = .decoded i after) : ∀ a ∈ i.operand.addresses, a < UInt32.size := by
  obtain ⟨bytes, read, -, hread, hi, -⟩ := next_eq_decoded h
  have hoperand : i.operand = read.operand := by rw [hi]
  rw [hoperand]
  by_cases henter : (opcodeInfo i.opcode).format = .enter
  · rw [henter] at hread
    obtain ⟨arguments, locals, name, hname⟩ := operand_of_readEnter hread
    rw [hname]
    exact fun a ha => absurd ha List.not_mem_nil
  · exact (Format.encode_of_read 0 hread henter).1.address_lt

/-- The addresses in decoded code fit if the declared length does. -/
theorem addressed_of_mem {code : List UInt8} {codeLength : Nat} {instructions : List Instruction}
    (h : decodeCode code codeLength = .ok instructions) (hlength : codeLength < UInt32.size) :
    ∀ i ∈ instructions, i.Addressed := by
  intro i hi
  obtain ⟨-, hinside, hnext, -⟩ := instruction_of_mem h hi
  exact ⟨Nat.lt_of_le_of_lt hinside hlength, Cursor.address_lt_of_next hnext⟩

end Bytecode

namespace Json.Value

theorem nat?_lt {bits n : Nat} {v : Value} (h : v.nat? bits = some n) : n < Nat.pow 2 bits := by
  obtain ⟨value, hvalue, rfl⟩ := Option.map_eq_some_iff.1 h
  have hpos : 0 < Nat.pow 2 bits := Nat.pow_pos (by decide)
  unfold integerBetween? at hvalue
  split at hvalue
  · split at hvalue
    · rename_i hbounds
      cases hvalue
      have hhigh := hbounds.2
      rw [Int.ofNat_eq_natCast] at hhigh
      omega
    · cases hvalue
  · cases hvalue

end Json.Value

namespace ScriptUnit

open ScriptDecompiler.Json (Record Value)

/-- The declared length of a unit that is read fits into a word of 32 bits. -/
theorem codeLength_lt_of_ofValue? {v : Value} {u : ScriptUnit} (h : ofValue? v = some u) :
    u.codeLength < UInt32.size := by
  simp only [ofValue?, Option.bind_eq_bind, Option.pure_def, Option.bind_eq_some_iff,
    Option.some.injEq] at h
  obtain ⟨r, -, name, -, code, -, codeLength, hlength, statics, -, natives, -, strings, -, rfl⟩ := h
  obtain ⟨field, -, hfield⟩ := Option.bind_eq_some_iff.1 hlength
  exact Value.nat?_lt hfield

/-- So do the addresses in its code. -/
theorem addressed_of_ofValue? {v : Value} {u : ScriptUnit} (h : ofValue? v = some u)
    {instructions : List Bytecode.Instruction} (hcode : u.instructions = .ok instructions) :
    ∀ i ∈ instructions, i.Addressed :=
  Bytecode.addressed_of_mem hcode (codeLength_lt_of_ofValue? h)

end ScriptUnit

end ScriptDecompiler
