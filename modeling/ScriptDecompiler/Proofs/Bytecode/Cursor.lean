import Mathlib.Data.List.Basic
import ScriptDecompiler.Bytecode.Decode
import ScriptDecompiler.Proofs.Bytecode.OpcodeTable

/-!
# What decoding one instruction looks at

An instruction depends on its address and on the bytes it covers, and on no
others: the bytes behind it may be replaced, and before it there may be
anything.
-/

namespace ScriptDecompiler.Bytecode

theorem splitExact?_append (field rest : List UInt8) :
    splitExact? field.length (field ++ rest) = some (field, rest) :=
  splitExact?_eq_some_iff.2 ⟨rfl, rfl⟩

theorem readEnter_local {address : Nat} {bytes : List UInt8} {read : OperandRead}
    (h : readEnter address bytes = .ok read) :
    ∃ field : List UInt8, field.length = read.size ∧ bytes = field ++ read.rest ∧
      ∀ rest, readEnter address (field ++ rest) = .ok ⟨read.operand, read.size, rest⟩ := by
  unfold readEnter at h
  split at h
  · rename_i arguments locals unused length named
    split at h
    · cases h
    · rename_i raw after hsplit
      obtain ⟨hnamed, hlength⟩ := splitExact?_eq_some_iff.1 hsplit
      cases h
      refine ⟨arguments :: locals :: unused :: length :: raw, ?_, by simp [hnamed], ?_⟩
      · simp only [List.length_cons, hlength]
        omega
      · intro rest
        simp only [List.cons_append, readEnter]
        rw [← hlength, splitExact?_append]
  · cases h

theorem operand_of_readEnter {address : Nat} {bytes : List UInt8} {read : OperandRead}
    (h : readEnter address bytes = .ok read) :
    ∃ arguments locals name, read.operand = .enter arguments locals name := by
  unfold readEnter at h
  split at h
  · split at h
    · cases h
    · cases h
      exact ⟨_, _, _, rfl⟩
  · cases h

theorem operand_of_readSwitch {address : Nat} {bytes : List UInt8} {read : OperandRead}
    (h : readSwitch address bytes = .ok read) : ∃ cases, read.operand = .switch cases := by
  unfold readSwitch at h
  split at h
  · cases h
  · split at h
    · cases h
    · cases h
      exact ⟨_, rfl⟩

theorem readSwitch_local {address : Nat} {bytes : List UInt8} {read : OperandRead}
    (h : readSwitch address bytes = .ok read) :
    ∃ field : List UInt8, field.length = read.size ∧ bytes = field ++ read.rest ∧
      ∀ rest, readSwitch address (field ++ rest) = .ok ⟨read.operand, read.size, rest⟩ := by
  unfold readSwitch at h
  split at h
  · cases h
  · rename_i count table
    split at h
    · cases h
    · rename_i cases after hsplit
      obtain ⟨htable, hlength⟩ := splitExact?_eq_some_iff.1 hsplit
      cases h
      refine ⟨count :: cases, ?_, by simp [htable], ?_⟩
      · simp only [List.length_cons, hlength]
        omega
      · intro rest
        simp only [List.cons_append, readSwitch]
        rw [← hlength, splitExact?_append]

/-- An operand depends on its own bytes only. -/
theorem Format.read_local {format : Format} {address : Nat} {opcode : UInt8} {bytes : List UInt8}
    {read : OperandRead} (h : format.read address opcode bytes = .ok read) :
    ∃ field : List UInt8, field.length = read.size ∧ bytes = field ++ read.rest ∧
      ∀ rest, format.read address opcode (field ++ rest) =
        .ok ⟨read.operand, read.size, rest⟩ := by
  unfold Format.read at h ⊢
  cases hsize : format.fixedSize? with
  | some size =>
      simp only [hsize] at h ⊢
      split at h
      · cases h
      · rename_i field after hsplit
        obtain ⟨hbytes, hlength⟩ := splitExact?_eq_some_iff.1 hsplit
        cases h
        refine ⟨field, hlength, hbytes, fun rest => ?_⟩
        rw [← hlength, splitExact?_append]
  | none =>
      simp only [hsize] at h ⊢
      by_cases henter : format = .enter
      · simp only [henter, if_true] at h ⊢
        exact readEnter_local h
      · simp only [henter, if_false] at h ⊢
        exact readSwitch_local h

/-- Only operands of one format are those of native calls. -/
theorem Format.read_native_iff {format : Format} {address : Nat} {opcode : UInt8}
    {bytes : List UInt8} {read : OperandRead} (h : format.read address opcode bytes = .ok read) :
    (∃ inSlots outSlots index, read.operand = .native inSlots outSlots index) ↔
      format = .native := by
  unfold Format.read at h
  split at h
  · split at h
    · cases h
    · cases h
      cases format <;> simp [Format.ofField]
  · rename_i hsize
    split at h
    · rename_i henter
      obtain ⟨arguments, locals, name, hoperand⟩ := operand_of_readEnter h
      simp [hoperand, henter]
    · obtain ⟨cases, hoperand⟩ := operand_of_readSwitch h
      rw [hoperand]
      refine ⟨by simp, ?_⟩
      rintro rfl
      cases hsize

namespace Cursor

theorem ofCode_append (before rest : List UInt8) :
    ofCode (before ++ rest) before.length = ⟨before.length, rest⟩ := by
  simp [ofCode]

/-- How an instruction comes out of the opcode byte and the operand behind it. -/
theorem next_eq_decoded {c after : Cursor} {i : Instruction} (h : c.next = .decoded i after) :
    ∃ bytes read, c.rest = i.opcode :: bytes ∧
      (opcodeInfo i.opcode).format.read c.position i.opcode bytes = .ok read ∧
      i = ⟨c.position, i.opcode, read.operand, read.size + 1⟩ ∧
      after = ⟨c.position + (read.size + 1), read.rest⟩ := by
  unfold next at h
  split at h
  · cases h
  · rename_i opcode bytes hrest
    split at h
    · rename_i read hread
      cases h
      exact ⟨bytes, read, hrest, hread, rfl, rfl⟩
    · cases h

/-- What a branch jumps to is in its operand. -/
theorem operand_of_isBranch {c after : Cursor} {i : Instruction} (h : c.next = .decoded i after)
    (hbranch : i.operation.isBranch = true) :
    ∃ relative target, i.operand = .branch relative target := by
  obtain ⟨bytes, read, -, hread, hi, -⟩ := next_eq_decoded h
  rw [format_of_isBranch hbranch] at hread
  simp only [Format.read, Format.fixedSize?] at hread
  split at hread
  · cases hread
  · cases hread
    rw [hi]
    exact ⟨_, _, rfl⟩

/-- What a switch jumps to is in its operand. -/
theorem operand_of_switch {c after : Cursor} {i : Instruction} (h : c.next = .decoded i after)
    (hswitch : i.operation = .switch) : ∃ cases, i.operand = .switch cases := by
  obtain ⟨bytes, read, -, hread, hi, -⟩ := next_eq_decoded h
  rw [format_of_switch hswitch] at hread
  obtain ⟨cases, hcases⟩ := operand_of_readSwitch hread
  rw [hi]
  exact ⟨cases, hcases⟩

/-- What a native call calls is in its operand. -/
theorem callNative_iff {c after : Cursor} {i : Instruction} (h : c.next = .decoded i after) :
    i.operation = .callNative ↔
      ∃ inSlots outSlots index, i.operand = .native inSlots outSlots index := by
  obtain ⟨bytes, read, -, hread, hi, -⟩ := next_eq_decoded h
  have hoperand : i.operand = read.operand := by rw [hi]
  rw [hoperand, Format.read_native_iff hread]
  exact operation_eq_callNative_iff

theorem next_of_read {position : Nat} {opcode : UInt8} {bytes : List UInt8} {read : OperandRead}
    (h : (opcodeInfo opcode).format.read position opcode bytes = .ok read) :
    (⟨position, opcode :: bytes⟩ : Cursor).next =
      .decoded ⟨position, opcode, read.operand, read.size + 1⟩
        ⟨position + (read.size + 1), read.rest⟩ := by
  simp only [next, h]

/-- An instruction depends on the bytes it covers only. -/
theorem next_local {c after : Cursor} {i : Instruction} (h : c.next = .decoded i after) :
    ∃ covered : List UInt8, covered.length = i.size ∧ c.rest = covered ++ after.rest ∧
      ∀ rest, (⟨c.position, covered ++ rest⟩ : Cursor).next =
        .decoded i ⟨after.position, rest⟩ := by
  obtain ⟨bytes, read, hrest, hread, hi, hafter⟩ := next_eq_decoded h
  obtain ⟨field, hlength, hbytes, hlocal⟩ := Format.read_local hread
  refine ⟨i.opcode :: field, ?_, ?_, fun rest => ?_⟩
  · rw [hi, List.length_cons, hlength]
  · rw [hrest, hbytes, hafter, List.cons_append]
  · rw [List.cons_append, next_of_read (hlocal rest), hafter, ← hi]

theorem eq_ofCode {c : Cursor} {code : List UInt8} (hposition : c.position ≤ code.length)
    (hrest : c.rest = code.drop c.position) : c = ofCode code c.position := by
  cases c
  simp only at hposition hrest
  rw [hrest, ofCode, Nat.min_eq_left hposition]

/-- Decoding at a position of the code: the instruction has this position as its
address, lies inside the code, and is followed by the cursor behind it. -/
theorem next_ofCode {code : List UInt8} {position : Nat} {i : Instruction} {after : Cursor}
    (h : (ofCode code position).next = .decoded i after) :
    i.address = position ∧ i.nextAddress ≤ code.length ∧ after = ofCode code i.nextAddress := by
  obtain ⟨covered, hcovered, hdrop, -⟩ := next_local h
  obtain ⟨bytes, read, -, -, hi, hafter⟩ := next_eq_decoded h
  have hsize := next_size_pos h
  change code.drop position = covered ++ after.rest at hdrop
  have hlength := congrArg List.length hdrop
  rw [List.length_drop, List.length_append, hcovered] at hlength
  -- Since there is an instruction, the position is not past the end of the code.
  have hposition : (ofCode code position).position = position := Nat.min_eq_left (by omega)
  have haddress : i.address = position := by
    rw [hi]
    exact hposition
  have hnext : after.position = i.nextAddress := by
    rw [hafter, hposition, Instruction.nextAddress, haddress, hi]
  have hle : i.nextAddress ≤ code.length := by
    rw [Instruction.nextAddress, haddress]
    omega
  refine ⟨haddress, hle, hnext ▸ eq_ofCode (hnext ▸ hle) ?_⟩
  rw [hnext, Instruction.nextAddress, haddress, ← hcovered, ← List.drop_drop, hdrop,
    List.drop_left]

/-- The first byte of an instruction is its opcode. -/
theorem getElem?_of_next {code : List UInt8} {position : Nat} {i : Instruction} {after : Cursor}
    (h : (ofCode code position).next = .decoded i after) : code[position]? = some i.opcode := by
  obtain ⟨bytes, _, hrest, -, -, -⟩ := next_eq_decoded h
  change code.drop position = i.opcode :: bytes at hrest
  rw [← List.head?_drop, hrest, List.head?_cons]

theorem take_drop_congr {α : Type} {xs ys : List α} {position count : Nat}
    (h : ∀ k, position ≤ k → k < position + count → xs[k]? = ys[k]?) :
    (xs.drop position).take count = (ys.drop position).take count := by
  apply List.ext_getElem?
  intro k
  rw [List.getElem?_take, List.getElem?_take]
  split
  · rw [List.getElem?_drop, List.getElem?_drop]
    exact h _ (by omega) (by omega)
  · rfl

/-- Code that agrees on the bytes of an instruction has the same instruction. -/
theorem next_congr {code other : List UInt8} {position : Nat} {i : Instruction} {after : Cursor}
    (h : (ofCode code position).next = .decoded i after) (hlength : other.length = code.length)
    (hagree : ∀ k, i.address ≤ k → k < i.nextAddress → other[k]? = code[k]?) :
    (ofCode other position).next = .decoded i (ofCode other i.nextAddress) := by
  obtain ⟨haddress, -, -⟩ := next_ofCode h
  obtain ⟨covered, hcovered, hdrop, hlocal⟩ := next_local h
  change code.drop position = covered ++ after.rest at hdrop
  have hbytes : ∀ k, position ≤ k → k < position + i.size → other[k]? = code[k]? := by
    intro k hlow hhigh
    rw [← haddress] at hlow hhigh
    exact hagree k hlow hhigh
  -- Both codes have the same covered bytes in front, and then each its own rest.
  have htake : (other.drop position).take i.size = covered := by
    rw [take_drop_congr hbytes, hdrop, ← hcovered, List.take_left]
  have hother : other.drop position = covered ++ (other.drop position).drop i.size := by
    rw [← htake, List.take_append_drop]
  have hcursor : ofCode other position =
      ⟨(ofCode code position).position, covered ++ (other.drop position).drop i.size⟩ := by
    rw [← hother, ofCode, ofCode, hlength]
  have hnext := hlocal ((other.drop position).drop i.size)
  rw [← hcursor] at hnext
  obtain ⟨-, -, hafter⟩ := next_ofCode hnext
  rw [hnext, hafter]

/-- The bytes of an instruction in the middle of the code. -/
theorem next_ofCode_append {before covered : List UInt8} {i : Instruction}
    (hbefore : before.length = i.address)
    (h : (⟨i.address, covered⟩ : Cursor).next = .decoded i ⟨i.nextAddress, []⟩)
    (rest : List UInt8) :
    (ofCode (before ++ (covered ++ rest)) i.address).next =
      .decoded i ⟨i.nextAddress, rest⟩ := by
  obtain ⟨field, -, hfield, hlocal⟩ := next_local h
  rw [show covered = field by simpa using hfield, ← hbefore, ofCode_append, hbefore]
  exact hlocal rest

/-- At the end of the code there is nothing to decode, before it there is. -/
theorem next_ofCode_eq_finished_iff {code : List UInt8} {position : Nat} :
    (ofCode code position).next = .finished ↔ code.length ≤ position := by
  rw [← List.drop_eq_nil_iff]
  have hrest : (ofCode code position).rest = code.drop position := rfl
  unfold next
  rw [hrest]
  cases code.drop position with
  | nil => simp
  | cons opcode bytes =>
      simp only [reduceCtorEq, iff_false]
      split <;> simp

/-- Skipping forward from a position of the code. -/
theorem skipTo_ofCode {code : List UInt8} {position target : Nat} (h : position ≤ target) :
    (ofCode code position).skipTo target = ofCode code target := by
  have hcount : min (target - min position code.length) (code.length - position) =
      min target code.length - min position code.length := by omega
  unfold skipTo ofCode
  simp only [List.length_drop, List.drop_drop, hcount]
  congr 1
  · omega
  · by_cases hend : target ≤ code.length
    · congr 1
      omega
    · rw [List.drop_eq_nil_of_le (by omega), List.drop_eq_nil_of_le (by omega)]

end Cursor

end ScriptDecompiler.Bytecode
