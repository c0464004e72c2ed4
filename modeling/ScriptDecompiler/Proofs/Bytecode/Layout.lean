import ScriptDecompiler.Proofs.Bytecode.Cursor
import ScriptDecompiler.Proofs.Bytecode.OpcodeTable

/-!
# How code is laid out

`Layout` is the run of the decoder as a derivation: one rule for an instruction
that is kept, one for the NOP that completes a sentinel and skips the rest of
its page, and one for the end of the code.  The decoder succeeds exactly if
there is a layout, and returns its instructions.
-/

namespace ScriptDecompiler.Bytecode

/-- Does an instruction count as the first NOP of a sentinel for what follows? -/
def opensSentinel (i : Instruction) : Bool :=
  i.operation = .nop && pageOf i.nextAddress = pageOf i.address

/-- The instructions and the sentinels of `code` from `position` on.  `afterNop`
tells whether a NOP of the same page stands right before. -/
inductive Layout (code : List UInt8) :
    (afterNop : Bool) → (position : Nat) → List Instruction → (sentinels : List Nat) → Prop where
  | finished {afterNop : Bool} {position : Nat} (hend : code.length ≤ position) :
    Layout code afterNop position [] []
  | sentinel {i : Instruction} {after : Cursor} {instructions : List Instruction}
      {sentinels : List Nat} (hnext : (Cursor.ofCode code i.address).next = .decoded i after)
      (hnop : i.operation = .nop)
      (hrest : Layout code false (pageEnd i.address) instructions sentinels) :
    Layout code true i.address instructions (i.address :: sentinels)
  | instruction {afterNop : Bool} {i : Instruction} {after : Cursor}
      {instructions : List Instruction} {sentinels : List Nat}
      (hnext : (Cursor.ofCode code i.address).next = .decoded i after)
      (hkept : ¬(afterNop = true ∧ i.operation = .nop))
      (hrest : Layout code (opensSentinel i) i.nextAddress instructions sentinels) :
    Layout code afterNop i.address (i :: instructions) sentinels

theorem lt_pageEnd (address : Nat) : address < pageEnd address := by
  unfold pageEnd pageOf
  have h : 0 < pageSize := by decide
  rw [Nat.mul_comm]
  exact Nat.lt_mul_div_succ address h

theorem decodeFrom_finished {afterNop : Bool} {c : Cursor} (done : List Instruction)
    (h : c.next = .finished) : decodeFrom afterNop c done = .ok done.reverse := by
  rw [decodeFrom]
  split <;> simp_all

theorem decodeFrom_truncated {afterNop : Bool} {c after : Cursor} {truncation : Truncation}
    (done : List Instruction) (h : c.next = .truncated truncation after) :
    decodeFrom afterNop c done = .error truncation := by
  rw [decodeFrom]
  split <;> simp_all

theorem decodeFrom_decoded {afterNop : Bool} {c after : Cursor} {i : Instruction}
    (done : List Instruction) (h : c.next = .decoded i after) :
    decodeFrom afterNop c done =
      if afterNop && i.operation = .nop then
        decodeFrom false (after.skipTo (pageEnd i.address)) done
      else
        decodeFrom (i.operation = .nop && pageOf after.position = pageOf i.address) after
          (i :: done) := by
  rw [decodeFrom]
  split <;> simp_all

theorem size_of_nop {c after : Cursor} {i : Instruction} (h : c.next = .decoded i after)
    (hnop : i.operation = .nop) : i.size = 1 := by
  obtain ⟨bytes, read, -, hread, hi, -⟩ := Cursor.next_eq_decoded h
  rw [(opcode_of_nop hnop).1] at hread
  cases hread
  rw [hi]

/-- The page of a NOP does not end before the NOP does. -/
theorem nextAddress_le_pageEnd {c after : Cursor} {i : Instruction} (h : c.next = .decoded i after)
    (hnop : i.operation = .nop) : i.nextAddress ≤ pageEnd i.address := by
  rw [Instruction.nextAddress, size_of_nop h hnop]
  exact lt_pageEnd i.address

/-- The position behind an instruction of the code. -/
theorem position_after {code : List UInt8} {i : Instruction} (h : i.nextAddress ≤ code.length) :
    (Cursor.ofCode code i.nextAddress).position = i.nextAddress :=
  Nat.min_eq_left h

theorem operation_of_getElem? {code : List UInt8} {i : Instruction} {after : Cursor}
    (h : (Cursor.ofCode code i.address).next = .decoded i after) :
    i.operation = .nop ↔ code[i.address]? = some 0 := by
  rw [Cursor.getElem?_of_next h, Option.some.injEq]
  constructor
  · exact fun hnop => (opcode_of_nop hnop).2
  · intro hzero
    rw [Instruction.operation, hzero]
    decide +kernel

/-- If the decoder succeeds then it has followed a layout. -/
theorem layout_of_decodeFrom {code : List UInt8} {afterNop : Bool} {position : Nat}
    {done out : List Instruction}
    (h : decodeFrom afterNop (Cursor.ofCode code position) done = .ok out) :
    ∃ instructions sentinels, out = done.reverse ++ instructions ∧
      Layout code afterNop position instructions sentinels := by
  -- Every step moves on, so the bytes left over become fewer.
  induction hleft : code.length - position using Nat.strongRecOn
    generalizing afterNop position done with
  | ind left ih =>
      subst hleft
      cases hnext : (Cursor.ofCode code position).next with
      | finished =>
          rw [decodeFrom_finished done hnext] at h
          cases h
          exact ⟨[], [], by simp, .finished (Cursor.next_ofCode_eq_finished_iff.1 hnext)⟩
      | truncated truncation after =>
          rw [decodeFrom_truncated done hnext] at h
          cases h
      | decoded i after =>
          obtain ⟨rfl, hle, rfl⟩ := Cursor.next_ofCode hnext
          have hsize := Cursor.next_size_pos hnext
          have hlt : i.address < i.nextAddress := Nat.lt_add_of_pos_right hsize
          rw [decodeFrom_decoded done hnext] at h
          by_cases hsentinel : afterNop = true ∧ i.operation = .nop
          · obtain ⟨rfl, hnop⟩ := hsentinel
            have hpage := nextAddress_le_pageEnd hnext hnop
            rw [if_pos (by simp [hnop]), Cursor.skipTo_ofCode hpage] at h
            obtain ⟨instructions, sentinels, hout, hlayout⟩ := ih _ (by omega) h rfl
            exact ⟨instructions, _, hout, .sentinel hnext hnop hlayout⟩
          · rw [if_neg (by simpa using hsentinel), position_after hle] at h
            obtain ⟨instructions, sentinels, hout, hlayout⟩ := ih _ (by omega) h rfl
            refine ⟨i :: instructions, sentinels, ?_, .instruction hnext hsentinel hlayout⟩
            rw [hout, List.reverse_cons, List.append_assoc, List.singleton_append]

/-- Along a layout the decoder succeeds, and finds the instructions. -/
theorem decodeFrom_of_layout {code : List UInt8} {afterNop : Bool} {position : Nat}
    {instructions : List Instruction} {sentinels : List Nat}
    (h : Layout code afterNop position instructions sentinels) (done : List Instruction) :
    decodeFrom afterNop (Cursor.ofCode code position) done =
      .ok (done.reverse ++ instructions) := by
  induction h generalizing done with
  | finished hend =>
      rw [decodeFrom_finished done (Cursor.next_ofCode_eq_finished_iff.2 hend), List.append_nil]
  | sentinel hnext hnop _ ih =>
      obtain ⟨-, -, rfl⟩ := Cursor.next_ofCode hnext
      rw [decodeFrom_decoded done hnext, if_pos (by simp [hnop]),
        Cursor.skipTo_ofCode (nextAddress_le_pageEnd hnext hnop)]
      exact ih done
  | @instruction _ i _ _ _ hnext hkept _ ih =>
      obtain ⟨-, hle, rfl⟩ := Cursor.next_ofCode hnext
      rw [decodeFrom_decoded done hnext, if_neg (by simpa using hkept), position_after hle]
      have hrest := ih (i :: done)
      rw [List.reverse_cons, List.append_assoc, List.singleton_append] at hrest
      exact hrest

/-- Code of a declared length decodes to the instructions of its layout. -/
theorem decodeCode_eq_ok_iff {code : List UInt8} {codeLength : Nat}
    {instructions : List Instruction} :
    decodeCode code codeLength = .ok instructions ↔
      codeLength ≤ code.length ∧
        ∃ sentinels, Layout (code.take codeLength) false 0 instructions sentinels := by
  unfold decodeCode
  by_cases hlength : code.length < codeLength
  · simp only [hlength, if_true, reduceCtorEq, false_iff, not_and]
    intro hle
    omega
  · rw [if_neg hlength]
    constructor
    · intro h
      cases hdecode : decodeFrom false (Cursor.ofCode (code.take codeLength) 0) [] with
      | error truncation =>
          rw [hdecode] at h
          cases h
      | ok out =>
          rw [hdecode] at h
          cases h
          obtain ⟨_, sentinels, rfl, hlayout⟩ := layout_of_decodeFrom hdecode
          exact ⟨by omega, sentinels, hlayout⟩
    · rintro ⟨-, sentinels, hlayout⟩
      rw [decodeFrom_of_layout hlayout []]
      rfl

end ScriptDecompiler.Bytecode
