import ScriptDecompiler.Proofs.Bytecode.Cursor
import ScriptDecompiler.Proofs.Bytecode.Stepwise

/-!
# Truncated instructions

An operand tells in two stages how many bytes it has.  Its header has as many as the format
says, and announces those behind it; only an ENTER and a SWITCH announce any.  As long as the
header is not complete, no more than the header is asked for.

So what is asked for never becomes less when bytes are added.  It stays the same as long as fewer
bytes are added than are missing, and it is final once all bytes asked for are there.  Then the
operand is read, and otherwise the truncation says how many are asked for and how many there are.
-/

namespace ScriptDecompiler.Bytecode

-- The opcode table is too large to be unfolded whenever terms are compared.
attribute [local irreducible] opcodeInfo

namespace Format

variable {format : Format} {bytes : List UInt8}

/-- The bytes that an operand of the format has in any case. -/
def headerSize : Format → Nat
  | .enter => 4
  | .switch => 1
  | format => format.fixedSize?.getD 0

/-- How many bytes a complete header announces behind it. -/
def announced (format : Format) (header : List UInt8) : Nat :=
  match format with
  | .enter => (header.getD 3 0).toNat
  | .switch => 6 * (header.getD 0 0).toNat
  | _ => 0

/-- How many bytes of an operand are asked for, as far as those that are there tell. -/
def demand (format : Format) (bytes : List UInt8) : Nat :=
  if bytes.length < format.headerSize then format.headerSize
  else format.headerSize + format.announced (bytes.take format.headerSize)

theorem headerSize_le_demand (format : Format) (bytes : List UInt8) :
    format.headerSize ≤ format.demand bytes := by
  unfold demand
  split
  · exact Nat.le_refl _
  · exact Nat.le_add_right _ _

/-- Behind a complete header there may be anything. -/
theorem demand_append_of_headerSize_le (h : format.headerSize ≤ bytes.length)
    (more : List UInt8) : format.demand (bytes ++ more) = format.demand bytes := by
  have hmore : ¬(bytes ++ more).length < format.headerSize := by
    rw [List.length_append]
    omega
  rw [demand, demand, if_neg (Nat.not_lt.2 h), if_neg hmore, List.take_append_of_le_length h]

/-- Bytes behind an operand do not matter. -/
theorem demand_append_of_le (h : format.demand bytes ≤ bytes.length) (more : List UInt8) :
    format.demand (bytes ++ more) = format.demand bytes :=
  demand_append_of_headerSize_le (Nat.le_trans (format.headerSize_le_demand bytes) h) more

/-- Nothing else is asked for as long as bytes asked for are missing. -/
theorem demand_append_of_lt {more : List UInt8}
    (h : (bytes ++ more).length < format.demand bytes) :
    format.demand (bytes ++ more) = format.demand bytes := by
  by_cases hheader : format.headerSize ≤ bytes.length
  · exact demand_append_of_headerSize_le hheader more
  · have hbytes : format.demand bytes = format.headerSize := if_pos (Nat.not_le.1 hheader)
    rw [hbytes] at h ⊢
    exact if_pos h

theorem demand_le_demand_append (format : Format) (bytes more : List UInt8) :
    format.demand bytes ≤ format.demand (bytes ++ more) := by
  by_cases hheader : format.headerSize ≤ bytes.length
  · exact Nat.le_of_eq (demand_append_of_headerSize_le hheader more).symm
  · have hbytes : format.demand bytes = format.headerSize := if_pos (Nat.not_le.1 hheader)
    rw [hbytes]
    exact format.headerSize_le_demand _

theorem demand_of_fixedSize? {size : Nat} (hsize : format.fixedSize? = some size)
    (bytes : List UInt8) : format.demand bytes = size := by
  cases format <;> cases hsize <;> exact ite_self _

theorem demand_enter (arguments locals unused length : UInt8) (named : List UInt8) :
    demand .enter (arguments :: locals :: unused :: length :: named) = 4 + length.toNat :=
  if_neg (Nat.not_lt.2 (Nat.le_add_left 4 named.length))

theorem demand_switch (count : UInt8) (table : List UInt8) :
    demand .switch (count :: table) = 1 + 6 * count.toNat :=
  if_neg (Nat.not_lt.2 (Nat.le_add_left 1 table.length))

/-- The bytes of an operand come to this: it is read if all that are asked for are there, and else
it is said how many are asked for. -/
def Answers (format : Format) (bytes : List UInt8) (answer : Except Shortage OperandRead) : Prop :=
  (∃ read, answer = .ok read ∧ read.size = format.demand bytes ∧
    format.demand bytes ≤ bytes.length) ∨
  ∃ passed, answer = .error ⟨format.demand bytes, passed⟩ ∧ bytes.length < format.demand bytes

theorem answers_readEnter (address : Nat) (bytes : List UInt8) :
    Answers .enter bytes (readEnter address bytes) := by
  by_cases hheader : 4 ≤ bytes.length
  · match bytes with
    | arguments :: locals :: unused :: length :: named =>
      rw [Answers, demand_enter, readEnter]
      cases hsplit : splitExact? length.toNat named with
      | none =>
          refine .inr ⟨4, rfl, ?_⟩
          have := splitExact?_eq_none_iff.1 hsplit
          simp only [List.length_cons]
          omega
      | some split =>
          obtain ⟨hnamed, hlength⟩ := splitExact?_eq_some_iff.1 hsplit
          refine .inl ⟨_, rfl, rfl, ?_⟩
          simp only [hnamed, List.length_cons, List.length_append]
          omega
  · have hshort : bytes.length < 4 := Nat.not_le.1 hheader
    have hdemand : demand .enter bytes = 4 := if_pos hshort
    refine .inr ⟨0, ?_, hdemand ▸ hshort⟩
    rw [readEnter_of_lt hshort, hdemand]

theorem answers_readSwitch (address : Nat) (bytes : List UInt8) :
    Answers .switch bytes (readSwitch address bytes) := by
  cases bytes with
  | nil => exact .inr ⟨0, rfl, Nat.one_pos⟩
  | cons count table =>
      rw [Answers, demand_switch, readSwitch]
      cases hsplit : splitExact? (6 * count.toNat) table with
      | none =>
          refine .inr ⟨1, rfl, ?_⟩
          have := splitExact?_eq_none_iff.1 hsplit
          rw [List.length_cons]
          omega
      | some split =>
          obtain ⟨htable, hlength⟩ := splitExact?_eq_some_iff.1 hsplit
          refine .inl ⟨_, rfl, rfl, ?_⟩
          rw [htable, List.length_cons, List.length_append]
          omega

theorem answers_read (format : Format) (address : Nat) (opcode : UInt8) (bytes : List UInt8) :
    format.Answers bytes (format.read address opcode bytes) := by
  rw [Format.read]
  cases hsize : format.fixedSize? with
  | some size =>
      rw [Answers, demand_of_fixedSize? hsize]
      dsimp only
      cases hsplit : splitExact? size bytes with
      | none => exact .inr ⟨0, rfl, splitExact?_eq_none_iff.1 hsplit⟩
      | some split =>
          obtain ⟨hbytes, hlength⟩ := splitExact?_eq_some_iff.1 hsplit
          refine .inl ⟨_, rfl, rfl, ?_⟩
          rw [hbytes, List.length_append, hlength]
          exact Nat.le_add_right _ _
  | none =>
      cases format with
      | enter => exact answers_readEnter address bytes
      | switch => exact answers_readSwitch address bytes
      | _ => cases hsize

end Format

namespace Cursor

/-- How many bytes are asked for behind an opcode, as far as those that are there tell. -/
def demandOf (opcode : UInt8) (bytes : List UInt8) : Nat :=
  (opcodeInfo opcode).format.demand bytes

variable {position : Nat} {opcode : UInt8} {bytes : List UInt8}

theorem next_of_le (h : demandOf opcode bytes ≤ bytes.length) (position : Nat) :
    ∃ operand after, (⟨position, opcode :: bytes⟩ : Cursor).next =
      .decoded ⟨position, opcode, operand, demandOf opcode bytes + 1⟩ after := by
  rcases Format.answers_read (opcodeInfo opcode).format position opcode bytes with
    ⟨read, hread, hsize, -⟩ | ⟨_, -, hlt⟩
  · refine ⟨read.operand, ⟨position + (read.size + 1), read.rest⟩, ?_⟩
    rw [next_of_read hread, hsize]
    rfl
  · exact absurd h (Nat.not_le.2 hlt)

theorem next_of_lt (h : bytes.length < demandOf opcode bytes) (position : Nat) :
    ∃ after, (⟨position, opcode :: bytes⟩ : Cursor).next =
      .truncated ⟨position, opcode, demandOf opcode bytes, bytes.length⟩ after := by
  rcases Format.answers_read (opcodeInfo opcode).format position opcode bytes with
    ⟨_, -, -, hle⟩ | ⟨passed, hread, -⟩
  · exact absurd hle (Nat.not_le.2 h)
  · refine ⟨⟨position + (passed + 1), bytes.drop passed⟩, ?_⟩
    rw [next]
    simp only [hread]
    rfl

/-- An instruction is decoded exactly if all bytes asked for are there. -/
theorem le_of_decoded {i : Instruction} {after : Cursor}
    (h : (⟨position, opcode :: bytes⟩ : Cursor).next = .decoded i after) :
    demandOf opcode bytes ≤ bytes.length ∧ i.opcode = opcode ∧
      i.size = demandOf opcode bytes + 1 := by
  rcases Nat.lt_or_ge bytes.length (demandOf opcode bytes) with hlt | hle
  · obtain ⟨after', htruncated⟩ := next_of_lt hlt position
    rw [htruncated] at h
    cases h
  · obtain ⟨operand, after', hdecoded⟩ := next_of_le hle position
    rw [hdecoded] at h
    cases h
    exact ⟨hle, rfl, rfl⟩

/-- An instruction that is cut short behind its opcode asks for bytes that are missing, and for
no more than it has. -/
theorem next_take_of_le (h : demandOf opcode bytes ≤ bytes.length) {kept : Nat}
    (hkept : kept < demandOf opcode bytes) (position : Nat) :
    ∃ needed after, (⟨position, opcode :: bytes.take kept⟩ : Cursor).next =
        .truncated ⟨position, opcode, needed, kept⟩ after ∧
      kept < needed ∧ needed ≤ demandOf opcode bytes := by
  have hlength : (bytes.take kept).length = kept :=
    List.length_take_of_le (Nat.le_of_lt (Nat.lt_of_lt_of_le hkept h))
  have hle : demandOf opcode (bytes.take kept) ≤ demandOf opcode bytes := by
    have := Format.demand_le_demand_append (opcodeInfo opcode).format (bytes.take kept)
      (bytes.drop kept)
    rwa [List.take_append_drop] at this
  -- If the bytes kept were all that they ask for, then those behind would not matter.
  have hlt : kept < demandOf opcode (bytes.take kept) := by
    by_contra hnot
    have henough : demandOf opcode (bytes.take kept) ≤ (bytes.take kept).length := by
      rw [hlength]
      exact Nat.not_lt.1 hnot
    have hsame : demandOf opcode (bytes.take kept ++ bytes.drop kept) =
        demandOf opcode (bytes.take kept) := Format.demand_append_of_le henough _
    rw [List.take_append_drop] at hsame
    exact hnot (Nat.lt_of_lt_of_eq hkept hsame)
  have hmissing : (bytes.take kept).length < demandOf opcode (bytes.take kept) := by rwa [hlength]
  obtain ⟨after, hnext⟩ := next_of_lt hmissing position
  rw [hlength] at hnext
  exact ⟨_, after, hnext, hlt, hle⟩

/-- More bytes behind an instruction that is cut short change nothing, unless they are as many as
are missing.  Then it is decoded, or asks for more than before. -/
theorem next_append_of_lt (h : bytes.length < demandOf opcode bytes) (more : List UInt8)
    (position : Nat) :
    (more.length < demandOf opcode bytes - bytes.length →
      ∃ after, (⟨position, opcode :: (bytes ++ more)⟩ : Cursor).next =
        .truncated ⟨position, opcode, demandOf opcode bytes, bytes.length + more.length⟩ after) ∧
    (demandOf opcode bytes - bytes.length ≤ more.length →
      (∃ i after, (⟨position, opcode :: (bytes ++ more)⟩ : Cursor).next = .decoded i after) ∨
      ∃ needed after, (⟨position, opcode :: (bytes ++ more)⟩ : Cursor).next =
          .truncated ⟨position, opcode, needed, bytes.length + more.length⟩ after ∧
        demandOf opcode bytes < needed) := by
  have hlength : (bytes ++ more).length = bytes.length + more.length := List.length_append
  constructor
  · intro hfew
    have hmissing : (bytes ++ more).length < demandOf opcode bytes := by omega
    have hsame : demandOf opcode (bytes ++ more) = demandOf opcode bytes :=
      Format.demand_append_of_lt hmissing
    obtain ⟨after, hnext⟩ := next_of_lt (hsame.symm ▸ hmissing) position
    rw [hsame, hlength] at hnext
    exact ⟨after, hnext⟩
  · intro hmany
    rcases Nat.lt_or_ge (bytes ++ more).length (demandOf opcode (bytes ++ more)) with hlt | hle
    · obtain ⟨after, hnext⟩ := next_of_lt hlt position
      rw [hlength] at hnext
      exact .inr ⟨_, after, hnext, by omega⟩
    · obtain ⟨operand, after, hnext⟩ := next_of_le hle position
      exact .inl ⟨_, after, hnext⟩

/-- Code from a position before its end on. -/
theorem exists_append_of_lt {code : List UInt8} {position : Nat} (h : position < code.length) :
    ∃ before opcode bytes, code = before ++ opcode :: bytes ∧ position = before.length := by
  refine ⟨code.take position, code[position], code.drop (position + 1), ?_, ?_⟩
  · rw [← List.drop_eq_getElem_cons h, List.take_append_drop]
  · rw [List.length_take_of_le (Nat.le_of_lt h)]

/-- Truncation is reported exactly.  Cut short anywhere behind its opcode, an instruction is reported
with the number of bytes that are left, and with a greater one that is asked for, but no more
than the operand has.  Whatever is not decoded is reported in this way.  As long as fewer bytes
than are missing are added, the report asks for the same; with as many, the instruction is
decoded or more is asked for.  Bytes are found missing when they are counted, never when they are
read. -/
theorem next_truncated_exactly {code : List UInt8} {position : Nat}
    (hposition : position < code.length) :
    (∀ i after, (ofCode code position).next = .decoded i after →
      ∀ kept, 0 < kept → kept < i.size →
        ∃ needed after', (ofCode (code.take (position + kept)) position).next =
            .truncated ⟨position, i.opcode, needed, kept - 1⟩ after' ∧
          kept - 1 < needed ∧ needed ≤ i.size - 1) ∧
    ((∀ i after, (ofCode code position).next ≠ .decoded i after) →
      ∃ t after, (ofCode code position).next = .truncated t after ∧
        t.address = position ∧ code[position]? = some t.opcode ∧
        t.remaining = code.length - (position + 1) ∧ t.remaining < t.needed ∧
        ∀ more : List UInt8,
          (more.length < t.needed - t.remaining →
            ∃ after', (ofCode (code ++ more) position).next =
              .truncated { t with remaining := t.remaining + more.length } after') ∧
          (t.needed - t.remaining ≤ more.length →
            (∃ i after', (ofCode (code ++ more) position).next = .decoded i after') ∨
            ∃ needed after', (ofCode (code ++ more) position).next =
                .truncated { t with needed, remaining := t.remaining + more.length } after' ∧
              t.needed < needed)) ∧
    (decodeStepwise position).run (code.drop position) =
      (ofCode code position).next.outcome ∧
    ∀ needed rest,
      (decodeStepwise position).run (code.drop position) ≠ .error (.atRead needed) rest := by
  obtain ⟨before, opcode, bytes, rfl, rfl⟩ := exists_append_of_lt hposition
  have hstepwise := run_decodeStepwise (ofCode (before ++ opcode :: bytes) before.length)
  rw [ofCode_append] at hstepwise ⊢
  rw [List.drop_left]
  refine ⟨?_, ?_, hstepwise, ?_⟩
  · intro i after hnext kept hpos hkept
    obtain ⟨hle, hopcode, hsize⟩ := le_of_decoded hnext
    obtain ⟨kept, rfl⟩ := Nat.exists_eq_succ_of_ne_zero (Nat.ne_of_gt hpos)
    have hcut : (before ++ opcode :: bytes).take (before.length + (kept + 1)) =
        before ++ opcode :: bytes.take kept := by
      rw [List.take_length_add_append, List.take_succ_cons]
    rw [hcut, ofCode_append, hopcode, hsize]
    exact next_take_of_le hle (by omega) before.length
  · intro hfails
    have hlt : bytes.length < demandOf opcode bytes := by
      by_contra hnot
      obtain ⟨operand, after, hnext⟩ := next_of_le (Nat.not_lt.1 hnot) before.length
      exact hfails _ after hnext
    obtain ⟨after, hnext⟩ := next_of_lt hlt before.length
    refine ⟨_, after, hnext, rfl, by simp, ?_, hlt, fun more => ?_⟩
    · show bytes.length = _
      rw [List.length_append, List.length_cons]
      omega
    · rw [List.append_assoc, List.cons_append, ofCode_append]
      exact next_append_of_lt hlt more before.length
  · intro needed rest hread
    rw [hstepwise] at hread
    cases hnext : (⟨before.length, opcode :: bytes⟩ : Cursor).next <;> rw [hnext] at hread <;>
      cases hread

/-- A SWITCH with two cases, cut short inside the first one: six of the thirteen bytes of its
operand are missing. -/
theorem next_truncated_exactly_switch :
    let code : List UInt8 := [0, 98, 2, 7, 0, 0, 0, 0, 0, 9, 0, 0, 0, 4, 0]
    let cut := code.take 9
    (1 < code.length ∧ (ofCode code 1).next =
        .decoded ⟨1, 98, .switch [(7, 9), (9, 19)], 14⟩ (ofCode code 15) ∧
      ∃ needed after, (ofCode cut 1).next = .truncated ⟨1, 98, needed, 7⟩ after ∧
        7 < needed ∧ needed ≤ 13) ∧
    1 < cut.length ∧ (∀ i after, (ofCode cut 1).next ≠ .decoded i after) ∧
      (∃ after, (ofCode (cut ++ [9, 0, 0, 0, 4]) 1).next = .truncated ⟨1, 98, 13, 12⟩ after) ∧
      ∃ i after, (ofCode (cut ++ [9, 0, 0, 0, 4, 0]) 1).next = .decoded i after := by
  intro code cut
  have hdecoded : (ofCode code 1).next =
      .decoded ⟨1, 98, .switch [(7, 9), (9, 19)], 14⟩ (ofCode code 15) := by decide +kernel
  have hcut : (ofCode cut 1).next = .truncated ⟨1, 98, 13, 7⟩ ⟨3, [7, 0, 0, 0, 0, 0]⟩ := by
    decide +kernel
  have hfails : ∀ i after, (ofCode cut 1).next ≠ .decoded i after := by
    intro i after h
    rw [hcut] at h
    cases h
  obtain ⟨hreports, -⟩ := next_truncated_exactly (by decide : 1 < code.length)
  obtain ⟨-, hextends, -⟩ := next_truncated_exactly (by decide : 1 < cut.length)
  obtain ⟨t, after, hnext, -, -, -, -, hmore⟩ := hextends hfails
  obtain ⟨rfl, -⟩ := Step.truncated.inj (hcut.symm.trans hnext)
  refine ⟨⟨by decide, hdecoded, hreports _ _ hdecoded 8 (by decide) (by decide)⟩, by decide,
    hfails, (hmore [9, 0, 0, 0, 4]).1 (by decide), ?_⟩
  rcases (hmore [9, 0, 0, 0, 4, 0]).2 (by decide) with hdecoded | ⟨needed, after', hagain, -⟩
  · exact hdecoded
  · -- The bytes are those of the whole code again.
    have hsame : cut ++ [9, 0, 0, 0, 4, 0] = code := rfl
    rw [hsame, hdecoded] at hagain
    cases hagain

end Cursor

end ScriptDecompiler.Bytecode
