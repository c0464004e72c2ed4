import ScriptDecompiler.Proofs.Bytecode.Layout
import ScriptDecompiler.Proofs.Bytecode.RoundTrip

/-!
# Decoded code is tiled

The instructions of decoded code stand in ascending order and do not overlap.
The bytes between them are exactly the gaps: a gap begins at the second NOP of a
sentinel and reaches to the end of its page, or of the code.  What a gap holds
behind its first byte has no influence on the result.
-/

namespace ScriptDecompiler.Bytecode

/-- Does a byte belong to one of the instructions? -/
def Covered (instructions : List Instruction) (k : Nat) : Prop :=
  ∃ i ∈ instructions, i.address ≤ k ∧ k < i.nextAddress

/-- Does a sentinel end at `g`: a NOP behind a NOP that was kept in the same page? -/
def IsSentinel (code : List UInt8) (instructions : List Instruction) (g : Nat) : Prop :=
  code[g]? = some 0 ∧
    ∃ i ∈ instructions, i.operation = .nop ∧ i.nextAddress = g ∧ pageOf i.address = pageOf g

/-- Does a byte of the first `codeLength` ones lie in a gap? -/
def InGap (code : List UInt8) (codeLength : Nat) (instructions : List Instruction) (k : Nat) :
    Prop :=
  ∃ g, IsSentinel code instructions g ∧ g ≤ k ∧ k < min (pageEnd g) codeLength

namespace Layout

variable {code : List UInt8} {afterNop : Bool} {position : Nat}
variable {instructions : List Instruction} {sentinels : List Nat}

theorem le_of_mem (h : Layout code afterNop position instructions sentinels) :
    (∀ i ∈ instructions, position ≤ i.address) ∧ ∀ g ∈ sentinels, position ≤ g := by
  induction h with
  | finished => simp
  | @sentinel i _ _ _ hnext hnop _ ih =>
      have hpage := lt_pageEnd i.address
      refine ⟨fun j hj => ?_, fun g hg => ?_⟩
      · exact Nat.le_trans (Nat.le_of_lt hpage) (ih.1 j hj)
      · rcases List.mem_cons.1 hg with rfl | hg
        · exact Nat.le_refl _
        · exact Nat.le_trans (Nat.le_of_lt hpage) (ih.2 g hg)
  | @instruction _ i _ _ _ hnext hkept _ ih =>
      have hle : i.address ≤ i.nextAddress := Nat.le_add_right _ _
      refine ⟨fun j hj => ?_, fun g hg => Nat.le_trans hle (ih.2 g hg)⟩
      rcases List.mem_cons.1 hj with rfl | hj
      · exact Nat.le_refl _
      · exact Nat.le_trans hle (ih.1 j hj)

/-- Every instruction ends before the next one begins. -/
theorem pairwise (h : Layout code afterNop position instructions sentinels) :
    instructions.Pairwise (fun a b => a.nextAddress ≤ b.address) := by
  induction h with
  | finished => exact List.Pairwise.nil
  | sentinel _ _ _ ih => exact ih
  | instruction _ _ hrest ih => exact List.pairwise_cons.2 ⟨hrest.le_of_mem.1, ih⟩

theorem next_of_mem (h : Layout code afterNop position instructions sentinels) {i : Instruction}
    (hi : i ∈ instructions) : ∃ after, (Cursor.ofCode code i.address).next = .decoded i after := by
  induction h with
  | finished => cases hi
  | sentinel _ _ _ ih => exact ih hi
  | instruction hnext _ _ ih =>
      rcases List.mem_cons.1 hi with rfl | hi
      · exact ⟨_, hnext⟩
      · exact ih hi

/-- A byte from `position` on belongs to an instruction or follows a sentinel. -/
theorem covered_or_skipped (h : Layout code afterNop position instructions sentinels) {k : Nat}
    (hposition : position ≤ k) (hk : k < code.length) :
    Covered instructions k ∨ ∃ g ∈ sentinels, g ≤ k ∧ k < pageEnd g := by
  induction h with
  | finished hend => omega
  | @sentinel i _ _ _ _ _ _ ih =>
      by_cases hskipped : k < pageEnd i.address
      · exact Or.inr ⟨i.address, List.mem_cons_self, hposition, hskipped⟩
      · rcases ih (by omega) with hcovered | ⟨g, hg, hgap⟩
        · exact Or.inl hcovered
        · exact Or.inr ⟨g, List.mem_cons_of_mem _ hg, hgap⟩
  | @instruction _ i _ _ _ _ _ _ ih =>
      by_cases hinside : k < i.nextAddress
      · exact Or.inl ⟨i, List.mem_cons_self, hposition, hinside⟩
      · rcases ih (by omega) with ⟨j, hj, hcovers⟩ | hgap
        · exact Or.inl ⟨j, List.mem_cons_of_mem _ hj, hcovers⟩
        · exact Or.inr hgap

/-- What follows a sentinel in its page belongs to no instruction. -/
theorem not_covered (h : Layout code afterNop position instructions sentinels) {g k : Nat}
    (hg : g ∈ sentinels) (hlow : g ≤ k) (hhigh : k < pageEnd g) : ¬Covered instructions k := by
  induction h with
  | finished => cases hg
  | sentinel _ _ hrest ih =>
      rcases List.mem_cons.1 hg with rfl | hg
      -- What comes later begins at the end of the page at the earliest.
      · rintro ⟨j, hj, hjk, -⟩
        have hpage := hrest.le_of_mem.1 j hj
        omega
      · exact ih hg
  | instruction _ _ hrest ih =>
      rintro ⟨j, hj, hjk, hkj⟩
      rcases List.mem_cons.1 hj with rfl | hj
      · have hbehind := hrest.le_of_mem.2 g hg
        omega
      · exact ih hg ⟨j, hj, hjk, hkj⟩

/-- Every sentinel of a layout is one in the sense of `IsSentinel`, also with
respect to a larger list of instructions, provided that the NOP in front of
`position` is in that list. -/
theorem isSentinel_of_mem (h : Layout code afterNop position instructions sentinels)
    {all : List Instruction} (hall : ∀ i ∈ instructions, i ∈ all)
    (hafter : afterNop = true → ∃ i ∈ all,
      i.operation = .nop ∧ i.nextAddress = position ∧ pageOf i.address = pageOf position)
    {g : Nat} (hg : g ∈ sentinels) : IsSentinel code all g := by
  induction h with
  | finished => cases hg
  | sentinel hnext hnop _ ih =>
      rcases List.mem_cons.1 hg with rfl | hg
      · exact ⟨(operation_of_getElem? hnext).1 hnop, hafter rfl⟩
      · exact ih hall (fun hfalse => absurd hfalse (by decide)) hg
  | @instruction _ i _ _ _ _ _ _ ih =>
      refine ih (fun j hj => hall j (List.mem_cons_of_mem _ hj)) (fun hopens => ?_) hg
      have hopens : i.operation = .nop ∧ pageOf i.nextAddress = pageOf i.address := by
        simpa [opensSentinel] using hopens
      exact ⟨i, hall i List.mem_cons_self, hopens.1, rfl, hopens.2.symm⟩

/-- Conversely each NOP behind a kept NOP of its page is a sentinel of the layout. -/
theorem mem_of_isSentinel (h : Layout code afterNop position instructions sentinels) {g : Nat}
    (hlt : g < code.length) (hg : IsSentinel code instructions g) : g ∈ sentinels := by
  obtain ⟨hzero, i, hi, hnop, rfl, hpage⟩ := hg
  induction h with
  | finished => cases hi
  | sentinel _ _ _ ih => exact List.mem_cons_of_mem _ (ih hi)
  | @instruction _ j _ _ _ _ _ hrest ih =>
      rcases List.mem_cons.1 hi with rfl | hi
      -- Behind this NOP the layout can only go on with the sentinel.
      · rw [show opensSentinel i = true by simp [opensSentinel, hnop, hpage]] at hrest
        generalize hposition : i.nextAddress = position at hrest hzero hlt
        cases hrest with
        | finished hend => omega
        | sentinel => exact List.mem_cons_self
        | instruction hnext hkept _ =>
            exact absurd ⟨rfl, (operation_of_getElem? hnext).2 hzero⟩ hkept
      · exact ih hi

theorem mem_sentinels_iff (h : Layout code false 0 instructions sentinels) {g : Nat} :
    g ∈ sentinels ↔ g < code.length ∧ IsSentinel code instructions g := by
  constructor
  · intro hg
    have hsentinel := h.isSentinel_of_mem (fun _ hi => hi)
      (fun hfalse => absurd hfalse (by decide)) hg
    exact ⟨(List.getElem?_eq_some_iff.1 hsentinel.1).1, hsentinel⟩
  · exact fun hg => h.mem_of_isSentinel hg.1 hg.2

/-- The bytes that no instruction covers are those in the gaps. -/
theorem not_covered_iff (h : Layout code false 0 instructions sentinels) {k : Nat}
    (hk : k < code.length) :
    ¬Covered instructions k ↔ InGap code code.length instructions k := by
  constructor
  · intro hbare
    rcases h.covered_or_skipped (Nat.zero_le k) hk with hcovered | ⟨g, hg, hlow, hhigh⟩
    · exact absurd hcovered hbare
    · exact ⟨g, (h.mem_sentinels_iff.1 hg).2, hlow, Nat.lt_min.2 ⟨hhigh, hk⟩⟩
  · rintro ⟨g, hsentinel, hlow, hhigh⟩
    exact h.not_covered (h.mem_sentinels_iff.2 ⟨by omega, hsentinel⟩) hlow
      (Nat.lt_min.1 hhigh).1

/-- A layout is also one of any code of the same length with the same
instructions and sentinels. -/
theorem transfer (h : Layout code afterNop position instructions sentinels) {other : List UInt8}
    (hlength : other.length = code.length)
    (hcovered : ∀ k, Covered instructions k → other[k]? = code[k]?)
    (hsentinels : ∀ g ∈ sentinels, other[g]? = code[g]?) :
    Layout other afterNop position instructions sentinels := by
  induction h with
  | finished hend => exact .finished (hlength ▸ hend)
  | @sentinel i _ _ _ hnext hnop _ ih =>
      -- A NOP covers one byte, which is the sentinel itself.
      have hsize := size_of_nop hnext hnop
      have hbytes : ∀ k, i.address ≤ k → k < i.nextAddress → other[k]? = code[k]? := by
        intro k hlow hhigh
        obtain rfl : k = i.address := by
          rw [Instruction.nextAddress, hsize] at hhigh
          omega
        exact hsentinels _ List.mem_cons_self
      exact .sentinel (Cursor.next_congr hnext hlength hbytes) hnop
        (ih hcovered fun g hg => hsentinels g (List.mem_cons_of_mem _ hg))
  | @instruction _ i _ _ _ hnext hkept _ ih =>
      have hbytes : ∀ k, i.address ≤ k → k < i.nextAddress → other[k]? = code[k]? :=
        fun k hlow hhigh => hcovered k ⟨i, List.mem_cons_self, hlow, hhigh⟩
      refine .instruction (Cursor.next_congr hnext hlength hbytes) hkept (ih ?_ hsentinels)
      rintro k ⟨j, hj, hcovers⟩
      exact hcovered k ⟨j, List.mem_cons_of_mem _ hj, hcovers⟩

end Layout

section Declared

variable {code : List UInt8} {codeLength : Nat} {instructions : List Instruction}

theorem isSentinel_take_iff {g : Nat} (hg : g < codeLength) :
    IsSentinel (code.take codeLength) instructions g ↔ IsSentinel code instructions g := by
  rw [IsSentinel, IsSentinel, List.getElem?_take_of_lt hg]

theorem inGap_take_iff {k : Nat} :
    InGap (code.take codeLength) codeLength instructions k ↔
      InGap code codeLength instructions k := by
  constructor <;>
  · rintro ⟨g, hsentinel, hlow, hhigh⟩
    have hg : g < codeLength := by omega
    exact ⟨g, by simpa [isSentinel_take_iff hg] using hsentinel, hlow, hhigh⟩

/-- An instruction of decoded code is what the decoder finds at its address, and
lies inside the declared length, its cases included. -/
theorem instruction_of_mem (h : decodeCode code codeLength = .ok instructions) {i : Instruction}
    (hi : i ∈ instructions) :
    i.address < i.nextAddress ∧ i.nextAddress ≤ codeLength ∧
      (Cursor.ofCode (code.take codeLength) i.address).next =
        .decoded i (Cursor.ofCode (code.take codeLength) i.nextAddress) ∧
      ∀ cases, i.operand = .switch cases →
        ∀ n < cases.length, i.address + 8 + 6 * n ≤ codeLength := by
  obtain ⟨hle, sentinels, hlayout⟩ := decodeCode_eq_ok_iff.1 h
  obtain ⟨after, hnext⟩ := hlayout.next_of_mem hi
  obtain ⟨-, hinside, rfl⟩ := Cursor.next_ofCode hnext
  have hsize := Cursor.next_size_pos hnext
  rw [List.length_take_of_le hle] at hinside
  refine ⟨Nat.lt_add_of_pos_right hsize, hinside, hnext, fun cases hcases n hn => ?_⟩
  have hswitch := Cursor.size_of_switch hnext hcases
  rw [Instruction.nextAddress, hswitch] at hinside
  omega

/-- An instruction of decoded code has the operand of a native call exactly if it is one. -/
theorem callNative_iff_of_mem (h : decodeCode code codeLength = .ok instructions) {i : Instruction}
    (hi : i ∈ instructions) : i.operation = .callNative ↔
      ∃ inSlots outSlots index, i.operand = .native inSlots outSlots index :=
  Cursor.callNative_iff (instruction_of_mem h hi).2.2.1

/-- The result does not depend on what the gaps hold behind their first byte,
nor on what follows the declared length. -/
theorem decodeCode_congr (h : decodeCode code codeLength = .ok instructions) {other : List UInt8}
    (hother : codeLength ≤ other.length)
    (hagree : ∀ k < codeLength,
      ¬InGap code codeLength instructions k ∨ IsSentinel code instructions k →
        other[k]? = code[k]?) :
    decodeCode other codeLength = .ok instructions := by
  obtain ⟨hle, sentinels, hlayout⟩ := decodeCode_eq_ok_iff.1 h
  have hlength : (code.take codeLength).length = codeLength := List.length_take_of_le hle
  refine decodeCode_eq_ok_iff.2 ⟨hother, sentinels, hlayout.transfer ?_ ?_ ?_⟩
  · rw [hlength, List.length_take_of_le hother]
  · rintro k hcovered
    have hk : k < codeLength := by
      obtain ⟨i, hi, -, hhigh⟩ := hcovered
      exact Nat.lt_of_lt_of_le hhigh (instruction_of_mem h hi).2.1
    have hgap : ¬InGap code codeLength instructions k := by
      rw [← inGap_take_iff]
      intro hgap
      have hbare := hlayout.not_covered_iff (hlength.symm ▸ hk)
      rw [hlength] at hbare
      exact hbare.2 hgap hcovered
    rw [List.getElem?_take_of_lt hk, List.getElem?_take_of_lt hk]
    exact hagree k hk (Or.inl hgap)
  · intro g hg
    obtain ⟨hlt, hsentinel⟩ := hlayout.mem_sentinels_iff.1 hg
    rw [hlength] at hlt
    rw [List.getElem?_take_of_lt hlt, List.getElem?_take_of_lt hlt]
    exact hagree g hlt (Or.inr ((isSentinel_take_iff hlt).1 hsentinel))

/-- Decoded code is tiled: the instructions are in order and apart, each is what
the decoder finds at its address, the bytes between them are those of the gaps,
and only the bytes outside of the gaps and the sentinels decide on the result. -/
theorem decodeCode_tiles (h : decodeCode code codeLength = .ok instructions) :
    instructions.Pairwise (fun a b => a.address < b.address ∧ a.nextAddress ≤ b.address) ∧
    (∀ i ∈ instructions,
      i.address < i.nextAddress ∧ i.nextAddress ≤ codeLength ∧
      (Cursor.ofCode (code.take codeLength) i.address).next =
        .decoded i (Cursor.ofCode (code.take codeLength) i.nextAddress) ∧
      ∀ cases, i.operand = .switch cases →
        ∀ n < cases.length, i.address + 8 + 6 * n ≤ codeLength) ∧
    (∀ k < codeLength, ¬Covered instructions k ↔ InGap code codeLength instructions k) ∧
    (∀ other, codeLength ≤ other.length →
      (∀ k < codeLength,
        ¬InGap code codeLength instructions k ∨ IsSentinel code instructions k →
          other[k]? = code[k]?) →
      decodeCode other codeLength = .ok instructions) := by
  obtain ⟨hle, sentinels, hlayout⟩ := decodeCode_eq_ok_iff.1 h
  refine ⟨?_, fun i hi => instruction_of_mem h hi, ?_,
    fun other hother hagree => decodeCode_congr h hother hagree⟩
  · refine hlayout.pairwise.imp_of_mem fun {a b} ha _ hapart => ?_
    exact ⟨Nat.lt_of_lt_of_le (instruction_of_mem h ha).1 hapart, hapart⟩
  · intro k hk
    have hlength : (code.take codeLength).length = codeLength := List.length_take_of_le hle
    have hbare := hlayout.not_covered_iff (hlength.symm ▸ hk)
    rwa [hlength, inGap_take_iff] at hbare

/-- A sentinel whose gap ends with the declared length: the two bytes in it, and
those past the declared length, may be replaced. -/
theorem decodeCode_tiles_padding :
    let code : List UInt8 := [1, 0, 0, 7, 8, 9]
    let instructions : List Instruction := [⟨0, 1, .none, 1⟩, ⟨1, 0, .none, 1⟩]
    decodeCode code 5 = .ok instructions ∧ InGap code 5 instructions 4 ∧
      decodeCode [1, 0, 0, 77, 88] 5 = .ok instructions := by
  intro code instructions
  have hcode : decodeCode code 5 = .ok instructions := by decide +kernel
  obtain ⟨-, -, -, hcongr⟩ := decodeCode_tiles hcode
  have hgap : ∀ k, 2 ≤ k → k < 5 → InGap code 5 instructions k := by
    intro k hlow hhigh
    refine ⟨2, ⟨rfl, ⟨1, 0, .none, 1⟩, by decide, by decide +kernel, rfl, by decide +kernel⟩,
      hlow, ?_⟩
    have hend : min (pageEnd 2) 5 = 5 := by decide +kernel
    rwa [hend]
  refine ⟨hcode, hgap 4 (by decide) (by decide), hcongr _ (by decide) ?_⟩
  intro k hk hkeep
  have hcases : k = 0 ∨ k = 1 ∨ k = 2 ∨ k = 3 ∨ k = 4 := by omega
  rcases hcases with rfl | rfl | rfl | rfl | rfl
  · rfl
  · rfl
  · rfl
  all_goals
    rcases hkeep with hbare | hsentinel
    · exact absurd (hgap _ (by decide) (by decide)) hbare
    · exact absurd hsentinel.1 (by decide)

end Declared

end ScriptDecompiler.Bytecode
