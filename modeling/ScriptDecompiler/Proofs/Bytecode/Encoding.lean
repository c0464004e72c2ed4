import ScriptDecompiler.Proofs.Bytecode.Cursor
import ScriptDecompiler.Proofs.Text.Utf8

/-!
# The byte layout of instructions

An instruction is encoded as its opcode byte and its operand, in the widths and
byte orders of the opcode table.  `Format.Admits` says which operands a format
can hold; for these, reading undoes encoding, whatever follows.  Conversely
every operand but that of an ENTER encodes to the bytes it was read from.  The
name in an ENTER is exempt because zeros at its end, malformed pieces and the
unused byte are not kept.
-/

namespace ScriptDecompiler.Bytecode

open ScriptDecompiler.Number (Binary32)
open ScriptDecompiler.Text (decodeLossyChars_utf8Bytes dropEndWhile toNat_ofNat_byte utf8Bytes)

theorem littleEndian_toLittleEndian_of_lt (width : Nat) {n : Nat} (h : n < Nat.pow 256 width) :
    littleEndian (toLittleEndian width n) = n := by
  rw [littleEndian_toLittleEndian, Nat.mod_eq_of_lt h]

theorem toLittleEndian_littleEndian {width : Nat} {bytes : List UInt8} (h : bytes.length = width) :
    toLittleEndian width (littleEndian bytes) = bytes := by
  subst h
  induction bytes with
  | nil => rfl
  | cons b bytes ih =>
      have hbyte : b.toNat < 256 := b.toNat_lt
      have hlow : UInt8.ofNat (b.toNat + 256 * littleEndian bytes) = b := by
        rw [← UInt8.toNat_inj, UInt8.toNat_ofNat']
        omega
      have hhigh : (b.toNat + 256 * littleEndian bytes) / 256 = littleEndian bytes := by omega
      rw [List.length_cons, littleEndian, toLittleEndian, hlow, hhigh, ih]

theorem littleEndian_lt (width : Nat) {bytes : List UInt8} (h : bytes.length = width) :
    littleEndian bytes < Nat.pow 256 width := by
  have hread := congrArg littleEndian (toLittleEndian_littleEndian h)
  rw [littleEndian_toLittleEndian] at hread
  exact hread ▸ Nat.mod_lt _ (Nat.pow_pos (by decide))

/-- The low 16 bits of the distance from `origin` to `target`. -/
def offsetTo (origin target : Nat) : Nat :=
  wrapAddress (Int.ofNat target - Int.ofNat origin)

/-- The cases of a SWITCH as bytes.  `caseEnd` is where the first case ends. -/
def encodeCases : (caseEnd : Nat) → List (Nat × Nat) → List UInt8
  | _, [] => []
  | caseEnd, (value, target) :: rest =>
    toLittleEndian 4 value ++ toLittleEndian 2 (offsetTo caseEnd target) ++
      encodeCases (caseEnd + 6) rest

/-- The bytes of an operand behind an opcode at `address`.  `unused` is the byte
of an ENTER that no reader looks at. -/
def Operand.encode (unused : UInt8) (address : Nat) : Operand → List UInt8
  | .none | .stringRef | .impliedInt _ | .impliedFloat _ => []
  | .imm8 v => [UInt8.ofNat v]
  | .imm8x2 a b => [UInt8.ofNat a, UInt8.ofNat b]
  | .imm8x3 a b c => [UInt8.ofNat a, UInt8.ofNat b, UInt8.ofNat c]
  | .imm16 v => toLittleEndian 2 v
  | .imm24 v => toLittleEndian 3 v
  | .imm32 v => toLittleEndian 4 v
  | .float32 v => toLittleEndian 4 v.bits.toNat
  | .branch relative _ => toLittleEndian 2 (relative % 0x10000).toNat
  | .call target => toLittleEndian 3 target
  -- The index of a native is the one field that has its high byte first.
  | .native inSlots outSlots index =>
    UInt8.ofNat (4 * inSlots + outSlots) :: (toLittleEndian 2 index).reverse
  | .enter arguments locals name =>
    [UInt8.ofNat arguments, UInt8.ofNat locals, unused, UInt8.ofNat (utf8Bytes name).length] ++
      utf8Bytes name
  | .ret parameters values => [UInt8.ofNat parameters, UInt8.ofNat values]
  | .switch cases => UInt8.ofNat cases.length :: encodeCases (address + 8) cases

/-- The bytes of an instruction. -/
def Instruction.encode (unused : UInt8) (i : Instruction) : List UInt8 :=
  i.opcode :: i.operand.encode unused i.address

/-- Are these the values and targets of cases, the first of which ends at
`caseEnd`?  A target lies at most `0xFFFF` behind its case, modulo `2 ^ 32`. -/
def CasesAt : (caseEnd : Nat) → List (Nat × Nat) → Prop
  | _, [] => True
  | caseEnd, (value, target) :: rest =>
    value < 0x100000000 ∧
      (∃ offset < 0x10000, target = wrapAddress (Int.ofNat (caseEnd + offset))) ∧
      CasesAt (caseEnd + 6) rest

/-- The operands that an opcode at `address` can have in a given format. -/
inductive Format.Admits (address : Nat) (opcode : UInt8) : Format → Operand → Prop where
  | none : Admits address opcode .none .none
  | stringRef : Admits address opcode .stringRef .stringRef
  | impliedInt : Admits address opcode .impliedInt (.impliedInt (Int.ofNat opcode.toNat - 110))
  | impliedFloat :
    Admits address opcode .impliedFloat
      (.impliedFloat (Binary32.ofInt (Int.ofNat opcode.toNat - 119)))
  | imm8 {v : Nat} (hv : v < 0x100) : Admits address opcode .imm8 (.imm8 v)
  | imm8x2 {a b : Nat} (ha : a < 0x100) (hb : b < 0x100) :
    Admits address opcode .imm8x2 (.imm8x2 a b)
  | imm8x3 {a b c : Nat} (ha : a < 0x100) (hb : b < 0x100) (hc : c < 0x100) :
    Admits address opcode .imm8x3 (.imm8x3 a b c)
  | imm16 {v : Nat} (hv : v < 0x10000) : Admits address opcode .imm16 (.imm16 v)
  | imm24 {v : Nat} (hv : v < 0x1000000) : Admits address opcode .imm24 (.imm24 v)
  | imm32 {v : Nat} (hv : v < 0x100000000) : Admits address opcode .imm32 (.imm32 v)
  | float32 (v : Binary32) : Admits address opcode .float32 (.float32 v)
  | branch {relative : Int} (hlow : -0x8000 ≤ relative) (hhigh : relative < 0x8000) :
    Admits address opcode .branch (.branch relative (wrapAddress (address + relative + 3)))
  | call {target : Nat} (htarget : target < 0x1000000) : Admits address opcode .call (.call target)
  | native {inSlots outSlots index : Nat} (hin : inSlots < 0x40) (hout : outSlots < 4)
      (hindex : index < 0x10000) :
    Admits address opcode .native (.native inSlots outSlots index)
  | enter {arguments locals : Nat} {name : String} (harguments : arguments < 0x100)
      (hlocals : locals < 0x100) (hlength : (utf8Bytes name).length < 0x100) (hname : name ≠ "")
      (hend : name.toList.getLast? ≠ some '\x00') :
    Admits address opcode .enter (.enter arguments locals name)
  | ret {parameters values : Nat} (hparameters : parameters < 0x100) (hvalues : values < 0x100) :
    Admits address opcode .ret (.ret parameters values)
  | switch {cases : List (Nat × Nat)} (hlength : cases.length < 0x100)
      (hcases : CasesAt (address + 8) cases) : Admits address opcode .switch (.switch cases)

theorem offsetTo_wrapAddress (origin : Nat) {offset : Nat} (h : offset < 0x10000) :
    offsetTo origin (wrapAddress (Int.ofNat (origin + offset))) = offset := by
  unfold offsetTo wrapAddress
  simp only [Int.ofNat_eq_natCast]
  omega

/-- Reading the bytes of the cases gives back the cases. -/
theorem switchCases_encodeCases {caseEnd : Nat} {cases : List (Nat × Nat)}
    (h : CasesAt caseEnd cases) : switchCases caseEnd (encodeCases caseEnd cases) = cases := by
  induction cases generalizing caseEnd with
  | nil => rfl
  | cons case cases ih =>
      obtain ⟨value, target⟩ := case
      obtain ⟨hvalue, ⟨offset, hoffset, htarget⟩, hrest⟩ := h
      have hv := littleEndian_toLittleEndian_of_lt 4 hvalue
      have ho := littleEndian_toLittleEndian_of_lt 2 hoffset
      subst htarget
      rw [encodeCases, offsetTo_wrapAddress caseEnd hoffset]
      show (littleEndian (toLittleEndian 4 value),
        wrapAddress (caseEnd + littleEndian (toLittleEndian 2 offset))) ::
          switchCases (caseEnd + 6) (encodeCases (caseEnd + 6) cases) = _
      rw [hv, ho, ih hrest]
      rfl

theorem length_encodeCases (caseEnd : Nat) (cases : List (Nat × Nat)) :
    (encodeCases caseEnd cases).length = 6 * cases.length := by
  induction cases generalizing caseEnd with
  | nil => rfl
  | cons case cases ih =>
      rw [encodeCases, List.length_append, List.length_append, length_toLittleEndian,
        length_toLittleEndian, ih, List.length_cons]
      omega

/-- The bytes of whole cases are the encoding of what is read from them. -/
theorem encodeCases_switchCases {count : Nat} (caseEnd : Nat) {bytes : List UInt8}
    (h : bytes.length = 6 * count) :
    CasesAt caseEnd (switchCases caseEnd bytes) ∧ (switchCases caseEnd bytes).length = count ∧
      encodeCases caseEnd (switchCases caseEnd bytes) = bytes := by
  -- By the number of cases, each of which takes six bytes off the front.
  induction count generalizing caseEnd bytes with
  | zero =>
      obtain rfl := List.length_eq_zero_iff.1 h
      exact ⟨trivial, rfl, rfl⟩
  | succ count ih =>
      match bytes, h with
      | a :: b :: c :: d :: low :: high :: bytes, h =>
          have htail : bytes.length = 6 * count := by
            simp only [List.length_cons] at h
            omega
          obtain ⟨hcases, hlength, hbytes⟩ := ih (caseEnd + 6) htail
          have hvalue : littleEndian [a, b, c, d] < 0x100000000 := littleEndian_lt 4 rfl
          have hoffset : littleEndian [low, high] < 0x10000 := littleEndian_lt 2 rfl
          rw [switchCases]
          refine ⟨⟨hvalue, ⟨_, hoffset, rfl⟩, hcases⟩, by rw [List.length_cons, hlength], ?_⟩
          have htarget : offsetTo caseEnd (wrapAddress (caseEnd + littleEndian [low, high])) =
              littleEndian [low, high] := offsetTo_wrapAddress caseEnd hoffset
          rw [encodeCases, htarget, hbytes]
          have hv : toLittleEndian 4 (littleEndian [a, b, c, d]) = [a, b, c, d] :=
            toLittleEndian_littleEndian rfl
          have ho : toLittleEndian 2 (littleEndian [low, high]) = [low, high] :=
            toLittleEndian_littleEndian rfl
          rw [hv, ho]
          rfl

/-- The encoding of an operand of fixed size has that size and reads back. -/
theorem Format.ofField_encode (unused : UInt8) {format : Format} {address : Nat} {opcode : UInt8}
    {operand : Operand} {size : Nat} (h : format.Admits address opcode operand)
    (hsize : format.fixedSize? = some size) :
    (operand.encode unused address).length = size ∧
      format.ofField address opcode (operand.encode unused address) = operand := by
  cases h with
  | none | stringRef | impliedInt | impliedFloat =>
      cases hsize
      exact ⟨rfl, rfl⟩
  | imm8 hv =>
      cases hsize
      simp [Operand.encode, Format.ofField, toNat_ofNat_byte hv]
  | imm8x2 ha hb =>
      cases hsize
      simp [Operand.encode, Format.ofField, toNat_ofNat_byte ha, toNat_ofNat_byte hb]
  | imm8x3 ha hb hc =>
      cases hsize
      simp [Operand.encode, Format.ofField, toNat_ofNat_byte ha, toNat_ofNat_byte hb,
        toNat_ofNat_byte hc]
  | ret hparameters hvalues =>
      cases hsize
      simp [Operand.encode, Format.ofField, toNat_ofNat_byte hparameters,
        toNat_ofNat_byte hvalues]
  | imm16 hv =>
      cases hsize
      exact ⟨length_toLittleEndian 2 _,
        congrArg Operand.imm16 (littleEndian_toLittleEndian_of_lt 2 hv)⟩
  | imm24 hv =>
      cases hsize
      exact ⟨length_toLittleEndian 3 _,
        congrArg Operand.imm24 (littleEndian_toLittleEndian_of_lt 3 hv)⟩
  | call htarget =>
      cases hsize
      exact ⟨length_toLittleEndian 3 _,
        congrArg Operand.call (littleEndian_toLittleEndian_of_lt 3 htarget)⟩
  | imm32 hv =>
      cases hsize
      exact ⟨length_toLittleEndian 4 _,
        congrArg Operand.imm32 (littleEndian_toLittleEndian_of_lt 4 hv)⟩
  | float32 v =>
      cases hsize
      refine ⟨length_toLittleEndian 4 _, ?_⟩
      simp only [Operand.encode, Format.ofField]
      rw [littleEndian_toLittleEndian_of_lt 4 v.bits.toNat_lt, UInt32.ofNat_toNat]
  | @branch relative hlow hhigh =>
      cases hsize
      -- The balanced remainder brings back the sign that the plain one takes away.
      have hfield : (relative % 0x10000).toNat < 0x10000 := by omega
      have hrelative : Int.bmod ((relative % 0x10000).toNat : Nat) 0x10000 = relative := by
        rw [Int.toNat_of_nonneg (by omega)]
        simp only [Int.bmod_def]
        omega
      refine ⟨length_toLittleEndian 2 _, ?_⟩
      simp only [Operand.encode, Format.ofField]
      rw [littleEndian_toLittleEndian_of_lt 2 hfield, hrelative]
  | @native inSlots outSlots index hin hout hindex =>
      cases hsize
      have hpacked : (UInt8.ofNat (4 * inSlots + outSlots)).toNat = 4 * inSlots + outSlots :=
        toNat_ofNat_byte (by omega)
      refine ⟨by simp [Operand.encode, length_toLittleEndian], ?_⟩
      simp only [Operand.encode, Format.ofField, List.drop_succ_cons, List.drop_zero, bigEndian,
        List.reverse_reverse, List.getD_cons_zero, hpacked]
      rw [littleEndian_toLittleEndian_of_lt 2 hindex,
        show (4 * inSlots + outSlots) / 4 = inSlots by omega,
        show (4 * inSlots + outSlots) % 4 = outSlots by omega]
  | enter | switch => cases hsize

/-- A byte that packs two slot counts is rebuilt from them. -/
theorem ofNat_packed (b : UInt8) : UInt8.ofNat (4 * (b.toNat / 4) + b.toNat % 4) = b := by
  rw [show 4 * (b.toNat / 4) + b.toNat % 4 = b.toNat by omega, UInt8.ofNat_toNat]

/-- What is read from the bytes of an operand of fixed size is admitted and
encodes to these bytes. -/
theorem Format.admits_ofField (unused : UInt8) {format : Format} (address : Nat) (opcode : UInt8)
    {field : List UInt8} (hsize : format.fixedSize? = some field.length) :
    format.Admits address opcode (format.ofField address opcode field) ∧
      (format.ofField address opcode field).encode unused address = field := by
  cases format with
  | none | stringRef | impliedInt | impliedFloat =>
      obtain rfl := List.length_eq_zero_iff.1 (Option.some.inj hsize).symm
      exact ⟨by constructor, rfl⟩
  | imm8 =>
      obtain ⟨a, rfl⟩ := List.length_eq_one_iff.1 (Option.some.inj hsize).symm
      exact ⟨.imm8 a.toNat_lt, by simp [Format.ofField, Operand.encode]⟩
  | imm8x2 =>
      obtain ⟨a, b, rfl⟩ := List.length_eq_two.1 (Option.some.inj hsize).symm
      exact ⟨.imm8x2 a.toNat_lt b.toNat_lt, by simp [Format.ofField, Operand.encode]⟩
  | ret =>
      obtain ⟨a, b, rfl⟩ := List.length_eq_two.1 (Option.some.inj hsize).symm
      exact ⟨.ret a.toNat_lt b.toNat_lt, by simp [Format.ofField, Operand.encode]⟩
  | imm8x3 =>
      obtain ⟨a, b, c, rfl⟩ := List.length_eq_three.1 (Option.some.inj hsize).symm
      exact ⟨.imm8x3 a.toNat_lt b.toNat_lt c.toNat_lt, by simp [Format.ofField, Operand.encode]⟩
  | imm16 =>
      have hlength : field.length = 2 := (Option.some.inj hsize).symm
      exact ⟨.imm16 (littleEndian_lt 2 hlength), toLittleEndian_littleEndian hlength⟩
  | imm24 =>
      have hlength : field.length = 3 := (Option.some.inj hsize).symm
      exact ⟨.imm24 (littleEndian_lt 3 hlength), toLittleEndian_littleEndian hlength⟩
  | call =>
      have hlength : field.length = 3 := (Option.some.inj hsize).symm
      exact ⟨.call (littleEndian_lt 3 hlength), toLittleEndian_littleEndian hlength⟩
  | imm32 =>
      have hlength : field.length = 4 := (Option.some.inj hsize).symm
      exact ⟨.imm32 (littleEndian_lt 4 hlength), toLittleEndian_littleEndian hlength⟩
  | float32 =>
      have hlength : field.length = 4 := (Option.some.inj hsize).symm
      have hbits : (UInt32.ofNat (littleEndian field)).toNat = littleEndian field :=
        UInt32.toNat_ofNat_of_lt' (littleEndian_lt 4 hlength)
      refine ⟨.float32 _, ?_⟩
      simp only [Format.ofField, Operand.encode]
      rw [hbits, toLittleEndian_littleEndian hlength]
  | branch =>
      have hlength : field.length = 2 := (Option.some.inj hsize).symm
      have hlt : littleEndian field < 0x10000 := littleEndian_lt 2 hlength
      have hrelative : (Int.bmod (littleEndian field) 0x10000 % 0x10000).toNat =
          littleEndian field := by
        simp only [Int.bmod_def]
        omega
      refine ⟨.branch (Int.le_bmod (by decide)) (Int.bmod_lt (by decide)), ?_⟩
      simp only [Format.ofField, Operand.encode]
      rw [hrelative, toLittleEndian_littleEndian hlength]
  | native =>
      obtain ⟨packed, high, low, rfl⟩ := List.length_eq_three.1 (Option.some.inj hsize).symm
      have hpacked := packed.toNat_lt
      have hindex : bigEndian [high, low] < 0x10000 := littleEndian_lt 2 rfl
      refine ⟨.native (by simp; omega) (Nat.mod_lt _ (by decide)) hindex, ?_⟩
      have hreverse : toLittleEndian 2 (bigEndian [high, low]) = [low, high] :=
        toLittleEndian_littleEndian rfl
      simp only [Format.ofField, Operand.encode, List.getD_cons_zero, List.drop_succ_cons,
        List.drop_zero]
      rw [ofNat_packed, hreverse]
      rfl
  | enter | switch => cases hsize

/-- A name that is neither empty nor ends in a zero is read as it is written. -/
theorem functionName_utf8Bytes (address : Nat) {name : String} (hname : name ≠ "")
    (hend : name.toList.getLast? ≠ some '\x00') : functionName address (utf8Bytes name) = name := by
  -- Zeros at the end would be dropped, but there are none.
  have hkept : dropEndWhile (· == '\x00') name.toList = name.toList := by
    unfold dropEndWhile
    rw [← List.head?_reverse] at hend
    generalize hreverse : name.toList.reverse = reversed at hend
    cases reversed with
    | nil => rw [List.dropWhile_nil, ← hreverse, List.reverse_reverse]
    | cons last _ =>
        have hlast : (last == '\x00') = false := by simpa using hend
        rw [List.dropWhile_cons_of_neg (by simp [hlast]), ← hreverse, List.reverse_reverse]
  unfold functionName
  rw [decodeLossyChars_utf8Bytes, hkept]
  split
  · rename_i hnil
    exact absurd (String.toList_eq_nil_iff.1 hnil) hname
  · exact String.ofList_toList

/-- Reading undoes encoding, and leaves the bytes that follow. -/
theorem Format.read_encode (unused : UInt8) {format : Format} {address : Nat} {opcode : UInt8}
    {operand : Operand} (h : format.Admits address opcode operand) (rest : List UInt8) :
    format.read address opcode (operand.encode unused address ++ rest) =
      .ok ⟨operand, (operand.encode unused address).length, rest⟩ := by
  cases hsize : format.fixedSize? with
  | some size =>
      obtain ⟨hlength, hread⟩ := Format.ofField_encode unused h hsize
      simp only [Format.read, hsize]
      rw [← hlength, splitExact?_append]
      simp only [hread]
  | none =>
      cases h with
      | @enter arguments locals name harguments hlocals hlength hname hend =>
          have hcount : (UInt8.ofNat (utf8Bytes name).length).toNat = (utf8Bytes name).length :=
            toNat_ofNat_byte hlength
          show readEnter address (UInt8.ofNat arguments :: UInt8.ofNat locals :: unused ::
            UInt8.ofNat (utf8Bytes name).length :: (utf8Bytes name ++ rest)) = _
          simp only [readEnter, hcount, splitExact?_append, toNat_ofNat_byte harguments,
            toNat_ofNat_byte hlocals, functionName_utf8Bytes address hname hend]
          simp [Operand.encode]
          omega
      | @switch cases hlength hcases =>
          have hcount : 6 * (UInt8.ofNat cases.length).toNat =
              (encodeCases (address + 8) cases).length := by
            rw [toNat_ofNat_byte hlength, length_encodeCases]
          show readSwitch address
            (UInt8.ofNat cases.length :: (encodeCases (address + 8) cases ++ rest)) = _
          simp only [readSwitch, hcount, splitExact?_append, switchCases_encodeCases hcases]
          simp [Operand.encode, Nat.add_comm]
      | _ => cases hsize

/-- What is read in a format other than that of ENTER is admitted, and encodes to
the bytes it was read from. -/
theorem Format.encode_of_read (unused : UInt8) {format : Format} {address : Nat} {opcode : UInt8}
    {bytes : List UInt8} {read : OperandRead} (h : format.read address opcode bytes = .ok read)
    (henter : format ≠ .enter) :
    format.Admits address opcode read.operand ∧
      bytes = read.operand.encode unused address ++ read.rest := by
  unfold Format.read at h
  cases hsize : format.fixedSize? with
  | some size =>
      simp only [hsize] at h
      split at h
      · cases h
      · rename_i field rest hsplit
        obtain ⟨hbytes, hlength⟩ := splitExact?_eq_some_iff.1 hsplit
        subst hlength
        obtain ⟨hadmits, hfield⟩ := Format.admits_ofField unused address opcode hsize
        cases h
        exact ⟨hadmits, by rw [hfield, hbytes]⟩
  | none =>
      -- Without ENTER only one format is left whose size is not fixed.
      have hswitch : format = .switch := by
        cases format <;> first | rfl | contradiction
      subst hswitch
      simp only [hsize, reduceCtorEq, if_false] at h
      unfold readSwitch at h
      split at h
      · cases h
      · rename_i count table
        split at h
        · cases h
        · rename_i field rest hsplit
          obtain ⟨htable, hlength⟩ := splitExact?_eq_some_iff.1 hsplit
          obtain ⟨hcases, hcount, hfield⟩ := encodeCases_switchCases (address + 8) hlength
          cases h
          refine ⟨.switch (hcount ▸ count.toNat_lt) hcases, ?_⟩
          simp only [Operand.encode]
          rw [hcount, hfield, UInt8.ofNat_toNat, htable]
          rfl

end ScriptDecompiler.Bytecode
