import Mathlib.Data.List.Basic
import ScriptDecompiler.Bytecode.Decode

/-!
# Reading an operand byte by byte

An operand can be read step by step: first it is checked that enough bytes are there, and then
they are taken from the front one field after the other.  An ENTER and a SWITCH check twice,
since the first bytes of the operand tell how many there are in all.  Every count starts at the
start of the operand, although the reads have moved on by the time of the second check.

Each read can run out of bytes too.  It never does: the checks before it suffice, and so reading
step by step comes to the same as cutting the whole operand off at once.
-/

namespace ScriptDecompiler.Bytecode

open ScriptDecompiler.Number (Binary32)

-- The opcode table is too large to be unfolded whenever terms are compared.
attribute [local irreducible] opcodeInfo

/-- Where bytes are missing: at a check of how many there are, or at a read behind it. -/
inductive Missing where
  | atCheck (needed : Nat)
  | atRead (needed : Nat)
  deriving DecidableEq, Repr

/-- A reader takes bytes from the front.  Where bytes are missing, those that are left stay. -/
abbrev Reader := EStateM Missing (List UInt8)

namespace Reader

/-- Go on only if enough bytes were available at the start of the operand. -/
def require (available needed : Nat) : Reader Unit :=
  if available < needed then throw (.atCheck needed) else pure ()

/-- Take one byte. -/
def takeByte (needed : Nat) : Reader UInt8 := do
  match ← get with
  | [] => throw (.atRead needed)
  | b :: rest =>
    set rest
    return b

/-- Take the given number of bytes. -/
def takeField (needed count : Nat) : Reader (List UInt8) := do
  match splitExact? count (← get) with
  | none => throw (.atRead needed)
  | some (field, rest) =>
    set rest
    return field

/-- Take the cases of a SWITCH one after the other. -/
def takeCases (needed : Nat) : (caseEnd count : Nat) → Reader (List (Nat × Nat))
  | _, 0 => return []
  | caseEnd, count + 1 => do
    let value ← takeField needed 4
    let relative ← takeField needed 2
    let rest ← takeCases needed (caseEnd + 6) count
    return (littleEndian value, wrapAddress (caseEnd + littleEndian relative)) :: rest

end Reader

open Reader

/-- Read an operand of the given format step by step. -/
def Format.readStepwise (format : Format) (address : Nat) (opcode : UInt8) : Reader Operand := do
  let available := (← get).length
  let size := format.fixedSize?.getD 0
  require available size
  match format with
  | .none => return .none
  | .stringRef => return .stringRef
  | .impliedInt => return .impliedInt (Int.ofNat opcode.toNat - 110)
  | .impliedFloat => return .impliedFloat (Binary32.ofInt (Int.ofNat opcode.toNat - 119))
  | .imm8 => return .imm8 (← takeByte size).toNat
  | .imm8x2 =>
    let a ← takeByte size
    let b ← takeByte size
    return .imm8x2 a.toNat b.toNat
  | .imm8x3 =>
    let a ← takeByte size
    let b ← takeByte size
    let c ← takeByte size
    return .imm8x3 a.toNat b.toNat c.toNat
  | .imm16 => return .imm16 (littleEndian (← takeField size 2))
  | .imm24 => return .imm24 (littleEndian (← takeField size 3))
  | .imm32 => return .imm32 (littleEndian (← takeField size 4))
  | .float32 => return .float32 ⟨UInt32.ofNat (littleEndian (← takeField size 4))⟩
  | .call => return .call (littleEndian (← takeField size 3))
  | .native =>
    let packed ← takeByte size
    let index ← takeField size 2
    return .native (packed.toNat / 4) (packed.toNat % 4) (bigEndian index)
  | .ret =>
    let parameters ← takeByte size
    let values ← takeByte size
    return .ret parameters.toNat values.toNat
  | .branch =>
    let relative := Int.bmod (littleEndian (← takeField size 2)) 0x10000
    return .branch relative (wrapAddress (address + relative + 3))
  | .enter =>
    require available 4
    let arguments ← takeByte 4
    let locals ← takeByte 4
    let _ ← takeByte 4
    let length ← takeByte 4
    let needed := 4 + length.toNat
    require available needed
    let raw ← takeField needed length.toNat
    return .enter arguments.toNat locals.toNat (functionName address raw)
  | .switch =>
    require available 1
    let count ← takeByte 1
    let needed := 1 + 6 * count.toNat
    require available needed
    return .switch (← takeCases needed (address + 8) count.toNat)

/-- Decode the instruction at an address step by step, from the bytes there; none if there are no
bytes left. -/
def decodeStepwise (address : Nat) : Reader (Option Instruction) := do
  let available := (← get).length
  match ← get with
  | [] => return none
  | opcode :: bytes =>
    set bytes
    let operand ← (opcodeInfo opcode).format.readStepwise address opcode
    return some ⟨address, opcode, operand, available - (← get).length⟩

/-- What a reader comes to if it takes an operand in this way: bytes are missing at checks only. -/
def outcome (bytes : List UInt8) :
    Except Shortage OperandRead → EStateM.Result Missing (List UInt8) Operand
  | .ok read => .ok read.operand read.rest
  | .error shortage => .error (.atCheck shortage.needed) (bytes.drop shortage.read)

/-- What a reader comes to if it decodes an instruction in this way: bytes are missing at checks
only. -/
def Cursor.Step.outcome : Cursor.Step → EStateM.Result Missing (List UInt8) (Option Instruction)
  | .finished => .ok none []
  | .decoded i after => .ok (some i) after.rest
  | .truncated t after => .error (.atCheck t.needed) after.rest

theorem splitExact?_eq_none_iff {count : Nat} {bytes : List UInt8} :
    splitExact? count bytes = none ↔ bytes.length < count := by
  induction count generalizing bytes with
  | zero => simp [splitExact?]
  | succ count ih =>
      cases bytes with
      | nil => simp [splitExact?]
      | cons b bytes => simp [splitExact?, ih]

theorem readEnter_of_lt {bytes : List UInt8} (h : bytes.length < 4) (address : Nat) :
    readEnter address bytes = .error ⟨4, 0⟩ := by
  rw [readEnter]
  rintro arguments locals unused length named rfl
  simp only [List.length_cons] at h
  omega

namespace Reader

theorem run_bind_ok {α β : Type} {x : Reader α} {f : α → Reader β} {bytes rest : List UInt8}
    {a : α} (h : x.run bytes = .ok a rest) : (x >>= f).run bytes = (f a).run rest := by
  simp only [EStateM.run_bind, h]

theorem run_bind_error {α β : Type} {x : Reader α} {f : α → Reader β} {bytes rest : List UInt8}
    {missing : Missing} (h : x.run bytes = .error missing rest) :
    (x >>= f).run bytes = .error missing rest := by
  simp only [EStateM.run_bind, h]

theorem run_get_bind {β : Type} (f : List UInt8 → Reader β) (bytes : List UInt8) :
    (get >>= f).run bytes = (f bytes).run bytes := rfl

theorem run_set_bind {β : Type} (f : PUnit → Reader β) (bytes rest : List UInt8) :
    (set rest >>= f).run bytes = (f ⟨⟩).run rest := rfl

theorem run_require_of_le {available needed : Nat} (h : needed ≤ available) (bytes : List UInt8) :
    (require available needed).run bytes = .ok () bytes := by
  rw [require, if_neg (Nat.not_lt.2 h)]
  rfl

theorem run_require_of_lt {available needed : Nat} (h : available < needed) (bytes : List UInt8) :
    (require available needed).run bytes = .error (.atCheck needed) bytes := by
  rw [require, if_pos h]
  rfl

theorem run_takeByte_cons (needed : Nat) (b : UInt8) (rest : List UInt8) :
    (takeByte needed).run (b :: rest) = .ok b rest := rfl

theorem run_takeField_append (needed : Nat) {field : List UInt8} {count : Nat}
    (h : field.length = count) (rest : List UInt8) :
    (takeField needed count).run (field ++ rest) = .ok field rest := by
  have hsplit : splitExact? count (field ++ rest) = some (field, rest) :=
    splitExact?_eq_some_iff.2 ⟨rfl, h⟩
  rw [takeField, run_get_bind, hsplit]
  rfl

/-- As many cases are taken as there are groups of six bytes. -/
theorem run_takeCases_append (needed : Nat) {table : List UInt8} {count : Nat}
    (h : table.length = 6 * count) (caseEnd : Nat) (rest : List UInt8) :
    (takeCases needed caseEnd count).run (table ++ rest) =
      .ok (switchCases caseEnd table) rest := by
  induction count generalizing table caseEnd with
  | zero =>
      obtain rfl := List.length_eq_zero_iff.1 h
      rfl
  | succ count ih =>
      match table, h with
      | a :: b :: c :: d :: low :: high :: table, h =>
          have htable : table.length = 6 * count := by
            simp only [List.length_cons] at h
            omega
          have hvalue := run_takeField_append needed (rfl : [a, b, c, d].length = 4)
            (low :: high :: (table ++ rest))
          have hrelative := run_takeField_append needed (rfl : [low, high].length = 2)
            (table ++ rest)
          rw [takeCases]
          refine (run_bind_ok hvalue).trans ((run_bind_ok hrelative).trans ?_)
          exact run_bind_ok (ih htable (caseEnd + 6))

end Reader

namespace Format

variable {format : Format} {size : Nat}

/-- Too few bytes for an operand of fixed size are found out at once. -/
theorem run_readStepwise_of_lt (hsize : format.fixedSize? = some size) {bytes : List UInt8}
    (h : bytes.length < size) (address : Nat) (opcode : UInt8) :
    (format.readStepwise address opcode).run bytes = .error (.atCheck size) bytes := by
  rw [readStepwise, run_get_bind, hsize, Option.getD_some]
  exact run_bind_error (run_require_of_lt h bytes)

/-- The fields of an operand of fixed size make up its bytes. -/
theorem run_readStepwise_append (hsize : format.fixedSize? = some size) {field : List UInt8}
    (h : field.length = size) (address : Nat) (opcode : UInt8) (rest : List UInt8) :
    (format.readStepwise address opcode).run (field ++ rest) =
      .ok (format.ofField address opcode field) rest := by
  have hle : size ≤ (field ++ rest).length := by
    rw [List.length_append, h]
    exact Nat.le_add_right _ _
  rw [readStepwise, run_get_bind, hsize, Option.getD_some]
  refine (run_bind_ok (run_require_of_le hle _)).trans ?_
  cases format <;> cases hsize
  case none | stringRef | impliedInt | impliedFloat =>
    obtain rfl := List.length_eq_zero_iff.1 h
    rfl
  case imm8 =>
    obtain ⟨a, rfl⟩ := List.length_eq_one_iff.1 h
    rfl
  case imm8x2 | ret =>
    obtain ⟨a, b, rfl⟩ := List.length_eq_two.1 h
    rfl
  case imm8x3 | native =>
    obtain ⟨a, b, c, rfl⟩ := List.length_eq_three.1 h
    rfl
  case imm16 | imm24 | imm32 | float32 | call | branch =>
    exact run_bind_ok (run_takeField_append _ h rest)

/-- The bytes of an ENTER suffice for its reads, once both checks are passed. -/
theorem run_readStepwise_enter (address : Nat) (opcode : UInt8) (bytes : List UInt8) :
    (Format.enter.readStepwise address opcode).run bytes =
      outcome bytes (readEnter address bytes) := by
  rw [readStepwise, run_get_bind]
  refine (run_bind_ok (run_require_of_le (Nat.zero_le _) bytes)).trans ?_
  by_cases hheader : 4 ≤ bytes.length
  · refine (run_bind_ok (run_require_of_le hheader bytes)).trans ?_
    match bytes with
    | arguments :: locals :: unused :: length :: named =>
      refine (run_bind_ok (run_takeByte_cons 4 arguments _)).trans ?_
      refine (run_bind_ok (run_takeByte_cons 4 locals _)).trans ?_
      refine (run_bind_ok (run_takeByte_cons 4 unused _)).trans ?_
      refine (run_bind_ok (run_takeByte_cons 4 length named)).trans ?_
      rw [readEnter]
      cases hsplit : splitExact? length.toNat named with
      | none =>
          have hshort : (arguments :: locals :: unused :: length :: named).length <
              4 + length.toNat := by
            have := splitExact?_eq_none_iff.1 hsplit
            simp only [List.length_cons]
            omega
          exact run_bind_error (run_require_of_lt hshort named)
      | some split =>
          obtain ⟨hnamed, hlength⟩ := splitExact?_eq_some_iff.1 hsplit
          subst hnamed
          have hlong : 4 + length.toNat ≤
              (arguments :: locals :: unused :: length :: (split.1 ++ split.2)).length := by
            simp only [List.length_cons, List.length_append]
            omega
          refine (run_bind_ok (run_require_of_le hlong _)).trans ?_
          exact run_bind_ok (run_takeField_append _ hlength split.2)
  · have hshort : bytes.length < 4 := Nat.not_le.1 hheader
    rw [readEnter_of_lt hshort]
    exact run_bind_error (run_require_of_lt hshort bytes)

/-- The bytes of a SWITCH suffice for its reads, once both checks are passed. -/
theorem run_readStepwise_switch (address : Nat) (opcode : UInt8) (bytes : List UInt8) :
    (Format.switch.readStepwise address opcode).run bytes =
      outcome bytes (readSwitch address bytes) := by
  rw [readStepwise, run_get_bind]
  refine (run_bind_ok (run_require_of_le (Nat.zero_le _) bytes)).trans ?_
  cases bytes with
  | nil => rfl
  | cons count table =>
      have hheader : 1 ≤ (count :: table).length := Nat.succ_le_succ (Nat.zero_le _)
      refine (run_bind_ok (run_require_of_le hheader _)).trans ?_
      refine (run_bind_ok (run_takeByte_cons 1 count table)).trans ?_
      rw [readSwitch]
      cases hsplit : splitExact? (6 * count.toNat) table with
      | none =>
          have hshort : (count :: table).length < 1 + 6 * count.toNat := by
            have := splitExact?_eq_none_iff.1 hsplit
            rw [List.length_cons]
            omega
          exact run_bind_error (run_require_of_lt hshort table)
      | some split =>
          obtain ⟨htable, hlength⟩ := splitExact?_eq_some_iff.1 hsplit
          subst htable
          have hlong : 1 + 6 * count.toNat ≤ (count :: (split.1 ++ split.2)).length := by
            rw [List.length_cons, List.length_append]
            omega
          refine (run_bind_ok (run_require_of_le hlong _)).trans ?_
          exact run_bind_ok (run_takeCases_append _ hlength (address + 8) split.2)

/-- Reading an operand step by step comes to the same as cutting it off at once. -/
theorem run_readStepwise (format : Format) (address : Nat) (opcode : UInt8)
    (bytes : List UInt8) :
    (format.readStepwise address opcode).run bytes =
      outcome bytes (format.read address opcode bytes) := by
  rw [Format.read]
  cases hsize : format.fixedSize? with
  | some size =>
      dsimp only
      cases hsplit : splitExact? size bytes with
      | none =>
          exact run_readStepwise_of_lt hsize (splitExact?_eq_none_iff.1 hsplit) address opcode
      | some split =>
          obtain ⟨hbytes, hlength⟩ := splitExact?_eq_some_iff.1 hsplit
          subst hbytes
          exact run_readStepwise_append hsize hlength address opcode split.2
  | none =>
      cases format with
      | enter => exact run_readStepwise_enter address opcode bytes
      | switch => exact run_readStepwise_switch address opcode bytes
      | _ => cases hsize

end Format

/-- Decoding an instruction step by step comes to the same as decoding it at once. -/
theorem run_decodeStepwise (c : Cursor) :
    (decodeStepwise c.position).run c.rest = c.next.outcome := by
  rw [decodeStepwise, run_get_bind, run_get_bind, Cursor.next]
  cases c.rest with
  | nil => rfl
  | cons opcode bytes =>
      dsimp only
      rw [run_set_bind]
      have hread := Format.run_readStepwise (opcodeInfo opcode).format c.position opcode bytes
      cases hresult : (opcodeInfo opcode).format.read c.position opcode bytes with
      | error shortage =>
          rw [hresult] at hread
          exact run_bind_error hread
      | ok read =>
          rw [hresult] at hread
          have hlength := Format.read_rest hresult
          have hsize : (opcode :: bytes).length - read.rest.length = read.size + 1 := by
            rw [List.length_cons, hlength]
            omega
          refine (run_bind_ok hread).trans ?_
          show EStateM.Result.ok (some (Instruction.mk c.position opcode read.operand
            ((opcode :: bytes).length - read.rest.length))) read.rest = _
          rw [hsize]
          rfl

end ScriptDecompiler.Bytecode
