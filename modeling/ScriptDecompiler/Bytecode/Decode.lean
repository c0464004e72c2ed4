import ScriptDecompiler.Bytecode.Bytes
import ScriptDecompiler.Bytecode.Instruction
import ScriptDecompiler.Text.Blank
import ScriptDecompiler.Text.Utf8

/-!
# Decoding instructions

A cursor is a position and the bytes from there on.  Decoding an instruction
looks at the opcode byte, finds the format of the operand in the opcode table,
and reads the operand; it fails only if bytes are missing.

Code is stored in pages.  Inside a page, two NOPs in a row are a sentinel: the
second one and the rest of the page are filler.  `decodeCode` reads all pages of
the declared length and skips the filler.
-/

namespace ScriptDecompiler.Bytecode

open ScriptDecompiler.Number (Binary32)
open ScriptDecompiler.Text (addressLiteral decodeLossyChars dropEndWhile hex opcodeLiteral)

/-- An address modulo `2 ^ 32`. -/
def wrapAddress (x : Int) : Nat :=
  (x % 0x100000000).toNat

/-- Bytes are missing behind an opcode.  `needed` and `remaining` count from the
start of the operand. -/
structure Truncation where
  address : Nat
  opcode : UInt8
  needed : Nat
  remaining : Nat
  deriving DecidableEq, Repr

/-- An operand's bytes do not suffice.  `read` is how many of them had been
passed when this was found. -/
structure Shortage where
  needed : Nat
  read : Nat
  deriving DecidableEq, Repr

/-- An operand with its size in bytes and the bytes behind it. -/
structure OperandRead where
  operand : Operand
  size : Nat
  rest : List UInt8

/-- The operand of a format with fixed size, from exactly that many bytes. -/
def Format.ofField (format : Format) (address : Nat) (opcode : UInt8) (field : List UInt8) :
    Operand :=
  let byte (i : Nat) : Nat := (field.getD i 0).toNat
  match format with
  | .none | .enter | .switch => .none
  | .stringRef => .stringRef
  | .impliedInt => .impliedInt (Int.ofNat opcode.toNat - 110)
  | .impliedFloat => .impliedFloat (Binary32.ofInt (Int.ofNat opcode.toNat - 119))
  | .imm8 => .imm8 (byte 0)
  | .imm8x2 => .imm8x2 (byte 0) (byte 1)
  | .imm8x3 => .imm8x3 (byte 0) (byte 1) (byte 2)
  | .imm16 => .imm16 (littleEndian field)
  | .imm24 => .imm24 (littleEndian field)
  | .imm32 => .imm32 (littleEndian field)
  | .float32 => .float32 ⟨UInt32.ofNat (littleEndian field)⟩
  | .call => .call (littleEndian field)
  | .native => .native (byte 0 / 4) (byte 0 % 4) (bigEndian (field.drop 1))
  | .ret => .ret (byte 0) (byte 1)
  | .branch =>
    let relative := Int.bmod (littleEndian field) 0x10000
    .branch relative (wrapAddress (address + relative + 3))

/-- The name that an ENTER gives, from its bytes: zeros at the end are padding,
and a function without a name is called after its address. -/
def functionName (address : Nat) (raw : List UInt8) : String :=
  match dropEndWhile (· == '\x00') (decodeLossyChars raw) with
  | [] => "anonymous_" ++ hex address
  | name => String.ofList name

/-- Read the operand of an ENTER: argument count, local count, an unused byte,
the length of the name, and the name. -/
def readEnter (address : Nat) (bytes : List UInt8) : Except Shortage OperandRead :=
  match bytes with
  | arguments :: locals :: _ :: length :: named =>
    match splitExact? length.toNat named with
    | none => .error ⟨4 + length.toNat, 4⟩
    | some (raw, rest) =>
      .ok ⟨.enter arguments.toNat locals.toNat (functionName address raw), 4 + length.toNat, rest⟩
  | _ => .error ⟨4, 0⟩

/-- The cases of a SWITCH from their bytes.  A case is a value of four bytes and
an offset of two, which counts from the end of the case.  `caseEnd` is where the
next case ends. -/
def switchCases : (caseEnd : Nat) → List UInt8 → List (Nat × Nat)
  | caseEnd, a :: b :: c :: d :: low :: high :: rest =>
    (littleEndian [a, b, c, d], wrapAddress (caseEnd + littleEndian [low, high])) ::
      switchCases (caseEnd + 6) rest
  | _, _ => []

/-- Read the operand of a SWITCH: the number of cases, and the cases. -/
def readSwitch (address : Nat) (bytes : List UInt8) : Except Shortage OperandRead :=
  match bytes with
  | [] => .error ⟨1, 0⟩
  | count :: table =>
    match splitExact? (6 * count.toNat) table with
    | none => .error ⟨1 + 6 * count.toNat, 1⟩
    | some (cases, rest) =>
      .ok ⟨.switch (switchCases (address + 8) cases), 1 + 6 * count.toNat, rest⟩

/-- Read an operand of the given format.  `bytes` starts behind the opcode. -/
def Format.read (format : Format) (address : Nat) (opcode : UInt8) (bytes : List UInt8) :
    Except Shortage OperandRead :=
  match format.fixedSize? with
  | some size =>
    match splitExact? size bytes with
    | Option.none => .error ⟨size, 0⟩
    | some (field, rest) => .ok ⟨format.ofField address opcode field, size, rest⟩
  | Option.none => if format = .enter then readEnter address bytes else readSwitch address bytes

/-- A position in the code and the bytes from there on. -/
structure Cursor where
  position : Nat
  rest : List UInt8
  deriving DecidableEq, Repr

/-- What comes of decoding one instruction.  The cursor stays behind the bytes
that were read, also if the instruction is cut short. -/
inductive Cursor.Step where
  | finished
  | decoded (instruction : Instruction) (after : Cursor)
  | truncated (truncation : Truncation) (after : Cursor)
  deriving DecidableEq, Repr

namespace Cursor

/-- The cursor at a position of the code, or at its end if that comes first. -/
def ofCode (code : List UInt8) (position : Nat) : Cursor :=
  ⟨min position code.length, code.drop position⟩

/-- Are there no bytes left? -/
def atEnd (c : Cursor) : Bool :=
  c.rest.isEmpty

/-- Move on to `position`, or to the end of the code if that comes first. -/
def skipTo (c : Cursor) (position : Nat) : Cursor :=
  let count := min (position - c.position) c.rest.length
  ⟨c.position + count, c.rest.drop count⟩

/-- Decode the instruction at the cursor.  An opcode outside the table is an
instruction of one byte. -/
def next (c : Cursor) : Step :=
  match c.rest with
  | [] => .finished
  | opcode :: bytes =>
    match (opcodeInfo opcode).format.read c.position opcode bytes with
    | .ok read =>
      .decoded ⟨c.position, opcode, read.operand, read.size + 1⟩
        ⟨c.position + (read.size + 1), read.rest⟩
    | .error shortage =>
      .truncated ⟨c.position, opcode, shortage.needed, bytes.length⟩
        ⟨c.position + (shortage.read + 1), bytes.drop shortage.read⟩

end Cursor

theorem readEnter_rest {address : Nat} {bytes : List UInt8} {read : OperandRead}
    (h : readEnter address bytes = .ok read) :
    bytes.length = read.size + read.rest.length := by
  unfold readEnter at h
  split at h
  · split at h
    · cases h
    · rename_i hsplit
      obtain ⟨hbytes, hlength⟩ := splitExact?_eq_some_iff.1 hsplit
      cases h
      simp [hbytes, hlength]
      omega
  · cases h

theorem readSwitch_rest {address : Nat} {bytes : List UInt8} {read : OperandRead}
    (h : readSwitch address bytes = .ok read) :
    bytes.length = read.size + read.rest.length := by
  unfold readSwitch at h
  split at h
  · cases h
  · split at h
    · cases h
    · rename_i hsplit
      obtain ⟨hbytes, hlength⟩ := splitExact?_eq_some_iff.1 hsplit
      cases h
      simp [hbytes, hlength]
      omega

/-- The bytes of an operand and the bytes behind it are all the bytes. -/
theorem Format.read_rest {format : Format} {address : Nat} {opcode : UInt8}
    {bytes : List UInt8} {read : OperandRead}
    (h : format.read address opcode bytes = .ok read) :
    bytes.length = read.size + read.rest.length := by
  unfold Format.read at h
  split at h
  · split at h
    · cases h
    · rename_i hsplit
      obtain ⟨hbytes, hlength⟩ := splitExact?_eq_some_iff.1 hsplit
      cases h
      simp [hbytes, hlength]
  · split at h
    · exact readEnter_rest h
    · exact readSwitch_rest h

/-- A decoded instruction covers the bytes between the two cursors. -/
theorem Cursor.next_rest {c after : Cursor} {i : Instruction}
    (h : c.next = .decoded i after) : c.rest.length = i.size + after.rest.length := by
  unfold Cursor.next at h
  split at h
  · cases h
  · rename_i hrest
    split at h
    · rename_i hread
      have hlength := Format.read_rest hread
      cases h
      simp [hrest, hlength]
      omega
    · cases h

/-- An instruction has at least its opcode byte. -/
theorem Cursor.next_size_pos {c after : Cursor} {i : Instruction}
    (h : c.next = .decoded i after) : 0 < i.size := by
  unfold Cursor.next at h
  split at h
  · cases h
  · split at h
    · cases h
      exact Nat.succ_pos _
    · cases h

/-- Skipping never adds bytes. -/
theorem Cursor.skipTo_rest_le (c : Cursor) (position : Nat) :
    (c.skipTo position).rest.length ≤ c.rest.length := by
  simp [Cursor.skipTo]

/-- The number of bytes in a code page. -/
def pageSize : Nat := 0x4000

/-- The page that an address lies in. -/
def pageOf (address : Nat) : Nat := address / pageSize

/-- The first address behind the page that an address lies in. -/
def pageEnd (address : Nat) : Nat := (pageOf address + 1) * pageSize

/-- Decode from a cursor to the end of the code.  `afterNop` tells whether the
instruction before, in the same page, is a NOP; then another NOP completes a
sentinel, which is not kept, and decoding goes on with the next page.  `done`
holds the instructions so far, the latest first. -/
def decodeFrom (afterNop : Bool) (c : Cursor) (done : List Instruction) :
    Except Truncation (List Instruction) :=
  match h : c.next with
  | .finished => .ok done.reverse
  | .truncated truncation _ => .error truncation
  | .decoded i after =>
    have := Cursor.next_rest h
    have := Cursor.next_size_pos h
    if afterNop && i.operation = .nop then
      have := Cursor.skipTo_rest_le after (pageEnd i.address)
      decodeFrom false (after.skipTo (pageEnd i.address)) done
    else
      -- A NOP counts only towards a sentinel of its own page.
      decodeFrom (i.operation = .nop && pageOf after.position = pageOf i.address) after (i :: done)
termination_by c.rest.length
decreasing_by all_goals omega

/-- Why code cannot be decoded. -/
inductive DecodeError where
  | truncated (truncation : Truncation)
  | codeTooShort (declared actual : Nat)
  deriving DecidableEq, Repr

/-- The wording of a missing operand. -/
def Truncation.message (t : Truncation) : String :=
  "truncated instruction at " ++ addressLiteral t.address ++
    " (opcode " ++ opcodeLiteral t.opcode ++ "): needs " ++ t.needed.repr ++ " bytes, " ++
    t.remaining.repr ++ " left before end of code"

/-- The wording of a failure to decode. -/
def DecodeError.message : DecodeError → String
  | truncated truncation => truncation.message
  | codeTooShort declared actual =>
    "code region is " ++ actual.repr ++ " bytes, shorter than the declared length of " ++
      declared.repr

/-- Decode all pages of the first `codeLength` bytes. -/
def decodeCode (code : List UInt8) (codeLength : Nat) : Except DecodeError (List Instruction) :=
  if code.length < codeLength then .error (.codeTooShort codeLength code.length)
  else (decodeFrom false (Cursor.ofCode (code.take codeLength) 0) []).mapError .truncated

end ScriptDecompiler.Bytecode
