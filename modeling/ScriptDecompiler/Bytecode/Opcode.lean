import ScriptDecompiler.Bytecode.Operation

/-!
# The opcode table

Opcodes 0 to 126 are assigned.  A row gives the mnemonic, the operation, the
format of the operand and the number of lanes: three for the arithmetic on
vectors, which works on three consecutive stack slots, and one elsewhere.
-/

namespace ScriptDecompiler.Bytecode

/-- How an operand is encoded behind the opcode byte. -/
inductive Format where
  | none
  | imm8 | imm8x2 | imm8x3 | imm16 | imm24 | imm32 | float32
  | native | enter | ret | branch | call | switch
  | stringRef | impliedInt | impliedFloat
  deriving DecidableEq, Repr

/-- The operand's size in bytes, if the format fixes it. -/
def Format.fixedSize? : Format → Option Nat
  | .none | .stringRef | .impliedInt | .impliedFloat => some 0
  | .imm8 => some 1
  | .imm8x2 | .imm16 | .ret | .branch => some 2
  | .imm8x3 | .imm24 | .call | .native => some 3
  | .imm32 | .float32 => some 4
  | .enter | .switch => Option.none

/-- A row of the opcode table. -/
structure OpcodeInfo where
  mnemonic : String
  operation : Operation
  format : Format
  lanes : Nat
  deriving DecidableEq, Repr

/-- The rows of the opcode table, in the order of the opcodes. -/
def opcodeTable : Array OpcodeInfo := #[
  ⟨"nop", .nop, .none, 1⟩,
  ⟨"addi", .add, .none, 1⟩,
  ⟨"subi", .sub, .none, 1⟩,
  ⟨"muli", .mul, .none, 1⟩,
  ⟨"divi", .div, .none, 1⟩,
  ⟨"modi", .mod, .none, 1⟩,
  ⟨"noti", .not, .none, 1⟩,
  ⟨"negi", .neg, .none, 1⟩,
  ⟨"cmpeqi", .compareEq, .none, 1⟩,
  ⟨"cmpnei", .compareNe, .none, 1⟩,
  ⟨"cmpgti", .compareGt, .none, 1⟩,
  ⟨"cmpgei", .compareGe, .none, 1⟩,
  ⟨"cmplti", .compareLt, .none, 1⟩,
  ⟨"cmplei", .compareLe, .none, 1⟩,
  ⟨"addf", .add, .none, 1⟩,
  ⟨"subf", .sub, .none, 1⟩,
  ⟨"mulf", .mul, .none, 1⟩,
  ⟨"divf", .div, .none, 1⟩,
  ⟨"modf", .mod, .none, 1⟩,
  ⟨"negf", .neg, .none, 1⟩,
  ⟨"cmpeqf", .compareEq, .none, 1⟩,
  ⟨"cmpnef", .compareNe, .none, 1⟩,
  ⟨"cmpgtf", .compareGt, .none, 1⟩,
  ⟨"cmpgef", .compareGe, .none, 1⟩,
  ⟨"cmpltf", .compareLt, .none, 1⟩,
  ⟨"cmplef", .compareLe, .none, 1⟩,
  ⟨"addv", .add, .none, 3⟩,
  ⟨"subv", .sub, .none, 3⟩,
  ⟨"mulv", .mul, .none, 3⟩,
  ⟨"divv", .div, .none, 3⟩,
  ⟨"negv", .neg, .none, 3⟩,
  ⟨"and", .and, .none, 1⟩,
  ⟨"or", .or, .none, 1⟩,
  ⟨"xor", .xor, .none, 1⟩,
  ⟨"itof", .intToFloat, .none, 1⟩,
  ⟨"ftoi", .floatToInt, .none, 1⟩,
  ⟨"dupf", .dup, .none, 1⟩,
  ⟨"pushb", .push, .imm8, 1⟩,
  ⟨"pushb2", .push, .imm8x2, 1⟩,
  ⟨"pushb3", .push, .imm8x3, 1⟩,
  ⟨"pushi", .push, .imm32, 1⟩,
  ⟨"pushf", .push, .float32, 1⟩,
  ⟨"dup", .dup, .none, 1⟩,
  ⟨"drop", .drop, .none, 1⟩,
  ⟨"calln", .callNative, .native, 1⟩,
  ⟨"enter", .enter, .enter, 1⟩,
  ⟨"ret", .ret, .ret, 1⟩,
  ⟨"getp", .load, .none, 1⟩,
  ⟨"setp", .store, .none, 1⟩,
  ⟨"setpp", .storeKeep, .none, 1⟩,
  ⟨"explode", .explode, .none, 1⟩,
  ⟨"implode", .implode, .none, 1⟩,
  ⟨"getarraypb", .arrayAddress, .imm8, 1⟩,
  ⟨"getarrayb", .arrayLoad, .imm8, 1⟩,
  ⟨"setarrayb", .arrayStore, .imm8, 1⟩,
  ⟨"getlocalpb", .localAddress, .imm8, 1⟩,
  ⟨"getlocalb", .localLoad, .imm8, 1⟩,
  ⟨"setlocalb", .localStore, .imm8, 1⟩,
  ⟨"getstaticpb", .staticAddress, .imm8, 1⟩,
  ⟨"getstaticb", .staticLoad, .imm8, 1⟩,
  ⟨"setstaticb", .staticStore, .imm8, 1⟩,
  ⟨"addimb", .add, .imm8, 1⟩,
  ⟨"mulimb", .mul, .imm8, 1⟩,
  ⟨"getarrayp", .arrayAddress, .none, 1⟩,
  ⟨"getfieldpb", .fieldAddress, .imm8, 1⟩,
  ⟨"getfieldb", .fieldLoad, .imm8, 1⟩,
  ⟨"setfieldb", .fieldStore, .imm8, 1⟩,
  ⟨"pushs", .push, .imm16, 1⟩,
  ⟨"addims", .add, .imm16, 1⟩,
  ⟨"mulims", .mul, .imm16, 1⟩,
  ⟨"getfieldps", .fieldAddress, .imm16, 1⟩,
  ⟨"getfields", .fieldLoad, .imm16, 1⟩,
  ⟨"setfields", .fieldStore, .imm16, 1⟩,
  ⟨"getarrayps", .arrayAddress, .imm16, 1⟩,
  ⟨"getarrays", .arrayLoad, .imm16, 1⟩,
  ⟨"setarrays", .arrayStore, .imm16, 1⟩,
  ⟨"getlocalps", .localAddress, .imm16, 1⟩,
  ⟨"getlocals", .localLoad, .imm16, 1⟩,
  ⟨"setlocals", .localStore, .imm16, 1⟩,
  ⟨"getstaticps", .staticAddress, .imm16, 1⟩,
  ⟨"getstatics", .staticLoad, .imm16, 1⟩,
  ⟨"setstatics", .staticStore, .imm16, 1⟩,
  ⟨"getglobalps", .globalAddress, .imm16, 1⟩,
  ⟨"getglobals", .globalLoad, .imm16, 1⟩,
  ⟨"setglobals", .globalStore, .imm16, 1⟩,
  ⟨"b", .branch, .branch, 1⟩,
  ⟨"bz", .branchZero, .branch, 1⟩,
  ⟨"bne", .branchNe, .branch, 1⟩,
  ⟨"be", .branchEq, .branch, 1⟩,
  ⟨"bgt", .branchGt, .branch, 1⟩,
  ⟨"bge", .branchGe, .branch, 1⟩,
  ⟨"blt", .branchLt, .branch, 1⟩,
  ⟨"ble", .branchLe, .branch, 1⟩,
  ⟨"call", .call, .call, 1⟩,
  ⟨"getglobalpt", .globalAddress, .imm24, 1⟩,
  ⟨"getglobalt", .globalLoad, .imm24, 1⟩,
  ⟨"setglobalt", .globalStore, .imm24, 1⟩,
  ⟨"pusht", .push, .imm24, 1⟩,
  ⟨"switch", .switch, .switch, 1⟩,
  ⟨"pushstr", .pushString, .stringRef, 1⟩,
  ⟨"pushstrn", .pushString, .none, 1⟩,
  ⟨"strcpy", .stringCopy, .imm8, 1⟩,
  ⟨"itos", .intToString, .imm8, 1⟩,
  ⟨"apps", .appendString, .imm8, 1⟩,
  ⟨"appi", .appendInt, .imm8, 1⟩,
  ⟨"memcpy", .memoryCopy, .none, 1⟩,
  ⟨"catch", .catchOp, .none, 1⟩,
  ⟨"throw", .throwOp, .none, 1⟩,
  ⟨"callp", .callPointer, .none, 1⟩,
  ⟨"push_m1", .push, .impliedInt, 1⟩,
  ⟨"push_0", .push, .impliedInt, 1⟩,
  ⟨"push_1", .push, .impliedInt, 1⟩,
  ⟨"push_2", .push, .impliedInt, 1⟩,
  ⟨"push_3", .push, .impliedInt, 1⟩,
  ⟨"push_4", .push, .impliedInt, 1⟩,
  ⟨"push_5", .push, .impliedInt, 1⟩,
  ⟨"push_6", .push, .impliedInt, 1⟩,
  ⟨"push_7", .push, .impliedInt, 1⟩,
  ⟨"pushf_m1", .push, .impliedFloat, 1⟩,
  ⟨"pushf_0", .push, .impliedFloat, 1⟩,
  ⟨"pushf_1", .push, .impliedFloat, 1⟩,
  ⟨"pushf_2", .push, .impliedFloat, 1⟩,
  ⟨"pushf_3", .push, .impliedFloat, 1⟩,
  ⟨"pushf_4", .push, .impliedFloat, 1⟩,
  ⟨"pushf_5", .push, .impliedFloat, 1⟩,
  ⟨"pushf_6", .push, .impliedFloat, 1⟩,
  ⟨"pushf_7", .push, .impliedFloat, 1⟩
]

/-- The row of an opcode, if the opcode is assigned. -/
def opcodeInfo? (opcode : UInt8) : Option OpcodeInfo :=
  opcodeTable[opcode.toNat]?

/-- What stands in for the row of an opcode that is not assigned. -/
def unknownOpcode : OpcodeInfo := ⟨"unknown", .unknown, .none, 1⟩

/-- The row of an opcode, or its stand-in. -/
def opcodeInfo (opcode : UInt8) : OpcodeInfo :=
  (opcodeInfo? opcode).getD unknownOpcode

end ScriptDecompiler.Bytecode
