/-!
# What an instruction does

Operations are told apart by their effect, not by how their operands are
encoded: one operation may have several opcodes.
-/

namespace ScriptDecompiler.Bytecode

/-- The effect of an instruction. -/
inductive Operation where
  | nop
  | add | sub | mul | div | mod | not | neg | and | or | xor
  | compareEq | compareNe | compareGt | compareGe | compareLt | compareLe
  | push | dup | drop | pushString
  | callNative | enter | call | ret
  | branch | branchZero | branchNe | branchEq | branchGt | branchGe | branchLt | branchLe
  | switch | catchOp | throwOp | callPointer
  | explode | implode | arrayAddress | arrayLoad | arrayStore | load | store | storeKeep
  | localAddress | localLoad | localStore | staticAddress | staticLoad | staticStore
  | globalAddress | globalLoad | globalStore | fieldAddress | fieldLoad | fieldStore
  | intToFloat | floatToInt | stringCopy | intToString | appendString | appendInt | memoryCopy
  | unknown
  deriving DecidableEq, Repr

namespace Operation

/-- A number for each operation.  The operations of a class have consecutive
numbers. -/
def code : Operation → Nat
  | nop => 0
  | add => 1 | sub => 2 | mul => 3 | div => 4 | mod => 5 | not => 6 | neg => 7 | and => 8
  | or => 9 | xor => 10
  | compareEq => 16 | compareNe => 17 | compareGt => 18 | compareGe => 19 | compareLt => 20
  | compareLe => 21
  | push => 32 | dup => 33 | drop => 34 | pushString => 35
  | callNative => 48 | enter => 49 | call => 50 | ret => 51
  | branch => 52 | branchZero => 53 | branchNe => 54 | branchEq => 55 | branchGt => 56
  | branchGe => 57 | branchLt => 58 | branchLe => 59
  | switch => 60 | catchOp => 61 | throwOp => 62 | callPointer => 63
  | explode => 80 | implode => 81 | arrayAddress => 82 | arrayLoad => 83 | arrayStore => 84
  | load => 85 | store => 86 | storeKeep => 87
  | localAddress => 88 | localLoad => 89 | localStore => 90
  | staticAddress => 91 | staticLoad => 92 | staticStore => 93
  | globalAddress => 94 | globalLoad => 95 | globalStore => 96
  | fieldAddress => 97 | fieldLoad => 98 | fieldStore => 99
  | intToFloat => 112 | floatToInt => 113 | stringCopy => 114 | intToString => 115
  | appendString => 116 | appendInt => 117 | memoryCopy => 118
  | unknown => 255

/-- Does the operation compute a number from numbers? -/
def isArithmetic (op : Operation) : Bool :=
  add.code ≤ op.code && op.code ≤ xor.code

/-- Does the operation compare two values? -/
def isComparison (op : Operation) : Bool :=
  compareEq.code ≤ op.code && op.code ≤ compareLe.code

/-- Is the operation a jump to one target, conditional or not? -/
def isBranch (op : Operation) : Bool :=
  branch.code ≤ op.code && op.code ≤ branchLe.code

/-- Is the operation a jump that may fall through? -/
def isConditionalBranch (op : Operation) : Bool :=
  branchZero.code ≤ op.code && op.code ≤ branchLe.code

/-- Does the operation take a single operand of each lane? -/
def isUnary (op : Operation) : Bool :=
  op = not || op = neg

/-- Does control never fall through the operation by itself? -/
def endsBlock (op : Operation) : Bool :=
  op.isBranch || op = switch || op = ret

end Operation

end ScriptDecompiler.Bytecode
