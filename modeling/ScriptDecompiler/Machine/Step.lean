import ScriptDecompiler.Machine.Call

/-!
# Replaying one instruction

Every operation is one case of `step`.  An operation without a meaning of its
own is kept as an `asm` statement.
-/

namespace ScriptDecompiler.Machine

open ScriptDecompiler.Bytecode (Instruction Operand)

/-- The most slots that one explode spreads over the stack. -/
def maxExplodeSlots : Nat := 0x1000

namespace Replay

/-- The values that an immediate operand pushes, in order.  A 32-bit immediate
is signed. -/
def immediates : Operand → List Expr
  | .imm8 v | .imm16 v | .imm24 v => [.int (Int.ofNat v)]
  | .imm8x2 a b => [.int (Int.ofNat a), .int (Int.ofNat b)]
  | .imm8x3 a b d => [.int (Int.ofNat a), .int (Int.ofNat b), .int (Int.ofNat d)]
  | .imm32 v => [.int (Int.bmod v 0x100000000)]
  | .impliedInt v => [.int v]
  | .float32 v | .impliedFloat v => [.literal (.float v)]
  | _ => []

/-- Replace the offset on top of the stack by the text found there, or by the
offset as a text if there is none. -/
def pushString (c : Context) (address : Nat) : Replay Unit := do
  let offset ← pop c address
  let found := match offset.integer? with
    | some (.ofNat position) => c.unit.stringAt? position
    | _ => none
  match found with
  | some text => push (.literal (.string text))
  | none => push (.cast .string offset)

/-- Apply an operator to each lane of the top of the stack. -/
def applyUnary (c : Context) (i : Instruction) (op : UnaryOp) : Replay Unit := do
  pushAll ((← popMany c i.address i.lanes).map (.unary op))

/-- Apply an operator to two values, lane by lane.  An immediate operand is the
right-hand side. -/
def applyBinary (c : Context) (i : Instruction) (op : BinaryOp) : Replay Unit := do
  match i.operand.integer? with
  | some rhs =>
    let lhs ← pop c i.address
    push (.binary op lhs (.int rhs))
  | none =>
    let rhs ← popMany c i.address i.lanes
    let lhs ← popMany c i.address i.lanes
    pushAll (List.zipWith (.binary op) lhs rhs)

/-- Convert the top of the stack. -/
def convert (c : Context) (address : Nat) (ty : Ty) : Replay Unit := do
  push (.cast ty (← pop c address))

/-- Push a variable, or its address. -/
def loadVariable (c : Context) (r : VarRef) (address : Bool) : Replay Unit := do
  touch c r
  push (if address then .addressOf (.var r) else .var r)

/-- Pop a value into a variable. -/
def storeVariable (c : Context) (address : Nat) (r : VarRef) : Replay Unit := do
  touch c r
  assign c address (.var r) (← pop c address)

/-- The field of `base` whose first slot is `offset`, modulo `2 ^ 64`.  A slot that is
not the first one of a field is named by its number. -/
def selectField (c : Context) (base : Expr) (offset : Int) : Replay Expr := do
  match (← typeOf c base).fieldAt? (UInt64.ofInt offset).toNat with
  | some (name, _) => return .field base name
  | none => return .field base ("field_" ++ toString offset)

/-- Pop a base and select a field of it. -/
def popField (c : Context) (i : Instruction) : Replay Expr := do
  selectField c (← pop c i.address) (i.operand.integer?.getD 0)

/-- Pop an array and an index, and select the element. -/
def popElement (c : Context) (address : Nat) : Replay Expr := do
  let array ← pop c address
  let index ← pop c address
  return .index array index

/-- Pop an address, a length and that many values; store the values there as an
array.  The length is at most the number of values there are. -/
def implode (c : Context) (address : Nat) : Replay Unit := do
  let dest ← pop c address
  match ← popLength c address with
  | none => pure ()
  | some length =>
    let count ← bound c address length (← get).stack.length
    let values ← popMany c address count
    let element ← match values with
      | [] => pure Ty.unknown
      | first :: _ => typeOf c first
    infer c address dest (.pointer (.array element count))
    emit (.assign dest.dereference (.arrayLiteral values))

/-- Pop an address and a length; push the values that are stored there.  If
nothing is known about them, their number gives a guess. -/
def explode (c : Context) (address : Nat) : Replay Unit := do
  let source ← pop c address
  match ← popLength c address with
  | none => pure ()
  | some length =>
    let count ← bound c address length maxExplodeSlots
    if (← typeOf c source).throughPointer.isUnknown then
      infer c address source (.pointer (.guess count))
    pushAll ((← typeOf c source).explode source count)

/-- Pop two values and branch on a comparison of them. -/
def branchOn (c : Context) (i : Instruction) (op : BinaryOp) : Replay Unit := do
  let rhs ← pop c i.address
  let lhs ← pop c i.address
  match i.branchTarget? with
  | some target => emit (.ifGoto (.binary op lhs rhs) target i.nextAddress)
  | none => pure ()

/-- A text operation: it takes a destination and a source, and the size of the
destination is in the operand. -/
def textOperation (c : Context) (i : Instruction) : Replay Unit := do
  let dest ← pop c i.address
  let source ← pop c i.address
  let size := Expr.int (i.operand.integer?.getD 0)
  emit (.expr (.call i.mnemonic [dest, source, size] .void))

/-- Replay an instruction that is not at fault. -/
def step (c : Context) (i : Instruction) : Replay Unit := do
  let index := (i.operand.integer?.getD 0).toNat
  match i.operation with
  | .nop | .enter => pure ()
  -- The operand stack.
  | .push => pushAll (immediates i.operand)
  | .pushString => pushString c i.address
  | .dup => push (← peek c i.address)
  | .drop => discard (pop c i.address)
  -- Computing.
  | .not => applyUnary c i .not
  | .neg => applyUnary c i .neg
  | .add => applyBinary c i .add
  | .sub => applyBinary c i .sub
  | .mul => applyBinary c i .mul
  | .div => applyBinary c i .div
  | .mod => applyBinary c i .mod
  | .and => applyBinary c i .and
  | .or => applyBinary c i .or
  | .xor => applyBinary c i .xor
  | .compareEq => applyBinary c i .eq
  | .compareNe => applyBinary c i .ne
  | .compareGt => applyBinary c i .gt
  | .compareGe => applyBinary c i .ge
  | .compareLt => applyBinary c i .lt
  | .compareLe => applyBinary c i .le
  | .intToFloat => convert c i.address .float
  | .floatToInt => convert c i.address .int
  -- Loads.
  | .localLoad => loadVariable c (.slot index) false
  | .localAddress => loadVariable c (.slot index) true
  | .staticLoad => loadVariable c (.static index) false
  | .staticAddress => loadVariable c (.static index) true
  | .globalLoad => loadVariable c (.global index) false
  | .globalAddress => loadVariable c (.global index) true
  | .fieldLoad => push (← popField c i)
  | .fieldAddress => push (.addressOf (← popField c i))
  | .arrayLoad => push (← popElement c i.address)
  | .arrayAddress => push (.addressOf (← popElement c i.address))
  | .load => push (← pop c i.address).dereference
  -- Stores.
  | .localStore => storeVariable c i.address (.slot index)
  | .staticStore => storeVariable c i.address (.static index)
  | .globalStore => storeVariable c i.address (.global index)
  | .fieldStore =>
    let dest ← popField c i
    assign c i.address dest (← pop c i.address)
  | .arrayStore =>
    let dest ← popElement c i.address
    assign c i.address dest (← pop c i.address)
  | .store =>
    let dest ← pop c i.address
    assign c i.address dest.dereference (← pop c i.address)
  | .storeKeep =>
    let value ← pop c i.address
    assign c i.address (← peek c i.address).dereference value
  | .implode => implode c i.address
  | .explode => explode c i.address
  -- Calls and returns.
  | .call =>
    match i.operand with
    | .call target => callFunction c i.address target
    | _ => pure ()
  | .callNative =>
    match i.operand with
    | .native inSlots outSlots number => callNative c i.address inSlots outSlots number
    | _ => pure ()
  | .ret =>
    match i.operand with
    | .ret _ values => returnValues c i.address values
    | _ => returnValues c i.address 0
  -- Jumps.
  | .branch =>
    match i.branchTarget? with
    | some target => emit (.goto target)
    | none => pure ()
  | .branchZero =>
    let condition ← pop c i.address
    match i.branchTarget? with
    | some target => emit (.ifGoto condition.negate target i.nextAddress)
    | none => pure ()
  | .branchNe => branchOn c i .ne
  | .branchEq => branchOn c i .eq
  | .branchGt => branchOn c i .gt
  | .branchGe => branchOn c i .ge
  | .branchLt => branchOn c i .lt
  | .branchLe => branchOn c i .le
  | .switch =>
    let value ← pop c i.address
    match i.operand with
    | .switch cases => emit (.switch value cases)
    | _ => pure ()
  -- Text.
  | .stringCopy | .intToString | .appendString | .appendInt => textOperation c i
  -- Operations without a meaning of their own.
  | .unknown =>
    diagnose c i.address (.unknownOpcode i.opcode)
    emit (.asm i.text)
  | .memoryCopy | .catchOp | .throwOp | .callPointer => emit (.asm i.text)

end Replay

end ScriptDecompiler.Machine
