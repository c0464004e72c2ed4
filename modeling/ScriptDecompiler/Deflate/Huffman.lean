/-!
# Prefix codes

A code is given by the lengths of its code words.  The words of one length are
consecutive numbers in the order of their symbols, and follow on the shorter
ones.  A code is kept as a tree that is walked bit by bit.
-/

namespace ScriptDecompiler.Deflate

/-- Why a stream cannot be read on: its bits have run out, or they are none that
may stand there. -/
inductive Obstacle where
  | exhausted
  | invalid
  deriving DecidableEq, Repr

/-- A prefix code.  `none` is where no code word leads. -/
inductive Code where
  | none
  | symbol (value : Nat)
  | branch (zero one : Code)
  deriving DecidableEq, Repr

namespace Code

/-- Enter a symbol under a code word. -/
def insert (value : Nat) : List Bool → Code → Code
  | [], _ => symbol value
  | bit :: rest, code =>
    let (zero, one) := match code with
      | branch zero one => (zero, one)
      | _ => (none, none)
    if bit then branch zero (insert value rest one) else branch (insert value rest zero) one

/-- Read a symbol. -/
def read : Code → List Bool → Except Obstacle (Nat × List Bool)
  | none, _ => .error .invalid
  | symbol value, bits => .ok (value, bits)
  | branch _ _, [] => .error .exhausted
  | branch zero one, bit :: rest => if bit then one.read rest else zero.read rest

/-- The bits of a number, the most significant first. -/
def word : (length : Nat) → Nat → List Bool
  | 0, _ => []
  | length + 1, n => n.testBit length :: word length n

/-- Enter symbols, given with the lengths of their words in ascending order.
`next` is the number of the next word, `length` the length it is meant for. -/
def insertAll : (next length : Nat) → List (Nat × Nat) → Code → Code
  | _, _, [], code => code
  | next, length, (value, wordLength) :: rest, code =>
    let number := next * Nat.pow 2 (wordLength - length)
    insertAll (number + 1) wordLength rest (code.insert value (word wordLength number))

/-- How much of all words of 15 bits the words of the given lengths take up. -/
def weight (lengths : List Nat) : Nat :=
  lengths.foldr (fun length total =>
    (if length = 0 then 0 else Nat.pow 2 (15 - length)) + total) 0

/-- The code whose words have the given lengths, the first for symbol 0; length
0 stands for no word.  The words have to leave nothing over, unless there are
none or a single one of one bit. -/
def ofLengths (lengths : List Nat) : Except Obstacle Code :=
  let used := lengths.zipIdx.filterMap fun (length, value) =>
    if length = 0 then Option.none else some (value, length)
  if weight lengths = 0x8000 ∨ used = [] ∨ used.map (·.2) = [1] then
    .ok (insertAll 0 0 (used.mergeSort fun a b => a.2 ≤ b.2) none)
  else .error .invalid

end Code

end ScriptDecompiler.Deflate
