import ScriptDecompiler.Deflate.Huffman

/-!
# Inflating

A deflated stream is a sequence of blocks, which are stored as they are or
written with a fixed or a given pair of prefix codes: one for bytes and lengths,
one for distances.  A length and a distance repeat bytes that came before; there
are zeros in front of the first byte.  What follows the last block is ignored.
-/

namespace ScriptDecompiler.Deflate

/-- The bits of a byte, the least significant first. -/
def bitsOfByte (b : UInt8) : List Bool :=
  (List.range 8).map b.toNat.testBit

/-- The bits of a stream. -/
def bitsOfBytes (bytes : List UInt8) : List Bool :=
  bytes.flatMap bitsOfByte

/-- A number of `count` bits, the least significant first. -/
def number : (count : Nat) → List Bool → Except Obstacle (Nat × List Bool)
  | 0, bits => .ok (0, bits)
  | _ + 1, [] => .error .exhausted
  | count + 1, bit :: rest =>
    (number count rest).map fun (n, others) => (2 * n + bit.toNat, others)

/-- The least length, and the number of extra bits, of the length symbols. -/
def lengthSymbols : List (Nat × Nat) :=
  [(3, 0), (4, 0), (5, 0), (6, 0), (7, 0), (8, 0), (9, 0), (10, 0), (11, 1), (13, 1), (15, 1),
    (17, 1), (19, 2), (23, 2), (27, 2), (31, 2), (35, 3), (43, 3), (51, 3), (59, 3), (67, 4),
    (83, 4), (99, 4), (115, 4), (131, 5), (163, 5), (195, 5), (227, 5), (258, 0)]

/-- The least distance, and the number of extra bits, of the distance symbols. -/
def distanceSymbols : List (Nat × Nat) :=
  [(1, 0), (2, 0), (3, 0), (4, 0), (5, 1), (7, 1), (9, 2), (13, 2), (17, 3), (25, 3), (33, 4),
    (49, 4), (65, 5), (97, 5), (129, 6), (193, 6), (257, 7), (385, 7), (513, 8), (769, 8),
    (1025, 9), (1537, 9), (2049, 10), (3073, 10), (4097, 11), (6145, 11), (8193, 12), (12289, 12),
    (16385, 13), (24577, 13)]

/-- The value of a symbol with extra bits. -/
def extended (table : List (Nat × Nat)) (symbol : Nat) (bits : List Bool) :
    Except Obstacle (Nat × List Bool) :=
  match table[symbol]? with
  | none => .error .invalid
  | some (least, extra) => (number extra bits).map fun (n, rest) => (least + n, rest)

/-- Repeat `length` bytes from `distance` bytes before the end. -/
def repeatBytes : (length distance : Nat) → Array UInt8 → Array UInt8
  | 0, _, out => out
  | length + 1, distance, out =>
    let b := if distance ≤ out.size then out.getD (out.size - distance) 0 else 0
    repeatBytes length distance (out.push b)

/-- The codes of a block. -/
structure Codes where
  symbols : Code
  distances : Code

/-- What a part of a stream led to: the bytes so far, and the bits that follow or
why there is no going on. -/
structure Inflating where
  out : Array UInt8
  rest : Except Obstacle (List Bool)

/-- Read the symbols of a block up to its end.  Each symbol takes at least one
bit, so `fuel` need not exceed the number of bits. -/
def readSymbols (codes : Codes) : (fuel : Nat) → Array UInt8 → List Bool → Inflating
  | 0, out, _ => ⟨out, .error .exhausted⟩
  | fuel + 1, out, bits =>
    match codes.symbols.read bits with
    | .error e => ⟨out, .error e⟩
    | .ok (symbol, bits) =>
      if symbol < 256 then readSymbols codes fuel (out.push (UInt8.ofNat symbol)) bits
      else if symbol = 256 then ⟨out, .ok bits⟩
      else
        let copied := do
          let (length, bits) ← extended lengthSymbols (symbol - 257) bits
          let (distanceSymbol, bits) ← codes.distances.read bits
          let (distance, bits) ← extended distanceSymbols distanceSymbol bits
          return (length, distance, bits)
        match copied with
        | .error e => ⟨out, .error e⟩
        | .ok (length, distance, bits) =>
          readSymbols codes fuel (repeatBytes length distance out) bits

/-- The lengths of the fixed codes. -/
def fixedSymbolLengths : List Nat :=
  List.replicate 144 8 ++ List.replicate 112 9 ++ List.replicate 24 7 ++ List.replicate 8 8

/-- The fixed codes. -/
def fixedCodes : Except Obstacle Codes := do
  return ⟨← Code.ofLengths fixedSymbolLengths, ← Code.ofLengths (List.replicate 32 5)⟩

/-- The order in which the lengths of the code for code lengths are given. -/
def lengthOrder : List Nat :=
  [16, 17, 18, 0, 8, 7, 9, 6, 10, 5, 11, 4, 12, 3, 13, 2, 14, 1, 15]

/-- Read `count` numbers of three bits. -/
def triples : (count : Nat) → List Bool → Except Obstacle (List Nat × List Bool)
  | 0, bits => .ok ([], bits)
  | count + 1, bits => do
    let (n, bits) ← number 3 bits
    let (ns, bits) ← triples count bits
    return (n :: ns, bits)

/-- Read code lengths until there are `count`.  `found` has the latest first.
Symbols 16 to 18 repeat the length before, or zero.  Each symbol adds a length,
so `fuel` need not exceed `count + 1`. -/
def codeLengths (code : Code) (count : Nat) :
    (fuel : Nat) → (found : List Nat) → List Bool → Except Obstacle (List Nat × List Bool)
  | 0, _, _ => .error .invalid
  | fuel + 1, found, bits =>
    if count ≤ found.length then
      if found.length = count then .ok (found.reverse, bits) else .error .invalid
    else do
      let (symbol, bits) ← code.read bits
      if symbol < 16 then codeLengths code count fuel (symbol :: found) bits
      else if symbol = 16 then
        match found with
        | [] => .error .invalid
        | last :: _ =>
          let (n, bits) ← number 2 bits
          codeLengths code count fuel (List.replicate (3 + n) last ++ found) bits
      else if symbol = 17 then
        let (n, bits) ← number 3 bits
        codeLengths code count fuel (List.replicate (3 + n) 0 ++ found) bits
      else
        let (n, bits) ← number 7 bits
        codeLengths code count fuel (List.replicate (11 + n) 0 ++ found) bits

/-- Read the codes in front of a block. -/
def givenCodes (bits : List Bool) : Except Obstacle (Codes × List Bool) := do
  let (symbolCount, bits) ← number 5 bits
  let (distanceCount, bits) ← number 5 bits
  let (lengthCount, bits) ← number 4 bits
  if 286 < symbolCount + 257 || 30 < distanceCount + 1 then .error .invalid
  let (given, bits) ← triples (lengthCount + 4) bits
  let ordered := (List.range 19).map fun symbol =>
    ((lengthOrder.zip given).lookup symbol).getD 0
  let code ← Code.ofLengths ordered
  let count := symbolCount + 257 + (distanceCount + 1)
  let (lengths, bits) ← codeLengths code count (count + 1) [] bits
  let symbols ← Code.ofLengths (lengths.take (symbolCount + 257))
  let distances ← Code.ofLengths (lengths.drop (symbolCount + 257))
  return (⟨symbols, distances⟩, bits)

/-- Read `count` bytes. -/
def storedBytes : (count : Nat) → Array UInt8 → List Bool → Inflating
  | 0, out, bits => ⟨out, .ok bits⟩
  | count + 1, out, bits =>
    match number 8 bits with
    | .error e => ⟨out, .error e⟩
    | .ok (n, bits) => storedBytes count (out.push (UInt8.ofNat n)) bits

/-- Read the length of a stored block: it stands behind the bits that are left of
a byte, and its complement follows. -/
def storedLength (bits : List Bool) : Except Obstacle (Nat × List Bool) := do
  let (length, bits) ← number 16 (bits.drop (bits.length % 8))
  let (complement, bits) ← number 16 bits
  if length + complement = 0xffff then .ok (length, bits) else .error .invalid

/-- Read a block of the given kind. -/
def readBlock (kind : Nat) (out : Array UInt8) (bits : List Bool) : Inflating :=
  match kind with
  | 0 =>
    match storedLength bits with
    | .error e => ⟨out, .error e⟩
    | .ok (length, bits) => storedBytes length out bits
  | 1 =>
    match fixedCodes with
    | .error e => ⟨out, .error e⟩
    | .ok codes => readSymbols codes (bits.length + 1) out bits
  | 2 =>
    match givenCodes bits with
    | .error e => ⟨out, .error e⟩
    | .ok (codes, bits) => readSymbols codes (bits.length + 1) out bits
  | _ => ⟨out, .error .invalid⟩

/-- Read blocks up to the last one.  Each block takes at least three bits, so
`fuel` need not exceed the number of bits. -/
def readBlocks : (fuel : Nat) → Array UInt8 → List Bool → Inflating
  | 0, out, _ => ⟨out, .error .exhausted⟩
  | fuel + 1, out, bits =>
    match number 3 bits with
    | .error e => ⟨out, .error e⟩
    | .ok (header, bits) =>
      match readBlock (header / 2) out bits with
      | ⟨out, .error e⟩ => ⟨out, .error e⟩
      | ⟨out, .ok bits⟩ =>
        if header % 2 = 1 then ⟨out, .ok bits⟩ else readBlocks fuel out bits

/-- Read a stream from its beginning. -/
def readStream (bytes : List UInt8) : Inflating :=
  let bits := bitsOfBytes bytes
  readBlocks (bits.length + 1) #[] bits

/-- The bytes of a stream, and whether it is damaged. -/
structure Inflated where
  bytes : List UInt8
  damaged : Bool
  deriving DecidableEq, Repr

/-- A stream is read in chunks of this many bytes. -/
def chunkSize : Nat := 32768

/-- The bytes are passed on when there are this many and one more follows. -/
def windowSize : Nat := 32768

/-- How many bytes come out of the first `count` chunks of a stream, less the
chunks from the one on that shows damage. -/
def sizeOfChunks (bytes : List UInt8) : (count : Nat) → Nat
  | 0 => 0
  | count + 1 =>
    match readStream (bytes.take ((count + 1) * chunkSize)) with
    | ⟨out, .error .exhausted⟩ => out.size
    | _ => sizeOfChunks bytes count

/-- Inflate a stream.  Of one with damage, those bytes are passed on that fill
whole windows in front of another byte, and those that came out of the chunks
before the damage. -/
def inflate (bytes : List UInt8) : Inflated :=
  match readStream bytes with
  | ⟨out, .ok _⟩ => ⟨out.toList, false⟩
  | ⟨out, .error .exhausted⟩ => ⟨out.toList, true⟩
  | ⟨out, .error .invalid⟩ =>
    let inWindows := (out.size - 1) / windowSize * windowSize
    let inChunks := sizeOfChunks bytes (bytes.length / chunkSize)
    ⟨out.toList.take (Nat.max inWindows inChunks), true⟩

end ScriptDecompiler.Deflate
