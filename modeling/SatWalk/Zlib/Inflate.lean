/-! Decoding of compressed blocks. Bits are taken from the low end of each byte. A block is
stored, or coded with the fixed codes, or with codes that it describes itself; codes are
canonical, so their lengths determine them. Copies look back into a window of zeros that
what is decoded has been pushed into. -/

namespace SatWalk.Zlib

/-- What is left of a byte sequence that is read bit by bit: the bits of the byte that was begun,
and the bytes after it. -/
structure Bits where
  begun : List Bool
  bytes : List UInt8

namespace Bits

def ofBytes (bytes : List UInt8) : Bits := ⟨[], bytes⟩

def next? : Bits → Option (Bool × Bits)
  | ⟨b :: begun, bytes⟩ => some (b, ⟨begun, bytes⟩)
  | ⟨[], []⟩ => none
  | ⟨[], byte :: bytes⟩ =>
    let n := byte.toNat
    some (n.testBit 0, ⟨[n.testBit 1, n.testBit 2, n.testBit 3, n.testBit 4, n.testBit 5,
      n.testBit 6, n.testBit 7], bytes⟩)

/-- Drops bits up to the next byte. -/
def align (bits : Bits) : Bits := ⟨[], bits.bytes⟩

/-- The number that the next bits stand for, the lowest first. -/
def take : (count : Nat) → Bits → Option (Nat × Bits)
  | 0, bits => some (0, bits)
  | count + 1, bits => do
    let (b, bits) ← bits.next?
    let (n, bits) ← take count bits
    return (2 * n + b.toNat, bits)

/-- Appends that many whole bytes to `out`. -/
def copyBytes : (count : Nat) → Array UInt8 → List UInt8 → Option (Array UInt8 × Bits)
  | 0, out, bytes => some (out, ofBytes bytes)
  | _ + 1, _, [] => none
  | count + 1, out, byte :: bytes => copyBytes count (out.push byte) bytes

end Bits

/-! ### Codes -/

/-- How many codes there are of each length from one on, and the symbols in the order of their
codes. -/
structure Code where
  counts : List Nat
  symbols : Array Nat

namespace Code

def maxLength : Nat := 15

/-- The code whose symbols have the given lengths; a length of zero means no code. -/
def ofLengths (lengths : List Nat) : Code where
  counts := (List.range maxLength).map fun i => lengths.count (i + 1)
  symbols :=
    ((List.range maxLength).flatMap fun i =>
      (lengths.zipIdx.filter fun (n, _) => n = i + 1).map (·.2)).toArray

/-- In units of the longest code, how much of all bit sequences the codes take up. -/
def extent (c : Code) : Nat :=
  c.counts.zipIdx.foldl (fun sum (count, i) => sum + (count <<< (maxLength - 1 - i))) 0

/-- Every bit sequence starts with exactly one code. -/
def isComplete (c : Code) : Bool :=
  c.extent = 1 <<< maxLength

/-- A code that is not complete is accepted only if it has no symbol, or one that takes one bit. -/
def isUsable (c : Code) : Bool :=
  c.isComplete || c.symbols.isEmpty || (c.symbols.size = 1 && c.counts.head? = some 1)

/-- Reads one symbol. `code` is what is read of its code, `first` the first code of this length,
`index` the number of shorter codes. -/
def readFrom (symbols : Array Nat) :
    List Nat → (code first index : Nat) → Bits → Option (Nat × Bits)
  | [], _, _, _, _ => none
  | count :: counts, code, first, index, bits => do
    let (b, bits) ← bits.next?
    let code := code + b.toNat
    if code < first + count then
      let s ← symbols[index + (code - first)]?
      return (s, bits)
    else readFrom symbols counts (2 * code) (2 * (first + count)) (index + count) bits

def read (c : Code) (bits : Bits) : Option (Nat × Bits) :=
  readFrom c.symbols c.counts 0 0 0 bits

end Code

/-! ### Symbols -/

/-- Base and number of extra bits of the lengths of copies, from symbol 257 on. -/
def copyLengths : List (Nat × Nat) :=
  [(3, 0), (4, 0), (5, 0), (6, 0), (7, 0), (8, 0), (9, 0), (10, 0), (11, 1), (13, 1), (15, 1),
    (17, 1), (19, 2), (23, 2), (27, 2), (31, 2), (35, 3), (43, 3), (51, 3), (59, 3), (67, 4),
    (83, 4), (99, 4), (115, 4), (131, 5), (163, 5), (195, 5), (227, 5), (258, 0)]

/-- Base and number of extra bits of the distances of copies. -/
def copyDistances : List (Nat × Nat) :=
  [(1, 0), (2, 0), (3, 0), (4, 0), (5, 1), (7, 1), (9, 2), (13, 2), (17, 3), (25, 3), (33, 4),
    (49, 4), (65, 5), (97, 5), (129, 6), (193, 6), (257, 7), (385, 7), (513, 8), (769, 8),
    (1025, 9), (1537, 9), (2049, 10), (3073, 10), (4097, 11), (6145, 11), (8193, 12), (12289, 12),
    (16385, 13), (24577, 13)]

/-- The value of a symbol with extra bits. -/
def readExtended (table : List (Nat × Nat)) (i : Nat) (bits : Bits) : Option (Nat × Bits) := do
  let (base, extra) ← table[i]?
  let (n, bits) ← bits.take extra
  return (base + n, bits)

/-- Repeats what stands `distance` bytes before the end; before the start there are zeros. -/
def copyBack (distance : Nat) : (length : Nat) → Array UInt8 → Array UInt8
  | 0, out => out
  | length + 1, out =>
    let b := if distance ≤ out.size then out.getD (out.size - distance) 0 else 0
    copyBack distance length (out.push b)

/-! ### Blocks -/

/-- The codes of a block: for literals and lengths, and for distances. -/
structure Codes where
  literals : Code
  distances : Code

def Codes.fixed : Codes where
  literals :=
    .ofLengths (.replicate 144 8 ++ .replicate 112 9 ++ .replicate 24 7 ++ .replicate 8 8)
  distances := .ofLengths (.replicate 32 5)

/-- The order in which the lengths of the code for lengths are given. -/
def lengthOrder : List Nat :=
  [16, 17, 18, 0, 8, 7, 9, 6, 10, 5, 11, 4, 12, 3, 13, 2, 14, 1, 15]

/-- That many lengths of three bits each. -/
def readLengthLengths : (count : Nat) → Bits → Option (List Nat × Bits)
  | 0, bits => some ([], bits)
  | count + 1, bits => do
    let (n, bits) ← bits.take 3
    let (ns, bits) ← readLengthLengths count bits
    return (n :: ns, bits)

/-- Reads `total` lengths, of which `done` are read, in reverse. Symbols from 16 on repeat. -/
def readLengths (code : Code) (total : Nat) : (fuel : Nat) → (done : List Nat) → Bits →
    Option (List Nat × Bits)
  | 0, _, _ => none
  | fuel + 1, done, bits =>
    if done.length = total then some (done.reverse, bits)
    else if total < done.length then none
    else do
      let (s, bits) ← code.read bits
      if s < 16 then readLengths code total fuel (s :: done) bits
      else if s = 16 then
        let last ← done.head?
        let (n, bits) ← bits.take 2
        readLengths code total fuel (.replicate (3 + n) last ++ done) bits
      else
        let (n, bits) ← bits.take (if s = 17 then 3 else 7)
        let n := n + if s = 17 then 3 else 11
        readLengths code total fuel (.replicate n 0 ++ done) bits

/-- The most symbols that a block may describe codes for. -/
def maxLiterals : Nat := 286

def maxDistances : Nat := 30

/-- The codes that a block describes. -/
def readCodes (bits : Bits) : Option (Codes × Bits) := do
  let (numLiterals, bits) ← bits.take 5
  let (numDistances, bits) ← bits.take 5
  let (numLengths, bits) ← bits.take 4
  let numLiterals := numLiterals + 257
  let numDistances := numDistances + 1
  if maxLiterals < numLiterals ∨ maxDistances < numDistances then none
  let (given, bits) ← readLengthLengths (numLengths + 4) bits
  let lengths := (List.range 19).map fun s =>
    match (lengthOrder.zip given).find? (·.1 = s) with
    | some (_, n) => n
    | none => 0
  let code := Code.ofLengths lengths
  if !code.isComplete then none
  let total := numLiterals + numDistances
  let (all, bits) ← readLengths code total (total + 1) [] bits
  let literals := Code.ofLengths (all.take numLiterals)
  let distances := Code.ofLengths (all.drop numLiterals)
  if !literals.isUsable || !distances.isUsable then none
  return (⟨literals, distances⟩, bits)

/-- A length, its complement, and that many bytes, from the next whole byte on. -/
def readStored (out : Array UInt8) (bits : Bits) : Option (Array UInt8 × Bits) := do
  let (length, bits) ← bits.align.take 16
  let (complement, bits) ← bits.take 16
  if length + complement = 65535 then bits.bytes |> Bits.copyBytes length out else none

/-- Where decoding stands. -/
inductive Place
  /-- Before a block. -/
  | between
  /-- In a block with the given codes. -/
  | inside (codes : Codes) (last : Bool)
  /-- After the last block. -/
  | finished

/-- The head of a block, with the content of a stored one. -/
def readHead (out : Array UInt8) (bits : Bits) : Option (Place × Array UInt8 × Bits) := do
  let (last, bits) ← bits.next?
  let (kind, bits) ← bits.take 2
  match kind with
  | 0 =>
    let (out, bits) ← readStored out bits
    return (if last then .finished else .between, out, bits)
  | 1 => return (.inside .fixed last, out, bits)
  | 2 =>
    let (codes, bits) ← readCodes bits
    return (.inside codes last, out, bits)
  | _ => none

/-- One literal, one copy, or the end of a block. -/
def readSymbol (codes : Codes) (last : Bool) (out : Array UInt8) (bits : Bits) :
    Option (Place × Array UInt8 × Bits) := do
  let (s, bits) ← codes.literals.read bits
  if s < 256 then return (.inside codes last, out.push (.ofNat s), bits)
  else if s = 256 then return (if last then .finished else .between, out, bits)
  else
    let (length, bits) ← readExtended copyLengths (s - 257) bits
    let (d, bits) ← codes.distances.read bits
    let (distance, bits) ← readExtended copyDistances d bits
    return (.inside codes last, copyBack distance length out, bits)

/-- Decodes up to the end of the last block. Every step takes a bit at least. -/
def inflateFrom : (fuel : Nat) → Place → Array UInt8 → Bits → Option (Array UInt8 × Bits)
  | _, .finished, out, bits => some (out, bits)
  | 0, _, _, _ => none
  | fuel + 1, .between, out, bits => do
    let (place, out, bits) ← readHead out bits
    inflateFrom fuel place out bits
  | fuel + 1, .inside codes last, out, bits => do
    let (place, out, bits) ← readSymbol codes last out bits
    inflateFrom fuel place out bits

/-- What the blocks at the start of a byte sequence decode to, and what follows them. -/
def inflate (bytes : List UInt8) : Option (Array UInt8 × Bits) :=
  inflateFrom (8 * bytes.length + 1) .between #[] (.ofBytes bytes)

end SatWalk.Zlib
