import SatWalk.Random.Seed
import SatWalk.Random.WordBlock

/-! The BLAKE3 digest of a byte sequence. The input is cut into chunks of 1024 bytes, each of
them into blocks of 64; chunks are the leaves of a binary tree whose left subtrees are
complete. The 32 bytes of the root make a seed. -/

namespace SatWalk.Blake3

abbrev Chain := Vector UInt32 8

/-- The first half of the initial words, which also stands in the middle of every block. -/
def initialHalf : Vector UInt32 4 :=
  #v[0x6a09e667, 0xbb67ae85, 0x3c6ef372, 0xa54ff53a]

def initial : Chain :=
  initialHalf ++ (#v[0x510e527f, 0x9b05688c, 0x1f83d9ab, 0x5be0cd19] : Vector UInt32 4)

/-- Where the words of a message stand in the next round. -/
def schedule : Vector (Fin 16) 16 :=
  Vector.map WordBlock.place #v[2, 6, 3, 10, 7, 0, 4, 13, 1, 11, 12, 5, 9, 14, 15, 8]

def permute (m : WordBlock) : WordBlock :=
  schedule.map m.get

def round (m v : WordBlock) : WordBlock :=
  v.mixAll rotateRight Lane.all m.toList

/-- That many rounds, the message being permuted between them. -/
def rounds : (count : Nat) → (m v : WordBlock) → WordBlock
  | 0, _, v => v
  | count + 1, m, v => rounds count (permute m) (round m v)

/-- What a block is compressed with, apart from its words. -/
structure Position where
  counter : Nat
  length : Nat
  flags : UInt32

def chunkStart : UInt32 := 1
def chunkEnd : UInt32 := 2
def parent : UInt32 := 4
def root : UInt32 := 8

def compress (chain : Chain) (m : WordBlock) (p : Position) : Chain :=
  let counter : UInt64 := .ofNat p.counter
  let v : WordBlock := chain ++ initialHalf ++
    #v[counter.toUInt32, (counter >>> 32).toUInt32, .ofNat p.length, p.flags]
  let v := rounds 7 m v
  .ofFn fun i => v[i.castAdd 8] ^^^ v[i.natAdd 8]

/-- The words of a block, which is filled up with zeros. -/
def wordsOf (bytes : List UInt8) : WordBlock :=
  .ofFn fun i => .ofNat (Seed.littleEndian ((bytes.drop (4 * i)).take 4))

/-- The blocks of a chunk, one after the other. `final` marks the last block of the root. -/
def chunkBlocks (counter : Nat) (final : UInt32) :
    (fuel : Nat) → (first : UInt32) → Chain → List UInt8 → Chain
  | 0, _, chain, _ => chain
  | fuel + 1, first, chain, bytes =>
    if bytes.length ≤ 64 then
      compress chain (wordsOf bytes) ⟨counter, bytes.length, first ||| chunkEnd ||| final⟩
    else
      chunkBlocks counter final fuel 0
        (compress chain (wordsOf (bytes.take 64)) ⟨counter, 64, first⟩) (bytes.drop 64)

def chunk (counter : Nat) (final : UInt32) (bytes : List UInt8) : Chain :=
  chunkBlocks counter final 17 chunkStart initial bytes

/-- How many chunks go to the left: the greatest power of two below their number. -/
def leftChunks (chunks : Nat) : Nat :=
  1 <<< (chunks - 1).log2

/-- The tree over the chunks from number `counter` on. -/
def tree (counter : Nat) (final : UInt32) : (fuel : Nat) → List UInt8 → Chain
  | 0, _ => initial
  | fuel + 1, bytes =>
    if bytes.length ≤ 1024 then chunk counter final bytes
    else
      let left := leftChunks ((bytes.length + 1023) / 1024)
      let a := tree counter 0 fuel (bytes.take (1024 * left))
      let b := tree (counter + left) 0 fuel (bytes.drop (1024 * left))
      compress initial (.ofFn fun i => if h : i.val < 8 then a[i.val] else b[i.val - 8])
        ⟨0, 64, parent ||| final⟩

def chainBytes (chain : Chain) : List UInt8 :=
  chain.toList.flatMap fun w => Seed.toLittleEndian 4 w.toNat

theorem length_chainBytes (chain : Chain) : (chainBytes chain).length = 32 := by
  have (ws : List UInt32) :
      (ws.flatMap fun w => Seed.toLittleEndian 4 w.toNat).length = 4 * ws.length := by
    induction ws with
    | nil => rfl
    | cons w ws ih => simp [ih, Seed.length_toLittleEndian]; omega
  simp [chainBytes, this]

def digest (bytes : List UInt8) : Seed :=
  let chain := tree 0 root (bytes.length + 1) bytes
  ⟨⟨(chainBytes chain).toArray, by simp [length_chainBytes]⟩⟩

end SatWalk.Blake3

namespace SatWalk

/-- The seed that a text stands for. -/
def Seed.ofText (text : String) : Seed :=
  Blake3.digest text.toUTF8.data.toList

end SatWalk
