import SatWalk.Random.Seed
import SatWalk.Random.Source
import SatWalk.Random.WordBlock

/-! The ChaCha stream with twelve rounds as a source of words. Blocks of sixteen words are
numbered from zero; the words are given out in order, so a word of 64 bits is the next
two words, the low one first. -/

namespace SatWalk

structure ChaCha where
  key : Vector UInt32 8
  /-- Number of the next block. -/
  counter : UInt64
  block : WordBlock
  /-- How many words of the block are given out. -/
  used : Nat

namespace ChaCha

/-- The words that every block starts with. -/
def constants : Vector UInt32 4 :=
  #v[0x61707865, 0x3320646e, 0x79622d32, 0x6b206574]

def start (key : Vector UInt32 8) (counter : UInt64) : WordBlock :=
  constants ++ key ++ #v[counter.toUInt32, (counter >>> 32).toUInt32, 0, 0]

/-- Two rounds, one down the columns and one along the diagonals, without further words. -/
def doubleRound (m : WordBlock) : WordBlock :=
  m.mixAll rotateLeft Lane.all (.replicate 16 0)

def blockAt (key : Vector UInt32 8) (counter : UInt64) : WordBlock :=
  let m := start key counter
  m.zipWith (· + ·) (Nat.repeat doubleRound 6 m)

def ofSeed (seed : Seed) : ChaCha where
  key := .ofFn fun i => seed.word32 i
  counter := 0
  block := .replicate 16 0
  used := 16

def next (s : ChaCha) : UInt32 × ChaCha :=
  if h : s.used < 16 then (s.block[s.used], { s with used := s.used + 1 })
  else
    let block := blockAt s.key s.counter
    (WordBlock.head block, { s with counter := s.counter + 1, block, used := 1 })

/-- The patience is a limit of this library's: a draw that refuses 4096 words in a row counts
as exhausted, also where a later word would be acceptable. -/
instance : Source ChaCha where
  word32 := next
  word64 s :=
    let (low, s) := s.next
    let (high, s) := s.next
    (low.toUInt64 ||| (high.toUInt64 <<< 32), s)
  patience := 4096

/-- A fresh seed from the low bytes of the next 32 words. -/
def seedOnto : (count : Nat) → (done : List UInt8) → ChaCha → List UInt8
  | 0, done, _ => done.reverse
  | count + 1, done, s =>
    let (w, s) := s.next
    seedOnto count (w.toUInt8 :: done) s

theorem length_seedOnto (count : Nat) (done : List UInt8) (s : ChaCha) :
    (seedOnto count done s).length = done.length + count := by
  induction count generalizing done s with
  | zero => simp [seedOnto]
  | succ count ih => simp [seedOnto, ih]; omega

def drawSeed (s : ChaCha) : Seed :=
  ⟨⟨(seedOnto 32 [] s).toArray, by simp [length_seedOnto]⟩⟩

end ChaCha

end SatWalk
