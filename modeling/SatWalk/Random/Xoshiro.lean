import SatWalk.Random.Seed
import SatWalk.Random.Source

/-! The generator xoshiro256++ as a source of words. Words of 32 bits are the high halves of
its words of 64 bits. -/

namespace SatWalk

structure Xoshiro where
  a : UInt64
  b : UInt64
  c : UInt64
  d : UInt64
  deriving DecidableEq, Repr

namespace Xoshiro

def rotate (w turn : UInt64) : UInt64 :=
  (w <<< turn) ||| (w >>> (64 - turn))

/-! ### Seeding -/

/-- What the state of an expansion grows by with each word. -/
def expandStep : UInt64 := 0x9e3779b97f4a7c15

def expandOutput (state : UInt64) : UInt64 :=
  let z := (state ^^^ (state >>> 30)) * 0xbf58476d1ce4e5b9
  let z := (z ^^^ (z >>> 27)) * 0x94d049bb133111eb
  z ^^^ (z >>> 31)

/-- The state that a small seed is expanded to. -/
def ofNat (n : Nat) : Xoshiro :=
  let word (i : UInt64) := expandOutput (.ofNat n + i * expandStep)
  ⟨word 1, word 2, word 3, word 4⟩

/-- The bytes of the seed are the state. Zeros would stay zeros for ever, so they stand for the
expansion of zero. -/
def ofSeed (seed : Seed) : Xoshiro :=
  if seed.bytes.toList.all (· == 0) then .ofNat 0
  else ⟨seed.word64 0, seed.word64 1, seed.word64 2, seed.word64 3⟩

/-! ### Words -/

def next (s : Xoshiro) : UInt64 × Xoshiro :=
  let result := rotate (s.a + s.d) 23 + s.a
  let c := s.c ^^^ s.a
  let d := s.d ^^^ s.b
  (result, ⟨s.a ^^^ d, s.b ^^^ c, c ^^^ (s.b <<< 17), rotate d 45⟩)

/-- The patience is a limit of this library's: a draw that refuses 4096 words in a row counts
as exhausted, also where a later word would be acceptable. -/
instance : Source Xoshiro where
  word32 s :=
    let (w, s) := s.next
    ((w >>> 32).toUInt32, s)
  word64 := next
  patience := 4096

end Xoshiro

end SatWalk
