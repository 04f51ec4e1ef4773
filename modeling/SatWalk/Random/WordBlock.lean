/-! Blocks of sixteen words of 32 bits, seen as a square of four rows. Mixing works on four
places at a time: down the columns first, then along the diagonals. -/

namespace SatWalk

abbrev WordBlock := Vector UInt32 16

/-- Four places of a block. -/
structure Lane where
  a : Fin 16
  b : Fin 16
  c : Fin 16
  d : Fin 16
  deriving DecidableEq, Repr

def Lane.columns : List Lane :=
  [⟨0, 4, 8, 12⟩, ⟨1, 5, 9, 13⟩, ⟨2, 6, 10, 14⟩, ⟨3, 7, 11, 15⟩]

def Lane.diagonals : List Lane :=
  [⟨0, 5, 10, 15⟩, ⟨1, 6, 11, 12⟩, ⟨2, 7, 8, 13⟩, ⟨3, 4, 9, 14⟩]

def Lane.all : List Lane := columns ++ diagonals

def rotateLeft (w turn : UInt32) : UInt32 :=
  (w <<< turn) ||| (w >>> (32 - turn))

def rotateRight (w turn : UInt32) : UInt32 :=
  (w >>> turn) ||| (w <<< (32 - turn))

namespace WordBlock

/-- The place with the given number. -/
def place (i : Nat) : Fin 16 :=
  .ofNat 16 i

def head (m : WordBlock) : UInt32 :=
  m.get (place 0)

def put (m : WordBlock) (i : Fin 16) (w : UInt32) : WordBlock :=
  m.set i w

/-- Mixes four places with each other and with two more words. -/
def mix (rotate : UInt32 → UInt32 → UInt32) (l : Lane) (x y : UInt32) (m : WordBlock) :
    WordBlock :=
  let a := m.get l.a + m.get l.b + x
  let d := rotate (m.get l.d ^^^ a) 16
  let c := m.get l.c + d
  let b := rotate (m.get l.b ^^^ c) 12
  let a := a + b + y
  let d := rotate (d ^^^ a) 8
  let c := c + d
  let b := rotate (b ^^^ c) 7
  (((m.put l.a a).put l.b b).put l.c c).put l.d d

/-- Mixes lane after lane, each with the next two words. -/
def mixAll (rotate : UInt32 → UInt32 → UInt32) : List Lane → List UInt32 → WordBlock → WordBlock
  | l :: ls, x :: y :: ws, m => mixAll rotate ls ws (m.mix rotate l x y)
  | _, _, m => m

end WordBlock

end SatWalk
