/-! The Adler-32 checksum: the sum of the bytes plus one, and the sum of these sums, both modulo
the largest prime below `2 ^ 16`. -/

namespace SatWalk.Zlib

def adlerModulus : Nat := 65521

def adlerStep (sums : Nat × Nat) (b : UInt8) : Nat × Nat :=
  let low := (sums.1 + b.toNat) % adlerModulus
  (low, (sums.2 + low) % adlerModulus)

def adler32 (bytes : List UInt8) : Nat :=
  let (low, high) := bytes.foldl adlerStep (1, 0)
  high * 65536 + low

/-- The four bytes of a checksum, the highest first. -/
def bigEndian (n : Nat) : List UInt8 :=
  [.ofNat (n / 16777216), .ofNat (n / 65536), .ofNat (n / 256), .ofNat n]

end SatWalk.Zlib
