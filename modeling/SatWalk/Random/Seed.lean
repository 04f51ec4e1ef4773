import SatWalk.Text.WholeNumber

/-! Seeds are 32 bytes. A small seed is expanded by a linear congruential generator whose
output is shifted and rotated. -/

namespace SatWalk

structure Seed where
  bytes : Vector UInt8 32

namespace Seed

def ofBytes? (bytes : List UInt8) : Option Seed :=
  if h : bytes.length = 32 then some ⟨⟨bytes.toArray, by simpa using h⟩⟩ else none

/-- The number that bytes stand for, the lowest first. -/
def littleEndian (bytes : List UInt8) : Nat :=
  bytes.foldr (fun b n => b.toNat + 256 * n) 0

/-- The bytes of a number, the lowest first. -/
def toLittleEndian : (count : Nat) → Nat → List UInt8
  | 0, _ => []
  | count + 1, n => UInt8.ofNat n :: toLittleEndian count (n / 256)

/-- The `i`-th word of 32 bits. -/
def word32 (s : Seed) (i : Nat) : UInt32 :=
  .ofNat (littleEndian ((s.bytes.toList.drop (4 * i)).take 4))

/-- The `i`-th word of 64 bits. -/
def word64 (s : Seed) (i : Nat) : UInt64 :=
  .ofNat (littleEndian ((s.bytes.toList.drop (8 * i)).take 8))

def hex (s : Seed) : String :=
  String.ofList (Text.hexOfBytes s.bytes.toList)

def expandStep (state : UInt64) : UInt64 :=
  state * 6364136223846793005 + 11634580027462260723

def expandOutput (state : UInt64) : UInt32 :=
  let mixed := (((state >>> 18) ^^^ state) >>> 27).toUInt32
  let turn := (state >>> 59).toUInt32
  (mixed >>> turn) ||| (mixed <<< ((32 - turn) % 32))

def expand : (count : Nat) → UInt64 → List UInt8
  | 0, _ => []
  | count + 1, state =>
    let state := expandStep state
    toLittleEndian 4 (expandOutput state).toNat ++ expand count state

theorem length_toLittleEndian (count n : Nat) : (toLittleEndian count n).length = count := by
  induction count generalizing n with
  | zero => rfl
  | succ count ih => simp [toLittleEndian, ih]

theorem length_expand (count : Nat) (state : UInt64) :
    (expand count state).length = 4 * count := by
  induction count generalizing state with
  | zero => rfl
  | succ count ih => simp [expand, ih, length_toLittleEndian]; omega

def ofNat (n : Nat) : Seed :=
  ⟨⟨(expand 8 (.ofNat n)).toArray, by simp [length_expand]⟩⟩

end Seed

end SatWalk
