/-! Binary floating-point numbers taken apart: sign, magnitude as `mantissa * 2 ^ exponent`,
whole part, rounding of a half away from zero, and an order on all numbers. -/

namespace SatWalk.Binary64

structure Magnitude where
  mantissa : Nat
  exponent : Int
  deriving DecidableEq, Repr

/-- The bit of the sign, above all others. -/
def signBit : Nat := 0x8000000000000000

/-- The bit before those of the fraction. -/
def leadingBit : Nat := 0x10000000000000

def isNegative (x : Float) : Bool :=
  signBit ≤ x.toBits.toNat

/-- The magnitude of a finite number. -/
def magnitude (x : Float) : Magnitude :=
  let bits := x.toBits.toNat % signBit
  let fraction := bits % leadingBit
  match bits / leadingBit with
  | 0 => ⟨fraction, -1074⟩
  | field => ⟨leadingBit + fraction, (field : Int) - 1075⟩

/-- Numerator and denominator of the magnitude. -/
def Magnitude.ratio (m : Magnitude) : Nat × Nat :=
  if 0 ≤ m.exponent then (m.mantissa <<< m.exponent.toNat, 1)
  else (m.mantissa, 1 <<< (-m.exponent).toNat)

/-- The number of the given size with the sign of `x`. -/
def withSignOf (x size : Float) : Float :=
  if isNegative x then -size else size

/-- Numbers that are already whole, among them all that are too large for a fraction,
and those without a value. -/
def isWhole (x : Float) : Bool :=
  !x.isFinite || 0 ≤ (magnitude x).exponent

/-- The greatest whole number that is not above `x`. -/
def floor (x : Float) : Float :=
  if isWhole x then x
  else
    let (num, den) := (magnitude x).ratio
    withSignOf x (.ofNat (if isNegative x then (num + den - 1) / den else num / den))

/-- The nearest whole number, a half going away from zero. -/
def roundAway (x : Float) : Float :=
  if isWhole x then x
  else
    let (num, den) := (magnitude x).ratio
    withSignOf x (.ofNat ((2 * num + den) / (2 * den)))

/-- Position in the order of all numbers: negative zero is below zero, NaN above infinity. The
position of the negative of a number at `k` is `-1 - k`. -/
def orderKey (x : Float) : Int :=
  let bits : Int := x.toBits.toNat
  if bits < signBit then bits else signBit - 1 - bits

/-- The smaller number; NaN yields to a number. -/
def smaller (x y : Float) : Float :=
  if x.isNaN then y else if y < x then y else x

/-- The larger number; NaN yields to a number. -/
def larger (x y : Float) : Float :=
  if x.isNaN then y else if x < y then y else x

/-- The whole part as a count, cut off at both ends of the range of counts; NaN counts as zero. -/
def toCount (x : Float) : Nat :=
  x.toUInt64.toNat

/-- The number `10 ^ k`, correctly rounded. -/
def powerOfTen (k : Nat) : Float :=
  .ofScientific 1 false k

/-- Multiplies the squares `x`, `x ^ 2`, `x ^ 4`, … that the bits of `k` select onto `product`,
from the lowest bit on. Each product is rounded. -/
def powerOnto (product x : Float) (k : Nat) : Float :=
  let product := if k % 2 = 1 then product * x else product
  if k < 2 then product else powerOnto product (x * x) (k / 2)
termination_by k
decreasing_by omega

/-- The number `x ^ k` by repeated squaring. -/
def power (x : Float) (k : Nat) : Float :=
  powerOnto 1 x k

end SatWalk.Binary64
