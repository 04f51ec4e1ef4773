import SatWalk.Binary64
import SatWalk.Text.WholeNumber

/-! Decimal text read as the nearest binary number, ties to even. Either side of the point may
be missing but not both; an exponent may follow; the names of infinity and NaN are known in
any case of letters. -/

namespace SatWalk.Decimal

/-- A mantissa without its point, and how many of its digits stood after the point. -/
def readMantissa? (cs : List Char) : Option (Nat × Nat × List Char) :=
  let whole := cs.takeWhile Char.isDigit
  let (fraction, rest) := match cs.dropWhile Char.isDigit with
    | '.' :: more => (more.takeWhile Char.isDigit, more.dropWhile Char.isDigit)
    | more => ([], more)
  (Text.readDigits? (whole ++ fraction)).map fun digits => (digits, fraction.length, rest)

def readExponent? : List Char → Option Int
  | [] => some 0
  | c :: rest =>
    if c = 'e' ∨ c = 'E' then
      match rest with
      | '-' :: digits => (Text.readDigits? digits).map fun n => -Int.ofNat n
      | '+' :: digits => (Text.readDigits? digits).map Int.ofNat
      | digits => (Text.readDigits? digits).map Int.ofNat
    else none

/-- The number nearest to `digits * 10 ^ exponent`. -/
def nearest (digits : Nat) (exponent : Int) : Float :=
  .ofScientific digits (exponent < 0) exponent.natAbs

def readMagnitude? (cs : List Char) : Option Float :=
  let name := cs.map Char.toLower
  if name = "inf".toList ∨ name = "infinity".toList then some (1 / 0)
  else if name = "nan".toList then some (0 / 0)
  else do
    let (digits, places, rest) ← readMantissa? cs
    let exponent ← readExponent? rest
    return nearest digits (exponent - places)

def read? : List Char → Option Float
  | '-' :: cs => (readMagnitude? cs).map (-·)
  | '+' :: cs => readMagnitude? cs
  | cs => readMagnitude? cs

/-- The position of a number in the order of all numbers, read from its text. A minus moves NaN
below all other numbers. -/
def readOrderKey? : List Char → Option Int
  | '-' :: cs => (readMagnitude? cs).map fun x => -1 - Binary64.orderKey x
  | '+' :: cs => (readMagnitude? cs).map Binary64.orderKey
  | cs => (readMagnitude? cs).map Binary64.orderKey

end SatWalk.Decimal
