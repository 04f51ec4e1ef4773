import SatWalk.Decimal.Shortest
import SatWalk.Text.WholeNumber

/-! Written forms of the shortest decimal. A layout says from which to which leading
exponent digits stand in their places around a point; beyond, one digit stands before the
point and the exponent follows with its sign. -/

namespace SatWalk.Decimal

structure Layout where
  /-- Least and greatest leading exponent written in places; none means all. -/
  placed : Option (Int × Int)
  /-- Whether a whole number written in places ends in a point and a zero. -/
  pointed : Bool
  tie : Tie
  notANumber : String
  infinity : String

def Layout.places (l : Layout) (leading : Int) : Bool :=
  match l.placed with
  | none => true
  | some (least, greatest) => least ≤ leading && leading ≤ greatest

/-- Digits in their places. -/
def placedDigits (l : Layout) (digits : List Char) (exponent : Int) : List Char :=
  if 0 ≤ exponent then
    digits ++ List.replicate exponent.toNat '0' ++ (if l.pointed then ['.', '0'] else [])
  else
    let places := (-exponent).toNat
    let padded := List.replicate (places + 1 - digits.length) '0' ++ digits
    padded.take (padded.length - places) ++ '.' :: padded.drop (padded.length - places)

/-- One digit, a point if more follow, and the exponent of the first digit. -/
def scientificDigits (digits : List Char) (leading : Int) : List Char :=
  let rest := digits.drop 1
  digits.take 1 ++ (if rest = [] then [] else '.' :: rest) ++ ['e'] ++
    (if leading < 0 then ['-'] else ['+']) ++ Text.writeNatural leading.natAbs

def Layout.magnitude (l : Layout) (d : Decimal) : List Char :=
  let digits := Text.writeNatural d.digits
  let leading := d.exponent + digits.length - 1
  if l.places leading then placedDigits l digits d.exponent else scientificDigits digits leading

def Layout.write (l : Layout) (x : Float) : List Char :=
  if x.isNaN then l.notANumber.toList
  else
    (if Binary64.isNegative x then ['-'] else []) ++
      if x.isFinite then l.magnitude (shortest l.tie x) else l.infinity.toList

/-- Numbers in messages: digits in their places, a whole number without a point, a tie away
from zero. -/
def plain : Layout where
  placed := none
  pointed := false
  tie := .away
  notANumber := "NaN"
  infinity := "inf"

/-! ### Fixed places -/

/-- The nearest natural to `num / den`, a tie going to the even one. -/
def roundEven (num den : Nat) : Nat :=
  let below := num / den
  if 2 * (num % den) < den then below
  else if den < 2 * (num % den) then below + 1
  else below + below % 2

/-- Written with the given number of places after the point; the sign is always kept. -/
def fixed (places : Nat) (x : Float) : List Char :=
  if x.isNaN then plain.notANumber.toList
  else
    (if Binary64.isNegative x then ['-'] else []) ++
      if x.isFinite then
        let (num, den) := (Binary64.magnitude x).ratio
        let digits := Text.padNatural (places + 1) (roundEven (num * Nat.pow 10 places) den)
        digits.take (digits.length - places) ++
          (if places = 0 then [] else '.' :: digits.drop (digits.length - places))
      else plain.infinity.toList

end SatWalk.Decimal
