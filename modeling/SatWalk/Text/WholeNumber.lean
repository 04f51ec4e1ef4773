/-! Whole numbers in decimal text. Writing uses the fewest digits. Reading takes any
number of leading zeros and one sign: a plus always, a minus only where negative numbers
are in range. -/

namespace SatWalk.Text

def writeNatural (n : Nat) : List Char :=
  Nat.toDigits 10 n

def writeInteger : Int → List Char
  | .ofNat n => writeNatural n
  | .negSucc n => '-' :: writeNatural (n + 1)

/-- The number that a nonempty run of decimal digits stands for. -/
def readDigits? (cs : List Char) : Option Nat :=
  if cs ≠ [] ∧ cs.all Char.isDigit then some (Nat.ofDigitChars 10 cs 0) else none

/-- Reads a natural number below `bound`. -/
def readNatural? (bound : Nat) (cs : List Char) : Option Nat := do
  let n ← match cs with
    | '+' :: digits => readDigits? digits
    | digits => readDigits? digits
  if n < bound then some n else none

/-- Reads an integer from `-bound` up to, but not including, `bound`. -/
def readInteger? (bound : Nat) (cs : List Char) : Option Int := do
  let z ← match cs with
    | '+' :: digits => (readDigits? digits).map Int.ofNat
    | '-' :: digits => (readDigits? digits).map fun n => -Int.ofNat n
    | digits => (readDigits? digits).map Int.ofNat
  if -(bound : Int) ≤ z ∧ z < bound then some z else none

/-- One more than the largest count: counts have 64 bits. -/
def countBound : Nat := 0x10000000000000000

/-- Bound on the size of a literal, which has 32 bits with its sign. -/
def literalBound : Nat := 0x80000000

/-- Written with at least `width` digits. -/
def padNatural (width n : Nat) : List Char :=
  let digits := writeNatural n
  List.replicate (width - digits.length) '0' ++ digits

def hexDigit (n : Nat) : Char :=
  Nat.digitChar (n % 16)

def hexOfBytes (bytes : List UInt8) : List Char :=
  bytes.flatMap fun b => [hexDigit (b.toNat / 16), hexDigit b.toNat]

def hexValue? (c : Char) : Option Nat :=
  if c.isDigit then some (c.toNat - 48)
  else if 'a' ≤ c ∧ c ≤ 'f' then some (c.toNat - 87)
  else if 'A' ≤ c ∧ c ≤ 'F' then some (c.toNat - 55)
  else none

/-- The bytes that pairs of hexadecimal digits stand for. -/
def bytesOfHex? : List Char → Option (List UInt8)
  | [] => some []
  | [_] => none
  | a :: b :: rest => do
    let high ← hexValue? a
    let low ← hexValue? b
    return UInt8.ofNat (16 * high + low) :: (← bytesOfHex? rest)

end SatWalk.Text
