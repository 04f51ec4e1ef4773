import SatWalk.Binary64

/-! The shortest decimal that reads back as a given number: of all grids `10 ^ k`, the
coarsest one with a point in the interval of reals that round to the number is used, and
on it the point nearest to the number. Where two points are equally near, a rule for ties
decides. Everything is exact arithmetic on naturals. -/

namespace SatWalk

/-- The value `digits * 10 ^ exponent`. -/
structure Decimal where
  digits : Nat
  exponent : Int
  deriving DecidableEq, Repr

namespace Decimal

/-- Which of two equally near points is taken. -/
inductive Tie
  /-- The one with an even last digit. -/
  | even
  /-- The one further from zero. -/
  | away
  deriving DecidableEq, Repr

/-- The point to take halfway between `below` and `below + 1`. -/
def Tie.pick (t : Tie) (below : Nat) : Nat :=
  match t with
  | .even => below + below % 2
  | .away => below + 1

/-- The reals that round to a magnitude, in units of `2 ^ scale`: from `low` to `high`, the ends
included exactly if `closed`. -/
structure Interval where
  low : Nat
  centre : Nat
  high : Nat
  scale : Int
  closed : Bool
  deriving DecidableEq, Repr

/-- The gap below a power of two is half the gap above it, except at the bottom of the range. -/
def Interval.of (m : Binary64.Magnitude) : Interval where
  low := if m.mantissa = Binary64.leadingBit ∧ m.exponent ≠ -1074 then 4 * m.mantissa - 1
    else 4 * m.mantissa - 2
  centre := 4 * m.mantissa
  high := 4 * m.mantissa + 2
  scale := m.exponent - 2
  closed := m.mantissa % 2 == 0

/-- The natural numbers `a` and `b` with `2 ^ scale / 10 ^ k = a / b`. -/
def gridRatio (scale k : Int) : Nat × Nat :=
  (Nat.pow 10 (-k).toNat <<< scale.toNat, Nat.pow 10 k.toNat <<< (-scale).toNat)

/-- Whether the point `c` of a grid, whose step is `b / a` units, lies in the interval. -/
def Interval.holds (i : Interval) (a b c : Nat) : Bool :=
  let point := c * b
  if i.closed then i.low * a ≤ point && point ≤ i.high * a
  else i.low * a < point && point < i.high * a

/-- The best point of the grid `10 ^ k`, if one lies in the interval. -/
def Interval.onGrid? (t : Tie) (i : Interval) (k : Int) : Option Nat :=
  let (a, b) := gridRatio i.scale k
  let below := i.centre * a / b
  match i.holds a b below, i.holds a b (below + 1) with
  | true, true =>
    let twice := 2 * (i.centre * a)
    let middle := (2 * below + 1) * b
    if twice < middle then some below
    else if middle < twice then some (below + 1)
    else some (t.pick below)
  | true, false => some below
  | false, true => some (below + 1)
  | false, false => none

/-- Tries ever finer grids, `tries` of them. -/
def Interval.search (t : Tie) (i : Interval) : (tries : Nat) → Int → Decimal
  | 0, k => ⟨0, k⟩
  | tries + 1, k =>
    match i.onGrid? t k with
    | some c => ⟨c, k⟩
    | none => i.search t tries (k - 1)

/-- An exponent `k` such that `10 ^ k` lies above the interval. -/
def Interval.coarsest (i : Interval) : Int :=
  ((i.high.log2 : Int) + 1 + i.scale) * 30103 / 100000 + 1

/-- The shortest decimal of a positive finite number; zero for zero. -/
def shortest (t : Tie) (x : Float) : Decimal :=
  let m := Binary64.magnitude x
  if m.mantissa = 0 then ⟨0, 0⟩
  else
    let i := Interval.of m
    i.search t 24 i.coarsest

end Decimal

end SatWalk
