import SatWalk.Binary64
import SatWalk.Json.Codec

/-! Descriptive statistics of samples, computed in one pass over the values in order. -/

namespace SatWalk

structure Statistics where
  count : Nat
  mean : Float
  /-- Standard deviation of the values as a whole population. -/
  stdDev : Float
  min : Float
  max : Float
  deriving DecidableEq, Repr

namespace Statistics

/-- The mean moves towards each value by its share. -/
def meanStep (state : Float × Float) (x : Float) : Float × Float :=
  let (n, mean) := state
  let n := n + 1
  (n, mean + (x - mean) / n)

def meanOf (xs : List Float) : Float :=
  (xs.foldl meanStep (0, 0)).2

/-- Number of values, their sum, and the sum of squared deviations. -/
structure Spread where
  n : Float
  sum : Float
  squares : Float

def Spread.step (s : Spread) (x : Float) : Spread :=
  let n := s.n + 1
  let sum := s.sum + x
  let d := n * x - sum
  ⟨n, sum, s.squares + d * d / (n * (n - 1))⟩

def stdDevOf (first : Float) (rest : List Float) : Float :=
  let s := rest.foldl Spread.step ⟨1, first, 0⟩
  (s.squares / s.n).sqrt

/-- The least value; NaN replaces what came before it and is not replaced. -/
def leastOf (first : Float) (rest : List Float) : Float :=
  rest.foldl (fun least x => if x < least ∨ x.isNaN then x else least) first

/-- The greatest value, NaN as for the least. -/
def greatestOf (first : Float) (rest : List Float) : Float :=
  rest.foldl (fun greatest x => if greatest < x ∨ x.isNaN then x else greatest) first

/-- All zero for no values. -/
def ofValues : List Float → Statistics
  | [] => ⟨0, 0, 0, 0, 0⟩
  | first :: rest =>
    { count := rest.length + 1
      mean := meanOf (first :: rest)
      stdDev := stdDevOf first rest
      min := leastOf first rest
      max := greatestOf first rest }

open Json in
def codec : Codec Statistics :=
  .record "Summary" false
    (.field ⟨"count", .count "usize", none, none⟩
      (.field ⟨"mean", .float, none, none⟩
        (.field ⟨"std_dev", .float, none, none⟩
          (.field ⟨"min", .float, none, none⟩
            (.field ⟨"max", .float, none, none⟩ .done)))))
    (fun (count, mean, stdDev, min, max, _) => { count, mean, stdDev, min, max })
    (fun s => (s.count, s.mean, s.stdDev, s.min, s.max, ()))

/-- A share of a whole in percent; zero of an empty whole. -/
def percentage (part whole : Nat) : Float :=
  if whole = 0 then 0 else .ofNat part / .ofNat whole * 100

/-- Rounds to a number of decimal places, a half going away from zero. -/
def roundTo (x : Float) (places : Int) : Float :=
  let power := Binary64.power 10 places.natAbs
  let scale := if 0 ≤ places then power else 1 / power
  Binary64.roundAway (x * scale) / scale

end Statistics

end SatWalk
