import SatWalk.Binary64
import SatWalk.Random.Source
import SatWalk.Walk.Selector

/-! The gate between the strategies: greedy with probability `p`. An adaptive gate raises `p`
while more than three tenths of the number of variables are unsatisfied clauses, and
lowers it below one tenth. -/

namespace SatWalk

structure Gate where
  p : Float
  adaptive : Bool
  deriving DecidableEq, Repr

namespace Gate

def adaptStep : Float := 0.05

/-- Product of two counts, cut off at the greatest count. -/
def cutProduct (m n : Nat) : Nat :=
  min (m * n) (Text.countBound - 1)

def adjust (g : Gate) (unsatisfied numVariables : Nat) : Gate :=
  if !g.adaptive then g
  else
    let scaled := cutProduct unsatisfied 10
    if cutProduct numVariables 3 < scaled then
      { g with p := Binary64.smaller (g.p + adaptStep) 1 }
    else if scaled < numVariables then
      { g with p := Binary64.larger (g.p - adaptStep) 0 }
    else g

def draw {σ : Type} [Source σ] (g : Gate) (s : σ) : Strategy × σ :=
  let (x, s) := Draw.unit s
  (if x < g.p then .greedy else .random, s)

end Gate

end SatWalk
