/-! Counts the flips since the assignment was last drawn, and tells when to draw it again. -/

namespace SatWalk

structure RestartClock where
  /-- Flips between restarts; none means no restarts. -/
  frequency : Option Nat
  sinceRestart : Nat := 0
  deriving DecidableEq, Repr

/-- Counts a flip; true if it completes a period, and then counting starts again. -/
def RestartClock.tick (c : RestartClock) : Bool × RestartClock :=
  let since := c.sinceRestart + 1
  match c.frequency with
  | some frequency =>
    if frequency ≤ since then (true, { c with sinceRestart := 0 })
    else (false, { c with sinceRestart := since })
  | none => (false, { c with sinceRestart := since })

end SatWalk
