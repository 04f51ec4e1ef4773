import SatWalk.Walk.Result

/-! What a search reports of its progress. -/

namespace SatWalk

def Strategy.title : Strategy → String
  | .greedy => "Greedy"
  | .random => "Random"

def Outcome.title : Outcome → String
  | .satisfied => "Satisfied"
  | .exhausted => "Exhausted"
  | .inconsistent => "Inconsistent"

inductive Event
  | flipped (flips var : Nat) (strategy : Strategy)
  | restarted (restarts flips : Nat) (p : Float)
  | finished (outcome : Outcome) (flips : Nat)
  | budgetSpent (maxFlips : Nat) (outcome : Outcome)
  /-- The tracker denied satisfaction but listed no clause. -/
  | emptyList
  | noCandidate (strategy : Strategy) (unsatisfied : Nat)
  deriving DecidableEq, Repr

namespace Event

inductive Level
  | trace
  | debug
  | warn
  deriving DecidableEq, Repr

def Level.name : Level → String
  | .trace => "TRACE"
  | .debug => "DEBUG"
  | .warn => "WARN"

def level : Event → Level
  | .flipped .. => .trace
  | .restarted .. | .finished .. | .budgetSpent .. => .debug
  | .emptyList | .noCandidate .. => .warn

def message : Event → String
  | .flipped flips v strategy =>
    "flip " ++ toString flips ++ ": variable " ++ toString v ++ " (" ++ strategy.title ++ ")"
  | .restarted restarts flips p =>
    "restart " ++ toString restarts ++ " after " ++ toString flips ++ " flips, p = " ++
      String.ofList (Decimal.plain.write p)
  | .finished outcome flips => outcome.title ++ " after " ++ toString flips ++ " flips"
  | .budgetSpent maxFlips outcome =>
    "budget of " ++ toString maxFlips ++ " flips spent: " ++ outcome.title
  | .emptyList => "oracle reported an unsatisfied formula without unsatisfied clauses"
  | .noCandidate strategy unsatisfied =>
    strategy.title ++ " selector found no candidate among " ++ toString unsatisfied ++
      " unsatisfied clauses"

end Event

end SatWalk
