import SatWalk.Formula.Basic
import SatWalk.Random.Source

/-! Choice of the variable to flip, among the variables of the unsatisfied clauses. Candidates
are listed in ascending order, so the choice depends on the set of clauses and on the
draw only. The counts are cleared after each choice and serve the next one. -/

namespace SatWalk

inductive Strategy
  | greedy
  | random
  deriving DecidableEq, Repr

def Strategy.name : Strategy → String
  | .greedy => "greedy"
  | .random => "random"

/-- Only what outlives a choice is kept. The greedy pool is made anew for each choice and is not
looked at after it, so it is no part of a selector. -/
structure Selector where
  /-- How often each variable occurs, by number, in 32 bits; zero between choices. -/
  counts : Array Nat
  touched : Array Nat
  deriving DecidableEq, Repr, Inhabited

namespace Selector

def ofVariables (numVariables : Nat) : Checked Selector := do
  if Text.countBound ≤ numVariables + 1 then throw .arithmeticOverflow
  reserve (numVariables + 1) 4
  return ⟨.replicate (numVariables + 1) 0, #[]⟩

/-- Counts the variables of one clause. -/
def tallyClause : Clause → Selector → Checked Selector
  | [], t => .ok t
  | l :: ls, ⟨counts, touched⟩ => do
    let v := Literal.var l
    let count ← fetch counts v
    let touched := if count = 0 then touched.push v else touched
    tallyClause ls ⟨← store counts v (← increment size32 count), touched⟩

/-- Counts the variables of the listed clauses; stops at a number that no clause has. -/
def tallyClauses (f : Formula) : List Nat → Selector → Checked (Bool × Selector)
  | [], t => .ok (true, t)
  | clause :: rest, t =>
    match f.clauses[clause]? with
    | none => .ok (false, t)
    | some c => do tallyClauses f rest (← tallyClause c t)

/-- Sets the counts of the listed variables back to zero. -/
def clear : List Nat → Array Nat → Checked (Array Nat)
  | [], counts => .ok counts
  | v :: vs, counts => do clear vs (← store counts v 0)

def reset (t : Selector) : Checked Selector := do
  let ⟨counts, touched⟩ := t
  return ⟨← clear touched.toList counts, touched⟩

/-- Counts from scratch. A list with a number that no clause has leaves cleared counts. -/
def tally (f : Formula) (unsatisfied : Array Nat) (t : Selector) : Checked (Bool × Selector) := do
  let (known, t) ← tallyClauses f unsatisfied.toList { t with touched := #[] }
  if known then
    let ⟨counts, touched⟩ := t
    return (true, ⟨counts, (touched.toList.mergeSort (· ≤ ·)).toArray⟩)
  else return (false, ← t.reset)

/-- The candidates of a strategy: all counted variables, or those that occur most often. -/
def pool (strategy : Strategy) (t : Selector) : Array Nat :=
  match strategy with
  | .random => t.touched
  | .greedy =>
    let count (v : Nat) : Nat := t.counts.getD v 0
    let most := t.touched.foldl (fun m v => max m (count v)) 0
    t.touched.filter fun v => count v = most

variable {σ : Type} [Source σ]

def select (strategy : Strategy) (f : Formula) (unsatisfied : Array Nat) (t : Selector) (s : σ) :
    Checked ((Option Nat × Selector) × σ) := do
  let (known, t) ← t.tally f unsatisfied
  if known then
    let (pick, s) ← Draw.choose (t.pool strategy) s
    return ((pick, ← t.reset), s)
  else return ((none, t), s)

end Selector

end SatWalk
