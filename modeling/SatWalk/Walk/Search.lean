import SatWalk.Walk.Event
import SatWalk.Walk.Gate
import SatWalk.Walk.RestartClock
import SatWalk.Walk.Tracker

/-! One search over a formula. Every word that is drawn has a fixed purpose in a fixed order:
first the initial assignment; then in each step the gate, the choice of a variable and,
when a restart period is complete, every value anew. -/

namespace SatWalk

/-- What stays the same during a search. -/
structure Problem (ω : Type) where
  formula : Formula
  config : Config
  tracker : Tracker ω

/-- What changes from step to step. -/
structure Search (ω σ : Type) where
  assignment : Assignment
  tracked : ω
  selector : Selector
  gate : Gate
  clock : RestartClock
  source : σ
  flips : Nat
  stats : Stats
  finished : Option Outcome
  /-- What happened so far, the latest last. -/
  events : Array Event

inductive Step
  | flipped (var : Nat) (strategy : Strategy) (restarted : Bool)
  | finished (outcome : Outcome)
  deriving DecidableEq, Repr

namespace Search

variable {ω σ : Type}

/-- A search that starts from the given assignment. -/
def ofAssignment (t : Problem ω) (a : Assignment) (source : σ) : Checked (Search ω σ) := do
  let tracked ← t.tracker.build t.formula a
  let selector ← Selector.ofVariables t.formula.numVariables
  return {
    assignment := a, tracked, selector, source
    gate := ⟨t.config.p, t.config.adaptiveP⟩
    clock := { frequency := t.config.restartInterval }
    flips := 0
    stats := { finalP := t.config.p }
    finished := none
    events := #[] }

def checkProblem (t : Problem ω) : Except Config.Error Unit :=
  match t.formula.validate with
  | .error e => .error (.formula e)
  | .ok () => t.config.validate

/-- A search that starts from a drawn assignment. -/
def start [Source σ] (t : Problem ω) (source : σ) : Attempt Config.Error (Search ω σ) := do
  ExceptT.mk (.ok (checkProblem t))
  let (a, source) ← (Assignment.draw t.formula.numVariables source : Checked _)
  ofAssignment t a source

/-- A search that starts from given values. -/
def startFrom (t : Problem ω) (values : Array Bool) (source : σ) :
    Attempt Config.Error (Search ω σ) := do
  ExceptT.mk (.ok (checkProblem t))
  if values.size ≠ t.formula.numVariables then
    throw (.assignmentLength t.formula.numVariables values.size)
  ofAssignment t ⟨values⟩ source

/-- Ends the search. -/
def finish (outcome : Outcome) (s : Search ω σ) : Step × Search ω σ :=
  (.finished outcome,
    { s with finished := some outcome, events := s.events.push (.finished outcome s.flips) })

def report (e : Event) (s : Search ω σ) : Search ω σ :=
  { s with events := s.events.push e }

/-- Flips the chosen variable, and draws a new assignment if a period is complete. -/
def flip [Source σ] (t : Problem ω) (var : Nat) (strategy : Strategy) (s : Search ω σ) :
    Checked (Step × Search ω σ) := do
  let { assignment, tracked, selector, gate, clock, source, flips, stats, finished, events } := s
  let assignment ← assignment.flip var
  let flips := flips + 1
  let stats := stats.count strategy
  let events := events.push (.flipped flips var strategy)
  let (restarted, clock) := clock.tick
  if restarted then
    let (assignment, source) := assignment.redraw source
    let tracked ← t.tracker.rebuild t.formula assignment tracked
    let stats := { stats with restarts := stats.restarts + 1 }
    let events := events.push (.restarted stats.restarts flips gate.p)
    return (.flipped var strategy true,
      { assignment, tracked, selector, gate, clock, source, flips, stats, finished, events })
  else
    let tracked ← t.tracker.recordFlip t.formula assignment var tracked
    return (.flipped var strategy false,
      { assignment, tracked, selector, gate, clock, source, flips, stats, finished, events })

/-- Lets the gate and the selector choose a variable for the listed clauses. -/
def choose [Source σ] (t : Problem ω) (unsatisfied : Array Nat) (s : Search ω σ) :
    Checked ((Option Nat × Strategy) × Search ω σ) := do
  let { assignment, tracked, selector, gate, clock, source, flips, stats, finished, events } := s
  let gate := gate.adjust unsatisfied.size t.formula.numVariables
  let (strategy, source) := gate.draw source
  let ((pick, selector), source) ← selector.select strategy t.formula unsatisfied source
  return ((pick, strategy),
    { assignment, tracked, selector, gate, clock, source, flips, stats, finished, events })

/-- One step. A finished search stays as it is. -/
def step [Source σ] (t : Problem ω) (s : Search ω σ) : Checked (Step × Search ω σ) :=
  match s.finished with
  | some outcome => .ok (.finished outcome, s)
  | none =>
    if t.tracker.isSatisfied s.tracked then .ok (s.finish .satisfied)
    else
      let unsatisfied := t.tracker.unsatisfied s.tracked
      if unsatisfied.isEmpty then .ok ((s.report .emptyList).finish .satisfied)
      else do
        match ← s.choose t unsatisfied with
        | ((none, strategy), s) =>
          return (s.report (.noCandidate strategy unsatisfied.size)).finish .inconsistent
        | ((some v, strategy), s) => s.flip t v strategy

def result (outcome : Outcome) (s : Search ω σ) : RunResult where
  outcome := outcome
  flips := s.flips
  assignment := if outcome = .satisfied then some s.assignment else none
  stats := { s.stats with finalP := s.gate.p }

/-- What is left to say when all flips are spent. The last of them may have led to a solution. -/
def exhaust (t : Problem ω) (s : Search ω σ) : RunResult × Search ω σ :=
  let outcome : Outcome := if t.tracker.isSatisfied s.tracked then .satisfied else .exhausted
  (s.result outcome, s.report (.budgetSpent t.config.maxFlips outcome))

/-- Steps until the search finishes, `budget` times at most. -/
def run [Source σ] (t : Problem ω) : (budget : Nat) → Search ω σ → Checked (RunResult × Search ω σ)
  | 0, s => .ok (s.exhaust t)
  | budget + 1, s => do
    match ← s.step t with
    | (.finished outcome, s) => return (s.result outcome, s)
    | (.flipped .., s) => run t budget s

/-- Spends the flips that are left. -/
def solve [Source σ] (t : Problem ω) (s : Search ω σ) : Checked (RunResult × Search ω σ) :=
  run t (t.config.maxFlips - s.flips) s

end Search

/-- The result of a search with the given tracker. -/
def solveWith {ω σ : Type} [Source σ] (tracker : Tracker ω) (f : Formula) (c : Config)
    (source : σ) : Attempt Config.Error RunResult := do
  let t : Problem ω := ⟨f, c, tracker⟩
  let s ← Search.start t source
  return (← s.solve t).1

/-- The result of a search with the tracker that the settings name. -/
def solve {σ : Type} [Source σ] (f : Formula) (c : Config) (source : σ) :
    Attempt Config.Error RunResult :=
  match c.tracker with
  | .scan => solveWith .scan f c source
  | .incremental => solveWith .incremental f c source

end SatWalk
