import SatWalk.Experiment.Record
import SatWalk.Walk.Search

/-! Running an experiment: every formula with every probability of the grid, so often as the
settings say. Runs do not depend on each other. What a seed makes of a source of random words is
up to the generator, and the seconds that a run takes are no part of the computation; both
are given from outside. -/

namespace SatWalk.Experiment

structure Job where
  inst : String
  formula : Formula
  p : Float
  trial : Nat

/-- The seconds that each job takes. -/
abbrev Stopwatch := Job → Float

inductive Error
  | config (cause : Config.Error)
  | noInstances
  | search (cause : SatWalk.Config.Error)
  deriving DecidableEq, Repr

def Error.message : Error → String
  | .config cause => cause.message
  | .noInstances => "No instances to run"
  | .search cause => cause.message

/-- A run that finds no solution counts with all its flips. -/
def countedFlips (c : Config) (r : RunResult) : Nat :=
  match r.outcome with
  | .satisfied => r.flips
  | .exhausted | .inconsistent => c.maxFlips

variable {σ : Type} [Source σ]

/-- Runs one job, on the source that its seed stands for. -/
def runSingle (seeded : Seed → σ) (c : Config) (watch : Stopwatch) (j : Job) :
    Attempt Error RunRecord := do
  let source := seeded (c.runSeed j.inst j.p j.trial)
  let r ← (solve j.formula (c.searchConfig j.p) source).adapt .search
  return {
    inst := j.inst
    p := j.p
    trial := j.trial
    outcome := r.outcome
    flips := countedFlips c r
    restarts := r.stats.restarts
    elapsedSecs := watch j }

/-- All jobs, by formula, then by probability, then by trial. -/
def jobs (c : Config) (grid : List Float) (instances : List (String × Formula)) : List Job :=
  instances.flatMap fun (inst, formula) =>
    grid.flatMap fun p => (List.range c.trials).map fun trial => ⟨inst, formula, p, trial⟩

def summarizeOne (runs : List RunRecord) (p : Float) : PSummary :=
  let runs := runs.filter (·.p == p)
  let successes := runs.countP (·.isSuccess)
  let flips := Statistics.ofValues (runs.map fun r => .ofNat r.flips)
  let times := Statistics.ofValues (runs.map (·.elapsedSecs))
  { p
    runs := runs.length
    successes
    successRate := Statistics.percentage successes runs.length
    avgFlips := flips.mean
    stdFlips := flips.stdDev
    avgTimeSecs := times.mean }

def summarize (runs : List RunRecord) (grid : List Float) : List PSummary :=
  grid.map (summarizeOne runs)

/-- Runs the jobs in order, up to the first that fails. -/
def runJobs (seeded : Seed → σ) (c : Config) (watch : Stopwatch) :
    List Job → (done : List RunRecord) → Attempt Error (List RunRecord)
  | [], done => return done.reverse
  | j :: js, done => do runJobs seeded c watch js ((← runSingle seeded c watch j) :: done)

def run (seeded : Seed → σ) (c : Config) (watch : Stopwatch)
    (instances : List (String × Formula)) : Attempt Error Report := do
  match c.validate with
  | .error e => throw (.config e)
  | .ok () =>
    if instances.isEmpty then throw .noInstances
    let grid ← (c.pValues : Checked _)
    (reserve (instances.length * grid.length * c.trials) 24 : Checked _)
    let runs ← runJobs seeded c watch (jobs c grid instances) []
    return {
      config := c
      instances := instances.map (·.1)
      summaries := summarize runs grid
      runs
      reference := none }

end SatWalk.Experiment
