import SatWalk.Digest.Blake3
import SatWalk.Statistics
import SatWalk.Walk.Config

/-! Settings of an experiment: a grid of probabilities, the settings of each search, and how
often each search is repeated. Every run has its own seed, which depends on all of
the settings. -/

namespace SatWalk.Experiment

structure Config where
  pStart : Float := 0
  pEnd : Float := 1
  pStep : Float := 0.1
  maxFlips : Nat := 10000
  restartFrequency : Nat := 1000
  restarts : Bool := true
  adaptiveP : Bool := false
  tracker : TrackerKind := .incremental
  trials : Nat := 1
  seed : String := ""
  referenceSolver : Option String := none
  referenceTimeoutSecs : Option Nat := none
  deriving DecidableEq, Repr, Inhabited

namespace Config

open Json in
def codec : Codec Config :=
  let d : Config := {}
  .record "ExperimentConfig" true
    (.field (.orElse "p_start" .float d.pStart)
      (.field (.orElse "p_end" .float d.pEnd)
        (.field (.orElse "p_step" .float d.pStep)
          (.field (.orElse "max_flips" (.count "usize") d.maxFlips)
            (.field (.orElse "restart_frequency" (.count "usize") d.restartFrequency)
              (.field (.orElse "restarts" .boolean d.restarts)
                (.field (.orElse "adaptive_p" .boolean d.adaptiveP)
                  (.field (.orElse "oracle" TrackerKind.codec d.tracker)
                    (.field (.orElse "trials" (.count "usize") d.trials)
                      (.field (.orElse "seed" .string d.seed)
                        (.field (.orElse "reference_solver" (.optional .string) none)
                          (.field (.orElse "reference_timeout_secs"
                            (.optional (.count "u64")) none) .done))))))))))))
    (fun (pStart, pEnd, pStep, maxFlips, restartFrequency, restarts, adaptiveP, tracker, trials,
        seed, referenceSolver, referenceTimeoutSecs, _) =>
      { pStart, pEnd, pStep, maxFlips, restartFrequency, restarts, adaptiveP, tracker, trials,
        seed, referenceSolver, referenceTimeoutSecs })
    (fun c => (c.pStart, c.pEnd, c.pStep, c.maxFlips, c.restartFrequency, c.restarts, c.adaptiveP,
      c.tracker, c.trials, c.seed, c.referenceSolver, c.referenceTimeoutSecs, ()))

/-- The settings of a search with probability `p`. -/
def searchConfig (c : Config) (p : Float) : SatWalk.Config where
  p := p
  maxFlips := c.maxFlips
  restartFrequency := c.restartFrequency
  restarts := c.restarts
  adaptiveP := c.adaptiveP
  tracker := c.tracker

inductive Error
  | step (pStep : Float)
  | range (pStart pEnd : Float)
  | order (pStart pEnd : Float)
  | trials
  | referenceTimeout
  | search (cause : SatWalk.Config.Error)
  deriving DecidableEq, Repr

def Error.message : Error → String
  | .step pStep => "p_step must be positive, got " ++ String.ofList (Decimal.plain.write pStep)
  | .range pStart pEnd =>
    "p range [" ++ String.ofList (Decimal.plain.write pStart) ++ ", " ++
      String.ofList (Decimal.plain.write pEnd) ++ "] must lie within [0, 1]"
  | .order pStart pEnd =>
    "p_start (" ++ String.ofList (Decimal.plain.write pStart) ++ ") is greater than p_end (" ++
      String.ofList (Decimal.plain.write pEnd) ++ ")"
  | .trials => "trials must be positive"
  | .referenceTimeout => "reference_timeout_secs must be positive"
  | .search cause => cause.message

def inUnit (x : Float) : Prop := 0 ≤ x ∧ x ≤ 1

instance (x : Float) : Decidable (inUnit x) := by unfold inUnit; infer_instance

def validate (c : Config) : Except Error Unit :=
  if ¬ 0 < c.pStep then .error (.step c.pStep)
  else if ¬ inUnit c.pStart ∨ ¬ inUnit c.pEnd then .error (.range c.pStart c.pEnd)
  else if c.pEnd < c.pStart then .error (.order c.pStart c.pEnd)
  else if c.trials = 0 then .error .trials
  else if c.referenceTimeoutSecs = some 0 then .error .referenceTimeout
  else
    match (c.searchConfig c.pStart).validate with
    | .error e => .error (.search e)
    | .ok () => .ok ()

/-- The grid point after `i` steps, rounded to two decimal places and cut off at one. -/
def gridPoint (c : Config) (i : Nat) : Float :=
  Binary64.smaller (Statistics.roundTo (c.pStart + .ofNat i * c.pStep) 2) 1

/-- Keeps the first of equal neighbours. -/
def dropRepeats : List Float → List Float
  | x :: y :: rest =>
    if x == y then dropRepeats (x :: rest) else x :: dropRepeats (y :: rest)
  | xs => xs
termination_by xs => xs.length

/-- How many whole steps fit between the ends, a tiny shortfall being forgiven. -/
def stepCount (c : Config) : Nat :=
  Binary64.toCount (Binary64.floor ((c.pEnd - c.pStart) / c.pStep + 1e-9))

/-- The probabilities of the experiment, from the first to the last in whole steps. -/
def pValues (c : Config) : Checked (List Float) :=
  if ¬ 0 < c.pStep ∨ c.pEnd < c.pStart then .ok []
  else do
    let count := c.stepCount + 1
    reserve count 8
    return dropRepeats ((List.range count).map c.gridPoint)

def defaultReferenceTimeoutSecs : Nat := 300

def referenceTimeout (c : Config) : Nat :=
  c.referenceTimeoutSecs.getD defaultReferenceTimeoutSecs

/-- The text whose digest seeds one run. -/
def seedKey (c : Config) (inst : String) (p : Float) (trial : Nat) : String :=
  codec.write c ++ "|" ++ inst ++ "|" ++ String.ofList (Decimal.fixed 2 p) ++ "|" ++ toString trial

def runSeed (c : Config) (inst : String) (p : Float) (trial : Nat) : Seed :=
  .ofText (c.seedKey inst p trial)

end Config

end SatWalk.Experiment
