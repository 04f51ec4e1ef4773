import SatWalk.Formula.Json

/-! Settings of a search, their JSON form and their limits. -/

namespace SatWalk

/-- How unsatisfied clauses are tracked. -/
inductive TrackerKind
  | scan
  | incremental
  deriving DecidableEq, Repr

namespace TrackerKind

def name : TrackerKind → String
  | .scan => "scan"
  | .incremental => "incremental"

def all : List (String × TrackerKind) :=
  [("scan", .scan), ("incremental", .incremental)]

def ofName? (name : String) : Option TrackerKind :=
  (all.find? (·.1 = name)).map (·.2)

def unknownMessage (name : String) : String :=
  "Unknown oracle '" ++ name ++ "'. Expected 'scan' or 'incremental'"

def codec : Json.Codec TrackerKind :=
  .choice all name

end TrackerKind

structure Config where
  p : Float := 0.5
  maxFlips : Nat := 10000
  restartFrequency : Nat := 1000
  restarts : Bool := true
  adaptiveP : Bool := false
  tracker : TrackerKind := .incremental
  deriving DecidableEq, Repr, Inhabited

namespace Config

inductive Error
  | probability (p : Float)
  | maxFlips
  | restartFrequency
  | assignmentLength (expected actual : Nat)
  | formula (cause : Formula.Error)
  deriving DecidableEq, Repr

def Error.message : Error → String
  | .probability p =>
    "p must lie within [0, 1], got " ++ String.ofList (Decimal.plain.write p)
  | .maxFlips => "max_flips must be positive"
  | .restartFrequency => "restart_frequency must be positive when restarts are enabled"
  | .assignmentLength expected actual =>
    "initial assignment has " ++ toString actual ++ " values but the formula declares " ++
      toString expected ++ " variables"
  | .formula cause => "invalid formula: " ++ cause.message

def validate (c : Config) : Except Error Unit :=
  if ¬ (0 ≤ c.p ∧ c.p ≤ 1) then .error (.probability c.p)
  else if c.maxFlips = 0 then .error .maxFlips
  else if c.restarts ∧ c.restartFrequency = 0 then .error .restartFrequency
  else .ok ()

/-- Flips between restarts, if there are restarts. -/
def restartInterval (c : Config) : Option Nat :=
  if c.restarts then some c.restartFrequency else none

open Json in
def codec : Codec Config :=
  let d : Config := {}
  .record "SolverConfig" true
    (.field (.orElse "p" .float d.p)
      (.field (.orElse "max_flips" (.count "usize") d.maxFlips)
        (.field (.orElse "restart_frequency" (.count "usize") d.restartFrequency)
          (.field (.orElse "restarts" .boolean d.restarts)
            (.field (.orElse "adaptive_p" .boolean d.adaptiveP)
              (.field (.orElse "oracle" TrackerKind.codec d.tracker) .done))))))
    (fun (p, maxFlips, restartFrequency, restarts, adaptiveP, tracker, _) =>
      { p, maxFlips, restartFrequency, restarts, adaptiveP, tracker })
    (fun c => (c.p, c.maxFlips, c.restartFrequency, c.restarts, c.adaptiveP, c.tracker, ()))

end Config

end SatWalk
