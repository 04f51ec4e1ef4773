import SatWalk.Experiment.Record
import SatWalk.Files.Host
import SatWalk.Text.Blank

/-! Comparison with a reference program, which gets one formula file at a time and tells its
verdict in its output. A program that takes too long is stopped. -/

namespace SatWalk.Experiment

/-- Whether a text contains another one. -/
def contains (part : List Char) : List Char → Bool
  | [] => part.isEmpty
  | c :: cs => part.isPrefixOf (c :: cs) || contains part cs

/-- The verdict in an output; a denial contains the word of an affirmation. -/
def classify (output : String) : Verdict :=
  if contains "UNSAT".toList output.toList then .unsatisfiable
  else if contains "SATISFIABLE".toList output.toList then .satisfiable
  else .unknown

inductive ReferenceError
  | notStarted (solver : String) (cause : StartError)
  | notText
  deriving DecidableEq, Repr

def ReferenceError.message : ReferenceError → String
  | .notStarted solver cause => "Failed to start '" ++ solver ++ "': " ++ cause.message
  | .notText => "stream did not contain valid UTF-8"

/-- A file is known by its name alone, or by its whole path if that has no name at its end. -/
def referenceName (path : String) : String :=
  (Files.fileName? path).getD path

def recordOf (path : String) (limit : Nat) (r : Reply) :
    Except ReferenceError ReferenceRecord :=
  match Text.ofBytes? r.output with
  | none => .error .notText
  | some output =>
    .ok {
      inst := referenceName path
      status := if r.isLate limit then .timeout else classify output
      elapsedSecs := r.elapsedSecs }

def summarizeReference (runs : List ReferenceRecord) : ReferenceSummary :=
  let count (v : Verdict) : Nat := runs.countP (·.status = v)
  { runs := runs.length
    solved := count .satisfiable
    unsatisfiable := count .unsatisfiable
    timeouts := count .timeout
    unknown := count .unknown
    successRate := Statistics.percentage (count .satisfiable) runs.length
    avgTimeSecs := (Statistics.ofValues (runs.map (·.elapsedSecs))).mean }

variable {m : Type → Type} [Monad m]

def consultAll (h : Host m) (solver : String) (limit : Nat) :
    List String → ExceptT ReferenceError m (List ReferenceRecord)
  | [] => return []
  | path :: rest => do
    match ← h.consult solver path with
    | .error e => throw (.notStarted solver e)
    | .ok reply =>
      let r ← ExceptT.mk (pure (recordOf path limit reply))
      return r :: (← consultAll h solver limit rest)

/-- Runs the program on each file in turn, for at most `limit` milliseconds each. -/
def runReferences (h : Host m) (solver : String) (paths : List String) (limit : Nat) :
    ExceptT ReferenceError m ReferenceReport := do
  let runs ← consultAll h solver limit paths
  return { solver, summary := summarizeReference runs, runs }

end SatWalk.Experiment
