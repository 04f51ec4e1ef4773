import SatWalk.Experiment.Config
import SatWalk.Walk.Result

/-! Records of an experiment: its runs, a summary for each probability, and what a reference
program made of the same files. -/

namespace SatWalk.Experiment

open Json

structure RunRecord where
  inst : String
  p : Float
  trial : Nat
  outcome : Outcome
  flips : Nat
  restarts : Nat
  elapsedSecs : Float
  deriving DecidableEq, Repr

namespace RunRecord

def isSuccess (r : RunRecord) : Bool :=
  r.outcome = .satisfied

def codec : Codec RunRecord :=
  .record "RunRecord" false
    (.field ⟨"instance", .string, none, none⟩
      (.field ⟨"p", .float, none, none⟩
        (.field ⟨"trial", .count "usize", none, none⟩
          (.field ⟨"outcome", Outcome.codec, none, none⟩
            (.field ⟨"flips", .count "usize", none, none⟩
              (.field ⟨"restarts", .count "usize", none, none⟩
                (.field ⟨"elapsed_secs", .float, none, none⟩ .done)))))))
    (fun (inst, p, trial, outcome, flips, restarts, elapsedSecs, _) =>
      { inst, p, trial, outcome, flips, restarts, elapsedSecs })
    (fun r => (r.inst, r.p, r.trial, r.outcome, r.flips, r.restarts, r.elapsedSecs, ()))

end RunRecord

/-- What the runs with one probability come to. -/
structure PSummary where
  p : Float
  runs : Nat
  successes : Nat
  successRate : Float
  avgFlips : Float
  stdFlips : Float
  avgTimeSecs : Float
  deriving DecidableEq, Repr

def PSummary.codec : Codec PSummary :=
  .record "PSummary" false
    (.field ⟨"p", .float, none, none⟩
      (.field ⟨"runs", .count "usize", none, none⟩
        (.field ⟨"successes", .count "usize", none, none⟩
          (.field ⟨"success_rate", .float, none, none⟩
            (.field ⟨"avg_flips", .float, none, none⟩
              (.field ⟨"std_flips", .float, none, none⟩
                (.field ⟨"avg_time_secs", .float, none, none⟩ .done)))))))
    (fun (p, runs, successes, successRate, avgFlips, stdFlips, avgTimeSecs, _) =>
      { p, runs, successes, successRate, avgFlips, stdFlips, avgTimeSecs })
    (fun s => (s.p, s.runs, s.successes, s.successRate, s.avgFlips, s.stdFlips, s.avgTimeSecs, ()))

/-- What a reference program says of a formula. -/
inductive Verdict
  | satisfiable
  | unsatisfiable
  | unknown
  | timeout
  deriving DecidableEq, Repr

namespace Verdict

def name : Verdict → String
  | .satisfiable => "satisfiable"
  | .unsatisfiable => "unsatisfiable"
  | .unknown => "unknown"
  | .timeout => "timeout"

def codec : Codec Verdict :=
  .choice [("satisfiable", .satisfiable), ("unsatisfiable", .unsatisfiable),
    ("unknown", .unknown), ("timeout", .timeout)] name

end Verdict

structure ReferenceRecord where
  inst : String
  status : Verdict
  elapsedSecs : Float
  deriving DecidableEq, Repr

def ReferenceRecord.codec : Codec ReferenceRecord :=
  .record "ReferenceRecord" false
    (.field ⟨"instance", .string, none, none⟩
      (.field ⟨"status", Verdict.codec, none, none⟩
        (.field ⟨"elapsed_secs", .float, none, none⟩ .done)))
    (fun (inst, status, elapsedSecs, _) => { inst, status, elapsedSecs })
    (fun r => (r.inst, r.status, r.elapsedSecs, ()))

structure ReferenceSummary where
  runs : Nat
  solved : Nat
  unsatisfiable : Nat
  timeouts : Nat
  unknown : Nat
  successRate : Float
  avgTimeSecs : Float
  deriving DecidableEq, Repr

def ReferenceSummary.codec : Codec ReferenceSummary :=
  .record "ReferenceSummary" false
    (.field ⟨"runs", .count "usize", none, none⟩
      (.field ⟨"solved", .count "usize", none, none⟩
        (.field ⟨"unsatisfiable", .count "usize", none, none⟩
          (.field ⟨"timeouts", .count "usize", none, none⟩
            (.field ⟨"unknown", .count "usize", none, none⟩
              (.field ⟨"success_rate", .float, none, none⟩
                (.field ⟨"avg_time_secs", .float, none, none⟩ .done)))))))
    (fun (runs, solved, unsatisfiable, timeouts, unknown, successRate, avgTimeSecs, _) =>
      { runs, solved, unsatisfiable, timeouts, unknown, successRate, avgTimeSecs })
    (fun s => (s.runs, s.solved, s.unsatisfiable, s.timeouts, s.unknown, s.successRate,
      s.avgTimeSecs, ()))

structure ReferenceReport where
  solver : String
  summary : ReferenceSummary
  runs : List ReferenceRecord
  deriving DecidableEq, Repr

def ReferenceReport.codec : Codec ReferenceReport :=
  .record "ReferenceReport" false
    (.field ⟨"solver", .string, none, none⟩
      (.field ⟨"summary", ReferenceSummary.codec, none, none⟩
        (.field ⟨"runs", .list ReferenceRecord.codec, none, none⟩ .done)))
    (fun (solver, summary, runs, _) => { solver, summary, runs })
    (fun r => (r.solver, r.summary, r.runs, ()))

structure Report where
  config : Config
  instances : List String
  summaries : List PSummary
  runs : List RunRecord
  reference : Option ReferenceReport
  deriving DecidableEq, Repr

namespace Report

def codec : Codec Report :=
  .record "ExperimentReport" false
    (.field ⟨"config", Config.codec, none, none⟩
      (.field ⟨"instances", .list .string, none, none⟩
        (.field ⟨"summaries", .list PSummary.codec, none, none⟩
          (.field ⟨"runs", .list RunRecord.codec, none, none⟩
            (.field (.orElse "reference" (.optional ReferenceReport.codec) none) .done)))))
    (fun (config, instances, summaries, runs, reference, _) =>
      { config, instances, summaries, runs, reference })
    (fun r => (r.config, r.instances, r.summaries, r.runs, r.reference, ()))

end Report

/-! ### The best summary -/

/-- What summaries are compared by: the positions of the success rate and of the average flips
in the order of all numbers. -/
structure Standing where
  rate : Int
  flips : Int
  deriving DecidableEq, Repr

/-- Whether `b` does at least as well as `a`: more successes, or as many with fewer flips. -/
def Standing.atLeast (b a : Standing) : Bool :=
  a.rate < b.rate || (a.rate = b.rate && b.flips ≤ a.flips)

def PSummary.standing (s : PSummary) : Standing where
  rate := Binary64.orderKey s.successRate
  flips := Binary64.orderKey s.avgFlips

/-- The index of the best standing, the last of equally good ones. -/
def bestIndexFrom : (best : Standing × Nat) → (index : Nat) → List Standing → Nat
  | best, _, [] => best.2
  | best, index, s :: rest =>
    bestIndexFrom (if s.atLeast best.1 then (s, index) else best) (index + 1) rest

def bestIndex? : List Standing → Option Nat
  | [] => none
  | s :: rest => some (bestIndexFrom (s, 0) 1 rest)

/-- The best summary. -/
def best? (summaries : List PSummary) : Option PSummary := do
  summaries[← bestIndex? (summaries.map PSummary.standing)]?

end SatWalk.Experiment
