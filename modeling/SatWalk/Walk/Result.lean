import SatWalk.Walk.Config
import SatWalk.Walk.Selector

/-! Outcomes and results of a search, with their JSON form. -/

namespace SatWalk

open Json

def Strategy.codec : Codec Strategy :=
  .choice [("greedy", .greedy), ("random", .random)] Strategy.name

inductive Outcome
  | satisfied
  /-- All flips are spent. -/
  | exhausted
  /-- No variable could be chosen although clauses were unsatisfied. -/
  | inconsistent
  deriving DecidableEq, Repr

namespace Outcome

def name : Outcome → String
  | .satisfied => "satisfied"
  | .exhausted => "exhausted"
  | .inconsistent => "inconsistent"

def codec : Codec Outcome :=
  .choice [("satisfied", .satisfied), ("exhausted", .exhausted), ("inconsistent", .inconsistent)]
    name

end Outcome

structure Stats where
  greedyPicks : Nat := 0
  randomPicks : Nat := 0
  restarts : Nat := 0
  finalP : Float
  deriving DecidableEq, Repr

def Stats.codec : Codec Stats :=
  .record "SolveStats" false
    (.field ⟨"greedy_picks", .count "usize", none, none⟩
      (.field ⟨"random_picks", .count "usize", none, none⟩
        (.field ⟨"restarts", .count "usize", none, none⟩
          (.field ⟨"final_p", .float, none, none⟩ .done))))
    (fun (greedyPicks, randomPicks, restarts, finalP, _) =>
      { greedyPicks, randomPicks, restarts, finalP })
    (fun s => (s.greedyPicks, s.randomPicks, s.restarts, s.finalP, ()))

def Stats.count (s : Stats) : Strategy → Stats
  | .greedy => { s with greedyPicks := s.greedyPicks + 1 }
  | .random => { s with randomPicks := s.randomPicks + 1 }

structure RunResult where
  outcome : Outcome
  flips : Nat
  /-- The solution that was found, if one was. -/
  assignment : Option Assignment
  stats : Stats
  deriving DecidableEq, Repr

def RunResult.isSatisfied (r : RunResult) : Bool :=
  r.outcome = .satisfied

def RunResult.codec : Codec RunResult :=
  .record "RunResult" false
    (.field ⟨"outcome", Outcome.codec, none, none⟩
      (.field ⟨"flips", .count "usize", none, none⟩
        (.field ⟨"assignment", .optional Assignment.codec, some none, none⟩
          (.field ⟨"stats", Stats.codec, none, none⟩ .done))))
    (fun (outcome, flips, assignment, stats, _) => { outcome, flips, assignment, stats })
    (fun r => (r.outcome, r.flips, r.assignment, r.stats, ()))

end SatWalk
