import SatWalk.Experiment.Record
import SatWalk.Formula.Generation
import SatWalk.Proofs.Formula.SavedModel
import SatWalk.Proofs.Text.Lines
import SatWalk.Proofs.Zlib.Stored

/-! Records survive being kept. The text of a record, in either spacing, is read back as the record,
and so is every stream that its text can be decoded from. All that is asked of a record is that its
counts are machine words and that each of its other numbers is read as it is written. -/

namespace SatWalk

open Json

/-! ### Copies -/

/-- What is kept of a value gives it again: its text in either spacing, the stream that any encoder
makes of it, and indeed any stream of its text. -/
structure Json.Codec.Survives {α : Type} (c : Codec α) (x : α) : Prop where
  text : c.parse (c.write x) = .ok x
  indented : c.parse (c.writeIndented x) = .ok x
  packed : ∀ encode, Zlib.IsEncoder encode → Zlib.unpack c (Zlib.pack encode c x) = .ok x
  stream : ∀ bytes, Zlib.decompress? bytes = some (Text.toBytes (c.write x)) →
    Zlib.unpack c bytes = .ok x

theorem unpack_of_decompress? {α : Type} {c : Codec α} {x : α} (h : c.parse (c.write x) = .ok x)
    {bytes : List UInt8} (hbytes : Zlib.decompress? bytes = some (Text.toBytes (c.write x))) :
    Zlib.unpack c bytes = .ok x := by
  have htext : Zlib.text? bytes = some (c.write x) :=
    Option.bind_eq_some_iff.2 ⟨_, hbytes, Text.ofBytes?_toBytes _⟩
  rw [Zlib.unpack, htext]
  dsimp only
  rw [h]

theorem survives_of_restores {α : Type} {c : Codec α} {n : ℕ} {x : α} (h : c.Restores n x)
    (hn : n ≤ depthLimit) : c.Survives x where
  text := parse_write h hn
  indented := parse_writeIndented h hn
  packed _ hencode := unpack_of_decompress? (parse_write h hn) (hencode _)
  stream _ := unpack_of_decompress? (parse_write h hn)

/-! ### Settings -/

/-- The counts are machine words. -/
structure Difficulty.Readable (d : Difficulty) : Prop where
  numVariables : d.numVariables < Text.countBound
  numClauses : d.numClauses < Text.countBound
  clauseLength : d.clauseLength < Text.countBound

theorem Difficulty.restores {d : Difficulty} (h : d.Readable) : codec.Restores 1 d :=
  restores_record (by decide)
    ⟨restores_count _ h.numVariables, restores_count _ h.numClauses,
      restores_count _ h.clauseLength, trivial⟩ rfl

theorem TrackerKind.restores {n : ℕ} (k : TrackerKind) : codec.Restores n k :=
  restores_choice (by cases k <;> rfl)

/-- The counts are machine words, and the probability is read as it is written. -/
structure Config.Readable (c : Config) : Prop where
  p : ReadsBack c.p
  maxFlips : c.maxFlips < Text.countBound
  restartFrequency : c.restartFrequency < Text.countBound

theorem Config.restores {c : Config} (h : c.Readable) : codec.Restores 1 c :=
  restores_record (by decide)
    ⟨restores_float h.p, restores_count _ h.maxFlips, restores_count _ h.restartFrequency,
      restores_boolean _, restores_boolean _, c.tracker.restores, trivial⟩ rfl

namespace Experiment

structure Config.Readable (c : Config) : Prop where
  pStart : ReadsBack c.pStart
  pEnd : ReadsBack c.pEnd
  pStep : ReadsBack c.pStep
  maxFlips : c.maxFlips < Text.countBound
  restartFrequency : c.restartFrequency < Text.countBound
  trials : c.trials < Text.countBound
  referenceTimeoutSecs : ∀ secs ∈ c.referenceTimeoutSecs, secs < Text.countBound

theorem Config.restores {c : Config} (h : c.Readable) : codec.Restores 1 c :=
  restores_record (by decide)
    ⟨restores_float h.pStart, restores_float h.pEnd, restores_float h.pStep,
      restores_count _ h.maxFlips, restores_count _ h.restartFrequency, restores_boolean _,
      restores_boolean _, c.tracker.restores, restores_count _ h.trials, restores_string _,
      restores_optional (fun _ _ => restores_string _) (fun _ _ => nofun),
      restores_optional (fun secs hsecs => restores_count _ (h.referenceTimeoutSecs secs hsecs))
        (fun _ _ => nofun), trivial⟩ rfl

end Experiment

/-! ### Results of a search -/

theorem Outcome.restores {n : ℕ} (o : Outcome) : codec.Restores n o :=
  restores_choice (by cases o <;> rfl)

structure Stats.Readable (s : Stats) : Prop where
  greedyPicks : s.greedyPicks < Text.countBound
  randomPicks : s.randomPicks < Text.countBound
  restarts : s.restarts < Text.countBound
  finalP : ReadsBack s.finalP

theorem Stats.restores {s : Stats} (h : s.Readable) : codec.Restores 1 s :=
  restores_record (by decide)
    ⟨restores_count _ h.greedyPicks, restores_count _ h.randomPicks, restores_count _ h.restarts,
      restores_float h.finalP, trivial⟩ rfl

structure RunResult.Readable (r : RunResult) : Prop where
  flips : r.flips < Text.countBound
  stats : r.stats.Readable

theorem RunResult.restores {r : RunResult} (h : r.Readable) : codec.Restores 3 r :=
  restores_record (by decide)
    ⟨r.outcome.restores, restores_count _ h.flips,
      restores_optional (fun a _ => a.restores) (fun _ _ => nofun),
      (Stats.restores h.stats).mono (by decide), trivial⟩ rfl

/-! ### Records of an experiment -/

namespace Experiment

structure RunRecord.Readable (r : RunRecord) : Prop where
  p : ReadsBack r.p
  trial : r.trial < Text.countBound
  flips : r.flips < Text.countBound
  restarts : r.restarts < Text.countBound
  elapsedSecs : ReadsBack r.elapsedSecs

theorem RunRecord.restores {r : RunRecord} (h : r.Readable) : codec.Restores 1 r :=
  restores_record (by decide)
    ⟨restores_string _, restores_float h.p, restores_count _ h.trial, r.outcome.restores,
      restores_count _ h.flips, restores_count _ h.restarts, restores_float h.elapsedSecs,
      trivial⟩ rfl

structure PSummary.Readable (s : PSummary) : Prop where
  p : ReadsBack s.p
  runs : s.runs < Text.countBound
  successes : s.successes < Text.countBound
  successRate : ReadsBack s.successRate
  avgFlips : ReadsBack s.avgFlips
  stdFlips : ReadsBack s.stdFlips
  avgTimeSecs : ReadsBack s.avgTimeSecs

theorem PSummary.restores {s : PSummary} (h : s.Readable) : codec.Restores 1 s :=
  restores_record (by decide)
    ⟨restores_float h.p, restores_count _ h.runs, restores_count _ h.successes,
      restores_float h.successRate, restores_float h.avgFlips, restores_float h.stdFlips,
      restores_float h.avgTimeSecs, trivial⟩ rfl

theorem Verdict.restores {n : ℕ} (v : Verdict) : codec.Restores n v :=
  restores_choice (by cases v <;> rfl)

structure ReferenceRecord.Readable (r : ReferenceRecord) : Prop where
  elapsedSecs : ReadsBack r.elapsedSecs

theorem ReferenceRecord.restores {r : ReferenceRecord} (h : r.Readable) : codec.Restores 1 r :=
  restores_record (by decide)
    ⟨restores_string _, r.status.restores, restores_float h.elapsedSecs, trivial⟩ rfl

structure ReferenceSummary.Readable (s : ReferenceSummary) : Prop where
  runs : s.runs < Text.countBound
  solved : s.solved < Text.countBound
  unsatisfiable : s.unsatisfiable < Text.countBound
  timeouts : s.timeouts < Text.countBound
  unknown : s.unknown < Text.countBound
  successRate : ReadsBack s.successRate
  avgTimeSecs : ReadsBack s.avgTimeSecs

theorem ReferenceSummary.restores {s : ReferenceSummary} (h : s.Readable) : codec.Restores 1 s :=
  restores_record (by decide)
    ⟨restores_count _ h.runs, restores_count _ h.solved, restores_count _ h.unsatisfiable,
      restores_count _ h.timeouts, restores_count _ h.unknown, restores_float h.successRate,
      restores_float h.avgTimeSecs, trivial⟩ rfl

structure ReferenceReport.Readable (r : ReferenceReport) : Prop where
  summary : r.summary.Readable
  runs : ∀ run ∈ r.runs, run.Readable

theorem ReferenceReport.restores {r : ReferenceReport} (h : r.Readable) : codec.Restores 3 r :=
  restores_record (by decide)
    ⟨restores_string _, (ReferenceSummary.restores h.summary).mono (by decide),
      restores_list fun run hrun => ReferenceRecord.restores (h.runs run hrun), trivial⟩ rfl

structure Report.Readable (r : Report) : Prop where
  config : r.config.Readable
  summaries : ∀ s ∈ r.summaries, s.Readable
  runs : ∀ run ∈ r.runs, run.Readable
  reference : ∀ reference ∈ r.reference, reference.Readable

theorem Report.restores {r : Report} (h : r.Readable) : codec.Restores 4 r := by
  have hinstances : (Codec.list .string).Restores 1 r.instances :=
    restores_list fun _ _ => restores_string _
  have hsummaries : (Codec.list PSummary.codec).Restores 2 r.summaries :=
    restores_list fun s hs => PSummary.restores (h.summaries s hs)
  have hruns : (Codec.list RunRecord.codec).Restores 2 r.runs :=
    restores_list fun run hrun => RunRecord.restores (h.runs run hrun)
  exact restores_record (by decide)
    ⟨(Config.restores h.config).mono (by decide), hinstances.mono (by decide),
      hsummaries.mono (by decide), hruns.mono (by decide),
      restores_optional (fun _ hr => ReferenceReport.restores (h.reference _ hr))
        (fun _ _ => nofun), trivial⟩ rfl

end Experiment

/-! ### All records -/

/-- Every record survives. The text of a formula is read back as the formula if the formula is
valid, and is refused with the message of its first fault otherwise. -/
theorem records_survive :
    (∀ a, Assignment.codec.Survives a) ∧
    (∀ d : Difficulty, d.Readable → Difficulty.codec.Survives d) ∧
    (∀ c : Config, c.Readable → Config.codec.Survives c) ∧
    (∀ r : RunResult, r.Readable → RunResult.codec.Survives r) ∧
    (∀ c : Experiment.Config, c.Readable → Experiment.Config.codec.Survives c) ∧
    (∀ r : Experiment.RunRecord, r.Readable → Experiment.RunRecord.codec.Survives r) ∧
    (∀ s : Experiment.PSummary, s.Readable → Experiment.PSummary.codec.Survives s) ∧
    (∀ r : Experiment.ReferenceRecord, r.Readable →
      Experiment.ReferenceRecord.codec.Survives r) ∧
    (∀ r : Experiment.ReferenceReport, r.Readable →
      Experiment.ReferenceReport.codec.Survives r) ∧
    (∀ r : Experiment.Report, r.Readable → Experiment.Report.codec.Survives r) ∧
    ∀ f : Formula, f.FitsWords →
      (f.validate = .ok () → Formula.codec.parse (Formula.codec.write f) = .ok f) ∧
      ∀ e, f.validate = .error e →
        Formula.codec.parse (Formula.codec.write f) = .error (.mismatch (.refused e.message)) := by
  refine ⟨fun a => ?_, fun d h => ?_, fun c h => ?_, fun r h => ?_, fun c h => ?_, fun r h => ?_,
    fun s h => ?_, fun r h => ?_, fun r h => ?_, fun r h => ?_, fun f h =>
      ⟨f.parse_write_of_valid h, fun e => f.parse_write_of_invalid h⟩⟩
  · exact survives_of_restores a.restores (by decide)
  · exact survives_of_restores (Difficulty.restores h) (by decide)
  · exact survives_of_restores (Config.restores h) (by decide)
  · exact survives_of_restores (RunResult.restores h) (by decide)
  · exact survives_of_restores (Experiment.Config.restores h) (by decide)
  · exact survives_of_restores (Experiment.RunRecord.restores h) (by decide)
  · exact survives_of_restores (Experiment.PSummary.restores h) (by decide)
  · exact survives_of_restores (Experiment.ReferenceRecord.restores h) (by decide)
  · exact survives_of_restores (Experiment.ReferenceReport.restores h) (by decide)
  · exact survives_of_restores (Experiment.Report.restores h) (by decide)

open Experiment in
/-- Records whose numbers are all read back, one formula of either kind, and a stream that is
stored. -/
theorem records_survive_tenths :
    Assignment.codec.Survives ⟨#[true, false]⟩ ∧
    Difficulty.codec.Survives ⟨2, 1, 3⟩ ∧
    SatWalk.Config.codec.Survives { p := 0.1 } ∧
    RunResult.codec.Survives ⟨.satisfied, 3, some ⟨#[true]⟩, ⟨1, 2, 0, 0.1⟩⟩ ∧
    Experiment.Config.codec.Survives { seed := "a\n\"b", referenceTimeoutSecs := some 5 } ∧
    RunRecord.codec.Survives ⟨"c", 0.1, 0, .satisfied, 3, 0, 0.1⟩ ∧
    PSummary.codec.Survives ⟨0.1, 1, 1, 1, 1, 0, 0.1⟩ ∧
    ReferenceRecord.codec.Survives ⟨"c", .satisfiable, 0.1⟩ ∧
    ReferenceReport.codec.Survives ⟨"d", ⟨1, 1, 0, 0, 0, 1, 0.1⟩, [⟨"c", .satisfiable, 0.1⟩]⟩ ∧
    Report.codec.Survives ⟨{ seed := "a\n\"b", referenceTimeoutSecs := some 5 }, ["c"],
      [⟨0.1, 1, 1, 1, 1, 0, 0.1⟩], [⟨"c", 0.1, 0, .satisfied, 3, 0, 0.1⟩],
      some ⟨"d", ⟨1, 1, 0, 0, 0, 1, 0.1⟩, [⟨"c", .satisfiable, 0.1⟩]⟩⟩ ∧
    Formula.codec.parse (Formula.codec.write ⟨1, #[[1]]⟩) = .ok ⟨1, #[[1]]⟩ ∧
    Formula.codec.parse (Formula.codec.write ⟨1, #[[]]⟩) =
      .error (.mismatch (.refused "clause 0 is empty")) ∧
    Zlib.unpack Assignment.codec (Zlib.pack Zlib.compress Assignment.codec ⟨#[true, false]⟩) =
      .ok ⟨#[true, false]⟩ := by
  obtain ⟨assignment, difficulty, config, result, experiment, run, summary, referenceRun, reference,
    report, formula⟩ := records_survive
  have hzero : ReadsBack 0 := by decide +kernel
  have htenth : ReadsBack 0.1 := by decide +kernel
  have hone : ReadsBack 1 := by decide +kernel
  have hstats : Stats.Readable ⟨1, 2, 0, 0.1⟩ := ⟨by decide, by decide, by decide, htenth⟩
  have hexperiment : Experiment.Config.Readable
      { seed := "a\n\"b", referenceTimeoutSecs := some 5 } :=
    ⟨hzero, hone, htenth, by decide, by decide, by decide, by decide⟩
  have hrun : RunRecord.Readable ⟨"c", 0.1, 0, .satisfied, 3, 0, 0.1⟩ :=
    ⟨htenth, by decide, by decide, by decide, htenth⟩
  have hsummary : PSummary.Readable ⟨0.1, 1, 1, 1, 1, 0, 0.1⟩ :=
    ⟨htenth, by decide, by decide, hone, hone, hzero, htenth⟩
  have hreferenceRun : ReferenceRecord.Readable ⟨"c", .satisfiable, 0.1⟩ := ⟨htenth⟩
  have hreference : ReferenceReport.Readable
      ⟨"d", ⟨1, 1, 0, 0, 0, 1, 0.1⟩, [⟨"c", .satisfiable, 0.1⟩]⟩ :=
    ⟨⟨by decide, by decide, by decide, by decide, by decide, hone, htenth⟩,
      List.forall_mem_singleton.2 hreferenceRun⟩
  exact ⟨assignment _, difficulty _ ⟨by decide, by decide, by decide⟩,
    config _ ⟨htenth, by decide, by decide⟩, result _ ⟨by decide, hstats⟩, experiment _ hexperiment,
    run _ hrun, summary _ hsummary, referenceRun _ hreferenceRun, reference _ hreference,
    report _ ⟨hexperiment, List.forall_mem_singleton.2 hsummary, List.forall_mem_singleton.2 hrun,
      by rintro _ ⟨⟩; exact hreference⟩,
    (formula _ ⟨by decide, by decide, by decide⟩).1 rfl,
    (formula _ ⟨by decide, by decide, by decide⟩).2 (.emptyClause 0) rfl,
    (assignment _).packed _ Zlib.isEncoder_compress⟩

end SatWalk
