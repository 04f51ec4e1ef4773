import SatWalk.Proofs.Experiment.Runs
import Mathlib.Algebra.BigOperators.Group.List.Basic

/-! The summaries of an experiment. The probabilities of a grid differ from each other as
numbers, so each run counts for one of them, and the summaries divide the runs among them. -/

namespace SatWalk

/-! ### Shares in percent -/

section Shares

open Binary64

theorem Statistics.percentage_bounds {part whole : ℕ} (hle : part ≤ whole)
    (hfit : whole ≤ memoryLimit) : 0 ≤ percentage part whole ∧ percentage part whole ≤ 100 := by
  unfold percentage
  split_ifs with hzero
  · exact ⟨by decide, by decide⟩
  obtain ⟨hshare, hone⟩ := share_bounds (Nat.pos_of_ne_zero hzero) hle (hfit.trans (by decide))
  have hraises := raises_mul (c := 100) (by decide) (by decide)
  have hscaled := hraises.le hshare (by decide) hone
  have hhundred : (1 : Float) * 100 = 100 := by decide +kernel
  rw [hhundred] at hscaled
  exact ⟨hraises.zero_le hshare, hscaled⟩

end Shares

namespace Experiment

variable {σ : Type} [Source σ] {seeded : Seed → σ} {c : Config} {watch : Stopwatch}
  {grid : List Float} {instances : List (String × Formula)}

/-! ### Probabilities of a grid -/

theorem Config.Grid.nodup (h : Config.Grid grid) : grid.Nodup :=
  h.ascending.imp fun hlt heq => hlt.ne (congrArg Binary64.value heq)

/-- Two probabilities of a grid are equal as numbers only if they are the same. -/
theorem Config.Grid.beq_iff (h : Config.Grid grid) {p q : Float} (hp : p ∈ grid) (hq : q ∈ grid) :
    (p == q) = true ↔ p = q := by
  rw [Binary64.beq_iff_value_eq (h.hundredth p hp).zero_le (h.hundredth q hq).zero_le]
  have hnodup : (grid.map Binary64.value).Nodup :=
    List.pairwise_map.2 (h.ascending.imp fun hlt => hlt.ne)
  exact ⟨fun heq => List.inj_on_of_nodup_map hnodup hp hq heq, fun heq => heq ▸ rfl⟩

theorem sum_map_single {α : Type} {xs : List α} (hxs : xs.Nodup) {x : α} (hx : x ∈ xs) {f : α → ℕ}
    (hf : ∀ y ∈ xs, y ≠ x → f y = 0) : (xs.map f).sum = f x := by
  induction xs with
  | nil => cases hx
  | cons y xs ih =>
    obtain ⟨hy, hnodup⟩ := List.nodup_cons.1 hxs
    rw [List.map_cons, List.sum_cons]
    rcases List.mem_cons.1 hx with rfl | hx
    · have hrest : (xs.map f).sum = 0 := by
        refine List.sum_eq_zero fun n hn => ?_
        obtain ⟨z, hz, rfl⟩ := List.mem_map.1 hn
        exact hf z (.tail _ hz) fun h => hy (h ▸ hz)
      rw [hrest, Nat.add_zero]
    · rw [hf y (by simp) fun h => hy (h ▸ hx), ih hnodup hx fun z hz => hf z (.tail _ hz),
        Nat.zero_add]

/-- Each record with a probability of a list without repeats counts for exactly one of them. -/
theorem sum_countP_eq {grid : List Float} (hgrid : grid.Nodup) (P : RunRecord → Prop)
    [DecidablePred P] {runs : List RunRecord} (hruns : ∀ r ∈ runs, r.p ∈ grid) :
    (grid.map fun q => runs.countP fun r => r.p = q ∧ P r).sum = runs.countP (P ·) := by
  induction runs with
  | nil => simp
  | cons r runs ih =>
    have hone : (grid.map fun q => if r.p = q ∧ P r then 1 else 0).sum = if P r then 1 else 0 := by
      rw [sum_map_single hgrid (hruns r (by simp)) fun q _ hq => if_neg fun h => hq h.1.symm]
      simp
    simp only [List.countP_cons, decide_eq_true_eq, List.sum_map_add, hone]
    rw [ih fun r' hr' => hruns r' (.tail _ hr')]

/-- The jobs with one probability are those of all formulas and trials. -/
theorem countP_jobs (hgrid : grid.Nodup) {q : Float} (hq : q ∈ grid) :
    (jobs c grid instances).countP (fun j => j.p = q) = instances.length * c.trials := by
  have hinner (x : String × Formula) (p : Float) :
      ((List.range c.trials).map fun trial => Job.mk x.1 x.2 p trial).countP (fun j => j.p = q) =
        if p = q then c.trials else 0 := by
    rw [List.countP_map]
    by_cases h : p = q <;> simp [Function.comp_def, h]
  have houter (x : String × Formula) : (grid.flatMap fun p =>
      (List.range c.trials).map fun trial => Job.mk x.1 x.2 p trial).countP (fun j => j.p = q) =
        c.trials := by
    rw [List.countP_flatMap]
    exact (sum_map_single hgrid hq fun p _ hp => (hinner x p).trans (if_neg hp)).trans
      ((hinner x q).trans (if_pos rfl))
  unfold jobs
  rw [List.countP_flatMap]
  simp only [Function.comp_def, houter, List.map_const', List.sum_replicate, nsmul_eq_mul,
    Nat.cast_id]

/-! ### Records and jobs -/

/-- Records have the probabilities of their jobs. -/
theorem map_p_eq {js : List Job} {runs : List RunRecord}
    (h : List.Forall₂ (Gives seeded c watch) js runs) : runs.map (·.p) = js.map (·.p) := by
  induction h with
  | nil => rfl
  | cons hj _ ih =>
    obtain ⟨result, -, rfl⟩ := hj.eq_entry
    rw [List.map_cons, List.map_cons, ih, entry]

theorem countP_runs (hgrid : grid.Nodup) {q : Float} (hq : q ∈ grid) {runs : List RunRecord}
    (h : List.Forall₂ (Gives seeded c watch) (jobs c grid instances) runs) :
    runs.countP (fun r => r.p = q) = instances.length * c.trials := by
  have hmap {α : Type} (p : α → Float) (xs : List α) :
      xs.countP (fun x => p x = q) = (xs.map p).countP (· = q) := by
    rw [List.countP_map]
    rfl
  rw [hmap, map_p_eq h, ← hmap, countP_jobs hgrid hq]

theorem p_mem_grid {runs : List RunRecord}
    (h : List.Forall₂ (Gives seeded c watch) (jobs c grid instances) runs) {r : RunRecord}
    (hr : r ∈ runs) : r.p ∈ grid := by
  have hmem : r.p ∈ (jobs c grid instances).map (·.p) := map_p_eq h ▸ List.mem_map_of_mem hr
  obtain ⟨j, hj, hp⟩ := List.mem_map.1 hmem
  exact hp ▸ (mem_jobs hj).2.1

/-! ### Summaries -/

/-- The summaries of a report divide its runs among the probabilities. -/
structure Partitioned (c : Config) (grid : List Float) (instances : List (String × Formula))
    (rep : Report) : Prop where
  order : rep.summaries.map (·.p) = grid
  runs_eq : ∀ s ∈ rep.summaries, s.runs = instances.length * c.trials
  successes_eq : ∀ s ∈ rep.summaries,
    s.successes = rep.runs.countP fun r => r.p = s.p ∧ r.outcome = .satisfied
  successes_le : ∀ s ∈ rep.summaries, s.successes ≤ s.runs
  rate_bounds : ∀ s ∈ rep.summaries, 0 ≤ s.successRate ∧ s.successRate ≤ 100
  sum_runs : (rep.summaries.map (·.runs)).sum = rep.runs.length
  sum_successes : (rep.summaries.map (·.successes)).sum =
    rep.runs.countP fun r => r.outcome = .satisfied

section Summaries

variable {runs : List RunRecord} (hgrid : Config.Grid grid) (hp : ∀ r ∈ runs, r.p ∈ grid)
  {q : Float} (hq : q ∈ grid)
include hgrid hp hq

/-- A summary is about the records with its probability, bit for bit. -/
theorem filter_eq : runs.filter (·.p == q) = runs.filter (fun r => r.p = q) :=
  List.filter_congr fun r hr => by
    rw [Bool.eq_iff_iff, hgrid.beq_iff (hp r hr) hq, decide_eq_true_iff]

theorem summary_runs : (summarizeOne runs q).runs = runs.countP fun r => r.p = q := by
  change (runs.filter (·.p == q)).length = _
  rw [filter_eq hgrid hp hq, List.countP_eq_length_filter]

theorem summary_successes : (summarizeOne runs q).successes =
    runs.countP fun r => r.p = q ∧ r.outcome = .satisfied := by
  change (runs.filter (·.p == q)).countP (·.isSuccess) = _
  rw [filter_eq hgrid hp hq, List.countP_filter]
  refine List.countP_congr fun r _ => ?_
  simp [RunRecord.isSuccess, and_comm]

end Summaries

theorem partitioned_report (hgrid : Config.Grid grid) (hfit : JobsFit c grid instances)
    {runs : List RunRecord}
    (h : List.Forall₂ (Gives seeded c watch) (jobs c grid instances) runs) :
    Partitioned c grid instances (report c grid instances runs) := by
  have hp : ∀ r ∈ runs, r.p ∈ grid := fun r hr => p_mem_grid h hr
  have hsum {f : PSummary → ℕ} {g : Float → ℕ} (hf : ∀ q ∈ grid, f (summarizeOne runs q) = g q) :
      ((summarize runs grid).map f).sum = (grid.map g).sum := by
    rw [summarize, List.map_map]
    exact congrArg List.sum (List.map_congr_left hf)
  have hall {P : PSummary → Prop} (hP : ∀ q ∈ grid, P (summarizeOne runs q)) :
      ∀ s ∈ summarize runs grid, P s := by
    intro s hs
    obtain ⟨q, hq, rfl⟩ := List.mem_map.1 hs
    exact hP q hq
  have hlength : runs.length ≤ memoryLimit := by
    rw [← h.length_eq, length_jobs]
    exact Nat.le_trans (Nat.le_mul_of_pos_right _ (by decide)) hfit
  have hle (q : Float) : (summarizeOne runs q).successes ≤ (summarizeOne runs q).runs :=
    List.countP_le_length
  have hruns (q : Float) : (summarizeOne runs q).runs ≤ runs.length := List.length_filter_le _ _
  refine ⟨?_, hall fun q hq => ?_, hall fun q hq => summary_successes hgrid hp hq,
    hall fun q _ => hle q, hall fun q _ => ?_, ?_, ?_⟩
  · change (summarize runs grid).map (·.p) = grid
    rw [summarize, List.map_map]
    exact List.map_id grid
  · rw [summary_runs hgrid hp hq, countP_runs hgrid.nodup hq h]
  · exact Statistics.percentage_bounds (hle q) ((hruns q).trans hlength)
  · change ((summarize runs grid).map (·.runs)).sum = runs.length
    have := sum_countP_eq hgrid.nodup (fun _ => True) hp
    simp only [and_true, decide_true, List.countP_true] at this
    rw [← this, hsum fun q hq => summary_runs hgrid hp hq]
  · exact (hsum fun q hq => summary_successes hgrid hp hq).trans
      (sum_countP_eq hgrid.nodup (fun r => r.outcome = .satisfied) hp)

/-! ### Experiments that end -/

/-- Whatever an experiment reports is divided. -/
theorem partitioned_of_run (hc : c.Valid) (hne : instances ≠ []) (h : c.pValues = .ok grid)
    {rep : Report} (hrun : run seeded c watch instances = (.ok (.ok rep) : Checked _)) :
    Partitioned c grid instances rep := by
  obtain ⟨hfit, runs, rfl, hruns⟩ := (run_eq_ok_iff hc hne h).1 hrun
  exact partitioned_report (Config.grid_of_pValues hc h) hfit hruns

theorem pValues_of_run (hc : c.Valid) (hne : instances ≠ []) {rep : Report}
    (hrun : run seeded c watch instances = (.ok (.ok rep) : Checked _)) :
    ∃ grid, c.pValues = .ok grid := by
  rcases Config.pValues_cases hc with ⟨grid, h, -⟩ | ⟨-, h⟩
  · exact ⟨grid, h⟩
  · cases hrun.symm.trans (run_of_no_grid hc hne h)

/-- A search of the formula can be counted and held in memory. -/
def Manageable (c : Config) (f : Formula) : Prop :=
  f.numLiterals < size32 ∧ f.Fits c.tracker.width

end Experiment

end SatWalk
