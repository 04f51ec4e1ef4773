import SatWalk.Experiment.Run
import SatWalk.Proofs.Experiment.Grid
import SatWalk.Proofs.Search.Outcome
import Mathlib.Data.List.Forall2

/-! The runs of an experiment. An accepted experiment on valid formulas is never refused: a
probability of its grid is one that a search accepts. If there is memory and the generator seeds a
generous source for each job, each job has its record, in the order of the jobs, which is by
formula, then by probability, then by trial. A record depends on its own job alone. -/

namespace SatWalk.Experiment

open Source (Generous)

variable {σ : Type} [Source σ] {seeded : Seed → σ} {c : Config} {watch : Stopwatch}

/-! ### Single runs -/

/-- The source of a job. -/
def sourceOf (seeded : Seed → σ) (c : Config) (j : Job) : σ :=
  seeded (c.runSeed j.inst j.p j.trial)

/-- The search that a job stands for. -/
def searchOf (seeded : Seed → σ) (c : Config) (j : Job) :
    Attempt SatWalk.Config.Error RunResult :=
  solve j.formula (c.searchConfig j.p) (sourceOf seeded c j)

/-- What is written down of the result of a job. -/
def entry (c : Config) (watch : Stopwatch) (j : Job) (r : RunResult) : RunRecord where
  inst := j.inst
  p := j.p
  trial := j.trial
  outcome := r.outcome
  flips := countedFlips c r
  restarts := r.stats.restarts
  elapsedSecs := watch j

/-- A run that ends with a record. -/
def Gives (seeded : Seed → σ) (c : Config) (watch : Stopwatch) (j : Job) (r : RunRecord) : Prop :=
  runSingle seeded c watch j = (.ok (.ok r) : Checked _)

theorem runSingle_eq (seeded : Seed → σ) (c : Config) (watch : Stopwatch) (j : Job) :
    runSingle seeded c watch j = entry c watch j <$> (searchOf seeded c j).adapt .search := rfl

theorem runSingle_of_fault {j : Job} {fault : Fault}
    (h : searchOf seeded c j = (.error fault : Checked _)) :
    runSingle seeded c watch j = (.error fault : Checked _) := by
  rw [runSingle_eq, h]
  rfl

theorem gives_of_search {j : Job} {r : RunResult}
    (h : searchOf seeded c j = (.ok (.ok r) : Checked _)) :
    Gives seeded c watch j (entry c watch j r) := by
  rw [Gives, runSingle_eq, h]
  rfl

/-- A record is the entry for the result of a search. -/
theorem Gives.eq_entry {j : Job} {r : RunRecord} (h : Gives seeded c watch j r) :
    ∃ result, searchOf seeded c j = (.ok (.ok result) : Checked _) ∧
      r = entry c watch j result := by
  rw [Gives, runSingle_eq] at h
  rcases hs : searchOf seeded c j with fault | e | result <;> rw [hs] at h <;> cases h
  exact ⟨result, rfl, rfl⟩

/-- The time that a run takes is all that depends on the watch. -/
theorem Gives.retimed {j : Job} {r : RunRecord} (h : Gives seeded c watch j r)
    (watch' : Stopwatch) : Gives seeded c watch' j { r with elapsedSecs := watch' j } := by
  obtain ⟨result, hs, rfl⟩ := h.eq_entry
  exact gives_of_search hs

theorem searchConfig_valid (hc : c.Valid) {p : Float} (hp : Config.inUnit p) :
    (c.searchConfig p).validate = .ok () := by
  have hunit {q : Float} (hq : Config.inUnit q) :
      0 ≤ (c.searchConfig q).p ∧ (c.searchConfig q).p ≤ 1 := hq
  have hstart := hc.search
  unfold SatWalk.Config.validate at hstart ⊢
  rw [if_neg (not_not.2 (hunit hc.start_unit))] at hstart
  rwa [if_neg (not_not.2 (hunit hp))]

/-- A formula that an experiment can search. -/
structure Searchable (f : Formula) : Prop where
  valid : f.validate = .ok ()
  short : f.numLiterals < size32

instance (f : Formula) : Decidable (Searchable f) :=
  decidable_of_iff (f.validate = .ok () ∧ f.numLiterals < size32)
    ⟨fun h => ⟨h.1, h.2⟩, fun h => ⟨h.valid, h.short⟩⟩

/-- What a record says of a job with a budget. -/
structure Counted (limit : ℕ) (r : RunRecord) : Prop where
  flips_le : r.flips ≤ limit
  flips_eq : r.outcome ≠ .satisfied → r.flips = limit

theorem counted_entry {j : Job} {r : RunResult} (h : r.flips ≤ c.maxFlips) :
    Counted c.maxFlips (entry c watch j r) := by
  obtain ⟨outcome, flips, assignment, stats⟩ := r
  cases outcome with
  | satisfied => exact ⟨h, fun hne => absurd rfl hne⟩
  | exhausted => exact ⟨Nat.le_refl _, fun _ => rfl⟩
  | inconsistent => exact ⟨Nat.le_refl _, fun _ => rfl⟩

section Search

variable {j : Job} (hc : c.Valid) (hp : Config.inUnit j.p) (hf : Searchable j.formula)
include hc hp hf

theorem runSingle_fits (hm : j.formula.Fits c.tracker.width) :
    ((runSingle seeded c watch j = (.error .drawsExhausted : Checked _)) ∧
        ¬ Generous (sourceOf seeded c j)) ∨
      ∃ r, Gives seeded c watch j r := by
  rcases Search.solve_fits (sourceOf seeded c j) hf.short hf.valid (searchConfig_valid hc hp) hm
    with ⟨he, hmean⟩ | ⟨r, -, -, -, -, he, -⟩
  · exact .inl ⟨runSingle_of_fault he, hmean⟩
  · exact .inr ⟨_, gives_of_search he⟩

theorem runSingle_full (hm : ¬ j.formula.Fits c.tracker.width) :
    runSingle seeded c watch j = (.error .capacityExceeded : Checked _) :=
  runSingle_of_fault (Search.solve_full _ hf.short hf.valid (searchConfig_valid hc hp) hm)

end Search

theorem Gives.counted {j : Job} {r : RunRecord} (h : Gives seeded c watch j r)
    (hlen : j.formula.numLiterals < size32) : Counted c.maxFlips r := by
  obtain ⟨result, hs, rfl⟩ := h.eq_entry
  obtain ⟨a, ha⟩ := Search.classified_of_solve hlen hs
  exact counted_entry ha.flips

/-! ### All runs -/

theorem runJobs_cons (seeded : Seed → σ) (c : Config) (watch : Stopwatch) (j : Job) (js : List Job)
    (done : List RunRecord) :
    runJobs seeded c watch (j :: js) done =
      (runSingle seeded c watch j >>= fun r => runJobs seeded c watch js (r :: done)) := rfl

/-- The records are those that the jobs give, behind what is done before. -/
theorem runJobs_eq_ok_iff {js : List Job} {done rs : List RunRecord} :
    runJobs seeded c watch js done = (.ok (.ok rs) : Checked _) ↔
      ∃ made, rs = done.reverse ++ made ∧ List.Forall₂ (Gives seeded c watch) js made := by
  induction js generalizing done with
  | nil =>
    constructor
    · intro h
      cases h
      exact ⟨[], (List.append_nil _).symm, .nil⟩
    · rintro ⟨made, rfl, h⟩
      cases h
      rw [List.append_nil]
      rfl
  | cons j js ih =>
    rw [runJobs_cons]
    constructor
    · intro h
      rcases hj : runSingle seeded c watch j with fault | e | r <;> rw [hj] at h
      · cases h
      · cases h
      · obtain ⟨made, rfl, hmade⟩ := ih.1 h
        exact ⟨r :: made, by simp, .cons hj hmade⟩
    · rintro ⟨made, rfl, h⟩
      cases h with
      | cons hj hmade =>
        rw [show runSingle seeded c watch j = _ from hj]
        exact ih.2 ⟨_, by simp, hmade⟩

/-- If each job gives a record or faults, all jobs do, in the same ways. -/
theorem runJobs_cases {P : Fault → Prop} {js : List Job}
    (h : ∀ j ∈ js, (∃ fault, P fault ∧ runSingle seeded c watch j = (.error fault : Checked _)) ∨
      ∃ r, Gives seeded c watch j r) (done : List RunRecord) :
    (∃ fault, P fault ∧ runJobs seeded c watch js done = (.error fault : Checked _)) ∨
      ∃ rs, runJobs seeded c watch js done = (.ok (.ok rs) : Checked _) := by
  induction js generalizing done with
  | nil => exact .inr ⟨_, rfl⟩
  | cons j js ih =>
    rw [runJobs_cons]
    rcases h j (by simp) with ⟨fault, hfault, hj⟩ | ⟨r, hj⟩
    · rw [hj]
      exact .inl ⟨fault, hfault, rfl⟩
    · rw [show runSingle seeded c watch j = _ from hj]
      exact ih (fun j hj => h j (.tail _ hj)) (r :: done)

/-! ### The order of the jobs -/

/-- Blocks of one length stand at its multiples. -/
theorem getElem?_flatMap_blocks {α β : Type} {f : α → List β} {n : ℕ} {xs : List α}
    (hlen : ∀ x ∈ xs, (f x).length = n) {i k : ℕ} (hk : k < n) :
    (xs.flatMap f)[i * n + k]? = xs[i]?.bind fun x => (f x)[k]? := by
  induction xs generalizing i with
  | nil => simp
  | cons x xs ih =>
    have hx : (f x).length = n := hlen x (by simp)
    rw [List.flatMap_cons]
    cases i with
    | zero =>
      rw [List.getElem?_append_left (by omega)]
      simp
    | succ i =>
      rw [List.getElem?_append_right (by rw [hx, Nat.succ_mul]; omega), hx,
        show (i + 1) * n + k - n = i * n + k by rw [Nat.succ_mul]; omega,
        ih fun y hy => hlen y (.tail _ hy), List.getElem?_cons_succ]

variable {grid : List Float} {instances : List (String × Formula)}

theorem length_jobs (c : Config) (grid : List Float) (instances : List (String × Formula)) :
    (jobs c grid instances).length = instances.length * grid.length * c.trials := by
  unfold jobs
  simp [List.length_flatMap, Nat.mul_assoc]

theorem mem_jobs {j : Job} (h : j ∈ jobs c grid instances) :
    (j.inst, j.formula) ∈ instances ∧ j.p ∈ grid ∧ j.trial < c.trials := by
  simp only [jobs, List.mem_flatMap, List.mem_map, List.mem_range] at h
  obtain ⟨x, hx, p, hp, trial, htrial, rfl⟩ := h
  exact ⟨hx, hp, htrial⟩

/-- By formula, then by probability, then by trial. -/
theorem getElem?_jobs {i j t : ℕ} {x : String × Formula} {p : Float} (hx : instances[i]? = some x)
    (hp : grid[j]? = some p) (ht : t < c.trials) :
    (jobs c grid instances)[(i * grid.length + j) * c.trials + t]? = some ⟨x.1, x.2, p, t⟩ := by
  have hj : j < grid.length := (List.getElem?_eq_some_iff.1 hp).1
  have hinner (y : String × Formula) (q : Float) :
      ((List.range c.trials).map fun trial => Job.mk y.1 y.2 q trial).length = c.trials := by simp
  have houter (y : String × Formula) : (grid.flatMap fun q =>
      (List.range c.trials).map fun trial => Job.mk y.1 y.2 q trial).length =
      grid.length * c.trials := by
    simp [List.length_flatMap]
  have hindex : (i * grid.length + j) * c.trials + t =
      i * (grid.length * c.trials) + (j * c.trials + t) := by ring
  have hlt : j * c.trials + t < grid.length * c.trials := by
    calc j * c.trials + t < j * c.trials + c.trials := by omega
      _ = (j + 1) * c.trials := by ring
      _ ≤ grid.length * c.trials := Nat.mul_le_mul_right _ hj
  unfold jobs
  rw [hindex, getElem?_flatMap_blocks (fun y _ => houter y) hlt, hx, Option.bind_some,
    getElem?_flatMap_blocks (fun q _ => hinner x q) ht, hp, Option.bind_some]
  simp [ht]

theorem jobs_append (c : Config) (grid : List Float) (xs ys : List (String × Formula)) :
    jobs c grid (xs ++ ys) = jobs c grid xs ++ jobs c grid ys := by
  unfold jobs
  exact List.flatMap_append

/-! ### Whole experiments -/

/-- Room for the list of all jobs. -/
def JobsFit (c : Config) (grid : List Float) (instances : List (String × Formula)) : Prop :=
  instances.length * grid.length * c.trials * 24 ≤ memoryLimit

instance (c : Config) (grid : List Float) (instances : List (String × Formula)) :
    Decidable (JobsFit c grid instances) := by unfold JobsFit; infer_instance

def report (c : Config) (grid : List Float) (instances : List (String × Formula))
    (runs : List RunRecord) : Report where
  config := c
  instances := instances.map (·.1)
  summaries := summarize runs grid
  runs
  reference := none

theorem run_of_no_grid (hc : c.Valid) (hne : instances ≠ []) {fault : Fault}
    (h : c.pValues = .error fault) : run seeded c watch instances = (.error fault : Checked _) := by
  unfold run
  rw [Config.validate_eq_ok_iff.2 hc]
  dsimp only
  rw [if_neg (by simpa using hne), h]
  rfl

theorem run_of_grid (hc : c.Valid) (hne : instances ≠ []) (h : c.pValues = .ok grid) :
    run seeded c watch instances = (do
      (reserve (instances.length * grid.length * c.trials) 24 : Checked _)
      return report c grid instances (← runJobs seeded c watch (jobs c grid instances) [])) := by
  unfold run
  rw [Config.validate_eq_ok_iff.2 hc]
  dsimp only
  rw [if_neg (by simpa using hne), h]
  rfl

theorem run_of_many_jobs (hc : c.Valid) (hne : instances ≠ []) (h : c.pValues = .ok grid)
    (hfit : ¬ JobsFit c grid instances) :
    run seeded c watch instances = (.error .capacityExceeded : Checked _) := by
  rw [run_of_grid hc hne h, reserve_of_lt (Nat.lt_of_not_le hfit)]
  rfl

theorem run_of_fit (hc : c.Valid) (hne : instances ≠ []) (h : c.pValues = .ok grid)
    (hfit : JobsFit c grid instances) :
    run seeded c watch instances =
      report c grid instances <$> runJobs seeded c watch (jobs c grid instances) [] := by
  rw [run_of_grid hc hne h, reserve_of_le hfit]
  rfl

/-- An experiment that ends reports the records that its jobs give. -/
theorem run_eq_ok_iff (hc : c.Valid) (hne : instances ≠ []) (h : c.pValues = .ok grid)
    {rep : Report} : run seeded c watch instances = (.ok (.ok rep) : Checked _) ↔
      JobsFit c grid instances ∧ ∃ runs, rep = report c grid instances runs ∧
        List.Forall₂ (Gives seeded c watch) (jobs c grid instances) runs := by
  by_cases hfit : JobsFit c grid instances
  · rw [run_of_fit hc hne h hfit]
    constructor
    · intro hrun
      rcases hjobs : runJobs seeded c watch (jobs c grid instances) [] with fault | e | runs <;>
        rw [hjobs] at hrun <;> cases hrun
      obtain ⟨made, heq, hmade⟩ := runJobs_eq_ok_iff.1 hjobs
      rw [List.reverse_nil, List.nil_append] at heq
      exact ⟨hfit, runs, rfl, heq ▸ hmade⟩
    · rintro ⟨-, runs, rfl, hruns⟩
      rw [show runJobs seeded c watch (jobs c grid instances) [] = (.ok (.ok runs) : Checked _) from
        runJobs_eq_ok_iff.2 ⟨runs, rfl, hruns⟩]
      rfl
  · rw [run_of_many_jobs hc hne h hfit]
    exact ⟨nofun, fun h => absurd h.1 hfit⟩

/-- An experiment on valid formulas faults or ends; it is not refused. -/
theorem run_faults_or_ends (hc : c.Valid) (hne : instances ≠ [])
    (hf : ∀ x ∈ instances, x.2.validate = .ok ()) (seeded : Seed → σ) (watch : Stopwatch) :
    (∃ fault, run seeded c watch instances = (.error fault : Checked _)) ∨
      ∃ rep, run seeded c watch instances = (.ok (.ok rep) : Checked _) := by
  rcases Config.pValues_cases hc with ⟨grid, h, hgrid⟩ | ⟨-, h⟩
  swap
  · exact .inl ⟨_, run_of_no_grid hc hne h⟩
  by_cases hfit : JobsFit c grid instances
  swap
  · exact .inl ⟨_, run_of_many_jobs hc hne h hfit⟩
  have hjobs : ∀ j ∈ jobs c grid instances,
      (∃ fault, True ∧ runSingle seeded c watch j = (.error fault : Checked _)) ∨
        ∃ r, Gives seeded c watch j r := by
    intro j hj
    obtain ⟨hmem, hp, -⟩ := mem_jobs hj
    rcases Search.solve_cases (hf _ hmem) (searchConfig_valid hc (hgrid.inUnit hp))
      (sourceOf seeded c j) with ⟨fault, he⟩ | ⟨r, he⟩
    · exact .inl ⟨fault, trivial, runSingle_of_fault he⟩
    · exact .inr ⟨_, gives_of_search he⟩
  rw [run_of_fit hc hne h hfit]
  rcases runJobs_cases hjobs [] with ⟨fault, -, he⟩ | ⟨runs, he⟩ <;> rw [he]
  · exact .inl ⟨fault, rfl⟩
  · exact .inr ⟨_, rfl⟩

/-- The generator seeds a generous source for each job. -/
def GenerousJobs (seeded : Seed → σ) (c : Config) (grid : List Float)
    (instances : List (String × Formula)) : Prop :=
  ∀ j ∈ jobs c grid instances, Generous (sourceOf seeded c j)

/-- An experiment on searchable formulas ends, unless a source is not generous or there is no memory
for a formula. -/
theorem run_cases (hc : c.Valid) (hne : instances ≠ []) (h : c.pValues = .ok grid)
    (hf : ∀ x ∈ instances, Searchable x.2) (hfit : JobsFit c grid instances)
    {P : Fault → Prop} (hdraws : ¬ GenerousJobs seeded c grid instances → P .drawsExhausted)
    (hfull : (∃ x ∈ instances, ¬ x.2.Fits c.tracker.width) → P .capacityExceeded) :
    (∃ fault, P fault ∧ run seeded c watch instances = (.error fault : Checked _)) ∨
      ∃ rep, run seeded c watch instances = (.ok (.ok rep) : Checked _) := by
  have hgrid := Config.grid_of_pValues hc h
  have hjobs : ∀ j ∈ jobs c grid instances,
      (∃ fault, P fault ∧ runSingle seeded c watch j = (.error fault : Checked _)) ∨
        ∃ r, Gives seeded c watch j r := by
    intro j hj
    obtain ⟨hmem, hp, -⟩ := mem_jobs hj
    by_cases hm : j.formula.Fits c.tracker.width
    · refine (runSingle_fits hc (hgrid.inUnit hp) (hf _ hmem) hm).imp_left ?_
      exact fun he => ⟨_, hdraws fun hgenerous => he.2 (hgenerous j hj), he.1⟩
    · exact .inl ⟨_, hfull ⟨_, hmem, hm⟩, runSingle_full hc (hgrid.inUnit hp) (hf _ hmem) hm⟩
  rw [run_of_fit hc hne h hfit]
  rcases runJobs_cases hjobs [] with ⟨fault, hfault, he⟩ | ⟨rs, he⟩ <;> rw [he]
  · exact .inl ⟨fault, hfault, rfl⟩
  · exact .inr ⟨_, rfl⟩

/-- What a report promises. -/
structure Kept (seeded : Seed → σ) (c : Config) (watch : Stopwatch) (grid : List Float)
    (instances : List (String × Formula)) (rep : Report) : Prop where
  length : rep.runs.length = instances.length * grid.length * c.trials
  /-- Each record is the one of its own job, whatever time that job takes. -/
  record : ∀ (i j t : ℕ) (x : String × Formula) (p : Float), instances[i]? = some x →
    grid[j]? = some p → t < c.trials →
    ∃ r, rep.runs[(i * grid.length + j) * c.trials + t]? = some r ∧
      (∀ watch' : Stopwatch, runSingle seeded c watch' ⟨x.1, x.2, p, t⟩ =
        (.ok (.ok { r with elapsedSecs := watch' ⟨x.1, x.2, p, t⟩ }) : Checked _)) ∧
      r.flips ≤ c.maxFlips ∧ (r.outcome ≠ .satisfied → r.flips = c.maxFlips)
  /-- The runs of a part are those of an experiment on that part alone. -/
  parts : ∀ xs ys, instances = xs ++ ys → xs ≠ [] → ys ≠ [] →
    ∃ repx repy, run seeded c watch xs = (.ok (.ok repx) : Checked _) ∧
      run seeded c watch ys = (.ok (.ok repy) : Checked _) ∧ rep.runs = repx.runs ++ repy.runs

theorem JobsFit.of_append {xs ys : List (String × Formula)} (h : JobsFit c grid (xs ++ ys)) :
    JobsFit c grid xs ∧ JobsFit c grid ys := by
  unfold JobsFit at *
  rw [List.length_append] at h
  constructor <;> refine Nat.le_trans ?_ h <;> gcongr <;> omega

theorem kept_of_run (hc : c.Valid) (hne : instances ≠ []) (h : c.pValues = .ok grid)
    (hf : ∀ x ∈ instances, Searchable x.2) {rep : Report}
    (hrun : run seeded c watch instances = (.ok (.ok rep) : Checked _)) :
    Kept seeded c watch grid instances rep := by
  obtain ⟨hfit, runs, rfl, hruns⟩ := (run_eq_ok_iff hc hne h).1 hrun
  refine ⟨?_, ?_, ?_⟩
  · rw [← length_jobs]
    exact hruns.length_eq.symm
  · intro i j t x p hx hp ht
    have hjob := getElem?_jobs hx hp ht
    obtain ⟨hlt, hget⟩ := List.getElem?_eq_some_iff.1 hjob
    have hlt' : (i * grid.length + j) * c.trials + t < runs.length := hruns.length_eq ▸ hlt
    have hgives := hruns.get hlt hlt'
    simp only [List.get_eq_getElem, hget] at hgives
    have hcounted := hgives.counted (hf x (List.mem_of_getElem? hx)).short
    exact ⟨_, List.getElem?_eq_getElem hlt', fun watch' => hgives.retimed watch',
      hcounted.flips_le, hcounted.flips_eq⟩
  · rintro xs ys rfl hxs hys
    obtain ⟨hfitx, hfity⟩ := hfit.of_append
    rw [jobs_append] at hruns
    have hfirst := List.forall₂_take (jobs c grid xs).length hruns
    have hsecond := List.forall₂_drop (jobs c grid xs).length hruns
    rw [List.take_left] at hfirst
    rw [List.drop_left] at hsecond
    refine ⟨report c grid xs (runs.take (jobs c grid xs).length),
      report c grid ys (runs.drop (jobs c grid xs).length), ?_, ?_, ?_⟩
    · exact (run_eq_ok_iff hc hxs h).2 ⟨hfitx, _, rfl, hfirst⟩
    · exact (run_eq_ok_iff hc hys h).2 ⟨hfity, _, rfl, hsecond⟩
    · exact (List.take_append_drop _ runs).symm

/-- Experiments on two lists of formulas make up the one on both. -/
theorem run_append (hc : c.Valid) (h : c.pValues = .ok grid) {xs ys : List (String × Formula)}
    (hxs : xs ≠ []) (hys : ys ≠ []) (hfit : JobsFit c grid (xs ++ ys)) {repx repy : Report}
    (hx : run seeded c watch xs = (.ok (.ok repx) : Checked _))
    (hy : run seeded c watch ys = (.ok (.ok repy) : Checked _)) :
    ∃ rep, run seeded c watch (xs ++ ys) = (.ok (.ok rep) : Checked _) ∧
      rep.runs = repx.runs ++ repy.runs := by
  obtain ⟨-, runsx, rfl, hrunsx⟩ := (run_eq_ok_iff hc hxs h).1 hx
  obtain ⟨-, runsy, rfl, hrunsy⟩ := (run_eq_ok_iff hc hys h).1 hy
  refine ⟨report c grid (xs ++ ys) (runsx ++ runsy), ?_, rfl⟩
  refine (run_eq_ok_iff hc (List.append_ne_nil_of_left_ne_nil hxs ys) h).2 ⟨hfit, _, rfl, ?_⟩
  rw [jobs_append]
  exact List.rel_append hrunsx hrunsy

/-- How an experiment with a grid ends. It ends in a report, from generous sources, if there is
memory for the list of its jobs and for the search of each formula, and for want of that memory
it faults. Whatever it reports is kept. -/
structure Conducted (seeded : Seed → σ) (c : Config) (watch : Stopwatch) (grid : List Float)
    (instances : List (String × Formula)) : Prop where
  manyJobs : ¬ JobsFit c grid instances →
    run seeded c watch instances = (.error .capacityExceeded : Checked _)
  largeFormula : JobsFit c grid instances → GenerousJobs seeded c grid instances →
    (∃ x ∈ instances, ¬ x.2.Fits c.tracker.width) →
    run seeded c watch instances = (.error .capacityExceeded : Checked _)
  reported : JobsFit c grid instances → GenerousJobs seeded c grid instances →
    (∀ x ∈ instances, x.2.Fits c.tracker.width) →
    ∃ rep, run seeded c watch instances = (.ok (.ok rep) : Checked _) ∧
      Kept seeded c watch grid instances rep
  kept : ∀ rep, run seeded c watch instances = (.ok (.ok rep) : Checked _) →
    Kept seeded c watch grid instances rep
  /-- The runs of two parts make up those of the whole. -/
  whole : ∀ xs ys repx repy, JobsFit c grid instances → instances = xs ++ ys → xs ≠ [] → ys ≠ [] →
    run seeded c watch xs = (.ok (.ok repx) : Checked _) →
    run seeded c watch ys = (.ok (.ok repy) : Checked _) →
    ∃ rep, run seeded c watch instances = (.ok (.ok rep) : Checked _) ∧
      rep.runs = repx.runs ++ repy.runs

theorem fits_of_run (hc : c.Valid) (hne : instances ≠ []) (h : c.pValues = .ok grid)
    (hf : ∀ x ∈ instances, Searchable x.2) {rep : Report}
    (hrun : run seeded c watch instances = (.ok (.ok rep) : Checked _)) :
    ∀ x ∈ instances, x.2.Fits c.tracker.width := by
  intro x hx
  by_contra hm
  have hgrid := Config.grid_of_pValues hc h
  obtain ⟨i, hi⟩ := List.getElem?_of_mem hx
  obtain ⟨p, hp⟩ := List.exists_mem_of_ne_nil grid hgrid.ne_nil
  obtain ⟨j, hj⟩ := List.getElem?_of_mem hp
  obtain ⟨r, -, hr, -⟩ :=
    (kept_of_run hc hne h hf hrun).record i j 0 x p hi hj hc.trials_pos
  have hfull : runSingle seeded c watch ⟨x.1, x.2, p, 0⟩ = (.error .capacityExceeded : Checked _) :=
    runSingle_full hc (hgrid.inUnit hp) (hf x hx) hm
  rw [hr watch] at hfull
  cases hfull

theorem conducted (hc : c.Valid) (hne : instances ≠ []) (h : c.pValues = .ok grid)
    (hf : ∀ x ∈ instances, Searchable x.2) : Conducted seeded c watch grid instances where
  manyJobs := run_of_many_jobs hc hne h
  largeFormula hfit hgenerous hroom := by
    rcases run_cases (P := (· = .capacityExceeded)) hc hne h hf hfit (absurd hgenerous)
      (fun _ => rfl) with ⟨_, rfl, hrun⟩ | ⟨rep, hrun⟩
    · exact hrun
    · obtain ⟨x, hx, hm⟩ := hroom
      exact absurd (fits_of_run hc hne h hf hrun x hx) hm
  reported hfit hgenerous hroom := by
    rcases run_cases (P := fun _ => False) hc hne h hf hfit (absurd hgenerous)
      (fun ⟨x, hx, hm⟩ => hm (hroom x hx)) with ⟨_, hfalse, -⟩ | ⟨rep, hrun⟩
    · exact hfalse.elim
    · exact ⟨rep, hrun, kept_of_run hc hne h hf hrun⟩
  kept _ hrun := kept_of_run hc hne h hf hrun
  whole := by
    rintro xs ys repx repy hfit rfl hxs hys hx hy
    exact run_append hc h hxs hys hfit hx hy

/-- A formula with more variables than memory can hold. -/
theorem run_of_too_many_variables :
    run ChaCha.ofSeed { pStart := 0.5, pEnd := 0.5 } (fun _ => 0)
      [("a", ⟨18446744073709551615, #[]⟩)] = (.error .capacityExceeded : Checked _) := by
  have hc := Config.validate_eq_ok_iff.1
    (show Config.validate { pStart := 0.5, pEnd := 0.5 } = .ok () by decide +kernel)
  have hf : Searchable ⟨18446744073709551615, #[]⟩ := by decide
  have hgrid : Config.pValues { pStart := 0.5, pEnd := 0.5 } = .ok [0.5] :=
    Config.pValues_single (by decide +kernel) (by decide +kernel) (by decide +kernel)
  rw [run_of_fit hc (by decide) hgrid (by decide)]
  have hjob : runSingle ChaCha.ofSeed { pStart := 0.5, pEnd := 0.5 } (fun _ => 0)
      ⟨"a", ⟨18446744073709551615, #[]⟩, 0.5, 0⟩ = (.error .capacityExceeded : Checked _) :=
    runSingle_full hc (by decide +kernel) hf fun h => absurd h.1 (by decide)
  change report _ _ _ <$> (runSingle _ _ _ _ >>= _) = _
  rw [hjob]
  rfl

end SatWalk.Experiment
