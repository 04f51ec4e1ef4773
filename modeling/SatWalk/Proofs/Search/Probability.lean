import SatWalk.Proofs.Gate.Adjust
import SatWalk.Proofs.Search.Accounting

/-! The probability of the gate along a search. Whatever the tracker says and whatever is drawn,
each step leaves the gate a probability, and without adaption leaves it the one it had. A gate
that is shut for a strategy therefore never opens, and no pick of that strategy is counted. -/

namespace SatWalk

namespace Config

/-- Settings under which a strategy is never chosen. -/
def Excludes (c : Config) (strategy : Strategy) : Prop :=
  c.adaptiveP = false ∧ Gate.Shuts c.p strategy

end Config

namespace Search

variable {ω σ : Type} {t : Problem ω} {s s' : Search ω σ}

/-- What the settings promise of the gate, and of the picks. -/
structure Gated (c : Config) (s : Search ω σ) : Prop where
  adaptive : s.gate.adaptive = c.adaptiveP
  bounded : s.gate.Bounded
  fixed : c.adaptiveP = false → s.gate.p = c.p
  unpicked : ∀ strategy, c.Excludes strategy → s.stats.picks strategy = 0

/-! ### One step -/

theorem Gated.congr {c : Config} (h : s.Gated c) (hgate : s'.gate = s.gate)
    (hpicks : ∀ strategy, c.Excludes strategy → s'.stats.picks strategy = s.stats.picks strategy) :
    s'.Gated c where
  adaptive := hgate ▸ h.adaptive
  bounded := hgate ▸ h.bounded
  fixed ha := hgate ▸ h.fixed ha
  unpicked strategy he := (hpicks strategy he).trans (h.unpicked strategy he)

theorem Gated.adjust {c : Config} (h : s.Gated c) (unsatisfied numVariables : Nat)
    (hgate : s'.gate = s.gate.adjust unsatisfied numVariables) (hstats : s'.stats = s.stats) :
    s'.Gated c where
  adaptive := by rw [hgate, Gate.adaptive_adjust, h.adaptive]
  bounded := hgate ▸ h.bounded.adjust unsatisfied numVariables
  fixed ha := by rw [hgate, Gate.adjust_of_not_adaptive (h.adaptive.trans ha), h.fixed ha]
  unpicked strategy he := hstats ▸ h.unpicked strategy he

theorem Gated.report {c : Config} (h : s.Gated c) (event : Event) : (s.report event).Gated c :=
  h.congr rfl fun _ _ => rfl

theorem Gated.finish {c : Config} (h : s.Gated c) (outcome : Outcome) :
    (s.finish outcome).2.Gated c :=
  h.congr rfl fun _ _ => rfl

variable [Source σ]

/-- A choice adjusts the gate and then draws the strategy from it. -/
theorem gate_of_choose {unsatisfied : Array Nat} {pick : Option Nat} {strategy : Strategy}
    (h : s.choose t unsatisfied = .ok ((pick, strategy), s')) :
    s'.gate = s.gate.adjust unsatisfied.size t.formula.numVariables ∧ s'.stats = s.stats ∧
      strategy = (s'.gate.draw s.source).1 := by
  unfold choose at h
  dsimp only at h
  obtain ⟨⟨⟨pick', selector⟩, source⟩, -, h⟩ := Checked.bind_eq_ok_iff.1 h
  cases h
  exact ⟨rfl, rfl, rfl⟩

/-- A flip leaves the gate as it is and counts one pick. -/
theorem gate_of_flip {step : Step} {v : Nat} {strategy : Strategy}
    (h : s.flip t v strategy = .ok (step, s')) :
    s'.gate = s.gate ∧ step.strategy? = some strategy ∧
      ∀ strategy', s'.stats.picks strategy' = (s.stats.count strategy).picks strategy' := by
  unfold flip at h
  obtain ⟨assignment, -, h⟩ := Checked.bind_eq_ok_iff.1 h
  dsimp only at h
  split_ifs at h
  · obtain ⟨tracked, -, h⟩ := Checked.bind_eq_ok_iff.1 h
    cases h
    exact ⟨rfl, rfl, fun strategy' => by cases strategy' <;> rfl⟩
  · obtain ⟨tracked, -, h⟩ := Checked.bind_eq_ok_iff.1 h
    cases h
    exact ⟨rfl, rfl, fun strategy' => rfl⟩

theorem Gated.choose {unsatisfied : Array Nat} {pick : Option Nat} {strategy : Strategy}
    (hs : s.Gated t.config) (h : s.choose t unsatisfied = .ok ((pick, strategy), s')) :
    s'.Gated t.config ∧ ¬ t.config.Excludes strategy := by
  obtain ⟨hgate, hstats, hstrategy⟩ := gate_of_choose h
  have hs' := hs.adjust _ _ hgate hstats
  refine ⟨hs', fun he => ?_⟩
  have hshut : Gate.Shuts s'.gate.p strategy := (hs'.fixed he.1).symm ▸ he.2
  exact hs'.bounded.draw_ne hshut s.source hstrategy.symm

theorem Gated.flip {step : Step} {v : Nat} {strategy : Strategy} (hs : s.Gated t.config)
    (hopen : ¬ t.config.Excludes strategy) (h : s.flip t v strategy = .ok (step, s')) :
    s'.Gated t.config ∧
      ∀ strategy, t.config.Excludes strategy → step.strategy? ≠ some strategy := by
  obtain ⟨hgate, hstep, hpicks⟩ := gate_of_flip h
  have hne {strategy' : Strategy} (he : t.config.Excludes strategy') : strategy ≠ strategy' :=
    fun heq => hopen (heq ▸ he)
  refine ⟨hs.congr hgate fun strategy' he => ?_, fun strategy' he heq => ?_⟩
  · rw [hpicks, Stats.picks_count, if_neg (hne he), Nat.add_zero]
  · rw [hstep] at heq
    exact hne he (Option.some.inj heq)

/-- A step leaves the gate as promised, and is not by a strategy that is excluded. -/
theorem Gated.step {step : Step} (hs : s.Gated t.config) (h : s.step t = .ok (step, s')) :
    s'.Gated t.config ∧
      ∀ strategy, t.config.Excludes strategy → step.strategy? ≠ some strategy := by
  have hends {s₁ : Search ω σ} (h₁ : s₁.Gated t.config) {outcome : Outcome}
      (h : (.ok (s₁.finish outcome) : Checked _) = .ok (step, s')) : s'.Gated t.config ∧
        ∀ strategy, t.config.Excludes strategy → step.strategy? ≠ some strategy := by
    cases h
    exact ⟨h₁.finish outcome, fun _ _ => nofun⟩
  unfold Search.step at h
  split at h
  · cases h
    exact ⟨hs, fun _ _ => nofun⟩
  dsimp only at h
  split_ifs at h
  · exact hends hs h
  · exact hends (hs.report .emptyList) h
  obtain ⟨⟨⟨pick, strategy⟩, s₁⟩, hchoose, h⟩ := Checked.bind_eq_ok_iff.1 h
  obtain ⟨h₁, hopen⟩ := hs.choose hchoose
  cases pick with
  | none =>
    exact hends (h₁.report _) h
  | some v => exact h₁.flip hopen h

/-! ### Whole runs -/

theorem Gated.steps (hs : s.Gated t.config) {n : Nat} {log : List Step}
    (h : s.steps t n = .ok (log, s')) : s'.Gated t.config ∧
      ∀ strategy, t.config.Excludes strategy → ∀ step ∈ log, step.strategy? ≠ some strategy := by
  induction n generalizing s log with
  | zero =>
    cases h
    exact ⟨hs, fun _ _ => nofun⟩
  | succ n ih =>
    obtain ⟨⟨step, s₁⟩, he, h⟩ := Checked.bind_eq_ok_iff.1 h
    obtain ⟨⟨log', s₂⟩, hlog, h⟩ := Checked.bind_eq_ok_iff.1 h
    cases h
    obtain ⟨h₁, hstep⟩ := hs.step he
    obtain ⟨h₂, hlog⟩ := ih h₁ hlog
    exact ⟨h₂, fun strategy hx => List.forall_mem_cons.2 ⟨hstep strategy hx, hlog strategy hx⟩⟩

/-- A result tells the gate and the picks of the search that it is the result of. -/
theorem Gated.run (hs : s.Gated t.config) {budget : Nat} {r : RunResult}
    (h : run t budget s = .ok (r, s')) :
    ∃ outcome, ∃ s₁ : Search ω σ, r = s₁.result outcome ∧ s₁.Gated t.config := by
  induction budget generalizing s with
  | zero =>
    cases h
    exact ⟨_, s, rfl, hs⟩
  | succ budget ih =>
    obtain ⟨⟨step, s₁⟩, he, h⟩ := Checked.bind_eq_ok_iff.1 h
    obtain ⟨h₁, -⟩ := hs.step he
    cases step with
    | flipped v strategy restarted => exact ih h₁ h
    | finished outcome =>
      cases h
      exact ⟨outcome, _, rfl, h₁⟩

/-! ### From the start -/

omit [Source σ] in
theorem gated_of_ofAssignment {a : Assignment} {source : σ} (hc : t.config.validate = .ok ())
    (h : ofAssignment t a source = .ok s) : s.Gated t.config := by
  obtain ⟨tracked, -, h⟩ := Checked.bind_eq_ok_iff.1 h
  obtain ⟨selector, -, h⟩ := Checked.bind_eq_ok_iff.1 h
  cases h
  refine ⟨rfl, ?_, fun _ => rfl, fun strategy _ => by cases strategy <;> rfl⟩
  unfold Config.validate at hc
  split_ifs at hc with hp
  exact ⟨hp.1, hp.2⟩

theorem Starts.gated (h : s.Starts t) : s.Gated t.config := by
  obtain ⟨a, source, -, hs⟩ := h.made
  exact gated_of_ofAssignment (checkProblem_eq_ok_iff.1 h.check).2 hs

/-- However many steps a search makes after its start, with whatever tracker: its gate has a
probability, and so has the result of a solve after them. Without adaption it is that of the
settings, and if it is zero or one, there is no greedy pick or no random one. -/
theorem gate_of_steps (h₀ : s.Starts t) {n : Nat} {log : List Step}
    (hs : s.steps t n = .ok (log, s')) :
    s'.gate.Bounded ∧ (t.config.adaptiveP = false → s'.gate.p = t.config.p) ∧
    (∀ strategy, t.config.Excludes strategy →
      s'.stats.picks strategy = 0 ∧ ∀ step ∈ log, step.strategy? ≠ some strategy) ∧
    ∀ r s₁, s'.solve t = .ok (r, s₁) →
      (0 ≤ r.stats.finalP ∧ r.stats.finalP ≤ 1) ∧
      (t.config.adaptiveP = false → r.stats.finalP = t.config.p) ∧
      ∀ strategy, t.config.Excludes strategy → r.stats.picks strategy = 0 := by
  obtain ⟨hgated, hlog⟩ := h₀.gated.steps hs
  refine ⟨hgated.bounded, hgated.fixed, fun strategy he => ⟨hgated.unpicked strategy he,
    hlog strategy he⟩, fun r s₁ hr => ?_⟩
  obtain ⟨outcome, s₂, rfl, h₂⟩ := hgated.run hr
  refine ⟨⟨h₂.bounded.zero_le, h₂.bounded.le_one⟩, h₂.fixed, fun strategy he => ?_⟩
  rw [← h₂.unpicked strategy he]
  cases strategy <;> rfl

/-- A formula without solutions, and a gate that is shut for greedy picks. -/
def neverGreedy : Problem (TrackerKind.State .incremental) :=
  ofKind ⟨1, #[[1], [-1]]⟩ { p := 0, maxFlips := 5, restartFrequency := 2 } .incremental

theorem gate_of_steps_never_greedy :
    ∃ s₀ log s,
      startFrom neverGreedy #[false] (ChaCha.ofSeed (.ofNat 0)) = (.ok (.ok s₀) : Checked _) ∧
      s₀.steps neverGreedy 3 = .ok (log, s) ∧ log.length = 3 ∧
      (∀ step ∈ log, step.strategy? ≠ some .greedy) ∧ s.stats.greedyPicks = 0 ∧ s.gate.p = 0 := by
  obtain ⟨s₀, h₀, hlength⟩ : ∃ s₀,
      startFrom neverGreedy #[false] (ChaCha.ofSeed (.ofNat 0)) = (.ok (.ok s₀) : Checked _) ∧
      (s₀.steps neverGreedy 3).map (fun x => x.1.length) = .ok 3 :=
    ⟨_, rfl, by decide +kernel⟩
  cases hs : s₀.steps neverGreedy 3 with
  | error e =>
    rw [hs] at hlength
    cases hlength
  | ok x =>
    obtain ⟨log, s⟩ := x
    rw [hs] at hlength
    obtain ⟨-, hfixed, hshut, -⟩ := gate_of_steps ⟨_, .inr ⟨_, h₀⟩⟩ hs
    obtain ⟨hpicks, hlog⟩ := hshut .greedy ⟨rfl, rfl⟩
    exact ⟨s₀, log, s, h₀, hs, Except.ok.inj hlength, hlog, hpicks, hfixed rfl⟩

end Search

end SatWalk
