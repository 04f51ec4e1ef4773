import SatWalk.Proofs.Search.Agreement

/-! Steps before a solve. Whatever a tracker answers, a step either counts one flip and leaves the
search unfinished, or it finishes the search and counts nothing. The first steps of a search are
therefore the ones that solving it would make, and solving it afterwards makes the others. -/

namespace SatWalk

/-- A step may end a search with that outcome while the tracker gives that answer. -/
def Outcome.Agrees (outcome : Outcome) (satisfied : Bool) : Prop :=
  outcome = .satisfied ∨ (outcome = .inconsistent ∧ satisfied = false)

namespace Search

variable {ω σ : Type} {t : Problem ω} {s s' : Search ω σ}

/-- What a step tells of the search before it and the search after it. -/
def Leaves (t : Problem ω) (s s' : Search ω σ) : Step → Prop
  | .flipped .. => s'.finished = none ∧ s'.flips = s.flips + 1
  | .finished outcome => s'.finished = some outcome ∧ s'.flips = s.flips ∧
    (s.finished = none → outcome.Agrees (t.tracker.isSatisfied s'.tracked))

variable [Source σ]

/-! ### One step -/

theorem rest_of_choose {unsatisfied : Array Nat} {choice : Option Nat × Strategy}
    (h : s.choose t unsatisfied = .ok (choice, s')) :
    s'.finished = s.finished ∧ s'.flips = s.flips ∧ s'.tracked = s.tracked := by
  unfold choose at h
  dsimp only at h
  obtain ⟨⟨⟨pick, selector⟩, source⟩, -, h⟩ := Checked.bind_eq_ok_iff.1 h
  cases h
  exact ⟨rfl, rfl, rfl⟩

theorem leaves_of_flip {step : Step} {v : Nat} {strategy : Strategy} (hfin : s.finished = none)
    (h : s.flip t v strategy = .ok (step, s')) :
    ∃ restarted, step = .flipped v strategy restarted ∧ s'.finished = none ∧
      s'.flips = s.flips + 1 := by
  unfold flip at h
  obtain ⟨assignment, -, h⟩ := Checked.bind_eq_ok_iff.1 h
  dsimp only at h
  split_ifs at h
  all_goals
    obtain ⟨tracked, -, h⟩ := Checked.bind_eq_ok_iff.1 h
    cases h
    exact ⟨_, rfl, hfin, rfl⟩

theorem leaves_of_step {step : Step} (h : s.step t = .ok (step, s')) : s.Leaves t s' step := by
  unfold Search.step at h
  cases hfin : s.finished with
  | some outcome =>
    rw [hfin] at h
    cases h
    exact ⟨hfin, rfl, fun hnone => by cases hfin.symm.trans hnone⟩
  | none =>
    rw [hfin] at h
    dsimp only at h
    split_ifs at h with hsat
    · cases h
      exact ⟨rfl, rfl, fun _ => .inl rfl⟩
    · cases h
      exact ⟨rfl, rfl, fun _ => .inl rfl⟩
    · obtain ⟨⟨⟨pick, strategy⟩, s₁⟩, hchoose, h⟩ := Checked.bind_eq_ok_iff.1 h
      obtain ⟨hfin₁, hflips₁, htracked₁⟩ := rest_of_choose hchoose
      cases pick with
      | none =>
        cases h
        refine ⟨rfl, hflips₁, fun _ => .inr ⟨rfl, ?_⟩⟩
        exact (congrArg t.tracker.isSatisfied htracked₁).trans (Bool.eq_false_iff.2 hsat)
      | some v =>
        obtain ⟨restarted, rfl, hfin', hflips⟩ := leaves_of_flip (hfin₁.trans hfin) h
        exact ⟨hfin', by rw [hflips, hflips₁]⟩

/-! ### Many steps and then a solve -/

/-- What every step keeps is kept by many. -/
theorem steps_induction {P : Search ω σ → Prop}
    (hstep : ∀ {s s' : Search ω σ} {step : Step}, P s → s.step t = .ok (step, s') → P s')
    (h : P s) {n : Nat} {log : List Step} (hs : s.steps t n = .ok (log, s')) : P s' := by
  induction n generalizing s log with
  | zero =>
    cases hs
    exact h
  | succ n ih =>
    obtain ⟨⟨step, s₁⟩, he, hs⟩ := Checked.bind_eq_ok_iff.1 hs
    obtain ⟨⟨log', s₂⟩, hs₂, hs⟩ := Checked.bind_eq_ok_iff.1 hs
    cases hs
    exact ih (hstep h he) hs₂

theorem run_of_finished {outcome : Outcome} (h : s.finished = some outcome) (budget : Nat) :
    run t (budget + 1) s = .ok (s.result outcome, s) := by
  rw [run, step_of_finished h]
  rfl

/-- Steps within the budget are steps that a solve would make. -/
theorem steps_then_solve {k : Nat} (hk : s.flips + k ≤ t.config.maxFlips) :
    (do let (_, s') ← s.steps t k; s'.solve t) = s.solve t := by
  induction k generalizing s with
  | zero => rfl
  | succ k ih =>
    obtain ⟨budget, hbudget⟩ : ∃ budget, t.config.maxFlips - s.flips = budget + 1 :=
      ⟨t.config.maxFlips - s.flips - 1, by omega⟩
    rw [solve, hbudget, run, steps]
    cases he : s.step t with
    | error fault => rfl
    | ok x =>
      obtain ⟨step, s₁⟩ := x
      have hleaves := leaves_of_step he
      cases step with
      | finished outcome =>
        -- the other steps change nothing, and the solve ends with its first step
        obtain ⟨hfin, hflips, -⟩ := hleaves
        simp only [Checked.ok_bind, steps_of_finished hfin, Checked.pure_eq_ok]
        rw [solve, hflips, hbudget, run_of_finished hfin]
      | flipped v strategy restarted =>
        obtain ⟨-, hflips⟩ := hleaves
        have hrest : t.config.maxFlips - s₁.flips = budget := by omega
        have hsolve := ih (s := s₁) (by omega)
        rw [solve, hrest] at hsolve
        refine Eq.trans ?_ hsolve
        simp only [Checked.ok_bind, bind_assoc, Checked.pure_eq_ok]

omit [Source σ] in
theorem unspent_of_ofAssignment {a : Assignment} {source : σ}
    (h : ofAssignment t a source = .ok s) : s.flips = 0 ∧ s.finished = none := by
  obtain ⟨tracked, -, h⟩ := Checked.bind_eq_ok_iff.1 h
  obtain ⟨selector, -, h⟩ := Checked.bind_eq_ok_iff.1 h
  cases h
  exact ⟨rfl, rfl⟩

theorem Starts.unspent (h : s.Starts t) : s.flips = 0 ∧ s.finished = none := by
  obtain ⟨a, source, -, hs⟩ := h.made
  exact unspent_of_ofAssignment hs

/-- Steps that a search makes after its start, up to as many as it has flips, are steps that solving
it at once would make: with whatever tracker, both ways lead to the same result, or to the same
fault. -/
theorem solve_after_steps (h₀ : s.Starts t) {k : Nat} (hk : k ≤ t.config.maxFlips) :
    (do let (_, s') ← s.steps t k; s'.solve t) = s.solve t :=
  steps_then_solve (by rw [h₀.unspent.1, Nat.zero_add]; exact hk)

/-- One clause with one literal, and more flips than it needs. -/
def threeFlips : Problem (TrackerKind.State .incremental) :=
  ofKind ⟨1, #[[1]]⟩ { maxFlips := 3 } .incremental

/-- The first step finds the solution, and the two after it tell of it. -/
theorem solve_after_three_steps :
    ∃ s₀ r s₁, startFrom threeFlips #[false] (ChaCha.ofSeed (.ofNat 0)) =
        (.ok (.ok s₀) : Checked _) ∧
      s₀.solve threeFlips = .ok (r, s₁) ∧
      (do let (_, s) ← s₀.steps threeFlips 3; s.solve threeFlips) = .ok (r, s₁) ∧
      r.outcome = .satisfied ∧ r.flips = 1 := by
  obtain ⟨s₀, h₀, hresult⟩ : ∃ s₀,
      startFrom threeFlips #[false] (ChaCha.ofSeed (.ofNat 0)) = (.ok (.ok s₀) : Checked _) ∧
      (s₀.solve threeFlips).map (fun x => (x.1.outcome, x.1.flips)) = .ok (.satisfied, 1) :=
    ⟨_, rfl, by decide +kernel⟩
  have hsame := solve_after_steps (k := 3) ⟨_, .inr ⟨_, h₀⟩⟩ (Nat.le_refl _)
  obtain ⟨⟨r, s₁⟩, hr, htold⟩ := Checked.map_eq_ok_iff.1 hresult
  exact ⟨s₀, r, s₁, h₀, hr, hsame.trans hr, Prod.ext_iff.1 htold⟩

end Search

end SatWalk
