import SatWalk.Proofs.Search.Prefix

/-! Searches that are finished. A finished search stays as it is, whatever its tracker answers, and
solving it reports the outcome that its steps report as long as flips are left. When none are
left, solving asks the tracker instead, and a tracker that has misled the search to another
outcome makes the two differ. -/

namespace SatWalk.Search

variable {ω σ : Type} {t : Problem ω} {s s' : Search ω σ}

/-- The outcome of a finished search agrees with what its tracker answers. -/
def Settled (t : Problem ω) (s : Search ω σ) : Prop :=
  ∀ outcome, s.finished = some outcome → outcome.Agrees (t.tracker.isSatisfied s.tracked)

variable [Source σ]

theorem Settled.step {step : Step} (h : s.Settled t) (he : s.step t = .ok (step, s')) :
    s'.Settled t := by
  intro outcome hfin'
  have hleaves := leaves_of_step he
  cases step with
  | flipped v strategy restarted => cases hleaves.1.symm.trans hfin'
  | finished reported =>
    obtain ⟨hfin, -, hagrees⟩ := hleaves
    obtain rfl := Option.some.inj (hfin.symm.trans hfin')
    cases hf : s.finished with
    | none => exact hagrees hf
    | some o =>
      -- a search that was finished before is the same search
      cases (step_of_finished hf).symm.trans he
      exact h _ hf

/-- What a step has reported as the end is the end. -/
theorem finished_of_steps {n : Nat} {log : List Step} (hs : s.steps t n = .ok (log, s'))
    {outcome : Outcome} (hlog : .finished outcome ∈ log) : s'.finished = some outcome := by
  induction n generalizing s log with
  | zero =>
    cases hs
    contradiction
  | succ n ih =>
    obtain ⟨⟨step, s₁⟩, he, hs⟩ := Checked.bind_eq_ok_iff.1 hs
    obtain ⟨⟨log', s₂⟩, hs₂, hs⟩ := Checked.bind_eq_ok_iff.1 hs
    cases hs
    rcases List.mem_cons.1 hlog with rfl | hlog
    · have hfin := (leaves_of_step he).1
      cases (steps_of_finished hfin n).symm.trans hs₂
      exact hfin
    · exact ih hs₂ hlog

theorem solve_of_finished {outcome : Outcome} (h : s.Settled t) (hfin : s.finished = some outcome) :
    ∃ r s', s.solve t = .ok (r, s') ∧ r.flips = s.flips ∧
      r.outcome = if s.flips < t.config.maxFlips ∨ t.tracker.isSatisfied s.tracked = true
        then outcome else .exhausted := by
  unfold solve
  by_cases hflips : s.flips < t.config.maxFlips
  · obtain ⟨budget, hbudget⟩ : ∃ budget, t.config.maxFlips - s.flips = budget + 1 :=
      ⟨t.config.maxFlips - s.flips - 1, by omega⟩
    rw [hbudget, run_of_finished hfin, if_pos (.inl hflips)]
    exact ⟨_, _, rfl, rfl, rfl⟩
  · refine ⟨_, _, by rw [Nat.sub_eq_zero_of_le (Nat.le_of_not_lt hflips), run], rfl, ?_⟩
    rcases h outcome hfin with rfl | ⟨rfl, hsat⟩
    · simp [exhaust, result, hflips]
    · simp [exhaust, result, hflips, hsat]

/-- A search that a right tracker has finished is satisfied. -/
theorem Sound.satisfied_of_step {width : Nat} {Tracks : Assignment → ω → Prop} {step : Step}
    (ht : t.Regular width Tracks)
    (h : s.Sound t Tracks ∧ (s.finished ≠ none → t.tracker.isSatisfied s.tracked = true))
    (he : s.step t = .ok (step, s')) :
    s'.Sound t Tracks ∧ (s'.finished ≠ none → t.tracker.isSatisfied s'.tracked = true) := by
  obtain ⟨hsound, hdone⟩ := h
  cases hfin : s.finished with
  | some outcome =>
    cases (step_of_finished hfin).symm.trans he
    exact ⟨hsound, hdone⟩
  | none =>
    rcases hsound.step_cases ht hfin with ⟨hu, he'⟩ | ⟨-, he', -⟩ | ⟨v, source, k, -, -, he', hs', -⟩
    all_goals cases he.symm.trans he'
    · refine ⟨⟨hsound.size, hsound.tracks, hsound.clean⟩, fun _ => ?_⟩
      exact (ht.faithful.isSatisfied_eq hsound.tracks).trans (by rw [hu]; rfl)
    · exact ⟨hs', fun hne => absurd ((finished_advanced t.formula v source).trans hfin) hne⟩

/-- Once a step has reported an outcome, every further step reports it and changes nothing, and
solving reports it too with the flips made so far, unless these are all flips and the tracker
does not answer that the formula is satisfied. A right tracker does. -/
theorem finished_stays {s₀ : Search ω σ} (h₀ : s₀.Starts t) {n : Nat} {log : List Step}
    (hs : s₀.steps t n = .ok (log, s)) {outcome : Outcome} (hlog : .finished outcome ∈ log) :
    (∀ m, s.steps t m = .ok (List.replicate m (.finished outcome), s)) ∧
      (∃ r s', s.solve t = .ok (r, s') ∧ r.flips = s.flips ∧
        r.outcome = if s.flips < t.config.maxFlips ∨ t.tracker.isSatisfied s.tracked = true
          then outcome else .exhausted) ∧
      ∀ {width : Nat} {Tracks : Assignment → ω → Prop}, t.Regular width Tracks →
        t.tracker.isSatisfied s.tracked = true := by
  have hfin := finished_of_steps hs hlog
  have hsettled : s.Settled t := by
    refine steps_induction (P := Settled t) Settled.step (fun outcome hfin₀ => ?_) hs
    cases h₀.unspent.2.symm.trans hfin₀
  refine ⟨steps_of_finished hfin, solve_of_finished hsettled hfin, fun {width Tracks} ht => ?_⟩
  have hdone := steps_induction (Sound.satisfied_of_step ht)
    ⟨(h₀.sound ht).1, fun hne => absurd h₀.unspent.2 hne⟩ hs
  exact hdone.2 (by rw [hfin]; nofun)

/-- Lists the only clause until a flip is made, and a clause that there is not after that. -/
def misleading : Tracker (Array Nat) where
  build _ _ := .ok #[0]
  rebuild _ _ _ := .ok #[0]
  recordFlip _ _ _ _ := .ok #[Text.countBound - 1]
  isSatisfied _ := false
  unsatisfied := id

def misled (maxFlips : Nat) : Problem (Array Nat) :=
  ⟨⟨1, #[[1]]⟩, { maxFlips }, misleading⟩

/-- With a flip to spare, solving reports what the second step has reported. -/
theorem finished_stays_inconsistent :
    ∃ s₀ log s r s', startFrom (misled 2) #[false] (ChaCha.ofSeed (.ofNat 0)) =
        (.ok (.ok s₀) : Checked _) ∧
      s₀.steps (misled 2) 2 = .ok (log, s) ∧ .finished .inconsistent ∈ log ∧
      s.steps (misled 2) 5 = .ok (List.replicate 5 (.finished .inconsistent), s) ∧
      s.solve (misled 2) = .ok (r, s') ∧ r.outcome = .inconsistent ∧ r.flips = 1 := by
  obtain ⟨s₀, h₀, hsteps⟩ : ∃ s₀,
      startFrom (misled 2) #[false] (ChaCha.ofSeed (.ofNat 0)) = (.ok (.ok s₀) : Checked _) ∧
      (s₀.steps (misled 2) 2).map (fun x => (decide (.finished .inconsistent ∈ x.1), x.2.flips)) =
        .ok (true, 1) :=
    ⟨_, rfl, by decide +kernel⟩
  obtain ⟨⟨log, s⟩, hs, htold⟩ := Checked.map_eq_ok_iff.1 hsteps
  obtain ⟨hlog, hflips⟩ := Prod.mk.inj htold
  obtain ⟨hstay, ⟨r, s', hr, hrflips, hro⟩, -⟩ :=
    finished_stays ⟨_, .inr ⟨_, h₀⟩⟩ hs (of_decide_eq_true hlog)
  refine ⟨s₀, log, s, r, s', h₀, hs, of_decide_eq_true hlog, hstay 5, hr, ?_, hrflips.trans hflips⟩
  rw [hro, hflips]
  rfl

/-- With no flip to spare, it does not. -/
theorem finished_outcome_replaced :
    ∃ s₀ log s r s', startFrom (misled 1) #[false] (ChaCha.ofSeed (.ofNat 0)) =
        (.ok (.ok s₀) : Checked _) ∧
      s₀.steps (misled 1) 2 = .ok (log, s) ∧ .finished .inconsistent ∈ log ∧
      s.solve (misled 1) = .ok (r, s') ∧ r.outcome = .exhausted := by
  obtain ⟨s₀, h₀, hall⟩ : ∃ s₀,
      startFrom (misled 1) #[false] (ChaCha.ofSeed (.ofNat 0)) = (.ok (.ok s₀) : Checked _) ∧
      (do
        let x ← s₀.steps (misled 1) 2
        let y ← x.2.solve (misled 1)
        return (decide (.finished .inconsistent ∈ x.1), y.1.outcome)) =
        (.ok (true, .exhausted) : Checked _) :=
    ⟨_, rfl, by decide +kernel⟩
  obtain ⟨⟨log, s⟩, hs, hall⟩ := Checked.bind_eq_ok_iff.1 hall
  obtain ⟨⟨r, s'⟩, hr, htold⟩ := Checked.bind_eq_ok_iff.1 hall
  obtain ⟨hlog, hro⟩ := Prod.mk.inj (Except.ok.inj htold)
  exact ⟨s₀, log, s, r, s', h₀, hs, of_decide_eq_true hlog, hr, hro⟩

end SatWalk.Search
