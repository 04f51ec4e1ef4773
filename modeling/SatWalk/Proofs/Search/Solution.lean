import SatWalk.Proofs.Search.Outcome

/-! What becomes of a solution that a flip finds. The next step, or the end of the run, tells of
it, unless the flip also completes a restart period: then every value is drawn anew first,
and the solution is lost if the draw does not give it back. -/

namespace SatWalk.Search

variable {ω σ : Type} {t : Problem ω} {width : Nat} {Tracks : Assignment → ω → Prop}
  {s : Search ω σ} [Source σ]

theorem Sound.flips_le_of_run (ht : t.Regular width Tracks) (h : s.Sound t Tracks)
    (hfin : s.finished = none) {budget : Nat} {r : RunResult} {s' : Search ω σ}
    (he : run t budget s = .ok (r, s')) : s.flips ≤ r.flips := by
  induction budget generalizing s with
  | zero =>
    cases he
    exact Nat.le_refl _
  | succ budget ih =>
    obtain ⟨⟨step, s₁⟩, hstep, he⟩ := Checked.bind_eq_ok_iff.1 he
    rcases h.step_cases ht hfin with ⟨-, he'⟩ | ⟨-, he', -⟩ | ⟨v, source, k, -, -, he', h₁, -⟩ <;>
      cases hstep.symm.trans he'
    · cases he
      exact Nat.le_refl _
    · have hflips := ih h₁ ((finished_advanced t.formula v source).trans hfin) he
      rw [track, flips_advanced] at hflips
      omega

/-- A search whose assignment is a solution says so without another flip. -/
theorem Sound.run_of_nil (ht : t.Regular width Tracks) (h : s.Sound t Tracks)
    (hfin : s.finished = none) (hu : t.formula.unsatisfiedBy s.assignment = []) (budget : Nat) :
    ∃ r s', run t budget s = .ok (r, s') ∧ r.outcome = .satisfied ∧ r.flips = s.flips ∧
      r.assignment = some s.assignment := by
  cases budget with
  | zero =>
    refine ⟨_, _, rfl, ?_⟩
    simp [ht.faithful.isSatisfied_eq h.tracks, hu, result]
  | succ budget =>
    refine ⟨_, _, by rw [run, h.step_of_nil ht hfin hu]; rfl, rfl, rfl, rfl⟩

/-- A search that is satisfied without another flip is so with its own assignment. -/
theorem Sound.assignment_of_run (ht : t.Regular width Tracks) (h : s.Sound t Tracks)
    (hfin : s.finished = none) {budget : Nat} {r : RunResult} {s' : Search ω σ}
    (he : run t budget s = .ok (r, s')) (ho : r.outcome = .satisfied) (hr : r.flips = s.flips) :
    r.assignment = some s.assignment := by
  cases budget with
  | zero =>
    cases he
    exact if_pos ho
  | succ budget =>
    obtain ⟨⟨step, s₁⟩, hstep, he⟩ := Checked.bind_eq_ok_iff.1 he
    rcases h.step_cases ht hfin with ⟨-, he'⟩ | ⟨-, he', -⟩ | ⟨v, source, k, -, -, he', h₁, -⟩ <;>
      cases hstep.symm.trans he'
    · cases he
      rfl
    · have hflips := h₁.flips_le_of_run ht ((finished_advanced t.formula v source).trans hfin) he
      rw [track, flips_advanced] at hflips
      omega

/-- A search is satisfied with a solution and without another flip, if and only if it has already
reached that solution. -/
theorem Sound.run_solution_iff (ht : t.Regular width Tracks) (h : s.Sound t Tracks)
    (hfin : s.finished = none) {a : Assignment} (ha : t.formula.unsatisfiedBy a = [])
    (budget : Nat) :
    (∃ r s', run t budget s = .ok (r, s') ∧ r.outcome = .satisfied ∧ r.flips = s.flips ∧
        r.assignment = some a) ↔ s.assignment = a := by
  constructor
  · rintro ⟨r, s', hr, ho, hflips, hra⟩
    have hown := h.assignment_of_run ht hfin hr ho hflips
    exact Option.some.inj (hown.symm.trans hra)
  · rintro rfl
    exact h.run_of_nil ht hfin ha budget

omit [Source σ] in
theorem fresh_tells {a : Assignment} {k : ω} {selector : Selector} {source : σ}
    (hc : t.config.validate = .ok ()) :
    (fresh t a k selector source).clock.Tells (fresh t a k selector source).flips := by
  refine ⟨fun frequency hf => Config.restartInterval_pos hc hf, ?_⟩
  · cases hf : t.config.restartInterval <;> simp [fresh, hf]

/-- After the first steps of a search comes the rest of its run, and restarts come with the flips
whose numbers are multiples of the period. -/
theorem Starts.goesOn (ht : t.Regular width Tracks) {s₀ : Search ω σ} (h₀ : s₀.Starts t) {k : Nat}
    {log : List Step} (hs : s₀.steps t k = .ok (log, s)) (hfin : s.finished = none) :
    s.Sound t Tracks ∧ s.flips = k ∧
      (s.clock.tick.1 = true ↔ t.config.restarts = true ∧ t.config.restartFrequency ∣ k + 1) ∧
      ∀ budget, k + budget = t.config.maxFlips → s₀.solve t = run t budget s := by
  have hc := h₀.check
  obtain ⟨hsound, a, k₀, selector, source, rfl⟩ := h₀.sound ht
  obtain ⟨-, hgo⟩ := hsound.steps_goesOn ht hs hfin
  have htells := hgo.tells (fresh_tells (checkProblem_eq_ok_iff.1 hc).2)
  have hflips : s.flips = k := hgo.flips.trans (Nat.zero_add k)
  refine ⟨hgo.sound, hflips, ?_, fun budget hb => ?_⟩
  · rw [htells.tick_fst, hgo.frequency, hflips]
    simp [fresh, Config.restartInterval]
  · rw [← hgo.run_eq budget, hb]
    rfl

/-- A solution found by a flip is the result of the run with that flip as its last one, if and
only if the flip completes no restart period or the redraw gives the solution again. -/
theorem solution_kept_iff {f : Formula} {c : Config} {kind : TrackerKind}
    (hlen : f.numLiterals < size32) {s₀ s s' : Search kind.State σ}
    (h₀ : s₀.Starts (ofKind f c kind)) {k : Nat} (hk : k < c.maxFlips) {log : List Step}
    (hs : s₀.steps (ofKind f c kind) k = .ok (log, s)) {v : Nat} {strategy : Strategy}
    {restarted : Bool} (hstep : s.step (ofKind f c kind) = .ok (.flipped v strategy restarted, s'))
    {a : Assignment} (ha : s.assignment.flip v = .ok a) (hsat : a.satisfies f = .ok true) :
    (∃ r s₁, s₀.solve (ofKind f c kind) = .ok (r, s₁) ∧ r.outcome = .satisfied ∧
        r.flips = k + 1 ∧ r.assignment = some a) ↔
      ¬ (c.restarts = true ∧ c.restartFrequency ∣ k + 1) ∨ s'.assignment = a := by
  have hf : f.Valid := (checkProblem_eq_ok_iff.1 h₀.check).1
  have ht := regular (c := c) hf hlen kind
  have hfin : s.finished = none := by
    cases hf : s.finished with
    | none => rfl
    | some outcome => cases (step_of_finished hf).symm.trans hstep
  obtain ⟨hsound, hflips, htick, hrun⟩ := h₀.goesOn ht hs hfin
  rcases hsound.step_cases ht hfin with
    ⟨-, he⟩ | ⟨-, he, -⟩ | ⟨w, source, k', -, hw, he, hs', -⟩ <;>
    cases hstep.symm.trans he
  have hvar := Formula.mem_variablesOf_of_mem_candidates hw
  have hflip := Assignment.flip_eq (hf.pos_of_mem_variablesOf hvar)
    (hsound.size ▸ hf.le_of_mem_variablesOf hvar)
  obtain rfl : s.assignment.flipped v = a := Except.ok.inj (hflip.symm.trans ha)
  generalize hs₁ : (s.advanced (ofKind f c kind).formula v source).track k' = s₁ at *
  have hfin₁ : s₁.finished = none := by
    rw [← hs₁]
    exact (finished_advanced _ v source).trans hfin
  have hflips₁ : s₁.flips = k + 1 := by
    rw [← hs₁, ← hflips]
    exact flips_advanced _ v source
  have hkeep : ¬ (c.restarts = true ∧ c.restartFrequency ∣ k + 1) →
      s₁.assignment = s.assignment.flipped v := fun hno => by
    rw [← hs₁]
    exact assignment_advanced _ v source (Bool.eq_false_iff.2 (mt htick.1 hno))
  obtain ⟨budget, hbudget⟩ : ∃ budget, k + (budget + 1) = c.maxFlips :=
    ⟨c.maxFlips - (k + 1), by omega⟩
  have hsolve : s₀.solve (ofKind f c kind) = run (ofKind f c kind) budget s₁ := by
    rw [hrun _ hbudget, run, hstep]
    rfl
  have hu : f.unsatisfiedBy (s.assignment.flipped v) = [] := by
    rw [Assignment.satisfies_eq hf ((Assignment.size_flipped v).trans hsound.size)] at hsat
    simpa using hsat
  rw [or_iff_right_of_imp hkeep, hsolve, ← hflips₁]
  exact hs'.run_solution_iff ht hfin₁ hu budget

/-- One clause with one literal; the only flip of the budget completes a period. -/
def oneFlip : Problem (TrackerKind.State .incremental) :=
  ofKind ⟨1, #[[1]]⟩ { maxFlips := 1, restartFrequency := 1 } .incremental

/-- The flip finds the solution and the redraw loses it. -/
theorem solution_lost_in_redraw :
    ∃ s₀ s', startFrom oneFlip #[false] (ChaCha.ofSeed (.ofNat 1)) = (.ok (.ok s₀) : Checked _) ∧
      s₀.step oneFlip = .ok (.flipped 1 .random true, s') ∧
      s₀.assignment.flip 1 = .ok ⟨#[true]⟩ ∧
      Assignment.satisfies ⟨#[true]⟩ oneFlip.formula = .ok true ∧
      ¬ ∃ r s₁, s₀.solve oneFlip = .ok (r, s₁) ∧ r.outcome = .satisfied ∧ r.flips = 1 ∧
        r.assignment = some ⟨#[true]⟩ := by
  obtain ⟨s₀, h₀, ha, hmap⟩ : ∃ s₀,
      startFrom oneFlip #[false] (ChaCha.ofSeed (.ofNat 1)) = (.ok (.ok s₀) : Checked _) ∧
      s₀.assignment.flip 1 = .ok ⟨#[true]⟩ ∧
      (s₀.step oneFlip).map (fun x => (x.1, x.2.assignment)) =
        .ok (.flipped 1 .random true, ⟨#[false]⟩) :=
    ⟨_, rfl, by decide, by decide +kernel⟩
  obtain ⟨s', hstep, hlost⟩ : ∃ s', s₀.step oneFlip = .ok (.flipped 1 .random true, s') ∧
      s'.assignment = ⟨#[false]⟩ := by
    cases hx : s₀.step oneFlip with
    | error e => simp [hx, Except.map] at hmap
    | ok x =>
      obtain ⟨step, s'⟩ := x
      simp only [hx, Except.map, Except.ok.injEq, Prod.mk.injEq] at hmap
      exact ⟨s', by rw [hmap.1], hmap.2⟩
  refine ⟨s₀, s', h₀, hstep, ha, by decide, ?_⟩
  rw [oneFlip, solution_kept_iff (k := 0) (by decide) ⟨_, .inr ⟨_, h₀⟩⟩ (by decide) rfl hstep ha
    (by decide), hlost]
  decide

end SatWalk.Search
