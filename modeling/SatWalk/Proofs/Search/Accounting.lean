import SatWalk.Proofs.Search.Solution

/-! The accounts of a search. A step that flips counts one flip and one pick of the strategy that
it reports, and ticks the clock once; no other step counts anything. What was counted is
therefore told by the log of the steps, whether they were made one by one or by solving,
and the clock divides the flips into periods. -/

namespace SatWalk

namespace Step

/-- The strategy that a step reports, if it flips. -/
def strategy? : Step → Option Strategy
  | .flipped _ strategy _ => some strategy
  | .finished _ => none

/-- How many steps of a log flip. -/
def flipsIn (log : List Step) : Nat :=
  log.countP (·.strategy?.isSome)

/-- How many steps of a log flip by a strategy. -/
def picksIn (strategy : Strategy) (log : List Step) : Nat :=
  log.countP (·.strategy? = some strategy)

theorem flipsIn_concat (log : List Step) (step : Step) :
    flipsIn (log ++ [step]) = flipsIn log + if step.strategy?.isSome then 1 else 0 := by
  simp [flipsIn, List.countP_append, List.countP_singleton]

theorem picksIn_concat (strategy : Strategy) (log : List Step) (step : Step) :
    picksIn strategy (log ++ [step]) =
      picksIn strategy log + if step.strategy? = some strategy then 1 else 0 := by
  simp [picksIn, List.countP_append, List.countP_singleton]

/-- An entry of a log is the last one, or an entry of the log before it. -/
theorem concat_eq_append_cons {log before after : List Step} {last step : Step}
    (h : log ++ [last] = before ++ step :: after) :
    (log = before ∧ last = step) ∨ ∃ after', log = before ++ step :: after' := by
  rcases List.eq_nil_or_concat after with rfl | ⟨after, last', rfl⟩
  · obtain ⟨rfl, hlast⟩ := List.append_inj' h rfl
    exact .inl ⟨rfl, List.head_eq_of_cons_eq hlast⟩
  · rw [List.concat_eq_append, ← List.cons_append, ← List.append_assoc] at h
    exact .inr ⟨after, (List.append_inj' h rfl).1⟩

/-- Every flip is by one of the strategies. -/
theorem picksIn_add_picksIn (log : List Step) :
    picksIn .greedy log + picksIn .random log = flipsIn log := by
  induction log using List.reverseRecOn with
  | nil => rfl
  | append_singleton log step ih =>
    rw [picksIn_concat, picksIn_concat, flipsIn_concat, ← ih]
    cases step with
    | flipped v strategy restarted =>
      cases strategy
      all_goals
        simp only [strategy?, Option.isSome_some, if_true, reduceCtorEq, Option.some.injEq,
          if_false]
        omega
    | finished outcome => rfl

end Step

/-- How many picks of a strategy are counted. -/
def Stats.picks (s : Stats) : Strategy → Nat
  | .greedy => s.greedyPicks
  | .random => s.randomPicks

theorem Stats.picks_count (s : Stats) (strategy strategy' : Strategy) :
    (s.count strategy).picks strategy' =
      s.picks strategy' + if strategy = strategy' then 1 else 0 := by
  cases strategy <;> cases strategy' <;> rfl

theorem Stats.restarts_count (s : Stats) (strategy : Strategy) :
    (s.count strategy).restarts = s.restarts := by
  cases strategy <;> rfl

/-! ### Periods -/

namespace RestartClock

/-- How many periods a number of flips completes. -/
def completed (period : Option Nat) (flips : Nat) : Nat :=
  match period with
  | some m => flips / m
  | none => 0

/-- How many flips belong to the period that is not complete. -/
def pending (period : Option Nat) (flips : Nat) : Nat :=
  match period with
  | some m => flips % m
  | none => flips

/-- Whether the flip with that number completes a period. -/
def completes (period : Option Nat) (flips : Nat) : Bool :=
  period.any fun m => decide (m ∣ flips)

theorem completed_succ (period : Option Nat) (flips : Nat) :
    completed period (flips + 1) =
      completed period flips + if completes period (flips + 1) then 1 else 0 := by
  cases period with
  | none => rfl
  | some m => simp [completed, completes, Nat.succ_div]

variable {clock : RestartClock} {flips : Nat}

theorem Tells.tick_fst_eq (h : clock.Tells flips) :
    clock.tick.1 = completes clock.frequency (flips + 1) := by
  rw [Bool.eq_iff_iff, h.tick_fst, completes, Option.any_eq_true]
  simp only [decide_eq_true_iff]

theorem Tells.sinceRestart_eq (h : clock.Tells flips) :
    clock.sinceRestart = pending clock.frequency flips := by
  rw [h.since]
  rfl

end RestartClock

open RestartClock (completed completes pending)

/-! ### What is counted -/

/-- What is counted agrees with a log of steps, and the steps of the log report exactly the
restarts that are due. -/
structure Accounts (period : Option Nat) (log : List Step) (flips : Nat) (stats : Stats) : Prop where
  flips_eq : flips = Step.flipsIn log
  picks_eq : ∀ strategy, stats.picks strategy = Step.picksIn strategy log
  picks_add : stats.greedyPicks + stats.randomPicks = flips
  restarts_eq : stats.restarts = completed period flips
  restarted_eq : ∀ {before after : List Step} {v : Nat} {strategy : Strategy} {restarted : Bool},
    log = before ++ .flipped v strategy restarted :: after →
      restarted = completes period (Step.flipsIn before + 1)

namespace Accounts

variable {period : Option Nat} {log : List Step} {flips : Nat} {stats : Stats}

theorem nil (finalP : Float) : Accounts period [] 0 { finalP } where
  flips_eq := rfl
  picks_eq strategy := by cases strategy <;> rfl
  picks_add := rfl
  restarts_eq := by cases period <;> simp [completed]
  restarted_eq := by simp

/-- Nothing is counted in the end. -/
theorem finished (h : Accounts period log flips stats) (outcome : Outcome) :
    Accounts period (log ++ [.finished outcome]) flips stats where
  flips_eq := by rw [Step.flipsIn_concat, ← h.flips_eq]; rfl
  picks_eq strategy := by rw [Step.picksIn_concat, ← h.picks_eq]; rfl
  picks_add := h.picks_add
  restarts_eq := h.restarts_eq
  restarted_eq {before after v strategy restarted} hlog := by
    obtain ⟨-, hlast⟩ | ⟨after', hlog⟩ := Step.concat_eq_append_cons hlog
    · cases hlast
    · exact h.restarted_eq hlog

/-- A flip counts once for its strategy, and for a restart if it completes a period. -/
theorem flipped (h : Accounts period log flips stats) {stats' : Stats} {v : Nat}
    {strategy : Strategy} {restarted : Bool} (hrestarted : restarted = completes period (flips + 1))
    (hpicks : ∀ strategy', stats'.picks strategy' =
      stats.picks strategy' + if strategy = strategy' then 1 else 0)
    (hrestarts : stats'.restarts = stats.restarts + if restarted then 1 else 0) :
    Accounts period (log ++ [.flipped v strategy restarted]) (flips + 1) stats' := by
  have hp : ∀ strategy', stats'.picks strategy' =
      Step.picksIn strategy' (log ++ [.flipped v strategy restarted]) := by
    intro strategy'
    rw [hpicks, h.picks_eq, Step.picksIn_concat]
    simp [Step.strategy?]
  have hf : flips + 1 = Step.flipsIn (log ++ [.flipped v strategy restarted]) := by
    rw [Step.flipsIn_concat, ← h.flips_eq]
    rfl
  refine ⟨hf, hp, ?_, ?_, ?_⟩
  · rw [hf, ← Step.picksIn_add_picksIn]
    exact congrArg₂ (· + ·) (hp .greedy) (hp .random)
  · rw [hrestarts, h.restarts_eq, RestartClock.completed_succ, hrestarted]
  · intro before after w strategy' restarted' hlog
    obtain ⟨rfl, hlast⟩ | ⟨after', hlog⟩ := Step.concat_eq_append_cons hlog
    · cases hlast
      rw [← h.flips_eq]
      exact hrestarted
    · exact h.restarted_eq hlog

/-- Results report the counts as they are. -/
theorem result {ω σ : Type} {s : Search ω σ} {outcome : Outcome}
    (h : Accounts period log s.flips s.stats) :
    Accounts period log (s.result outcome).flips (s.result outcome).stats where
  flips_eq := h.flips_eq
  picks_eq strategy := by rw [← h.picks_eq]; cases strategy <;> rfl
  picks_add := h.picks_add
  restarts_eq := h.restarts_eq
  restarted_eq := h.restarted_eq

end Accounts

namespace Search

variable {ω σ : Type} {t : Problem ω} {width : Nat} {Tracks : Assignment → ω → Prop}
  {s : Search ω σ} {log : List Step}

/-- A sound search that keeps its accounts. -/
structure Kept (t : Problem ω) (Tracks : Assignment → ω → Prop) (log : List Step)
    (s : Search ω σ) : Prop where
  sound : s.Sound t Tracks
  frequency : s.clock.frequency = t.config.restartInterval
  tells : s.clock.Tells s.flips
  accounts : Accounts t.config.restartInterval log s.flips s.stats

theorem Kept.finish (h : s.Kept t Tracks log) (outcome : Outcome) :
    (s.finish outcome).2.Kept t Tracks (log ++ [.finished outcome]) where
  sound := ⟨h.sound.size, h.sound.tracks, h.sound.clean⟩
  frequency := h.frequency
  tells := h.tells
  accounts := h.accounts.finished outcome

variable [Source σ]

section Advanced

variable (f : Formula) (v : Nat) (source : σ)

theorem picks_advanced (strategy : Strategy) : (s.advanced f v source).stats.picks strategy =
    s.stats.picks strategy + if s.nextStrategy f = strategy then 1 else 0 := by
  rw [← Stats.picks_count]
  cases hb : s.clock.tick.1 <;> cases strategy <;> simp [advanced, turned, chosen, hb, Stats.picks]

theorem restarts_advanced : (s.advanced f v source).stats.restarts =
    s.stats.restarts + if s.clock.tick.1 then 1 else 0 := by
  cases hb : s.clock.tick.1 <;> simp [advanced, turned, chosen, hb, Stats.restarts_count]

end Advanced

theorem Kept.step (ht : t.Regular width Tracks) (h : s.Kept t Tracks log) :
    s.step t = .error .drawsExhausted ∨
      ∃ step s', s.step t = .ok (step, s') ∧ s'.Kept t Tracks (log ++ [step]) := by
  cases hfin : s.finished with
  | some outcome =>
    refine .inr ⟨_, _, step_of_finished hfin, h.sound, h.frequency, h.tells, ?_⟩
    exact h.accounts.finished outcome
  | none =>
    rcases h.sound.step_cases ht hfin with ⟨-, he⟩ | ⟨-, he, -⟩ | ⟨v, source, k, -, -, he, hs, -⟩
    · exact .inr ⟨_, _, he, h.finish .satisfied⟩
    · exact .inl he
    · have hflips := flips_advanced (s := s) t.formula v source
      have hclock := clock_advanced (s := s) t.formula v source
      refine .inr ⟨_, _, he, hs, ?_, ?_, ?_⟩
      · rw [track, hclock, RestartClock.frequency_tick, h.frequency]
      · rw [track, hclock, hflips]
        exact h.tells.tick_snd
      · rw [track, hflips]
        exact h.accounts.flipped (h.frequency ▸ h.tells.tick_fst_eq)
          (picks_advanced t.formula v source) (restarts_advanced t.formula v source)

/-- One step and then some more. -/
theorem steps_succ {step : Step} {s₁ : Search ω σ} (he : s.step t = .ok (step, s₁))
    (n : Nat) : s.steps t (n + 1) = (do
      let (log, s') ← s₁.steps t n
      return (step :: log, s')) := by
  rw [steps, he]
  rfl

theorem Kept.steps (ht : t.Regular width Tracks) (h : s.Kept t Tracks log) (n : Nat) :
    s.steps t n = .error .drawsExhausted ∨
      ∃ log' s', s.steps t n = .ok (log', s') ∧ s'.Kept t Tracks (log ++ log') := by
  induction n generalizing s log with
  | zero => exact .inr ⟨[], s, rfl, by rwa [List.append_nil]⟩
  | succ n ih =>
    rcases h.step ht with he | ⟨step, s₁, he, h₁⟩
    · exact .inl (by rw [Search.steps, he]; rfl)
    · rcases ih h₁ with hn | ⟨log', s', hn, h'⟩
      · exact .inl (by rw [steps_succ he, hn]; rfl)
      · refine .inr ⟨step :: log', s', by rw [steps_succ he, hn]; rfl, ?_⟩
        rwa [List.append_assoc] at h'

/-- Solving is stepping: the result tells what was counted after some further steps. -/
theorem Kept.run (ht : t.Regular width Tracks) (h : s.Kept t Tracks log) (budget : Nat) :
    run t budget s = .error .drawsExhausted ∨
      ∃ m log' s₁ outcome s₂, s.steps t m = .ok (log', s₁) ∧ s₁.Kept t Tracks (log ++ log') ∧
        run t budget s = .ok (s₁.result outcome, s₂) := by
  induction budget generalizing s log with
  | zero => exact .inr ⟨0, [], s, _, _, rfl, by rwa [List.append_nil], rfl⟩
  | succ budget ih =>
    rcases h.step ht with he | ⟨step, s₁, he, h₁⟩
    · exact .inl (by rw [Search.run, he]; rfl)
    · have hsteps {m log' s'} (hm : s₁.steps t m = .ok (log', s')) :
          s.steps t (m + 1) = .ok (step :: log', s') := by
        rw [steps_succ he, hm]
        rfl
      cases step with
      | finished outcome =>
        exact .inr ⟨1, _, s₁, outcome, s₁, hsteps (m := 0) rfl, h₁, by rw [Search.run, he]; rfl⟩
      | flipped v strategy restarted =>
        have hrun : Search.run t (budget + 1) s = Search.run t budget s₁ := by
          rw [Search.run, he]
          rfl
        rw [hrun]
        rcases ih h₁ with hr | ⟨m, log', s', outcome, s₂, hm, h', hr⟩
        · exact .inl hr
        · rw [List.append_assoc] at h'
          exact .inr ⟨m + 1, _, s', outcome, s₂, hsteps hm, h', hr⟩

/-! ### From the start -/

theorem Starts.kept (ht : t.Regular width Tracks) (h : s.Starts t) : s.Kept t Tracks [] := by
  have hc := h.check
  obtain ⟨hsound, a, k, selector, source, rfl⟩ := h.sound ht
  exact ⟨hsound, rfl, fresh_tells (checkProblem_eq_ok_iff.1 hc).2, .nil t.config.p⟩

/-- A search that starts and spends its budget in vain has made all its flips. -/
theorem Starts.flips_of_exhausted (ht : t.Regular width Tracks) (h : s.Starts t) {r : RunResult}
    {s' : Search ω σ} (hr : s.solve t = .ok (r, s')) (ho : r.outcome = .exhausted) :
    r.flips = t.config.maxFlips := by
  obtain ⟨hsound, a, k, selector, source, rfl⟩ := h.sound ht
  rcases fresh_solve_ended ht hsound with ⟨he, -⟩ | ⟨r', s₁, he, hclass⟩
  · cases hr.symm.trans he
  · cases hr.symm.trans he
    exact (hclass.exhausted ho).2.1

/-- However many steps a search makes after its start, and if it solves after them: what it
counts agrees with the log of its steps, and a solve in vain makes all flips. -/
theorem accounts_of_steps {f : Formula} {c : Config} {kind : TrackerKind}
    (hlen : f.numLiterals < size32) {s₀ : Search kind.State σ}
    (h₀ : s₀.Starts (ofKind f c kind)) (n : Nat) :
    (s₀.steps (ofKind f c kind) n = .error .drawsExhausted ∨
      ∃ log s, s₀.steps (ofKind f c kind) n = .ok (log, s) ∧
        Accounts c.restartInterval log s.flips s.stats ∧
        s.clock.sinceRestart = pending c.restartInterval s.flips ∧
        (s.solve (ofKind f c kind) = .error .drawsExhausted ∨
          ∃ m log' s₁ r s₂, s.steps (ofKind f c kind) m = .ok (log', s₁) ∧
            s.solve (ofKind f c kind) = .ok (r, s₂) ∧
            Accounts c.restartInterval (log ++ log') r.flips r.stats)) ∧
      ∀ r s₂, s₀.solve (ofKind f c kind) = .ok (r, s₂) → r.outcome = .exhausted →
        r.stats.greedyPicks + r.stats.randomPicks = c.maxFlips ∧
          r.stats.restarts = completed c.restartInterval c.maxFlips := by
  have hf : f.Valid := (checkProblem_eq_ok_iff.1 h₀.check).1
  have ht := regular (c := c) hf hlen kind
  have hkept := h₀.kept ht
  have hsolve {log : List Step} {s : Search kind.State σ}
      (h : Kept (ofKind f c kind) (kind.Tracks f) log s) :
      s.solve (ofKind f c kind) = .error .drawsExhausted ∨
        ∃ m log' s₁ r s₂, s.steps (ofKind f c kind) m = .ok (log', s₁) ∧
          s.solve (ofKind f c kind) = .ok (r, s₂) ∧
          Accounts c.restartInterval (log ++ log') r.flips r.stats := by
    rcases h.run ht (c.maxFlips - s.flips) with he | ⟨m, log', s₁, outcome, s₂, hm, h₁, hr⟩
    · exact .inl he
    · exact .inr ⟨m, log', s₁, _, s₂, hm, hr, h₁.accounts.result⟩
  refine ⟨?_, ?_⟩
  · rcases hkept.steps ht n with he | ⟨log, s, he, h⟩
    · exact .inl he
    · refine .inr ⟨log, s, he, h.accounts, ?_, hsolve h⟩
      rw [h.tells.sinceRestart_eq, h.frequency]
      rfl
  · intro r s₂ hr ho
    have hflips : r.flips = c.maxFlips := h₀.flips_of_exhausted ht hr ho
    rcases hsolve hkept with he | ⟨m, log', s₁, r', s₂', -, he, hacc⟩
    · cases hr.symm.trans he
    · cases hr.symm.trans he
      rw [← hflips]
      exact ⟨hacc.picks_add, hacc.restarts_eq⟩

/-- A formula without solutions, and a restart after every second flip. -/
def everySecond : Problem (TrackerKind.State .incremental) :=
  ofKind ⟨1, #[[1], [-1]]⟩ { maxFlips := 5, restartFrequency := 2 } .incremental

/-- Three flips complete one period, and one of them belongs to the next. -/
theorem accounts_of_three_steps :
    ∃ s₀ log s,
      startFrom everySecond #[false] (ChaCha.ofSeed (.ofNat 0)) = (.ok (.ok s₀) : Checked _) ∧
      s₀.steps everySecond 3 = .ok (log, s) ∧ Accounts (some 2) log s.flips s.stats ∧
      s.flips = 3 ∧ s.stats.restarts = 1 ∧ s.clock.sinceRestart = 1 := by
  obtain ⟨s₀, h₀, hflips⟩ : ∃ s₀,
      startFrom everySecond #[false] (ChaCha.ofSeed (.ofNat 0)) = (.ok (.ok s₀) : Checked _) ∧
      (s₀.steps everySecond 3).map (fun x => x.2.flips) = .ok 3 :=
    ⟨_, rfl, by decide +kernel⟩
  obtain ⟨he | ⟨log, s, he, hacc, hsince, -⟩, -⟩ :=
    accounts_of_steps (f := ⟨1, #[[1], [-1]]⟩) (c := { maxFlips := 5, restartFrequency := 2 })
      (by decide) ⟨_, .inr ⟨_, h₀⟩⟩ 3
  · rw [everySecond, he] at hflips
    cases hflips
  · rw [everySecond, he] at hflips
    have h3 : s.flips = 3 := Except.ok.inj hflips
    refine ⟨s₀, log, s, h₀, he, hacc, h3, ?_, ?_⟩
    · rw [hacc.restarts_eq, h3]
      rfl
    · rw [hsince, h3]
      rfl

end Search

end SatWalk
