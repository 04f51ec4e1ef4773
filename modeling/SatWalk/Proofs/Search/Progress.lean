import SatWalk.Proofs.Search.Start

/-! Progress through a search. Each step that flips counts one flip, and the clock tells how
many of them belong to the period that is not complete; steps that leave a search
unfinished are the beginning of its run. -/

namespace SatWalk

namespace RestartClock

/-- The clock has counted that many flips from its start, less complete periods. -/
structure Tells (c : RestartClock) (flips : Nat) : Prop where
  positive : ∀ frequency, c.frequency = some frequency → 0 < frequency
  since : c.sinceRestart = match c.frequency with
    | some frequency => flips % frequency
    | none => flips

@[simp] theorem frequency_tick (c : RestartClock) : c.tick.2.frequency = c.frequency := by
  unfold tick
  dsimp only
  split
  · split_ifs <;> rfl
  · rfl

theorem succ_mod {n m : Nat} (hm : 0 < m) :
    (n + 1) % m = if m ≤ n % m + 1 then 0 else n % m + 1 := by
  have hlt := Nat.mod_lt n hm
  rw [← Nat.mod_add_mod]
  split_ifs with h
  · rw [show n % m + 1 = m by omega, Nat.mod_self]
  · exact Nat.mod_eq_of_lt (by omega)

/-- A tick completes a period exactly if the new count of flips is a multiple of it. -/
theorem Tells.tick_fst {c : RestartClock} {flips : Nat} (h : c.Tells flips) :
    c.tick.1 = true ↔ ∃ frequency, c.frequency = some frequency ∧ frequency ∣ flips + 1 := by
  obtain ⟨frequency, since⟩ := c
  obtain ⟨hpos, hsince⟩ := h
  cases frequency with
  | none => simp [tick]
  | some frequency =>
    dsimp only at hsince
    have hmod := succ_mod (n := flips) (hpos frequency rfl)
    subst hsince
    simp only [tick, Option.some.injEq, exists_eq_left', Nat.dvd_iff_mod_eq_zero, hmod]
    split_ifs <;> simp

theorem Tells.tick_snd {c : RestartClock} {flips : Nat} (h : c.Tells flips) :
    c.tick.2.Tells (flips + 1) := by
  refine ⟨by simpa using h.positive, ?_⟩
  rw [frequency_tick]
  obtain ⟨frequency, since⟩ := c
  obtain ⟨hpos, hsince⟩ := h
  cases frequency with
  | none => simpa [tick] using hsince
  | some frequency =>
    dsimp only at hsince
    have hmod := succ_mod (n := flips) (hpos frequency rfl)
    subst hsince
    simp only [tick, hmod]
    split_ifs <;> rfl

end RestartClock

namespace Search

variable {ω σ : Type} {t : Problem ω} {width : Nat} {Tracks : Assignment → ω → Prop}
  {s : Search ω σ} [Source σ]

/-! ### What a flip advances -/

section Advanced

variable (f : Formula) (v : Nat) (source : σ)

theorem flips_advanced : (s.advanced f v source).flips = s.flips + 1 := by
  cases hb : s.clock.tick.1 <;> simp [advanced, turned, chosen, hb]

theorem finished_advanced : (s.advanced f v source).finished = s.finished := by
  cases hb : s.clock.tick.1 <;> simp [advanced, turned, chosen, hb]

theorem clock_advanced : (s.advanced f v source).clock = s.clock.tick.2 := by
  cases hb : s.clock.tick.1 <;> simp [advanced, turned, chosen, hb]

/-- Unless a period is complete, only the flipped variable has a new value. -/
theorem assignment_advanced (hb : s.clock.tick.1 = false) :
    (s.advanced f v source).assignment = s.assignment.flipped v := by
  simp [advanced, turned, chosen, hb]

end Advanced

/-! ### Many steps -/

/-- Makes a number of steps. -/
def steps (t : Problem ω) : Nat → Search ω σ → Checked (List Step × Search ω σ)
  | 0, s => .ok ([], s)
  | n + 1, s => do
    let (step, s) ← s.step t
    let (log, s) ← steps t n s
    return (step :: log, s)

theorem steps_of_finished {outcome : Outcome} (h : s.finished = some outcome) (n : Nat) :
    s.steps t n = .ok (List.replicate n (.finished outcome), s) := by
  induction n with
  | zero => rfl
  | succ n ih => simp [steps, step_of_finished h, ih, List.replicate_succ]

/-- What is true of a search that goes on after `n` flips more. -/
structure GoesOn (t : Problem ω) (Tracks : Assignment → ω → Prop) (n : Nat)
    (s s' : Search ω σ) : Prop where
  sound : s'.Sound t Tracks
  flips : s'.flips = s.flips + n
  frequency : s'.clock.frequency = s.clock.frequency
  tells : s.clock.Tells s.flips → s'.clock.Tells s'.flips
  run_eq : ∀ budget, run t (n + budget) s = run t budget s'

theorem Sound.steps_goesOn (ht : t.Regular width Tracks) (h : s.Sound t Tracks) {n : Nat}
    {log : List Step} {s' : Search ω σ} (hs : s.steps t n = .ok (log, s'))
    (hfin : s'.finished = none) : s.finished = none ∧ GoesOn t Tracks n s s' := by
  induction n generalizing s log with
  | zero =>
    cases hs
    exact ⟨hfin, h, rfl, rfl, id, fun budget => by rw [Nat.zero_add]⟩
  | succ n ih =>
    obtain ⟨⟨step, s₁⟩, he, hs⟩ := Checked.bind_eq_ok_iff.1 hs
    obtain ⟨⟨log', s₂⟩, hs₂, hs⟩ := Checked.bind_eq_ok_iff.1 hs
    cases hs
    -- A finished search would have stayed as it was.
    have hne {s₀ : Search ω σ} {outcome : Outcome} (h₀ : s₀.finished = some outcome)
        (hn : s₀.steps t n = .ok (log', s')) : False := by
      rw [steps_of_finished h₀] at hn
      cases hn
      rw [hfin] at h₀
      contradiction
    cases hf : s.finished with
    | some outcome =>
      rw [step_of_finished hf] at he
      cases he
      exact absurd hs₂ (hne hf)
    | none =>
      refine ⟨rfl, ?_⟩
      rcases h.step_cases ht hf with ⟨-, he'⟩ | ⟨-, he', -⟩ | ⟨v, source, k, -, -, he', h₁, -⟩ <;>
        cases he.symm.trans he'
      · exact absurd hs₂ (hne rfl)
      · obtain ⟨-, hgo⟩ := ih h₁ hs₂
        have hflips := flips_advanced (s := s) t.formula v source
        have hclock := clock_advanced (s := s) t.formula v source
        refine ⟨hgo.sound, ?_, ?_, fun ht => hgo.tells ?_, fun budget => ?_⟩
        · rw [hgo.flips, track, hflips]
          omega
        · rw [hgo.frequency, track, hclock, RestartClock.frequency_tick]
        · rw [track, hclock, hflips]
          exact ht.tick_snd
        · rw [← hgo.run_eq, Nat.add_right_comm, run, he]
          rfl

end Search

end SatWalk
