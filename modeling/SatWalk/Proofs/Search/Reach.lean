import Mathlib.Data.Finset.Card
import Mathlib.Order.Interval.Finset.Nat
import SatWalk.Proofs.Random.Script
import SatWalk.Proofs.Search.Solution

/-! The random walk can reach every solution. A clause that a solution satisfies and an
assignment does not has a variable on which the two differ; that variable is a candidate,
so there are words that choose it, and its flip brings the assignment one step nearer.
Without restarts nothing takes the search away again. -/

namespace SatWalk

/-! ### Distance -/

namespace Assignment

variable {a b : Assignment} {n : Nat}

/-- The variables up to `n` on which two assignments differ. -/
def differing (n : Nat) (a b : Assignment) : Finset Nat :=
  {v ∈ Finset.Icc 1 n | a.valueD v ≠ b.valueD v}

theorem mem_differing {v : Nat} :
    v ∈ differing n a b ↔ (0 < v ∧ v ≤ n) ∧ a.valueD v ≠ b.valueD v := by
  rw [differing, Finset.mem_filter, Finset.mem_Icc]
  rfl

/-- A flip of a variable on which the assignments differ makes them agree on it. -/
theorem differing_flipped (ha : a.values.size = n) {v : Nat} (hv : v ∈ differing n a b) :
    differing n (a.flipped v) b = (differing n a b).erase v := by
  obtain ⟨⟨hpos, hle⟩, hne⟩ := mem_differing.1 hv
  ext w
  rw [Finset.mem_erase, mem_differing, mem_differing]
  by_cases hw : 0 < w
  · rw [valueD_flipped hpos (ha ▸ hle) hw]
    by_cases hwv : w = v
    · subst hwv
      have hagree : (!a.valueD w) = b.valueD w := by
        cases ha : a.valueD w <;> cases hb : b.valueD w <;> simp_all
      simp [hagree]
    · simp [hwv]
  · simp [hw]

/-- A clause that only one of two assignments satisfies has a variable on which they differ. -/
theorem exists_differing {f : Formula} (hf : f.Valid) {c : Clause} (hc : c ∈ f.clauses)
    (ha : a.holdsClause c = false) (hb : b.holdsClause c = true) :
    ∃ l ∈ c, Literal.var l ∈ differing f.numVariables a b := by
  obtain ⟨l, hl, hbl⟩ := List.any_eq_true.1 hb
  have hal : a.holds l = false := by
    simpa using List.any_eq_false.1 ha l hl
  have hdeclared := (hf c hc).2 l hl
  refine ⟨l, hl, mem_differing.2 ⟨⟨hdeclared.var_pos, hdeclared.2⟩, ?_⟩⟩
  intro hsame
  rw [holds, hsame, ← holds, hbl] at hal
  contradiction

end Assignment

/-- While clauses are unsatisfied, some variable of theirs has another value in a solution. -/
theorem Formula.Valid.exists_differing {f : Formula} (hf : f.Valid) {a b : Assignment}
    (ha : f.unsatisfiedBy a ≠ []) (hb : f.unsatisfiedBy b = []) :
    ∃ v ∈ f.variablesOf (f.unsatisfiedBy a), v ∈ a.differing f.numVariables b := by
  obtain ⟨i, hi⟩ := List.exists_mem_of_ne_nil _ ha
  obtain ⟨c, hc, hac⟩ := mem_unsatisfiedBy.1 hi
  have hbc : b.holdsClause c = true := by
    by_contra hbc
    have hmem : i ∈ f.unsatisfiedBy b := mem_unsatisfiedBy.2 ⟨c, hc, Bool.eq_false_iff.2 hbc⟩
    rw [hb] at hmem
    contradiction
  obtain ⟨l, hl, hdiff⟩ := Assignment.exists_differing hf (Array.mem_of_getElem? hc) hac hbc
  exact ⟨_, mem_variablesOf.2 ⟨i, hi, c, hc, l, hl, rfl⟩, hdiff⟩

theorem Formula.length_candidates_lt {f : Formula}
    (hlen : f.numLiterals < size32) (strategy : Strategy) (a : Assignment) :
    (f.candidates strategy (f.unsatisfiedBy a)).length < size32 := by
  have hnodup : (f.candidates strategy (f.unsatisfiedBy a)).Nodup :=
    (f.sorted_candidates strategy).imp Nat.ne_of_lt
  have hsub := hnodup.subperm fun v hv => mem_variablesOf_of_mem_candidates hv
  calc (f.candidates strategy (f.unsatisfiedBy a)).length
      ≤ (f.variablesOf (f.unsatisfiedBy a)).length := hsub.length_le
    _ ≤ f.numLiterals :=
        length_variablesOf_le nodup_unsatisfiedBy fun _ => lt_of_mem_unsatisfiedBy
    _ < size32 := hlen

namespace Search

variable {ω σ : Type} {t : Problem ω} {width : Nat} {Tracks : Assignment → ω → Prop}

/-! ### A chosen step -/

section Advanced

variable {s : Search ω σ} [Source σ] (f : Formula) (v : Nat) (source : σ)

theorem source_advanced (hb : s.clock.tick.1 = false) :
    (s.advanced f v source).source = source := by
  simp [advanced, turned, chosen, hb]

theorem gate_advanced : (s.advanced f v source).gate = s.nextGate f := by
  cases hb : s.clock.tick.1 <;> simp [advanced, turned, chosen, hb]

end Advanced

/-- A search on its way, with a gate that stays open for random choices and without restarts. -/
structure Walking (t : Problem ω) (Tracks : Assignment → ω → Prop) (s : Search ω σ) : Prop where
  sound : s.Sound t Tracks
  unfinished : s.finished = none
  p_lt : s.gate.p < 1
  steady : s.gate.adaptive = false
  endless : s.clock.frequency = none

/-- A start without restarts and with an open, steady gate begins a walk. -/
theorem startFrom_walking (ht : t.Regular width Tracks)
    (hok : checkProblem t = .ok ()) (hadaptive : t.config.adaptiveP = false)
    (hp : t.config.p < 1) (hrestarts : t.config.restarts = false) {a : Assignment}
    (ha : a.values.size = t.formula.numVariables) (hm : t.formula.Fits width) (source : σ) :
    ∃ s : Search ω σ, startFrom t a.values source = (.ok (.ok s) : Checked _) ∧
      s.Walking t Tracks ∧ s.assignment = a ∧ s.source = source ∧ s.flips = 0 := by
  obtain ⟨s, hs⟩ := ofAssignment_fits ht hm ha source
  have hstart : startFrom t a.values source = (.ok (.ok s) : Checked _) := by
    rw [startFrom_of_ok hok, if_pos ha, show ofAssignment t ⟨a.values⟩ source = .ok s from hs]
    rfl
  obtain ⟨hsound, k, selector, rfl⟩ := ofAssignment_sound ht ha hs
  refine ⟨_, hstart, ⟨hsound, rfl, hp, hadaptive, ?_⟩, rfl, rfl, rfl⟩
  change t.config.restartInterval = none
  rw [Config.restartInterval, hrestarts]
  rfl

/-- The words with which a step chooses a variable at random. -/
def wordsFor (f : Formula) (a : Assignment) (v : Nat) : List UInt32 :=
  let pool := f.candidates .random (f.unsatisfiedBy a)
  randomGate ++ [Draw.wordFor pool.length (pool.idxOf v)]

variable [Source σ] {s : Search ω (Scripted σ)}

omit [Source σ] in
theorem Walking.nextGate_eq (h : s.Walking t Tracks) (f : Formula) : s.nextGate f = s.gate := by
  rw [nextGate, Gate.adjust, h.steady]
  rfl

theorem Walking.draw_eq (h : s.Walking t Tracks) {ws : List UInt32}
    (hs : s.source.script = randomGate ++ ws) (f : Formula) :
    (s.nextGate f).draw s.source = (.random, ⟨ws, s.source.rest⟩) := by
  rw [h.nextGate_eq, ← Gate.draw_randomGate h.p_lt, ← hs]

theorem Walking.pick_eq (ht : t.Regular width Tracks) (h : s.Walking t Tracks) {v : Nat}
    (hv : v ∈ t.formula.variablesOf (t.formula.unsatisfiedBy s.assignment)) {ws : List UInt32}
    (hs : s.source.script = wordsFor t.formula s.assignment v ++ ws) :
    s.nextStrategy t.formula = .random ∧
      s.pick t.formula = .ok (some v, ⟨ws, s.source.rest⟩) := by
  rw [wordsFor, List.append_assoc] at hs
  have hdraw := h.draw_eq hs t.formula
  have hstrategy : s.nextStrategy t.formula = .random := congrArg Prod.fst hdraw
  have hmem := ht.valid.mem_candidates_random.2 hv
  have hlt := List.idxOf_lt_length_of_mem hmem
  have hpool := Formula.length_candidates_lt ht.small .random s.assignment
  refine ⟨hstrategy, ?_⟩
  rw [pick, candidates, hstrategy, hdraw]
  generalize t.formula.candidates .random (t.formula.unsatisfiedBy s.assignment) = pool at *
  have hchoose : Draw.choose pool.toArray (⟨Draw.wordFor pool.length (pool.idxOf v) :: ws,
      s.source.rest⟩ : Scripted σ) = .ok (some pool[pool.idxOf v], ⟨ws, s.source.rest⟩) :=
    Draw.choose_wordFor hlt (Nat.le_of_lt hpool) ws s.source.rest
  rwa [List.getElem_idxOf] at hchoose

/-- The words for a variable make the next step flip it, and the walk goes on after them. -/
theorem Walking.step (ht : t.Regular width Tracks) (h : s.Walking t Tracks) {v : Nat}
    (hv : v ∈ t.formula.variablesOf (t.formula.unsatisfiedBy s.assignment)) {ws : List UInt32}
    (hs : s.source.script = wordsFor t.formula s.assignment v ++ ws) :
    ∃ s', s.step t = .ok (.flipped v .random false, s') ∧ s'.Walking t Tracks ∧
      s'.assignment = s.assignment.flipped v ∧ s'.source.script = ws ∧
      s'.flips = s.flips + 1 := by
  have hu : t.formula.unsatisfiedBy s.assignment ≠ [] := by
    intro hu
    rw [hu] at hv
    contradiction
  obtain ⟨hstrategy, hpick⟩ := h.pick_eq ht hv hs
  have htick : s.clock.tick.1 = false := by
    rw [RestartClock.tick, h.endless]
  obtain ⟨k, he, hsound⟩ := h.sound.step_of_pick ht h.unfinished hu hpick
  rw [hstrategy, htick] at he
  have hgate := gate_advanced (s := s) t.formula v ⟨ws, s.source.rest⟩
  rw [h.nextGate_eq] at hgate
  refine ⟨_, he, ⟨hsound, ?_, ?_, ?_, ?_⟩, ?_, ?_, ?_⟩
  · exact (finished_advanced t.formula v _).trans h.unfinished
  · rw [track, hgate]
    exact h.p_lt
  · rw [track, hgate]
    exact h.steady
  · rw [track, clock_advanced, RestartClock.frequency_tick]
    exact h.endless
  · exact assignment_advanced t.formula v _ htick
  · rw [track, source_advanced t.formula v _ htick]
  · exact flips_advanced t.formula v _

/-! ### The way to a solution -/

/-- For every assignment there are words that lead each walk from it to a solution, by no more
flips than there are variables on which the two differ. -/
theorem exists_words (ht : t.Regular width Tracks) {m : Assignment}
    (hm : t.formula.unsatisfiedBy m = []) {d : Nat} {a : Assignment}
    (ha : a.values.size = t.formula.numVariables)
    (hd : (a.differing t.formula.numVariables m).card ≤ d) :
    ∃ words : List UInt32, ∀ {σ : Type} [Source σ] {s : Search ω (Scripted σ)} {budget : Nat},
      s.Walking t Tracks → s.assignment = a → s.source.script = words → d ≤ budget →
        ∃ r s', run t budget s = .ok (r, s') ∧ r.outcome = .satisfied ∧ r.flips ≤ s.flips + d := by
  induction d generalizing a with
  | zero =>
    have hu : t.formula.unsatisfiedBy a = [] := by
      by_contra hu
      obtain ⟨v, -, hv⟩ := ht.valid.exists_differing hu hm
      rw [Finset.card_eq_zero.1 (Nat.le_zero.1 hd)] at hv
      contradiction
    refine ⟨[], fun {σ _ s budget} h hsa _ _ => ?_⟩
    obtain ⟨r, s', hr, ho, hflips, -⟩ :=
      h.sound.run_of_nil ht h.unfinished (hsa ▸ hu) budget
    exact ⟨r, s', hr, ho, Nat.le_of_eq hflips⟩
  | succ d ih =>
    by_cases hu : t.formula.unsatisfiedBy a = []
    · refine ⟨[], fun {σ _ s budget} h hsa _ _ => ?_⟩
      obtain ⟨r, s', hr, ho, hflips, -⟩ :=
        h.sound.run_of_nil ht h.unfinished (hsa ▸ hu) budget
      exact ⟨r, s', hr, ho, by omega⟩
    · obtain ⟨v, hv, hdiff⟩ := ht.valid.exists_differing hu hm
      have hcard := Finset.card_erase_of_mem hdiff
      rw [← Assignment.differing_flipped ha hdiff] at hcard
      obtain ⟨words, hwords⟩ := ih (a := a.flipped v)
        ((Assignment.size_flipped v).trans ha) (by omega)
      refine ⟨wordsFor t.formula a v ++ words, fun {σ _ s budget} h hsa hs hb => ?_⟩
      subst hsa
      obtain ⟨s₁, he, h₁, ha₁, hs₁, hflips⟩ := h.step ht hv hs
      obtain ⟨budget, rfl⟩ : ∃ b, budget = b + 1 := ⟨budget - 1, by omega⟩
      obtain ⟨r, s', hr, ho, hle⟩ := hwords h₁ ha₁ hs₁ (Nat.le_of_succ_le_succ hb)
      refine ⟨r, s', ?_, ho, by omega⟩
      rw [run, he]
      exact hr

/-- From every assignment the walk can reach every solution, with at most as many flips as there
are variables on which the two differ, unless there is no memory for its arrays. -/
theorem random_walk_reaches {f : Formula} {c : Config} (hf : f.validate = .ok ())
    (hlen : f.numLiterals < size32) (hc : c.validate = .ok ()) (hadaptive : c.adaptiveP = false)
    (hp : c.p < 1) (hrestarts : c.restarts = false) (kind : TrackerKind) {a m : Assignment}
    (ha : a.values.size = f.numVariables) (hm : m.verify f = (.ok (.ok ()) : Checked _))
    (hbudget : (a.differing f.numVariables m).card ≤ c.maxFlips) :
    (¬ f.Fits kind.width ∧ ∀ {σ : Type} [Source σ] (source : σ),
      ∃ e, startFrom (ofKind f c kind) a.values source = (.error e : Checked _)) ∨
    ∃ words : List UInt32, ∀ {σ : Type} [Source σ] (rest : σ), ∃ s₀ r s₁,
      startFrom (ofKind f c kind) a.values (⟨words, rest⟩ : Scripted σ) =
        (.ok (.ok s₀) : Checked _) ∧
      s₀.solve (ofKind f c kind) = .ok (r, s₁) ∧ r.outcome = .satisfied ∧
      r.flips ≤ (a.differing f.numVariables m).card := by
  have hvalid := Formula.validate_eq_ok_iff.1 hf
  have ht := regular (c := c) hvalid hlen kind
  have hok : checkProblem (ofKind f c kind) = .ok () := checkProblem_eq_ok_iff.2 ⟨hvalid, hc⟩
  by_cases hfits : f.Fits kind.width
  · have hsolved := Assignment.unsatisfiedBy_of_verify hvalid hm
    obtain ⟨words, hwords⟩ := exists_words ht hsolved ha le_rfl
    refine .inr ⟨words, fun {σ _} rest => ?_⟩
    obtain ⟨s₀, h₀, hwalk, ha₀, hsource, hflips⟩ :=
      startFrom_walking ht hok hadaptive hp hrestarts ha hfits (⟨words, rest⟩ : Scripted σ)
    obtain ⟨r, s₁, hr, ho, hle⟩ := hwords hwalk ha₀ (congrArg _ hsource) hbudget
    rw [hflips, Nat.zero_add] at hle
    have hsolve : s₀.solve (ofKind f c kind) = .ok (r, s₁) := by
      rw [solve, hflips]
      exact hr
    exact ⟨s₀, r, s₁, h₀, hsolve, ho, hle⟩
  · exact .inl ⟨hfits, startFrom_full ht hok ha hfits⟩

/-- Three flips lead from all false to the only solution. -/
theorem random_walk_reaches_all_true :
    ∃ words : List UInt32, ∀ {σ : Type} [Source σ] (rest : σ), ∃ s₀ r s₁,
      startFrom (ofKind ⟨3, #[[1], [-1, 2], [-2, 3]]⟩
          { p := 0, adaptiveP := false, restarts := false, maxFlips := 3 } .incremental)
        #[false, false, false] (⟨words, rest⟩ : Scripted σ) = (.ok (.ok s₀) : Checked _) ∧
      s₀.solve (ofKind ⟨3, #[[1], [-1, 2], [-2, 3]]⟩
          { p := 0, adaptiveP := false, restarts := false, maxFlips := 3 } .incremental) =
        .ok (r, s₁) ∧ r.outcome = .satisfied ∧
      r.flips ≤ (Assignment.differing 3 ⟨#[false, false, false]⟩ ⟨#[true, true, true]⟩).card := by
  rcases random_walk_reaches (f := ⟨3, #[[1], [-1, 2], [-2, 3]]⟩)
    (c := { p := 0, adaptiveP := false, restarts := false, maxFlips := 3 })
    (by decide) (by decide) (by decide +kernel) rfl (by decide +kernel) rfl .incremental
    (a := ⟨#[false, false, false]⟩) (m := ⟨#[true, true, true]⟩) rfl rfl (by decide)
    with ⟨hfull, -⟩ | h
  · exact absurd ⟨by decide, by decide⟩ hfull
  · exact h

end Search

end SatWalk
