import SatWalk.Proofs.Selector.Choice
import SatWalk.Proofs.Tracker.Faithful
import SatWalk.Walk.Search

/-! One step of a sound search. The tracker of a sound search is right and its selector is
cleared, so what a step does is told by the assignment, the gate, the clock and the source
alone: it finishes if no clause is unsatisfied, and else it flips a candidate, unless
the source's patience ends. -/

namespace SatWalk

/-- A valid formula of a size that can be counted, with a faithful tracker. -/
structure Problem.Regular {ω : Type} (t : Problem ω) (width : Nat)
    (Tracks : Assignment → ω → Prop) : Prop where
  valid : t.formula.Valid
  small : t.formula.numLiterals < size32
  faithful : t.tracker.Faithful t.formula width Tracks

/-- The gate takes one word. -/
theorem Gate.reaches_draw {σ : Type} [Source σ] (g : Gate) (s : σ) :
    Source.Reaches s (g.draw s).2 :=
  .word64 .refl

namespace Search

open Source (Reaches Generous)

variable {ω σ : Type} {t : Problem ω} {width : Nat} {Tracks : Assignment → ω → Prop}
  {s : Search ω σ}

/-- The parts of a search agree with one another. -/
structure Sound (t : Problem ω) (Tracks : Assignment → ω → Prop) (s : Search ω σ) : Prop where
  size : s.assignment.values.size = t.formula.numVariables
  tracks : Tracks s.assignment s.tracked
  clean : s.selector.Clean t.formula.numVariables

/-- The search with another state of a tracker. -/
def track {ω' : Type} (k : ω') (s : Search ω σ) : Search ω' σ where
  assignment := s.assignment
  tracked := k
  selector := s.selector
  gate := s.gate
  clock := s.clock
  source := s.source
  flips := s.flips
  stats := s.stats
  finished := s.finished
  events := s.events

theorem Sound.perm (ht : t.Regular width Tracks) (h : s.Sound t Tracks) :
    (t.tracker.unsatisfied s.tracked).toList.Perm (t.formula.unsatisfiedBy s.assignment) :=
  ht.faithful.perm h.tracks

/-! ### The choice -/

def nextGate (f : Formula) (s : Search ω σ) : Gate :=
  s.gate.adjust (f.unsatisfiedBy s.assignment).length f.numVariables

variable [Source σ]

def nextStrategy (f : Formula) (s : Search ω σ) : Strategy :=
  ((s.nextGate f).draw s.source).1

/-- The variables among which the next step chooses. -/
def candidates (f : Formula) (s : Search ω σ) : List Nat :=
  f.candidates (s.nextStrategy f) (f.unsatisfiedBy s.assignment)

/-- What the next step draws from the candidates. -/
def pick (f : Formula) (s : Search ω σ) : Checked (Option Nat × σ) :=
  Draw.choose (s.candidates f).toArray ((s.nextGate f).draw s.source).2

omit [Source σ] in
/-- The search after a choice that left the source in the given state. -/
def chosen (f : Formula) (source : σ) (s : Search ω σ) : Search ω σ :=
  { s with
    selector := .spent f (f.unsatisfiedBy s.assignment)
    gate := s.nextGate f
    source }

theorem Sound.choose_eq (ht : t.Regular width Tracks) (h : s.Sound t Tracks) :
    s.choose t (t.tracker.unsatisfied s.tracked) = (do
      let (pick, source) ← s.pick t.formula
      return ((pick, s.nextStrategy t.formula), s.chosen t.formula source)) := by
  have hp := h.perm ht
  have hsize : (t.tracker.unsatisfied s.tracked).size =
      (t.formula.unsatisfiedBy s.assignment).length := by
    rw [← Array.length_toList, hp.length_eq]
  have hids : ∀ c ∈ t.tracker.unsatisfied s.tracked, c < t.formula.numClauses := fun c hc =>
    Formula.lt_of_mem_unsatisfiedBy (hp.mem_iff.1 (Array.mem_toList_iff.2 hc))
  have hlen : (t.formula.variablesOf (t.tracker.unsatisfied s.tracked).toList).length < size32 :=
    Nat.lt_of_le_of_lt (Formula.length_variablesOf_le (hp.nodup_iff.2 Formula.nodup_unsatisfiedBy)
      fun c hc => hids c (Array.mem_toList_iff.1 hc)) ht.small
  have hselect (source : σ) := Selector.select_eq ht.valid h.clean hids hlen
    (s.nextStrategy t.formula) source
  rw [Formula.candidates_perm _ hp, Selector.spent_perm hp] at hselect
  unfold choose pick candidates chosen nextStrategy nextGate at *
  simp only [hsize, hselect, bind_assoc, pure_bind]

theorem pick_gives (ht : t.Regular width Tracks)
    (hne : t.formula.unsatisfiedBy s.assignment ≠ []) :
    Draw.Gives (fun x => ∃ v ∈ s.candidates t.formula, x = some v) s.source
      (s.pick t.formula) := by
  have hc : s.candidates t.formula ≠ [] :=
    ht.valid.candidates_ne_nil _ hne fun c => Formula.lt_of_mem_unsatisfiedBy
  have hg := Draw.choose_gives (s.candidates t.formula).toArray (by simpa using hc)
    ((s.nextGate t.formula).draw s.source).2
  simp only [List.mem_toArray] at hg
  exact hg.of_reaches (Gate.reaches_draw _ s.source)

/-! ### The flip -/

/-- The search after a flip, but for its tracker. -/
def turned (v : Nat) (strategy : Strategy) (s : Search ω σ) : Search ω σ :=
  let a := s.assignment.flipped v
  let flips := s.flips + 1
  let stats := s.stats.count strategy
  let events := s.events.push (.flipped flips v strategy)
  let clock := s.clock.tick.2
  if s.clock.tick.1 then
    let restarts := stats.restarts + 1
    { s with
      assignment := (a.redraw s.source).1
      source := (a.redraw s.source).2
      clock, flips
      stats := { stats with restarts }
      events := events.push (.restarted restarts flips s.gate.p) }
  else { s with assignment := a, clock, flips, stats, events }

theorem turned_track {ω' : Type} (v : Nat) (strategy : Strategy) (k : ω') :
    (s.track k).turned v strategy = (s.turned v strategy).track k := by
  cases hb : s.clock.tick.1 <;> simp [turned, track, hb]

theorem size_turned (v : Nat) (strategy : Strategy) :
    (s.turned v strategy).assignment.values.size = s.assignment.values.size := by
  unfold turned
  dsimp only
  split_ifs <;> simp

theorem Sound.flip_eq (ht : t.Regular width Tracks) (h : s.Sound t Tracks) {v : Nat} (hv : 0 < v)
    (hs : v ≤ t.formula.numVariables) (strategy : Strategy) :
    ∃ k, s.flip t v strategy =
        .ok (.flipped v strategy s.clock.tick.1, (s.turned v strategy).track k) ∧
      ((s.turned v strategy).track k).Sound t Tracks := by
  have hsize := s.size_turned v strategy
  obtain ⟨b, clock, hb⟩ : ∃ b clock, s.clock.tick = (b, clock) := ⟨_, _, rfl⟩
  have hflip := Assignment.flip_eq hv (h.size ▸ hs)
  cases b with
  | false =>
    obtain ⟨k, he, hk⟩ := ht.faithful.recordFlip_eq h.tracks h.size hv hs
    have ha : (s.turned v strategy).assignment = s.assignment.flipped v := by simp [turned, hb]
    refine ⟨k, ?_, hsize.trans h.size, ?_, ?_⟩
    · simp [flip, hflip, hb, he, turned, track]
    · rwa [track, ha]
    · simpa [turned, hb, track] using h.clean
  | true =>
    have ha : (s.turned v strategy).assignment =
        ((s.assignment.flipped v).redraw s.source).1 := by simp [turned, hb]
    obtain ⟨k, he, hk⟩ := ht.faithful.rebuild_eq h.tracks (hsize.trans h.size)
    rw [ha] at he hk
    refine ⟨k, ?_, hsize.trans h.size, ?_, ?_⟩
    · simp [flip, hflip, hb, he, turned, track]
    · rwa [track, ha]
    · simpa [turned, hb, track] using h.clean

/-! ### The step -/

theorem step_of_finished {outcome : Outcome} (h : s.finished = some outcome) :
    s.step t = .ok (.finished outcome, s) := by
  simp [step, h]

theorem Sound.step_of_nil (ht : t.Regular width Tracks) (h : s.Sound t Tracks)
    (hfin : s.finished = none) (hu : t.formula.unsatisfiedBy s.assignment = []) :
    s.step t = .ok (s.finish .satisfied) := by
  simp [step, hfin, ht.faithful.isSatisfied_eq h.tracks, hu]

theorem Sound.step_of_ne_nil (ht : t.Regular width Tracks) (h : s.Sound t Tracks)
    (hfin : s.finished = none) (hu : t.formula.unsatisfiedBy s.assignment ≠ []) :
    s.step t = (do
      match ← s.choose t (t.tracker.unsatisfied s.tracked) with
      | ((none, strategy), s') =>
        return (s'.report (.noCandidate strategy (t.tracker.unsatisfied s.tracked).size)).finish
          .inconsistent
      | ((some v, strategy), s') => s'.flip t v strategy) := by
  have hempty : (t.tracker.unsatisfied s.tracked).isEmpty = false := by
    rw [← Array.isEmpty_toList, (h.perm ht).isEmpty_eq]
    simpa using hu
  have hsat : t.tracker.isSatisfied s.tracked = false := by
    rw [ht.faithful.isSatisfied_eq h.tracks]
    simpa using hu
  unfold step
  rw [hfin]
  exact (if_neg (Bool.eq_false_iff.1 hsat)).trans (if_neg (Bool.eq_false_iff.1 hempty))

theorem Sound.step_of_pick_error (ht : t.Regular width Tracks) (h : s.Sound t Tracks)
    (hfin : s.finished = none) (hu : t.formula.unsatisfiedBy s.assignment ≠ []) {e : Fault}
    (hp : s.pick t.formula = .error e) : s.step t = .error e := by
  rw [h.step_of_ne_nil ht hfin hu, h.choose_eq ht, hp]
  rfl

/-- The search after a step that flips a variable, but for its tracker. -/
def advanced (f : Formula) (v : Nat) (source : σ) (s : Search ω σ) : Search ω σ :=
  (s.chosen f source).turned v (s.nextStrategy f)

theorem advanced_track {ω' : Type} (f : Formula) (v : Nat) (source : σ) (k : ω') :
    (s.track k).advanced f v source = (s.advanced f v source).track k :=
  turned_track (s := s.chosen f source) v (s.nextStrategy f) k

theorem Sound.step_of_pick (ht : t.Regular width Tracks) (h : s.Sound t Tracks)
    (hfin : s.finished = none) (hu : t.formula.unsatisfiedBy s.assignment ≠ []) {v : Nat}
    {source : σ} (hp : s.pick t.formula = .ok (some v, source)) :
    ∃ k, s.step t = .ok (.flipped v (s.nextStrategy t.formula) s.clock.tick.1,
        (s.advanced t.formula v source).track k) ∧
      ((s.advanced t.formula v source).track k).Sound t Tracks := by
  have hmem : v ∈ s.candidates t.formula := by
    obtain ⟨w, hw, hv⟩ := (pick_gives ht hu).holds hp
    cases hv
    exact hw
  have hvar := Formula.mem_variablesOf_of_mem_candidates hmem
  have hchosen : (s.chosen t.formula source).Sound t Tracks :=
    ⟨h.size, h.tracks, Selector.spent_clean _ _⟩
  obtain ⟨k, he, hk⟩ := hchosen.flip_eq ht (ht.valid.pos_of_mem_variablesOf hvar)
    (ht.valid.le_of_mem_variablesOf hvar) (s.nextStrategy t.formula)
  refine ⟨k, ?_, hk⟩
  rw [h.step_of_ne_nil ht hfin hu, h.choose_eq ht, hp]
  exact he

theorem reaches_advanced {f : Formula} {v : Nat} {source : σ} (h : Reaches s.source source) :
    Reaches s.source (s.advanced f v source).source := by
  unfold advanced turned
  dsimp only
  split_ifs
  · exact h.trans (Draw.reaches_bits _ _)
  · exact h

/-- What a step of a sound search can do. Only a source that is not generous keeps it from
finishing or flipping a candidate. -/
theorem Sound.step_cases (ht : t.Regular width Tracks) (h : s.Sound t Tracks)
    (hfin : s.finished = none) :
    (t.formula.unsatisfiedBy s.assignment = [] ∧ s.step t = .ok (s.finish .satisfied)) ∨
      (t.formula.unsatisfiedBy s.assignment ≠ [] ∧ s.step t = .error .drawsExhausted ∧
        ¬ Generous s.source) ∨
      ∃ v source k, t.formula.unsatisfiedBy s.assignment ≠ [] ∧ v ∈ s.candidates t.formula ∧
        s.step t = .ok (.flipped v (s.nextStrategy t.formula) s.clock.tick.1,
          (s.advanced t.formula v source).track k) ∧
        ((s.advanced t.formula v source).track k).Sound t Tracks ∧
        Reaches s.source ((s.advanced t.formula v source).track k).source := by
  by_cases hu : t.formula.unsatisfiedBy s.assignment = []
  · exact .inl ⟨hu, h.step_of_nil ht hfin hu⟩
  · rcases pick_gives ht hu with ⟨hp, hmean⟩ | ⟨x, source, hp, ⟨v, hv, rfl⟩, hsource⟩
    · exact .inr (.inl ⟨hu, h.step_of_pick_error ht hfin hu hp, hmean⟩)
    · obtain ⟨k, he, hk⟩ := h.step_of_pick ht hfin hu hp
      exact .inr (.inr ⟨v, source, k, hu, hv, he, hk, reaches_advanced hsource⟩)

end Search

end SatWalk
