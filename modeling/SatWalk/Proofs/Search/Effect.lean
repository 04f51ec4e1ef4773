import Mathlib.Logic.Function.Iterate
import SatWalk.Proofs.Search.Accounting

/-! What a flip does to the clauses. The variable of a flip stands in an unsatisfied clause, and
its new value satisfies every such clause with it; clauses without it keep their status, and a
clause can only be lost if nothing else made it true. From step to step nothing else has a new
value, so until values are drawn anew an assignment is the first one with each variable turned
as often as it was flipped. -/

namespace SatWalk

/-! ### Clauses around a flip -/

namespace Assignment

variable {a : Assignment} {v : Nat} {c : Clause}

theorem value_flipped_self (hv : 0 < v) (hs : v ≤ a.values.size) :
    a.value v = .ok (a.valueD v) ∧ (a.flipped v).value v = .ok !a.valueD v := by
  have hs' : v ≤ (a.flipped v).values.size := by rwa [size_flipped]
  exact ⟨value_eq hv hs, by rw [value_eq hv hs', valueD_flipped hv hs hv, if_pos rfl]⟩

theorem value_flipped_of_ne (hv : 0 < v) {w : Nat} (hw : w ≠ v) :
    (a.flipped v).value w = a.value w := by
  cases w with
  | zero => rfl
  | succ slot =>
    have hne : v - 1 ≠ slot := by omega
    simp [value, slotOf, fetch, flipped, Array.getElem?_modify, hne]

variable (hv : 0 < v) (hs : v ≤ a.values.size) (hc : ∀ l ∈ c, Literal.Declared a.values.size l)

include hv hs hc

theorem holdsClause_flipped_of_notMem (hmem : v ∉ c.map Literal.var) :
    (a.flipped v).holdsClause c = a.holdsClause c := by
  rw [Bool.eq_iff_iff, holdsClause, holdsClause, List.any_eq_true, List.any_eq_true]
  refine exists_congr fun l => and_congr_right fun hl => ?_
  have hne : Int.natAbs l ≠ v := fun h => hmem (List.mem_map.2 ⟨l, hl, h⟩)
  rw [holds_flipped hv hs (hc l hl).1, if_neg hne]

theorem holdsClause_flipped_of_mem (hmem : v ∈ c.map Literal.var) (ha : a.holdsClause c = false) :
    (a.flipped v).holdsClause c = true := by
  obtain ⟨l, hl, hlv⟩ : ∃ l ∈ c, Int.natAbs l = v := List.mem_map.1 hmem
  have hfalse : a.holds l = false := Bool.eq_false_iff.2 (List.any_eq_false.1 ha l hl)
  refine List.any_eq_true.2 ⟨l, hl, ?_⟩
  rw [holds_flipped hv hs (hc l hl).1, if_pos hlv, hfalse]
  rfl

/-- What a flip makes false is a literal of its variable. -/
theorem var_eq_of_lost (hb : (a.flipped v).holdsClause c = false) {l : Literal} (hl : l ∈ c)
    (ha : a.holds l = true) : Literal.var l = v := by
  by_contra hne
  have hkept : (a.flipped v).holds l = a.holds l :=
    (holds_flipped hv hs (hc l hl).1).trans (if_neg hne)
  exact List.any_eq_false.1 hb l hl (hkept.trans ha)

end Assignment

/-- How an assignment before a flip and the one after it differ. -/
structure Effect (f : Formula) (strategy : Strategy) (v : Nat) (a b : Assignment) : Prop where
  turned : ∃ value, a.value v = .ok value ∧ b.value v = .ok !value
  others : ∀ w, w ≠ v → b.value w = a.value w
  repaired : ∃ c ∈ f.clauses, v ∈ c.map Literal.var ∧
    a.satisfiesClause c = .ok false ∧ b.satisfiesClause c = .ok true
  repairs : ∀ c ∈ f.clauses, v ∈ c.map Literal.var →
    a.satisfiesClause c = .ok false → b.satisfiesClause c = .ok true
  keeps : ∀ c ∈ f.clauses, v ∉ c.map Literal.var → b.satisfiesClause c = a.satisfiesClause c
  breaks : ∀ c ∈ f.clauses, a.satisfiesClause c = .ok true → b.satisfiesClause c = .ok false →
    ∀ l ∈ c, a.makesTrue l = .ok true → Literal.var l = v
  /-- No variable occurs more often in the unsatisfied clauses. -/
  most : strategy = .greedy → ∀ w, (f.variablesOf (f.unsatisfiedBy a)).count w ≤
    (f.variablesOf (f.unsatisfiedBy a)).count v

/-- The flip of a candidate has the effect of its strategy. -/
theorem Effect.of_candidate {f : Formula} (hf : f.Valid) {a : Assignment}
    (ha : a.values.size = f.numVariables) {strategy : Strategy} {v : Nat}
    (hmem : v ∈ f.candidates strategy (f.unsatisfiedBy a)) :
    Effect f strategy v a (a.flipped v) := by
  have hvar := Formula.mem_variablesOf_of_mem_candidates hmem
  have hv := hf.pos_of_mem_variablesOf hvar
  have hs : v ≤ a.values.size := ha ▸ hf.le_of_mem_variablesOf hvar
  have hb : (a.flipped v).values.size = f.numVariables := (a.size_flipped v).trans ha
  have before {c : Clause} (hc : c ∈ f.clauses) : a.satisfiesClause c = .ok (a.holdsClause c) :=
    Assignment.satisfiesClause_eq (hf.declared ha hc)
  have after {c : Clause} (hc : c ∈ f.clauses) :
      (a.flipped v).satisfiesClause c = .ok ((a.flipped v).holdsClause c) :=
    Assignment.satisfiesClause_eq (hf.declared hb hc)
  have repairs : ∀ c ∈ f.clauses, v ∈ c.map Literal.var → a.satisfiesClause c = .ok false →
      (a.flipped v).satisfiesClause c = .ok true := by
    intro c hc hmem hfalse
    rw [before hc] at hfalse
    rw [after hc, Assignment.holdsClause_flipped_of_mem hv hs (hf.declared ha hc) hmem
      (Except.ok.inj hfalse)]
  refine ⟨⟨_, Assignment.value_flipped_self hv hs⟩, fun w => Assignment.value_flipped_of_ne hv,
    ?_, repairs, ?_, ?_, ?_⟩
  · obtain ⟨i, hi, c, hc, l, hl, hlv⟩ := Formula.mem_variablesOf.1 hvar
    obtain ⟨c', hc', hfalse⟩ := Formula.mem_unsatisfiedBy.1 hi
    obtain rfl := Option.some.inj (hc.symm.trans hc')
    have hcf := Array.mem_of_getElem? hc
    have hcv : v ∈ c.map Literal.var := List.mem_map.2 ⟨l, hl, hlv⟩
    have hac : a.satisfiesClause c = .ok false := (before hcf).trans (congrArg _ hfalse)
    exact ⟨c, hcf, hcv, hac, repairs c hcf hcv hac⟩
  · intro c hc hmem
    rw [before hc, after hc,
      Assignment.holdsClause_flipped_of_notMem hv hs (hf.declared ha hc) hmem]
  · intro c hc _ hlost l hl htrue
    rw [after hc] at hlost
    rw [Assignment.makesTrue_eq (hf.declared ha hc l hl)] at htrue
    exact Assignment.var_eq_of_lost hv hs (hf.declared ha hc) (Except.ok.inj hlost) hl
      (Except.ok.inj htrue)
  · rintro rfl w
    by_cases hw : w ∈ f.variablesOf (f.unsatisfiedBy a)
    · exact (Formula.mem_candidates_greedy.1 hmem).2 w hw
    · rw [List.count_eq_zero.2 hw]
      exact Nat.zero_le _

/-! ### Flips of a log -/

namespace Step

/-- The variable that a step flips. -/
def flippedVar : Step → Option Nat
  | .flipped v .. => some v
  | .finished _ => none

/-- Whether a step draws the values anew. -/
def restarted : Step → Bool
  | .flipped _ _ restarted => restarted
  | .finished _ => false

/-- How many steps of a log flip a variable. -/
def flipsOf (v : Nat) (log : List Step) : Nat :=
  log.countP (·.flippedVar = some v)

theorem flipsOf_append (v : Nat) (log log' : List Step) :
    flipsOf v (log ++ log') = flipsOf v log + flipsOf v log' :=
  List.countP_append

end Step

/-- The second assignment is the first one, turned by the flips of a log. -/
structure Toggled (f : Formula) (log : List Step) (a b : Assignment) : Prop where
  value : ∀ v, b.value v = (a.value v).map not^[Step.flipsOf v log]
  fixed : ∀ v, (∀ c ∈ f.clauses, v ∉ c.map Literal.var) → b.value v = a.value v

namespace Toggled

variable {f : Formula} {a b c : Assignment}

theorem nil : Toggled f [] a a where
  value v := by cases a.value v <;> rfl
  fixed _ _ := rfl

theorem finished (outcome : Outcome) : Toggled f [.finished outcome] a a where
  value v := by cases a.value v <;> simp [Step.flipsOf, Step.flippedVar, Except.map]
  fixed _ _ := rfl

theorem flipped {strategy : Strategy} {v : Nat} (h : Effect f strategy v a b) (restarted : Bool) :
    Toggled f [.flipped v strategy restarted] a b where
  value w := by
    by_cases hw : w = v
    · obtain ⟨value, ha, hb⟩ := h.turned
      subst hw
      simp [ha, hb, Step.flipsOf, Step.flippedVar, Except.map]
    · have hvw : v ≠ w := Ne.symm hw
      rw [h.others w hw]
      cases a.value w <;> simp [Step.flipsOf, Step.flippedVar, hvw, Except.map]
  fixed w hw := by
    obtain ⟨c, hc, hcv, -⟩ := h.repaired
    exact h.others w fun hwv => hw c hc (hwv ▸ hcv)

theorem append {log log' : List Step} (h : Toggled f log a b) (h' : Toggled f log' b c) :
    Toggled f (log ++ log') a c where
  value v := by
    rw [h'.value, h.value, Step.flipsOf_append, Nat.add_comm, Function.iterate_add]
    cases a.value v <;> rfl
  fixed v hv := (h'.fixed v hv).trans (h.fixed v hv)

end Toggled

/-- Without periods no step draws the values anew. -/
theorem Accounts.restarted_eq_false {log : List Step} {flips : Nat} {stats : Stats}
    (h : Accounts none log flips stats) {step : Step} (hstep : step ∈ log) :
    step.restarted = false := by
  cases step with
  | finished outcome => rfl
  | flipped v strategy restarted =>
    obtain ⟨before, after, hlog⟩ := List.append_of_mem hstep
    exact h.restarted_eq hlog

namespace Search

variable {ω σ : Type} [Source σ] {t : Problem ω} {width : Nat} {Tracks : Assignment → ω → Prop}
  {s s' : Search ω σ}

theorem Sound.effect_of_step (ht : t.Regular width Tracks) (h : s.Sound t Tracks) {v : Nat}
    {strategy : Strategy} (he : s.step t = .ok (.flipped v strategy false, s')) :
    Effect t.formula strategy v s.assignment s'.assignment := by
  cases hfin : s.finished with
  | some outcome => cases (step_of_finished hfin).symm.trans he
  | none =>
    rcases h.step_cases ht hfin with ⟨-, he'⟩ | ⟨-, he', -⟩ | ⟨w, source, k, -, hmem, he', -, -⟩
    · cases he.symm.trans he'
    · cases he.symm.trans he'
    · obtain ⟨hstep, rfl⟩ := Prod.mk.inj (Except.ok.inj (he.symm.trans he'))
      obtain ⟨rfl, rfl, hb⟩ := Step.flipped.inj hstep
      rw [track, assignment_advanced t.formula v source hb.symm]
      exact Effect.of_candidate ht.valid h.size hmem

/-- A step that draws no values turns the variable that it reports. -/
theorem Sound.toggled_of_step (ht : t.Regular width Tracks) (h : s.Sound t Tracks) {step : Step}
    (he : s.step t = .ok (step, s')) (hr : step.restarted = false) :
    Toggled t.formula [step] s.assignment s'.assignment := by
  cases step with
  | flipped v strategy restarted =>
    obtain rfl : restarted = false := hr
    exact .flipped (h.effect_of_step ht he) false
  | finished outcome =>
    cases hfin : s.finished with
    | some outcome' =>
      cases (step_of_finished hfin).symm.trans he
      exact .finished outcome
    | none =>
      rcases h.step_cases ht hfin with ⟨-, he'⟩ | ⟨-, he', -⟩ | ⟨w, source, k, -, -, he', -, -⟩
      all_goals cases he.symm.trans he'
      exact .finished .satisfied

section Kept

variable {past : List Step} (ht : t.Regular width Tracks) (h : s.Kept t Tracks past)
include ht h

theorem Kept.of_step {step : Step} (he : s.step t = .ok (step, s')) :
    s'.Kept t Tracks (past ++ [step]) := by
  rcases h.step ht with he' | ⟨step', s₁, he', h₁⟩
  all_goals cases he.symm.trans he'
  exact h₁

theorem Kept.of_steps {n : Nat} {log : List Step} (hs : s.steps t n = .ok (log, s')) :
    s'.Kept t Tracks (past ++ log) := by
  rcases h.steps ht n with hs' | ⟨log', s₁, hs', h₁⟩
  all_goals cases hs.symm.trans hs'
  exact h₁

end Kept

theorem Kept.toggled_of_steps (ht : t.Regular width Tracks) {past log : List Step}
    (h : s.Kept t Tracks past) {n : Nat} (hs : s.steps t n = .ok (log, s'))
    (hr : ∀ step ∈ log, step.restarted = false) :
    Toggled t.formula log s.assignment s'.assignment := by
  induction n generalizing s past log with
  | zero =>
    cases hs
    exact .nil
  | succ n ih =>
    obtain ⟨⟨step, s₁⟩, he, hs⟩ := Checked.bind_eq_ok_iff.1 hs
    obtain ⟨⟨log', s₂⟩, hs₂, hs⟩ := Checked.bind_eq_ok_iff.1 hs
    cases hs
    have hfirst := h.sound.toggled_of_step ht he (hr step (by simp))
    exact hfirst.append (ih (h.of_step ht he) hs₂ fun step hmem => hr step (by simp [hmem]))

/-- However many steps a search made after its start: a further step that flips a variable and
draws no values has the effect of that flip, any further steps that draw no values turn each
variable as often as they flip it, and solving only makes further steps. -/
theorem effect_of_steps {f : Formula} {c : Config} {kind : TrackerKind}
    (hlen : f.numLiterals < size32) {s₀ s : Search kind.State σ}
    (h₀ : s₀.Starts (ofKind f c kind)) {n : Nat} {log : List Step}
    (hs : s₀.steps (ofKind f c kind) n = .ok (log, s)) :
    (∀ {v strategy s'}, s.step (ofKind f c kind) = .ok (.flipped v strategy false, s') →
        Effect f strategy v s.assignment s'.assignment) ∧
      (∀ {m log' s'}, s.steps (ofKind f c kind) m = .ok (log', s') →
        (c.restarts = false → ∀ step ∈ log', step.restarted = false) ∧
        ((∀ step ∈ log', step.restarted = false) →
          Toggled f log' s.assignment s'.assignment)) ∧
      ∀ {r s'}, s.solve (ofKind f c kind) = .ok (r, s') →
        ∃ m log' s₁ outcome, s.steps (ofKind f c kind) m = .ok (log', s₁) ∧
          r = s₁.result outcome := by
  have hf : f.Valid := (checkProblem_eq_ok_iff.1 h₀.check).1
  have ht := regular (c := c) hf hlen kind
  have h : s.Kept (ofKind f c kind) (kind.Tracks f) log := (h₀.kept ht).of_steps ht hs
  refine ⟨h.sound.effect_of_step ht, fun {m log' s'} hm => ⟨fun hr step hstep => ?_,
    h.toggled_of_steps ht hm⟩, fun {r s'} hr => ?_⟩
  · have hnone : (ofKind f c kind).config.restartInterval = none := if_neg (by simp [ofKind, hr])
    have haccounts := (h.of_steps ht hm).accounts
    rw [hnone] at haccounts
    exact haccounts.restarted_eq_false (List.mem_append_right log hstep)
  · rcases h.run ht (c.maxFlips - s.flips) with he | ⟨m, log', s₁, outcome, s₂, hm, -, he⟩
    all_goals cases hr.symm.trans he
    exact ⟨m, log', s₁, outcome, hm, rfl⟩

/-- Two clauses that take turns in being lost, and one that the other variable keeps. -/
def takingTurns : Problem (TrackerKind.State .incremental) :=
  ofKind ⟨2, #[[1, 1], [-1, -1], [-1, 2]]⟩ { restarts := false } .incremental

theorem effect_of_second_flip :
    ∃ s₀ log s strategy s₁ log' s',
      startFrom takingTurns #[false, true] (ChaCha.ofSeed (.ofNat 0)) =
        (.ok (.ok s₀) : Checked _) ∧
      s₀.steps takingTurns 1 = .ok (log, s) ∧
      s.step takingTurns = .ok (.flipped 1 strategy false, s₁) ∧
      Effect takingTurns.formula strategy 1 s.assignment s₁.assignment ∧
      s.steps takingTurns 3 = .ok (log', s') ∧ Step.flipsOf 1 log' = 3 ∧
      Toggled takingTurns.formula log' s.assignment s'.assignment := by
  obtain ⟨s₀, h₀, hall⟩ : ∃ s₀,
      startFrom takingTurns #[false, true] (ChaCha.ofSeed (.ofNat 0)) =
        (.ok (.ok s₀) : Checked _) ∧
      (do
        let x ← s₀.steps takingTurns 1
        let y ← x.2.step takingTurns
        let z ← x.2.steps takingTurns 3
        return (y.1.flippedVar, y.1.restarted, Step.flipsOf 1 z.1)) =
        (.ok (some 1, false, 3) : Checked _) :=
    ⟨_, rfl, by decide +kernel⟩
  obtain ⟨⟨log, s⟩, hs, hall⟩ := Checked.bind_eq_ok_iff.1 hall
  obtain ⟨⟨step, s₁⟩, he, hall⟩ := Checked.bind_eq_ok_iff.1 hall
  obtain ⟨⟨log', s'⟩, hm, hall⟩ := Checked.bind_eq_ok_iff.1 hall
  obtain ⟨hvar, hrestarted, hflips⟩ : step.flippedVar = some 1 ∧ step.restarted = false ∧
      Step.flipsOf 1 log' = 3 := by simpa using hall
  cases step with
  | finished outcome => cases hvar
  | flipped v strategy restarted =>
    obtain rfl : v = 1 := Option.some.inj hvar
    obtain rfl : restarted = false := hrestarted
    obtain ⟨heffect, htoggled, -⟩ :=
      effect_of_steps (f := ⟨2, #[[1, 1], [-1, -1], [-1, 2]]⟩) (c := { restarts := false })
        (by decide) ⟨_, .inr ⟨_, h₀⟩⟩ hs
    exact ⟨s₀, log, s, strategy, s₁, log', s', h₀, hs, he, heffect he, hm, hflips,
      (htoggled hm).2 ((htoggled hm).1 rfl)⟩

end Search

end SatWalk
