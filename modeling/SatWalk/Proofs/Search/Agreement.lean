import SatWalk.Proofs.Search.Progress
import SatWalk.Random.ChaCha

/-! Searches that differ in their trackers only. Two sound searches over one formula that agree
in everything but what their trackers keep take the same step, draw the same words and
agree again, so they agree through every run from a common start. -/

namespace SatWalk

/-- Both computations fault alike, or both have values and these are related. -/
inductive Related {ε α β : Type} (R : α → β → Prop) : Except ε α → Except ε β → Prop
  | error (e : ε) : Related R (.error e) (.error e)
  | ok {x : α} {y : β} (h : R x y) : Related R (.ok x) (.ok y)

namespace Related

variable {ε α β α' β' : Type} {R : α → β → Prop} {Q : α' → β' → Prop}

theorem bind {x : Except ε α} {y : Except ε β} {f : α → Except ε α'} {g : β → Except ε β'}
    (h : Related R x y) (hfg : ∀ a b, R a b → Related Q (f a) (g b)) :
    Related Q (x >>= f) (y >>= g) := by
  cases h with
  | error e => exact .error e
  | ok h => exact hfg _ _ h

theorem refl {R : α → α → Prop} {x : Except ε α} (h : ∀ a, x = .ok a → R a a) :
    Related R x x := by
  cases x with
  | error e => exact .error e
  | ok a => exact .ok (h a rfl)

theorem eq {x y : Except ε α} (h : Related (· = ·) x y) : x = y := by
  cases h with
  | error e => rfl
  | ok h => rw [h]

theorem mono {S : α → β → Prop} {x : Except ε α} {y : Except ε β} (h : Related R x y)
    (hs : ∀ a b, R a b → S a b) : Related S x y := by
  cases h with
  | error e => exact .error e
  | ok h => exact .ok (hs _ _ h)

theorem attempt_eq {ρ : Type} {x y : Attempt ρ α} (h : Related (Related (· = ·)) x.run y.run) :
    x = y :=
  (h.mono fun _ _ h => h.eq).eq

/-- Sequencing of computations that may also refuse for a reason. -/
theorem attempt_bind {ρ : Type} {x : Attempt ρ α} {y : Attempt ρ β} {f : α → Attempt ρ α'}
    {g : β → Attempt ρ β'} (h : Related (Related R) x.run y.run)
    (hfg : ∀ a b, R a b → Related (Related Q) (f a).run (g b).run) :
    Related (Related Q) (x >>= f).run (y >>= g).run := by
  refine h.bind fun a b hab => ?_
  cases hab with
  | error e => exact .ok (.error e)
  | ok hab => exact hfg _ _ hab

theorem lift {ρ : Type} {x : Checked α} {y : Checked β} (h : Related R x y) :
    Related (Related R) (x : Attempt ρ α).run (y : Attempt ρ β).run := by
  cases h with
  | error e => exact .error e
  | ok h => exact .ok (.ok h)

end Related

namespace Search

variable {ω ω' σ : Type}

/-- The searches are sound and agree in everything but what their trackers keep. -/
structure Twins (t : Problem ω) (t' : Problem ω') (Tracks : Assignment → ω → Prop)
    (Tracks' : Assignment → ω' → Prop) (s : Search ω σ) (s' : Search ω' σ) : Prop where
  left : s.Sound t Tracks
  right : s'.Sound t' Tracks'
  rest : s' = s.track s'.tracked

section Twins

variable {t : Problem ω} {t' : Problem ω'} {width width' : Nat} {Tracks : Assignment → ω → Prop}
  {Tracks' : Assignment → ω' → Prop} {s : Search ω σ} {s' : Search ω' σ}

theorem Twins.perm (ht : t.Regular width Tracks) (ht' : t'.Regular width' Tracks')
    (hf : t'.formula = t.formula) (h : Twins t t' Tracks Tracks' s s') :
    (t.tracker.unsatisfied s.tracked).toList.Perm
      (t'.tracker.unsatisfied s'.tracked).toList := by
  have hp := h.right.perm ht'
  rw [hf, h.rest] at hp
  exact (h.left.perm ht).trans hp.symm

variable [Source σ]

theorem Twins.step_related (ht : t.Regular width Tracks) (ht' : t'.Regular width' Tracks')
    (hf : t'.formula = t.formula) (h : Twins t t' Tracks Tracks' s s') :
    Related (fun x y => x.1 = y.1 ∧ Twins t t' Tracks Tracks' x.2 y.2) (s.step t)
      (s'.step t') := by
  obtain ⟨hs, hs', hrest⟩ := h
  generalize s'.tracked = k at hrest
  subst hrest
  cases hfin : s.finished with
  | some outcome =>
    have hfin' : (s.track k).finished = some outcome := hfin
    rw [step_of_finished hfin, step_of_finished hfin']
    exact .ok ⟨rfl, hs, hs', rfl⟩
  | none =>
    have hfin' : (s.track k).finished = none := hfin
    have hu : t'.formula.unsatisfiedBy (s.track k).assignment =
      t.formula.unsatisfiedBy s.assignment := by rw [hf]; rfl
    by_cases hn : t.formula.unsatisfiedBy s.assignment = []
    · rw [hs.step_of_nil ht hfin hn, hs'.step_of_nil ht' hfin' (hu.trans hn)]
      exact .ok ⟨rfl, ⟨hs.size, hs.tracks, hs.clean⟩, ⟨hs'.size, hs'.tracks, hs'.clean⟩, rfl⟩
    · have hn' := hu ▸ hn
      have hpick : (s.track k).pick t'.formula = s.pick t.formula := by rw [hf]; rfl
      rcases pick_gives ht hn with ⟨hp, -⟩ | ⟨x, source, hp, ⟨v, -, rfl⟩, -⟩
      · rw [hs.step_of_pick_error ht hfin hn hp,
          hs'.step_of_pick_error ht' hfin' hn' (hpick.trans hp)]
        exact .error _
      · obtain ⟨k₁, he, h₁⟩ := hs.step_of_pick ht hfin hn hp
        obtain ⟨k₂, he', h₂⟩ := hs'.step_of_pick ht' hfin' hn' (hpick.trans hp)
        rw [he, he']
        refine .ok ⟨?_, h₁, h₂, ?_⟩
        · rw [hf]; rfl
        · rw [hf, advanced_track]
          rfl

theorem Twins.steps_related (ht : t.Regular width Tracks) (ht' : t'.Regular width' Tracks')
    (hf : t'.formula = t.formula) (n : Nat) (h : Twins t t' Tracks Tracks' s s') :
    Related (fun x y => x.1 = y.1 ∧ Twins t t' Tracks Tracks' x.2 y.2) (s.steps t n)
      (s'.steps t' n) := by
  induction n generalizing s s' with
  | zero => exact .ok ⟨rfl, h⟩
  | succ n ih =>
    refine (h.step_related ht ht' hf).bind ?_
    rintro ⟨step, s₁⟩ ⟨-, s₁'⟩ ⟨rfl, h₁⟩
    refine (ih h₁).bind ?_
    rintro ⟨log, s₂⟩ ⟨-, s₂'⟩ ⟨rfl, h₂⟩
    exact .ok ⟨rfl, h₂⟩

omit [Source σ] in
theorem Twins.result_eq (h : Twins t t' Tracks Tracks' s s') (outcome : Outcome) :
    s'.result outcome = s.result outcome := by
  rw [h.rest]
  rfl

theorem Twins.run_related (ht : t.Regular width Tracks) (ht' : t'.Regular width' Tracks')
    (hf : t'.formula = t.formula) (budget : Nat) (h : Twins t t' Tracks Tracks' s s') :
    Related (fun x y => x.1 = y.1) (run t budget s) (run t' budget s') := by
  induction budget generalizing s s' with
  | zero =>
    refine .ok ?_
    have hsat : t'.tracker.isSatisfied s'.tracked = t.tracker.isSatisfied s.tracked := by
      rw [ht.faithful.isSatisfied_eq h.left.tracks, ht'.faithful.isSatisfied_eq h.right.tracks, hf,
        h.rest]
      rfl
    simp only [exhaust, hsat, h.result_eq]
  | succ budget ih =>
    refine (h.step_related ht ht' hf).bind ?_
    rintro ⟨step, s₁⟩ ⟨-, s₁'⟩ ⟨rfl, h₁⟩
    cases step with
    | finished outcome => exact .ok (h₁.result_eq outcome).symm
    | flipped v strategy restarted => exact ih h₁

theorem Twins.solve_related (ht : t.Regular width Tracks) (ht' : t'.Regular width' Tracks')
    (hf : t'.formula = t.formula) (hc : t'.config.maxFlips = t.config.maxFlips)
    (h : Twins t t' Tracks Tracks' s s') :
    Related (fun x y => x.1 = y.1) (s.solve t) (s'.solve t') := by
  have hflips : s'.flips = s.flips := by
    rw [h.rest]
    rfl
  rw [solve, solve, hc, hflips]
  exact h.run_related ht ht' hf _

omit [Source σ] in
theorem ofAssignment_related (ht : t.Regular width Tracks) (ht' : t'.Regular width' Tracks')
    (hf : t'.formula = t.formula) (hfresh : ∀ a k k' selector (source : σ),
      fresh t' a k' selector source = (fresh t a k selector source).track k')
    (hm : t.formula.numVariables * width ≤ memoryLimit)
    (hm' : t.formula.numVariables * width' ≤ memoryLimit) {a : Assignment}
    (ha : a.values.size = t.formula.numVariables) (source : σ) :
    Related (Twins t t' Tracks Tracks') (ofAssignment t a source) (ofAssignment t' a source) := by
  obtain ⟨k, hk, he⟩ := ofAssignment_eq ht ha hm source
  obtain ⟨k', hk', he'⟩ := ofAssignment_eq ht' (hf ▸ ha) (hf ▸ hm') source
  rw [he, he', hf]
  cases hs : Selector.ofVariables t.formula.numVariables with
  | error e => exact .error e
  | ok selector =>
    have hclean := Selector.ofVariables_clean hs
    exact .ok ⟨⟨ha, hk, hclean⟩, ⟨hf ▸ ha, hk', hf ▸ hclean⟩, hfresh a k k' selector source⟩

end Twins

/-! ### Both kinds -/

/-- A search problem with the tracker of a kind. -/
def ofKind (f : Formula) (c : Config) (kind : TrackerKind) : Problem kind.State :=
  ⟨f, { c with tracker := kind }, kind.tracker⟩

/-- A search that starts from given values, or else from drawn ones. -/
def launch [Source σ] (t : Problem ω) (values : Option (Array Bool)) (source : σ) :
    Attempt Config.Error (Search ω σ) :=
  match values with
  | some values => startFrom t values source
  | none => start t source

/-- The steps that a search begins with, and what it is after them. -/
def stepped [Source σ] (t : Problem ω) (values : Option (Array Bool)) (n : Nat) (source : σ) :
    Attempt Config.Error (List Step × Search ω σ) := do
  let s ← launch t values source
  (s.steps t n : Checked _)

/-- What a search that starts from given or drawn values ends with. -/
def solved [Source σ] (t : Problem ω) (values : Option (Array Bool)) (source : σ) :
    Attempt Config.Error RunResult := do
  let s ← launch t values source
  return (← s.solve t).1

section Kinds

variable [Source σ]

theorem launch_of_error {t : Problem ω} {e : Config.Error} (h : checkProblem t = .error e)
    (values : Option (Array Bool)) (source : σ) :
    (launch t values source).run = .ok (.error e) := by
  cases values with
  | none => exact start_of_error h source
  | some values => exact startFrom_of_error h values source

variable {f : Formula} {c : Config}

theorem regular (hf : f.Valid) (hlen : f.numLiterals < size32) (kind : TrackerKind) :
    (ofKind f c kind).Regular kind.width (kind.Tracks f) :=
  ⟨hf, hlen, kind.faithful hf hlen⟩

theorem launch_related (hc : checkProblem (ofKind f c .scan) = .ok ()) (hf : f.Valid)
    (hlen : f.numLiterals < size32) (hm : f.numVariables * 24 ≤ memoryLimit)
    (values : Option (Array Bool)) (source : σ) :
    Related (Related (Twins (ofKind f c .scan) (ofKind f c .incremental)
        (TrackerKind.scan.Tracks f) (TrackerKind.incremental.Tracks f)))
      (launch (ofKind f c .scan) values source).run
      (launch (ofKind f c .incremental) values source).run := by
  have hc' : checkProblem (ofKind f c .incremental) = .ok () := hc
  have hmake {a : Assignment} (ha : a.values.size = f.numVariables) (source : σ) :=
    ofAssignment_related (regular (c := c) hf hlen .scan) (regular (c := c) hf hlen .incremental)
      rfl (fun _ _ _ _ _ => rfl) (Nat.zero_le _) hm ha source
  cases values with
  | none =>
    rw [launch, launch, start_of_ok hc, start_of_ok hc']
    refine (Related.refl fun x hx => ⟨rfl, Assignment.size_of_draw hx⟩).bind
      (R := fun x y => x = y ∧ x.1.values.size = f.numVariables) ?_
    rintro ⟨a, source'⟩ - ⟨rfl, ha⟩
    exact (hmake ha source').bind fun s s' h => .ok (.ok h)
  | some values =>
    rw [launch, launch, startFrom_of_ok hc, startFrom_of_ok hc']
    by_cases hs : values.size = f.numVariables
    · rw [if_pos (show values.size = (ofKind f c .scan).formula.numVariables from hs),
        if_pos (show values.size = (ofKind f c .incremental).formula.numVariables from hs)]
      exact (hmake hs source).bind fun s s' h => .ok (.ok h)
    · rw [if_neg (show ¬ values.size = (ofKind f c .scan).formula.numVariables from hs),
        if_neg (show ¬ values.size = (ofKind f c .incremental).formula.numVariables from hs)]
      exact .ok (.error _)

/-- Equal steps, and searches that agree in everything but the order of their lists. -/
def SameStepped (x : List Step × Search (TrackerKind.State .scan) σ)
    (y : List Step × Search (TrackerKind.State .incremental) σ) : Prop :=
  x.1 = y.1 ∧ y.2 = x.2.track y.2.tracked ∧
    (TrackerKind.scan.tracker.unsatisfied x.2.tracked).toList.Perm
      (TrackerKind.incremental.tracker.unsatisfied y.2.tracked).toList

/-- Both kinds refuse an invalid problem alike. -/
theorem agree_of_error {e : Config.Error} (h : checkProblem (ofKind f c .scan) = .error e)
    (values : Option (Array Bool)) (source : σ) :
    solved (ofKind f c .scan) values source = solved (ofKind f c .incremental) values source ∧
      ∀ n : Nat, Related (Related SameStepped) (stepped (ofKind f c .scan) values n source).run
        (stepped (ofKind f c .incremental) values n source).run := by
  have hl : launch (ofKind f c .scan) values source = _ := launch_of_error h values source
  have hl' : launch (ofKind f c .incremental) values source = _ :=
    launch_of_error (t := ofKind f c .incremental) h values source
  refine ⟨?_, fun n => ?_⟩
  · rw [solved, solved, hl, hl']
    rfl
  · rw [stepped, stepped, hl, hl']
    exact .ok (.error e)

/-- Where counting has its memory, both kinds start as twins and stay twins. -/
theorem agree_of_ok (h : checkProblem (ofKind f c .scan) = .ok ()) (hlen : f.numLiterals < size32)
    (hm : f.numVariables * 24 ≤ memoryLimit) (values : Option (Array Bool)) (source : σ) :
    solved (ofKind f c .scan) values source = solved (ofKind f c .incremental) values source ∧
      ∀ n : Nat, Related (Related SameStepped) (stepped (ofKind f c .scan) values n source).run
        (stepped (ofKind f c .incremental) values n source).run := by
  have hf : f.Valid := (checkProblem_eq_ok_iff.1 h).1
  have ht := regular (c := c) hf hlen .scan
  have ht' := regular (c := c) hf hlen .incremental
  have hl := launch_related h hf hlen hm values source
  refine ⟨Related.attempt_eq (hl.attempt_bind fun s s' hs => ?_), fun n => ?_⟩
  · have hr := hs.solve_related ht ht' rfl rfl
    exact hr.lift.attempt_bind fun _ _ he => .ok (.ok he)
  · refine hl.attempt_bind fun s s' hs => ?_
    have hn := hs.steps_related ht ht' rfl n
    exact (hn.mono fun x y hxy => ⟨hxy.1, hxy.2.rest, hxy.2.perm ht ht' rfl⟩).lift

/-- Scanning and counting lead to equal results, step by step and in the end, unless there is no
memory for counting. -/
theorem trackers_agree (hlen : f.numLiterals < size32) (c : Config) (source : σ) :
    (memoryLimit < f.numVariables * 24 ∧
      SatWalk.solve f { c with tracker := .incremental } source =
        (.error .capacityExceeded : Checked _)) ∨
    (SatWalk.solve f { c with tracker := .scan } source =
        SatWalk.solve f { c with tracker := .incremental } source ∧
      ∀ values : Option (Array Bool),
        solved (ofKind f c .scan) values source = solved (ofKind f c .incremental) values source ∧
        ∀ n : Nat, Related (Related SameStepped) (stepped (ofKind f c .scan) values n source).run
          (stepped (ofKind f c .incremental) values n source).run) := by
  cases hc : checkProblem (ofKind f c .scan) with
  | error e =>
    have h (values) := agree_of_error hc values source
    exact .inr ⟨(h none).1, h⟩
  | ok u =>
    by_cases hm : f.numVariables * 24 ≤ memoryLimit
    · have h (values) := agree_of_ok hc hlen hm values source
      exact .inr ⟨(h none).1, h⟩
    · rw [Nat.not_le] at hm
      have hf : f.Valid := (checkProblem_eq_ok_iff.1 hc).1
      have ht' := regular (c := c) hf hlen .incremental
      have hstart := start_full ht' hc (fun h => Nat.not_le_of_lt hm h.1) source
      have hfull : solved (ofKind f c .incremental) none source =
          (.error .capacityExceeded : Checked _) := by
        rw [solved, launch, hstart]
        rfl
      exact .inl ⟨hm, hfull⟩

/-- A start that is a solution, and a formula without one, where both strategies are drawn and
the third of four flips restarts. -/
theorem trackers_agree_default :
    SatWalk.solve ⟨2, #[[1, 2], [-1, 2], [1, -2, -2]]⟩ { tracker := .scan }
        (ChaCha.ofSeed (.ofNat 0)) =
      SatWalk.solve ⟨2, #[[1, 2], [-1, 2], [1, -2, -2]]⟩ { tracker := .incremental }
        (ChaCha.ofSeed (.ofNat 0)) ∧
    SatWalk.solve ⟨2, #[[1, 2], [-1, 2], [1, -2, -2]]⟩ { tracker := .incremental }
        (ChaCha.ofSeed (.ofNat 0)) =
      (.ok (.ok ⟨.satisfied, 0, some ⟨#[true, true]⟩, ⟨0, 0, 0, 0.5⟩⟩) : Checked _) ∧
    SatWalk.solve ⟨1, #[[1, 1], [-1]]⟩ { tracker := .scan, maxFlips := 4, restartFrequency := 3 }
        (ChaCha.ofSeed (.ofNat 2)) =
      (.ok (.ok ⟨.exhausted, 4, none, ⟨3, 1, 1, 0.5⟩⟩) : Checked _) ∧
    SatWalk.solve ⟨1, #[[1, 1], [-1]]⟩
        { tracker := .incremental, maxFlips := 4, restartFrequency := 3 }
        (ChaCha.ofSeed (.ofNat 2)) =
      (.ok (.ok ⟨.exhausted, 4, none, ⟨3, 1, 1, 0.5⟩⟩) : Checked _) := by
  have hscan : (SatWalk.solve ⟨1, #[[1, 1], [-1]]⟩
      { tracker := .scan, maxFlips := 4, restartFrequency := 3 } (ChaCha.ofSeed (.ofNat 2))).run =
        .ok (.ok ⟨.exhausted, 4, none, ⟨3, 1, 1, 0.5⟩⟩) := by decide +kernel
  have hstart : (SatWalk.solve ⟨2, #[[1, 2], [-1, 2], [1, -2, -2]]⟩ { tracker := .incremental }
      (ChaCha.ofSeed (.ofNat 0))).run =
        .ok (.ok ⟨.satisfied, 0, some ⟨#[true, true]⟩, ⟨0, 0, 0, 0.5⟩⟩) := by decide +kernel
  refine ⟨?_, hstart, hscan, ?_⟩
  · rcases trackers_agree (f := ⟨2, #[[1, 2], [-1, 2], [1, -2, -2]]⟩) (by decide) {}
      (ChaCha.ofSeed (.ofNat 0)) with ⟨hm, -⟩ | ⟨h, -⟩
    · exact absurd hm (by decide)
    · exact h
  · rcases trackers_agree (f := ⟨1, #[[1, 1], [-1]]⟩) (by decide)
      { maxFlips := 4, restartFrequency := 3 } (ChaCha.ofSeed (.ofNat 2)) with ⟨hm, -⟩ | ⟨h, -⟩
    · exact absurd hm (by decide)
    · exact h.symm.trans hscan

end Kinds

end Search

end SatWalk
