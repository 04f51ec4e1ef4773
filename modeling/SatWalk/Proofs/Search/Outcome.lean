import SatWalk.Proofs.Random.Script
import SatWalk.Proofs.Search.Agreement
import SatWalk.Walk.Challenge

/-! How searches end. A sound search on a generous source ends with a solution within its budget,
or with all flips spent and an assignment that is no solution; on any other source the only
other end is that the source's patience ends. A candidate is never missing. -/

namespace SatWalk

namespace Search

open Source (Generous)

variable {ω σ : Type} {t : Problem ω} {width : Nat} {Tracks : Assignment → ω → Prop}
  {s : Search ω σ}

/-- What a result tells about the assignment that the search ended with. -/
inductive Ended (f : Formula) (limit : Nat) (r : RunResult) (a : Assignment) : Prop
  | satisfied (outcome : r.outcome = .satisfied) (assignment : r.assignment = some a)
      (solution : f.unsatisfiedBy a = []) (flips : r.flips ≤ limit)
  | exhausted (outcome : r.outcome = .exhausted) (assignment : r.assignment = none)
      (noSolution : f.unsatisfiedBy a ≠ []) (flips : r.flips = limit)

theorem exhaust_ended (ht : t.Regular width Tracks) (h : s.Sound t Tracks) :
    Ended t.formula s.flips (s.exhaust t).1 s.assignment := by
  rw [exhaust, ht.faithful.isSatisfied_eq h.tracks]
  by_cases hu : t.formula.unsatisfiedBy s.assignment = []
  · simp only [hu, List.isEmpty_nil, if_true]
    exact .satisfied rfl rfl hu (Nat.le_refl _)
  · simp only [List.isEmpty_iff, hu, if_false]
    exact .exhausted rfl rfl hu rfl

variable [Source σ]

/-- A run that is not finished when it begins ends as it must, or draws in vain, which it does only
if the source is not generous. -/
theorem Sound.run_ended (ht : t.Regular width Tracks) (h : s.Sound t Tracks)
    (hfin : s.finished = none) (budget : Nat) :
    (run t budget s = .error .drawsExhausted ∧ ¬ Generous s.source) ∨
      ∃ r s', run t budget s = .ok (r, s') ∧ s'.Sound t Tracks ∧
        Ended t.formula (s.flips + budget) r s'.assignment := by
  induction budget generalizing s with
  | zero => exact .inr ⟨_, _, rfl, ⟨h.size, h.tracks, h.clean⟩, exhaust_ended ht h⟩
  | succ budget ih =>
    rcases h.step_cases ht hfin with ⟨hu, he⟩ | ⟨-, he, hmean⟩ |
      ⟨v, source, k, -, -, he, hs, hsource⟩
    · refine .inr ⟨_, (s.finish .satisfied).2, by rw [run, he]; rfl,
        ⟨h.size, h.tracks, h.clean⟩, ?_⟩
      exact .satisfied rfl rfl hu (Nat.le_add_right _ _)
    · exact .inl ⟨by rw [run, he]; rfl, hmean⟩
    · have hrun : run t (budget + 1) s =
          run t budget ((s.advanced t.formula v source).track k) := by
        rw [run, he]
        rfl
      have hflips : ((s.advanced t.formula v source).track k).flips + budget =
          s.flips + (budget + 1) := by
        rw [track, flips_advanced]
        omega
      rw [hrun, ← hflips]
      exact (ih hs ((finished_advanced t.formula v source).trans hfin)).imp_left fun hnone =>
        ⟨hnone.1, fun hg => hnone.2 (hg.of_reaches hsource)⟩

/-! ### Results -/

/-- What a result promises of the assignment that the search ended with. -/
structure Classified (f : Formula) (c : Config) (r : RunResult) (a : Assignment) : Prop where
  consistent : r.outcome ≠ .inconsistent
  flips : r.flips ≤ c.maxFlips
  satisfied : r.outcome = .satisfied →
    r.assignment = some a ∧ a.verify f = (.ok (.ok ()) : Checked _)
  exhausted : r.outcome = .exhausted →
    r.assignment = none ∧ r.flips = c.maxFlips ∧ a.satisfies f = .ok false

theorem Ended.classified {f : Formula} {c : Config} {r : RunResult} {a : Assignment}
    (hf : f.Valid) (ha : a.values.size = f.numVariables) (h : Ended f c.maxFlips r a) :
    Classified f c r a := by
  cases h with
  | satisfied ho hr hu hflips =>
    refine ⟨by simp [ho], hflips, fun _ => ⟨hr, a.verify_eq_ok hf ha hu⟩, fun he => ?_⟩
    simp [ho] at he
  | exhausted ho hr hu hflips =>
    refine ⟨by simp [ho], Nat.le_of_eq hflips, fun he => ?_, fun _ => ⟨hr, hflips, ?_⟩⟩
    · simp [ho] at he
    · rw [a.satisfies_eq hf ha]
      simpa using hu

theorem fresh_solve_ended (ht : t.Regular width Tracks) {a : Assignment} {k : ω}
    {selector : Selector} {source : σ} (h : (fresh t a k selector source).Sound t Tracks) :
    ((fresh t a k selector source).solve t = .error .drawsExhausted ∧ ¬ Generous source) ∨
      ∃ r s', (fresh t a k selector source).solve t = .ok (r, s') ∧
        Classified t.formula t.config r s'.assignment := by
  rcases h.run_ended ht rfl t.config.maxFlips with he | ⟨r, s', he, hs, hend⟩
  · exact .inl he
  · rw [show (fresh t a k selector source).flips = 0 from rfl, Nat.zero_add] at hend
    exact .inr ⟨r, s', he, hend.classified ht.valid hs.size⟩

theorem solved_of_launch (values : Option (Array Bool)) {source : σ}
    (h : launch t values source = (.ok (.ok s) : Checked _)) :
    solved t values source = (do return .ok (← s.solve t).1 : Checked _) := by
  rw [solved, h]
  change ((s.solve t : Attempt Config.Error _) >>= fun x => pure x.1) = _
  cases s.solve t <;> rfl

theorem solve_eq_solved (f : Formula) (c : Config) (source : σ) :
    SatWalk.solve f c source = solved (ofKind f c c.tracker) none source := by
  obtain ⟨p, maxFlips, restartFrequency, restarts, adaptiveP, tracker⟩ := c
  cases tracker <;> rfl

theorem start_cases (h : checkProblem t = .ok ()) (source : σ) :
    (∃ fault, start t source = (.error fault : Checked _)) ∨
      ∃ s, start t source = (.ok (.ok s) : Checked _) := by
  rw [start_of_ok h]
  rcases Assignment.draw t.formula.numVariables source with fault | ⟨a, source⟩
  · exact .inl ⟨fault, rfl⟩
  · rw [Checked.ok_bind]
    dsimp only
    rcases ofAssignment t a source with fault | s
    · exact .inl ⟨fault, rfl⟩
    · exact .inr ⟨s, rfl⟩

section Solve

variable {f : Formula} {c : Config}

theorem solve_of_error (source : σ) {e : Config.Error}
    (h : checkProblem (ofKind f c c.tracker) = .error e) :
    SatWalk.solve f c source = (.ok (.error e) : Checked _) := by
  have hl : launch (ofKind f c c.tracker) none source = _ := launch_of_error h none source
  rw [solve_eq_solved, solved, hl]
  rfl

theorem checkProblem_of_ok (hf : f.validate = .ok ()) (kind : TrackerKind) :
    checkProblem (ofKind f c kind) = c.validate := by
  rw [checkProblem, show (ofKind f c kind).formula.validate = .ok () from hf]
  rfl

theorem solve_of_formula_error (source : σ) {e : Formula.Error} (h : f.validate = .error e) :
    SatWalk.solve f c source = (.ok (.error (.formula e)) : Checked _) := by
  refine solve_of_error source ?_
  rw [checkProblem, show (ofKind f c c.tracker).formula.validate = .error e from h]

theorem solve_of_config_error (source : σ) {e : Config.Error} (hf : f.validate = .ok ())
    (h : c.validate = .error e) : SatWalk.solve f c source = (.ok (.error e) : Checked _) :=
  solve_of_error source ((checkProblem_of_ok hf c.tracker).trans h)

theorem solve_full (source : σ) (hlen : f.numLiterals < size32) (hf : f.validate = .ok ())
    (hc : c.validate = .ok ()) (hm : ¬ f.Fits c.tracker.width) :
    SatWalk.solve f c source = (.error .capacityExceeded : Checked _) := by
  have ht := regular (c := c) (Formula.validate_eq_ok_iff.1 hf) hlen c.tracker
  have hok := (checkProblem_of_ok hf c.tracker).trans hc
  rw [solve_eq_solved, solved, launch, start_full ht hok hm source]
  rfl

/-- A solve that ends with a result: so does the search from the drawn assignment, and the
assignment that it ends with is as the result promises. -/
def Ends (f : Formula) (c : Config) (source : σ) (r : RunResult) : Prop :=
  ∃ s₀ s₁, start (ofKind f c c.tracker) source = (.ok (.ok s₀) : Checked _) ∧
    s₀.solve (ofKind f c c.tracker) = .ok (r, s₁) ∧
    SatWalk.solve f c source = (.ok (.ok r) : Checked _) ∧ Classified f c r s₁.assignment

theorem solve_fits (source : σ) (hlen : f.numLiterals < size32) (hf : f.validate = .ok ())
    (hc : c.validate = .ok ()) (hm : f.Fits c.tracker.width) :
    (SatWalk.solve f c source = (.error .drawsExhausted : Checked _) ∧ ¬ Generous source) ∨
      ∃ r, Ends f c source r := by
  have ht := regular (c := c) (Formula.validate_eq_ok_iff.1 hf) hlen c.tracker
  have hok := (checkProblem_of_ok hf c.tracker).trans hc
  obtain ⟨s₀, hs₀, hsource⟩ := start_fits ht hok hm source
  obtain ⟨hsound, a, k, selector, source', hfresh⟩ := Starts.sound ht ⟨source, .inl hs₀⟩
  subst hfresh
  unfold Ends
  rw [solve_eq_solved, solved_of_launch none hs₀]
  rcases fresh_solve_ended ht hsound with ⟨he, hmean⟩ | ⟨r, s₁, he, hr⟩
  · exact .inl ⟨by rw [he]; rfl, fun hg => hmean (hg.of_reaches hsource)⟩
  · exact .inr ⟨r, _, s₁, hs₀, he, by rw [he]; rfl, hr⟩

/-- After the checks a search may fault, but it is not refused. -/
theorem solve_cases (hf : f.validate = .ok ()) (hc : c.validate = .ok ()) (source : σ) :
    (∃ fault, SatWalk.solve f c source = (.error fault : Checked _)) ∨
      ∃ r, SatWalk.solve f c source = (.ok (.ok r) : Checked _) := by
  have hok := (checkProblem_of_ok hf c.tracker).trans hc
  rw [solve_eq_solved]
  rcases start_cases hok source with ⟨fault, he⟩ | ⟨s, hs⟩
  · left
    rw [solved, launch, he]
    exact ⟨fault, rfl⟩
  · rw [solved_of_launch none hs]
    rcases s.solve (ofKind f c c.tracker) with fault | ⟨r, s'⟩
    · exact .inl ⟨fault, rfl⟩
    · exact .inr ⟨r, rfl⟩

theorem classified_of_solve {source : σ} (hlen : f.numLiterals < size32) {r : RunResult}
    (h : SatWalk.solve f c source = (.ok (.ok r) : Checked _)) : ∃ a, Classified f c r a := by
  cases hf : f.validate with
  | error e =>
    rw [solve_of_formula_error source hf] at h
    cases h
  | ok u =>
    cases hc : c.validate with
    | error e =>
      rw [solve_of_config_error source hf hc] at h
      cases h
    | ok u =>
      by_cases hm : f.Fits c.tracker.width
      · rcases solve_fits source hlen hf hc hm with ⟨he, -⟩ | ⟨r', s₀, s₁, -, -, he, hr⟩ <;>
          rw [he] at h <;> cases h
        exact ⟨_, hr⟩
      · rw [solve_full source hlen hf hc hm] at h
        cases h

end Solve

end Search

namespace Challenge

variable {f : Formula}

theorem seedOf_error {v : Json.Value} {e : Error} (h : seedOf v = .error e) (flips : Nat) :
    e ≠ .inconsistent flips := by
  rintro rfl
  unfold seedOf at h
  split at h
  · split_ifs at h
    cases h
  · cases h

theorem settings_error {members : List (String × Json.Value)} {e : Error}
    (h : settings members = .error e) (flips : Nat) : e ≠ .inconsistent flips := by
  rintro rfl
  unfold settings at h
  dsimp only at h
  split at h
  all_goals obtain h | ⟨seed, -, h⟩ := Checked.bind_eq_error_iff.1 h
  · exact seedOf_error h flips rfl
  · split at h <;> cases h
  · cases h
  · split at h <;> cases h

/-- What the end of a search means to a challenge. -/
def answer : Except Config.Error RunResult → Except Error (Option Assignment)
  | .error e => .error (.config e)
  | .ok r =>
    match r.outcome with
    | .satisfied => .ok r.assignment
    | .exhausted => .ok none
    | .inconsistent => .error (.inconsistent r.flips)

section Settings

variable {members : Option (List (String × Json.Value))}

theorem solve_of_settings_error {e : Error}
    (h : members.elim (.ok ({}, 0)) settings = .error e) :
    solve f members = (.ok (.error e) : Checked _) := by
  unfold solve
  cases members with
  | none => cases h
  | some members =>
    dsimp only
    rw [show settings members = .error e from h]
    rfl

theorem solve_of_settings {c : Config} {seed : Nat}
    (h : members.elim (.ok ({}, 0)) settings = .ok (c, seed)) :
    solve f members = answer <$> (SatWalk.solve f c (ChaCha.ofSeed (.ofNat seed))).run := by
  unfold solve
  rcases members with _ | members
  all_goals dsimp only
  on_goal 1 => cases h
  on_goal 2 => rw [show settings members = .ok (c, seed) from h]
  all_goals
    change (ExceptT.adapt Error.config (SatWalk.solve f _ _) >>= _) = _
    rcases SatWalk.solve f _ _ with e | e | ⟨outcome, flips, assignment, stats⟩
    · rfl
    · rfl
    · cases outcome <;> rfl

/-- A challenge is refused for its members, or it answers a solve with some settings and seed. -/
theorem solve_cases (members : Option (List (String × Json.Value))) :
    (∃ e, (∀ flips, e ≠ .inconsistent flips) ∧ solve f members = (.ok (.error e) : Checked _)) ∨
    ∃ c seed, solve f members =
      answer <$> (SatWalk.solve f c (ChaCha.ofSeed (.ofNat seed))).run := by
  cases h : members.elim (.ok ({}, 0)) settings with
  | ok x => exact .inr ⟨x.1, x.2, solve_of_settings h⟩
  | error e =>
    refine .inl ⟨e, ?_, solve_of_settings_error h⟩
    cases members with
    | none => cases h
    | some members => exact settings_error h

end Settings

theorem answer_ne_inconsistent {c : Config} {r : RunResult} {b : Assignment}
    (h : Search.Classified f c r b) (flips : Nat) :
    answer (.ok r) ≠ .error (.inconsistent flips) := by
  unfold answer
  dsimp only
  split
  · exact nofun
  · exact nofun
  · next ho => exact absurd ho h.consistent

theorem verify_of_answer {c : Config} {r : RunResult} {a b : Assignment}
    (h : Search.Classified f c r b) (ha : answer (.ok r) = .ok (some a)) :
    a.verify f = (.ok (.ok ()) : Checked _) := by
  unfold answer at ha
  dsimp only at ha
  split at ha
  · next ho =>
    obtain ⟨hb, hverify⟩ := h.satisfied ho
    rw [hb] at ha
    cases ha
    exact hverify
  · cases ha
  · cases ha

/-- A challenge never becomes inconsistent, and its solutions are solutions. -/
theorem solve_verified (hlen : f.numLiterals < size32)
    (members : Option (List (String × Json.Value))) :
    (∀ flips, solve f members ≠ (.ok (.error (.inconsistent flips)) : Checked _)) ∧
      ∀ a, solve f members = (.ok (.ok (some a)) : Checked _) →
        a.verify f = (.ok (.ok ()) : Checked _) := by
  rcases solve_cases (f := f) members with ⟨e, he, h⟩ | ⟨c, seed, h⟩
  · rw [h]
    refine ⟨fun flips hf => he flips ?_, fun a ha => ?_⟩
    · cases hf
      rfl
    · cases ha
  · rw [h]
    rcases hr : SatWalk.solve f c (ChaCha.ofSeed (.ofNat seed)) with fault | e | r
    · exact ⟨fun _ => nofun, fun _ => nofun⟩
    · exact ⟨fun _ => nofun, fun _ => nofun⟩
    · obtain ⟨b, hb⟩ := Search.classified_of_solve hlen hr
      refine ⟨fun flips hf => answer_ne_inconsistent hb flips (Except.ok.inj hf), fun a ha => ?_⟩
      exact verify_of_answer hb (Except.ok.inj ha)

end Challenge

namespace Search

open Source (Generous)

variable {σ : Type} [Source σ]

/-- A solve refuses exactly what validation refuses, the formula first. Else it faults if the
arrays do not fit into memory, and it ends classified from every generous source otherwise;
from any other source nothing but words may be wanting. So challenges give verified
solutions and never become inconsistent. -/
theorem solve_sound {f : Formula} (hlen : f.numLiterals < size32) (c : Config) (source : σ) :
    (∀ e, f.validate = .error e →
      SatWalk.solve f c source = (.ok (.error (.formula e)) : Checked _)) ∧
    (∀ e, f.validate = .ok () → c.validate = .error e →
      SatWalk.solve f c source = (.ok (.error e) : Checked _)) ∧
    (f.validate = .ok () → c.validate = .ok () → ¬ f.Fits c.tracker.width →
      SatWalk.solve f c source = (.error .capacityExceeded : Checked _)) ∧
    (f.validate = .ok () → c.validate = .ok () → f.Fits c.tracker.width →
      (Generous source → ∃ r, Ends f c source r) ∧
      (SatWalk.solve f c source = (.error .drawsExhausted : Checked _) ∨
        ∃ r, Ends f c source r)) ∧
    ∀ members : Option (List (String × Json.Value)),
      (∀ flips, Challenge.solve f members ≠ (.ok (.error (.inconsistent flips)) : Checked _)) ∧
      ∀ a, Challenge.solve f members = (.ok (.ok (some a)) : Checked _) →
        a.verify f = (.ok (.ok ()) : Checked _) := by
  refine ⟨fun _ hf => solve_of_formula_error source hf,
    fun _ hf hc => solve_of_config_error source hf hc,
    fun hf hc hm => solve_full source hlen hf hc hm, fun hf hc hm => ⟨fun hs => ?_, ?_⟩,
    fun members => Challenge.solve_verified hlen members⟩
  · exact (solve_fits source hlen hf hc hm).resolve_left fun h => h.2 hs
  · exact (solve_fits source hlen hf hc hm).imp_left And.left

/-- A formula without solutions, on the first words of a source with zeros after them. -/
theorem solve_sound_unsatisfiable :
    SatWalk.solve ⟨1, #[[1], [-1]]⟩ { maxFlips := 6, restartFrequency := 4 }
        (Source.cutOff 64 (ChaCha.ofSeed (.ofNat 0))) =
      (.ok (.ok ⟨.exhausted, 6, none, ⟨2, 4, 1, 0.5⟩⟩) : Checked _) ∧
    ∃ r a, SatWalk.solve ⟨1, #[[1], [-1]]⟩ { maxFlips := 6, restartFrequency := 4 }
        (Source.cutOff 64 (ChaCha.ofSeed (.ofNat 0))) = (.ok (.ok r) : Checked _) ∧
      Classified ⟨1, #[[1], [-1]]⟩ { maxFlips := 6, restartFrequency := 4 } r a := by
  have hrun : (SatWalk.solve ⟨1, #[[1], [-1]]⟩ { maxFlips := 6, restartFrequency := 4 }
      (Source.cutOff 64 (ChaCha.ofSeed (.ofNat 0)))).run =
        .ok (.ok ⟨.exhausted, 6, none, ⟨2, 4, 1, 0.5⟩⟩) := by decide +kernel
  obtain ⟨-, -, -, h, -⟩ := solve_sound (f := ⟨1, #[[1], [-1]]⟩) (by decide)
    { maxFlips := 6, restartFrequency := 4 } (Source.cutOff 64 (ChaCha.ofSeed (.ofNat 0)))
  obtain ⟨hends, -⟩ := h rfl (by decide) ⟨by decide, by decide⟩
  obtain ⟨r, -, s₁, -, -, hr, hclass⟩ := hends (Source.generous_cutOff _ _)
  exact ⟨hrun, r, s₁.assignment, hr, hclass⟩

/-- Valid, but with more variables than memory can hold. -/
theorem solve_faults_without_memory :
    Formula.validate ⟨18446744073709551615, #[]⟩ = .ok () ∧ ({} : Config).validate = .ok () ∧
      Formula.numLiterals ⟨18446744073709551615, #[]⟩ < size32 ∧
      SatWalk.solve ⟨18446744073709551615, #[]⟩ {} (ChaCha.ofSeed (.ofNat 0)) =
        (.error .capacityExceeded : Checked _) :=
  ⟨rfl, by decide, by decide, solve_full _ (by decide) rfl (by decide)
    fun h => absurd h.1 (by decide)⟩

end Search

end SatWalk
