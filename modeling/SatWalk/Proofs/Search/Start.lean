import SatWalk.Proofs.Search.Step

/-! How a search starts. The formula is checked first and the settings after it; a search then
starts sound if its arrays fit into memory, and does not start otherwise. -/

namespace SatWalk

theorem Config.restartInterval_pos {c : Config} (h : c.validate = .ok ()) {frequency : Nat}
    (hf : c.restartInterval = some frequency) : 0 < frequency := by
  unfold restartInterval at hf
  unfold validate at h
  split_ifs at h with _ _ hr
  all_goals cases h
  split_ifs at hf with hrestarts
  cases hf
  exact Nat.pos_of_ne_zero fun h0 => hr ⟨hrestarts, h0⟩

theorem Selector.le_of_ofVariables {n : Nat} {t : Selector} (h : ofVariables n = .ok t) :
    (n + 1) * 4 ≤ memoryLimit := by
  by_contra hm
  unfold ofVariables at h
  rw [reserve_of_lt (Nat.lt_of_not_le hm)] at h
  split_ifs at h <;> contradiction

/-- There is memory for a value of each variable, a count and `width` bytes more. -/
def Formula.Fits (f : Formula) (width : Nat) : Prop :=
  f.numVariables * width ≤ memoryLimit ∧ (f.numVariables + 1) * 4 ≤ memoryLimit

theorem Selector.ofVariables_eq {n : Nat} (hn : n ≤ memoryLimit) :
    ofVariables n = (do
      reserve (n + 1) 4
      return ⟨.replicate (n + 1) 0, #[]⟩) := by
  have hlt : ¬ Text.countBound ≤ n + 1 := by
    have : memoryLimit + 1 < Text.countBound := by decide
    omega
  rw [ofVariables, if_neg hlt]

namespace Search

variable {ω σ : Type} {t : Problem ω} {width : Nat} {Tracks : Assignment → ω → Prop}

/-- A search before its first step. -/
def fresh (t : Problem ω) (a : Assignment) (k : ω) (selector : Selector) (source : σ) :
    Search ω σ where
  assignment := a
  tracked := k
  selector := selector
  gate := ⟨t.config.p, t.config.adaptiveP⟩
  clock := { frequency := t.config.restartInterval }
  source := source
  flips := 0
  stats := { finalP := t.config.p }
  finished := none
  events := #[]

theorem ofAssignment_eq (ht : t.Regular width Tracks) {a : Assignment}
    (ha : a.values.size = t.formula.numVariables)
    (hm : t.formula.numVariables * width ≤ memoryLimit) (source : σ) :
    ∃ k, Tracks a k ∧ ofAssignment t a source = (do
      let selector ← Selector.ofVariables t.formula.numVariables
      return fresh t a k selector source) := by
  obtain ⟨k, he, hk⟩ := ht.faithful.build_eq ha hm
  refine ⟨k, hk, ?_⟩
  rw [ofAssignment, he, Checked.ok_bind]
  rfl

theorem ofAssignment_full (ht : t.Regular width Tracks) (a : Assignment)
    (hm : memoryLimit < t.formula.numVariables * width) (source : σ) :
    ofAssignment t a source = .error .capacityExceeded := by
  rw [ofAssignment, ht.faithful.build_full a hm]
  rfl

theorem checkProblem_eq_ok_iff {u : Unit} :
    checkProblem t = .ok u ↔ t.formula.Valid ∧ t.config.validate = .ok () := by
  rw [← Formula.validate_eq_ok_iff, checkProblem]
  cases h : t.formula.validate with
  | error e => simp
  | ok u => simp

theorem ofAssignment_fits (ht : t.Regular width Tracks) (hm : t.formula.Fits width)
    {a : Assignment} (ha : a.values.size = t.formula.numVariables) (source : σ) :
    ∃ s, ofAssignment t a source = .ok s := by
  obtain ⟨k, -, he⟩ := ofAssignment_eq ht ha hm.1 source
  rw [he, Selector.ofVariables_eq (by have := hm.2; omega), reserve_of_le hm.2]
  exact ⟨_, rfl⟩

theorem fits_of_ofAssignment (ht : t.Regular width Tracks) {a : Assignment}
    (ha : a.values.size = t.formula.numVariables) {source : σ} {s : Search ω σ}
    (h : ofAssignment t a source = .ok s) : t.formula.Fits width := by
  have hm : t.formula.numVariables * width ≤ memoryLimit := by
    by_contra hm
    rw [ofAssignment_full ht a (Nat.lt_of_not_le hm)] at h
    contradiction
  obtain ⟨k, -, he⟩ := ofAssignment_eq ht ha hm source
  obtain ⟨selector, hs, -⟩ := Checked.bind_eq_ok_iff.1 (he.symm.trans h)
  exact ⟨hm, Selector.le_of_ofVariables hs⟩

/-- A search that was made is fresh and sound. -/
theorem ofAssignment_sound (ht : t.Regular width Tracks) {a : Assignment}
    (ha : a.values.size = t.formula.numVariables) {source : σ} {s : Search ω σ}
    (h : ofAssignment t a source = .ok s) :
    s.Sound t Tracks ∧ ∃ k selector, s = fresh t a k selector source := by
  by_cases hm : t.formula.numVariables * width ≤ memoryLimit
  · obtain ⟨k, hk, he⟩ := ofAssignment_eq ht ha hm source
    obtain ⟨selector, hs, hfresh⟩ := Checked.bind_eq_ok_iff.1 (he.symm.trans h)
    obtain rfl := Except.ok.inj hfresh
    exact ⟨⟨ha, hk, Selector.ofVariables_clean hs⟩, k, selector, rfl⟩
  · rw [ofAssignment_full ht a (Nat.lt_of_not_le hm)] at h
    contradiction

variable [Source σ]

theorem start_of_error {e : Config.Error} (h : checkProblem t = .error e) (source : σ) :
    start t source = (.ok (.error e) : Checked _) := by
  rw [start, h]
  rfl

theorem start_of_ok (h : checkProblem t = .ok ()) (source : σ) :
    start t source = (do
      let (a, source) ← Assignment.draw t.formula.numVariables source
      return .ok (← ofAssignment t a source) : Checked _) := by
  rw [start, h]
  cases Assignment.draw t.formula.numVariables source <;> rfl

omit [Source σ] in
theorem startFrom_of_error {e : Config.Error} (h : checkProblem t = .error e)
    (values : Array Bool) (source : σ) :
    startFrom t values source = (.ok (.error e) : Checked _) := by
  rw [startFrom, h]
  rfl

omit [Source σ] in
theorem startFrom_of_ok (h : checkProblem t = .ok ()) (values : Array Bool) (source : σ) :
    startFrom t values source = (
      if values.size = t.formula.numVariables then do
        return .ok (← ofAssignment t ⟨values⟩ source)
      else .ok (.error (.assignmentLength t.formula.numVariables values.size)) : Checked _) := by
  rw [startFrom, h]
  by_cases hs : values.size = t.formula.numVariables
  · rw [if_pos hs]
    simp [hs]
    rfl
  · rw [if_neg hs]
    simp [hs]
    rfl

/-- Without enough memory no search starts. -/
theorem start_full (ht : t.Regular width Tracks) (h : checkProblem t = .ok ())
    (hm : ¬ t.formula.Fits width) (source : σ) :
    start t source = (.error .capacityExceeded : Checked _) := by
  rw [start_of_ok h]
  by_cases hn : t.formula.numVariables ≤ memoryLimit
  · rw [Assignment.draw_eq hn, Checked.ok_bind]
    by_cases hw : t.formula.numVariables * width ≤ memoryLimit
    · obtain ⟨k, -, he⟩ := ofAssignment_eq ht (a := ⟨(Draw.bits t.formula.numVariables source).1⟩)
        (Draw.size_bits _ _) hw (Draw.bits t.formula.numVariables source).2
      have hc : memoryLimit < (t.formula.numVariables + 1) * 4 :=
        Nat.lt_of_not_le fun hc => hm ⟨hw, hc⟩
      simp only [he, Selector.ofVariables_eq hn, reserve_of_lt hc, Checked.error_bind]
    · simp only [ofAssignment_full ht _ (Nat.lt_of_not_le hw), Checked.error_bind]
  · rw [Assignment.draw_full (Nat.lt_of_not_le hn), Checked.error_bind]

omit [Source σ] in
/-- Without enough memory no search starts from given values. -/
theorem startFrom_full (ht : t.Regular width Tracks) (hok : checkProblem t = .ok ())
    {a : Assignment} (ha : a.values.size = t.formula.numVariables)
    (hm : ¬ t.formula.Fits width) (source : σ) :
    ∃ e, startFrom t a.values source = (.error e : Checked _) := by
  cases hs : ofAssignment t a source with
  | ok s => exact absurd (fits_of_ofAssignment ht ha hs) hm
  | error e =>
    refine ⟨e, ?_⟩
    rw [startFrom_of_ok hok, if_pos ha, show ofAssignment t ⟨a.values⟩ source = .error e from hs]
    rfl

/-- With enough memory a search starts, after the words for its assignment. -/
theorem start_fits (ht : t.Regular width Tracks) (h : checkProblem t = .ok ())
    (hm : t.formula.Fits width) (source : σ) :
    ∃ s, start t source = (.ok (.ok s) : Checked _) ∧ Source.Reaches source s.source := by
  have hn : t.formula.numVariables ≤ memoryLimit := by
    have := hm.2
    omega
  obtain ⟨s, he⟩ := ofAssignment_fits ht hm
    (a := ⟨(Draw.bits t.formula.numVariables source).1⟩) (Draw.size_bits _ _)
    (Draw.bits t.formula.numVariables source).2
  obtain ⟨-, k, selector, hfresh⟩ := ofAssignment_sound ht (Draw.size_bits _ _) he
  refine ⟨s, ?_, hfresh ▸ Draw.reaches_bits t.formula.numVariables source⟩
  rw [start_of_ok h, Assignment.draw_eq hn, Checked.ok_bind]
  simp only [he, Checked.ok_bind]
  rfl

/-- The search is one that starts with drawn or given values. -/
def Starts (t : Problem ω) (s : Search ω σ) : Prop :=
  ∃ source, start t source = (.ok (.ok s) : Checked _) ∨
    ∃ values, startFrom t values source = (.ok (.ok s) : Checked _)

theorem Starts.check {s : Search ω σ} (h : s.Starts t) : checkProblem t = .ok () := by
  obtain ⟨source, h | ⟨values, h⟩⟩ := h
  all_goals
    cases hc : checkProblem t with
    | error e =>
      simp only [start_of_error hc, startFrom_of_error hc] at h
      cases h
    | ok u => rfl

/-- A search that starts was made from values of all variables. -/
theorem Starts.made {s : Search ω σ} (h : s.Starts t) :
    ∃ a source, a.values.size = t.formula.numVariables ∧ ofAssignment t a source = .ok s := by
  have hc := h.check
  obtain ⟨source, h | ⟨values, h⟩⟩ := h
  · rw [start_of_ok hc] at h
    obtain ⟨⟨a, source'⟩, ha, h⟩ := Checked.bind_eq_ok_iff.1 h
    obtain ⟨s', hs', h⟩ := Checked.bind_eq_ok_iff.1 h
    cases h
    exact ⟨a, source', Assignment.size_of_draw ha, hs'⟩
  · rw [startFrom_of_ok hc] at h
    split_ifs at h with hsize
    · obtain ⟨s', hs', h⟩ := Checked.bind_eq_ok_iff.1 h
      cases h
      exact ⟨_, _, hsize, hs'⟩
    · cases h

theorem Starts.sound (ht : t.Regular width Tracks) {s : Search ω σ} (h : s.Starts t) :
    s.Sound t Tracks ∧ ∃ a k selector source, s = fresh t a k selector source := by
  obtain ⟨a, source, ha, hs⟩ := h.made
  obtain ⟨hsound, k, selector, rfl⟩ := ofAssignment_sound ht ha hs
  exact ⟨hsound, a, k, selector, source, rfl⟩

end Search

end SatWalk
