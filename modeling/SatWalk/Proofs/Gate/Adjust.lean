import SatWalk.Proofs.Binary64.Nearness
import SatWalk.Walk.Gate

/-! The gate between the strategies. A step up or down moves a probability, if it is not at that end
already, and leaves it a probability. An adaptive gate takes the step that the unsatisfied
clauses call for, but that the products it compares are cut off. A gate of probability zero is
never greedy, and one of probability one always is. -/

namespace SatWalk.Gate

open Binary64

/-- The gate has a probability. -/
structure Bounded (g : Gate) : Prop where
  zero_le : 0 ≤ g.p
  le_one : g.p ≤ 1

theorem Bounded.finite {g : Gate} (h : g.Bounded) : g.p.isFinite :=
  finite_of_le h.zero_le (by decide) h.le_one (by decide)

theorem Bounded.value_le {g : Gate} (h : g.Bounded) : value g.p ≤ 1 := by
  rw [← value_one]
  exact (le_iff_value_le h.zero_le (by decide)).1 h.le_one

/-! ### Steps of the probability -/

theorem value_adaptStep : value adaptStep = 3602879701896397 / 72057594037927936 := by
  have : magnitude adaptStep = ⟨7205759403792794, -57⟩ := by decide +kernel
  rw [value, this, Magnitude.value]
  norm_num

variable {g : Gate}

theorem Bounded.rounds_raise (h : g.Bounded) :
    Rounds (min (value g.p + value adaptStep) 1) (smaller (g.p + adaptStep) 1) := by
  have hsum := rounds_add h.zero_le (by decide : (0 : Float) ≤ adaptStep) h.finite (by decide)
  rw [← value_one]
  exact hsum.smaller (by decide)

theorem Bounded.le_raise (h : g.Bounded) : g.p ≤ smaller (g.p + adaptStep) 1 :=
  (rounds_value h.zero_le).le h.rounds_raise
    (le_min (le_add_of_nonneg_right (value_nonneg _)) h.value_le)

theorem Bounded.raise (h : g.Bounded) (adaptive : Bool) :
    Bounded ⟨smaller (g.p + adaptStep) 1, adaptive⟩ where
  zero_le := h.rounds_raise.zero_le
  le_one := by
    refine h.rounds_raise.le (rounds_value (by decide)) ?_
    rw [value_one]
    exact min_le_right _ _

/-- Rounding does not swallow a step up. -/
theorem Bounded.lt_raise (h : g.Bounded) (hp : g.p < 1) : g.p < smaller (g.p + adaptStep) 1 := by
  have hsum := h.rounds_raise
  have hle := h.value_le
  rw [lt_iff_value_lt h.zero_le (by decide), value_one] at hp
  rw [lt_iff_value_lt h.zero_le hsum.zero_le]
  rcases le_or_gt 1 (value g.p + value adaptStep) with hlarge | hsmall
  · rw [min_eq_right hlarge, ← value_one] at hsum
    have hone := (rounds_value (by decide)).le hsum le_rfl
    rw [le_iff_value_le (by decide) hsum.zero_le, value_one] at hone
    exact hp.trans_le hone
  · rw [min_eq_left hsmall.le, value_adaptStep] at hsum
    have hfinite := hsum.finite (n := 2) (by push_cast; linarith) (by decide)
    have hnear := hsum.near hfinite
    by_contra hnot
    rw [abs_le] at hnear
    linarith [hnear.1]

theorem Bounded.rounds_lower (h : g.Bounded) :
    Rounds (max (value g.p - value adaptStep) 0) (larger (g.p - adaptStep) 0) :=
  rounds_larger_sub h.zero_le (by decide) h.finite (by decide)

theorem Bounded.lower_le (h : g.Bounded) : larger (g.p - adaptStep) 0 ≤ g.p :=
  h.rounds_lower.le (rounds_value h.zero_le)
    (max_le (sub_le_self _ (value_nonneg _)) (value_nonneg _))

theorem Bounded.lower (h : g.Bounded) (adaptive : Bool) :
    Bounded ⟨larger (g.p - adaptStep) 0, adaptive⟩ where
  zero_le := h.rounds_lower.zero_le
  le_one := by
    refine h.rounds_lower.le (rounds_value (by decide)) ?_
    rw [value_one]
    exact max_le ((sub_le_self _ (value_nonneg _)).trans h.value_le) zero_le_one

/-- Rounding does not swallow a step down. -/
theorem Bounded.lower_lt (h : g.Bounded) (hp : 0 < g.p) : larger (g.p - adaptStep) 0 < g.p := by
  have hdifference := h.rounds_lower
  have hle := h.value_le
  rw [lt_iff_value_lt hdifference.zero_le h.zero_le]
  rcases le_or_gt (value g.p) (value adaptStep) with hsmall | hlarge
  · rw [max_eq_right (sub_nonpos.2 hsmall)] at hdifference
    have hzero := hdifference.le (rounds_value (by decide : (0 : Float) ≤ 0)) value_zero.ge
    rw [le_iff_value_le hdifference.zero_le (by decide), value_zero] at hzero
    exact hzero.trans_lt (value_pos hp)
  · rw [max_eq_left (sub_nonneg.2 hlarge.le), value_adaptStep] at hdifference
    have hfinite := hdifference.finite (n := 1) (by push_cast; linarith) (by decide)
    have hnear := hdifference.near hfinite
    by_contra hnot
    rw [abs_le] at hnear
    linarith [hnear.2]

/-! ### Thresholds -/

/-- The cut-off matters only to the upper threshold, where both products may reach it. -/
theorem adjust_eq (ha : g.adaptive = true) (unsatisfied : Nat) {numVariables : Nat}
    (hn : numVariables < Text.countBound) :
    g.adjust unsatisfied numVariables =
      if 3 * numVariables < 10 * unsatisfied ∧ 3 * numVariables < Text.countBound - 1 then
        { g with p := smaller (g.p + adaptStep) 1 }
      else if 10 * unsatisfied < numVariables then
        { g with p := larger (g.p - adaptStep) 0 }
      else g := by
  have hup : cutProduct numVariables 3 < cutProduct unsatisfied 10 ↔
      3 * numVariables < 10 * unsatisfied ∧ 3 * numVariables < Text.countBound - 1 := by
    unfold cutProduct Text.countBound
    omega
  have hdown : cutProduct unsatisfied 10 < numVariables ↔ 10 * unsatisfied < numVariables := by
    unfold cutProduct Text.countBound at *
    omega
  unfold adjust
  rw [ha]
  simp only [Bool.not_true, Bool.false_eq_true, if_false, hup, hdown]

theorem adaptive_adjust (unsatisfied numVariables : Nat) :
    (g.adjust unsatisfied numVariables).adaptive = g.adaptive := by
  unfold adjust
  dsimp only
  split_ifs <;> rfl

theorem Bounded.adjust (h : g.Bounded) (unsatisfied numVariables : Nat) :
    (g.adjust unsatisfied numVariables).Bounded := by
  unfold Gate.adjust
  dsimp only
  split_ifs
  · exact h
  · exact h.raise _
  · exact h.lower _
  · exact h

/-- Without adaption the probability stays. -/
theorem adjust_of_not_adaptive (ha : g.adaptive = false) (unsatisfied numVariables : Nat) :
    g.adjust unsatisfied numVariables = g := by
  rw [adjust, ha]
  rfl

/-! ### Draws -/

theorem unit_bounds {σ : Type} [Source σ] (s : σ) :
    0 ≤ (Draw.unit s).1 ∧ (Draw.unit s).1 < 1 := by
  set w := (Source.word64 s).1.toNat >>> 11
  have hw : w ≤ 0x1fffffffffffff := by
    have := (Source.word64 s).1.toNat_lt
    change (Source.word64 s).1.toNat >>> 11 ≤ _
    rw [Nat.shiftRight_eq_div_pow]
    omega
  have hraises : Raises (· / Float.ofNat (size64 >>> 11)) := raises_div (by decide) (by decide)
  have hzero := (rounds_ofNat w).zero_le
  have hlt : belowOne < 1 := by decide
  have hle : Float.ofNat w / .ofNat (size64 >>> 11) ≤ belowOne :=
    hraises.le hzero (by decide) (ofNat_le_ofNat hw)
  have hunit := hraises.zero_le hzero
  refine ⟨hunit, ?_⟩
  rw [lt_iff_value_lt (by decide) (by decide)] at hlt
  rw [le_iff_value_le hunit (by decide)] at hle
  exact (lt_iff_value_lt hunit (by decide)).2 (hle.trans_lt hlt)

/-- A strategy that a gate of this probability never chooses, whatever is drawn. -/
def Shuts (p : Float) : Strategy → Prop
  | .greedy => (p == 0) = true
  | .random => (p == 1) = true

theorem Bounded.draw_ne {σ : Type} [Source σ] (h : g.Bounded) {strategy : Strategy}
    (hshut : Shuts g.p strategy) (s : σ) : (g.draw s).1 ≠ strategy := by
  obtain ⟨hzero, hone⟩ := unit_bounds s
  have hdraw : (g.draw s).1 = if (Draw.unit s).1 < g.p then .greedy else .random := rfl
  rw [hdraw]
  cases strategy with
  | greedy =>
    have hp := (beq_iff_value_eq h.zero_le (by decide)).1 hshut
    have hnot : ¬ (Draw.unit s).1 < g.p := by
      rw [lt_iff_value_lt hzero h.zero_le, hp, value_zero]
      exact (value_nonneg _).not_gt
    rw [if_neg hnot]
    decide
  | random =>
    have hp := (beq_iff_value_eq h.zero_le (by decide)).1 hshut
    have hlt : (Draw.unit s).1 < g.p := by
      rw [lt_iff_value_lt hzero h.zero_le, hp]
      exact (lt_iff_value_lt hzero (by decide)).1 hone
    rw [if_pos hlt]
    decide

/-! ### The exact thresholds -/

/-- An adaptive gate steps up above three tenths and down below one tenth, compared without
rounding or bounds, unless three times the number of variables reaches the greatest count:
then it does not step up. At its end of the range a step leaves the probability as it is, and
everywhere else it moves it. -/
theorem adjust_exact (ha : g.adaptive = true) (hp : g.Bounded) (unsatisfied : Nat)
    {numVariables : Nat} (hn : numVariables < Text.countBound) :
    g.adjust unsatisfied numVariables =
      (if 3 * numVariables < 10 * unsatisfied ∧ 3 * numVariables < Text.countBound - 1 then
        { g with p := smaller (g.p + adaptStep) 1 }
      else if 10 * unsatisfied < numVariables then
        { g with p := larger (g.p - adaptStep) 0 }
      else g) ∧
    (g.p < 1 → (g.p < (g.adjust unsatisfied numVariables).p ↔
      3 * numVariables < 10 * unsatisfied ∧ 3 * numVariables < Text.countBound - 1)) ∧
    (0 < g.p →
      ((g.adjust unsatisfied numVariables).p < g.p ↔ 10 * unsatisfied < numVariables)) := by
  have hadjust := adjust_eq ha unsatisfied hn
  have hstays : ¬ g.p < g.p := by
    rw [lt_iff_value_lt hp.zero_le hp.zero_le]
    exact lt_irrefl _
  refine ⟨hadjust, fun hone => ?_, fun hzero => ?_⟩ <;> rw [hadjust]
  · split_ifs with hup hdown
    · exact iff_of_true (hp.lt_raise hone) hup
    · exact iff_of_false (not_lt_of_nonneg_le (hp.lower true).zero_le hp.zero_le hp.lower_le) hup
    · exact iff_of_false hstays hup
  · split_ifs with hup hdown
    · exact iff_of_false (not_lt_of_nonneg_le hp.zero_le (hp.raise true).zero_le hp.le_raise)
        (by omega)
    · exact iff_of_true (hp.lower_lt hzero) hdown
    · exact iff_of_false hstays hdown

/-- With half of all counts, both products are cut off and compare as equal. -/
theorem adjust_exact_cut_off :
    (⟨0.5, true⟩ : Gate).adjust 4 10 = ⟨0.55, true⟩ ∧
      3 * 0x8000000000000000 < 10 * 0x8000000000000000 ∧
      (⟨0.5, true⟩ : Gate).adjust 0x8000000000000000 0x8000000000000000 = ⟨0.5, true⟩ := by
  have hp : Bounded ⟨0.5, true⟩ := ⟨by decide, by decide⟩
  obtain ⟨hfew, -⟩ := adjust_exact rfl hp 4 (by decide : 10 < Text.countBound)
  obtain ⟨hmany, -⟩ := adjust_exact rfl hp 0x8000000000000000
    (by decide : 0x8000000000000000 < Text.countBound)
  refine ⟨?_, by decide, ?_⟩
  · rw [hfew, if_pos (by decide)]
    decide +kernel
  · rw [hmany, if_neg (by decide), if_neg (by decide)]

end SatWalk.Gate
