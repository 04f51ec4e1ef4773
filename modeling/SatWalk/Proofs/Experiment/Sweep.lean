import SatWalk.Proofs.Binary64.Nearness
import SatWalk.Proofs.Experiment.Runs

/-! The sweep over the probabilities. A grid that fits into memory is usable: it has a probability,
its probabilities ascend, and a search accepts each of them. With a finite step it starts with
the first end, rounded, and stays between the ends but for the rounding: the whole steps that
are counted exceed the distance of the ends by no more than the slack and the errors of the
arithmetic. An infinite step leads to one alone, wherever the ends are. -/

namespace SatWalk.Experiment.Config

open Binary64
open Statistics (roundTo)
open Float.Model.Format (binary64)

/-! ### Rounding to hundredths -/

theorem value_hundred : value 100 = 100 := by
  have : magnitude 100 = ⟨7036874417766400, -46⟩ := by decide +kernel
  rw [value, this, Magnitude.value]
  norm_num

theorem raises_roundTo : Raises (roundTo · 2) := by
  simp only [roundTo_two]
  exact raises_hundredth.comp <| raises_roundAway.comp <| raises_mul (by decide) (by decide)

/-- Rounding moves a small number by half a hundredth at most, its own errors being tiny. -/
theorem roundTo_near {x : Float} (hx : 0 ≤ x) (hle : value x ≤ 2) :
    |value (roundTo x 2) - value x| ≤ 6 / 1000 := by
  have hfx : x.isFinite := (rounds_value hx).finite (n := 2) (by exact_mod_cast hle) (by decide)
  have hproduct := rounds_mul hx (by decide : (0 : Float) ≤ 100) hfx (by decide)
  rw [value_hundred] at hproduct
  have hfproduct := hproduct.finite (n := 200) (by push_cast; linarith) (by decide)
  have hwhole := rounds_roundAway hproduct.zero_le hfproduct
  obtain ⟨hproduct₁, hproduct₂⟩ := abs_le.1 (hproduct.near hfproduct)
  obtain ⟨hnatural₁, hnatural₂⟩ := abs_le.1 (abs_nearestNatural_sub_le (value_nonneg (x * 100)))
  have hfwhole := hwhole.finite (n := 202) (by push_cast; linarith) (by decide)
  obtain ⟨hwhole₁, hwhole₂⟩ := abs_le.1 (hwhole.near hfwhole)
  have hquotient := rounds_div hwhole.zero_le (by decide : (0 : Float) < 100) hfwhole (by decide)
  rw [value_hundred] at hquotient
  have hfquotient := hquotient.finite (n := 3) (by push_cast; linarith) (by decide)
  obtain ⟨hquotient₁, hquotient₂⟩ := abs_le.1 (hquotient.near hfquotient)
  have hnonneg := value_nonneg x
  rw [roundTo_two, abs_le]
  constructor <;> linarith

/-! ### The number of steps -/

section Valid

variable {c : Config} (hc : c.Valid)
include hc

theorem Valid.value_end_le : value c.pEnd ≤ 1 := by
  rw [← value_one]
  exact (le_iff_value_le hc.end_unit.1 (by decide)).1 hc.end_unit.2

theorem Valid.start_le_end : value c.pStart ≤ value c.pEnd := by
  have h := hc.ordered
  rwa [lt_iff_value_lt hc.end_unit.1 hc.start_unit.1, not_lt] at h

theorem Valid.rounds_distance : Rounds (value c.pEnd - value c.pStart) (c.pEnd - c.pStart) :=
  rounds_sub hc.end_unit.1 hc.start_unit.1 (finite_of_le_one hc.end_unit)
    (finite_of_le_one hc.start_unit) hc.start_le_end

theorem Valid.finite_distance : (c.pEnd - c.pStart).isFinite := by
  have hstart := value_nonneg c.pStart
  have hend := hc.value_end_le
  exact hc.rounds_distance.finite (n := 1) (by push_cast; linarith) (by decide)

end Valid

theorem value_slack_le : value 1e-9 ≤ 1 / 2 ^ 29 := by
  have : magnitude 1e-9 = ⟨4835703278458517, -82⟩ := by decide +kernel
  rw [value, this, Magnitude.value]
  norm_num

/-- Steps of size `h` that are at most a quotient of the distance, computed with its errors and
the slack `c`, exceed the distance by little. -/
theorem steps_le_of_near {s e h d q q' c i : ℚ} (hd : |d - (e - s)| ≤ (d + 1) / 2 ^ 53)
    (hh : 0 < h) (hq : |q - d / h| ≤ (q + 1) / 2 ^ 53) (hc : c ≤ 1 / 2 ^ 29)
    (hq' : |q' - (q + c)| ≤ (q' + 1) / 2 ^ 53) (hi : i ≤ q') (hone : 1 ≤ i) (he : e - s ≤ 1) :
    i * h ≤ e - s + 1 / 1000 := by
  have hscaled {a b : ℚ} (hab : a ≤ b) : a * h ≤ b * h := mul_le_mul_of_nonneg_right hab hh.le
  -- everything in multiples of the step, so that all that is left is linear
  have hdistance := (abs_le.1 hd).2
  have hquotient := hscaled (abs_le.1 hq).2
  have hsum := hscaled (abs_le.1 hq').2
  have hslack := hscaled hc
  have hcount := hscaled hi
  have hfirst := hscaled hone
  rw [sub_mul, div_mul_cancel₀ d hh.ne'] at hquotient
  linarith

/-- A count of infinitely many steps does not fit into memory. -/
theorem finite_of_fits {x : Float} (hx : 0 ≤ x)
    (hfit : (toCount (floor x) + 1) * 8 ≤ memoryLimit) : x.isFinite := by
  refine (finite_or_isInfinity hx).resolve_right fun hinf => ?_
  rw [floor_of_infinity hinf, toCount_of_infinity hinf] at hfit
  exact absurd hfit (by decide)

theorem toCount_floor_le {x : Float} (hx : 0 ≤ x) (hfinite : x.isFinite) :
    toCount (floor x) ≤ value x := by
  obtain ⟨hfloor, hle⟩ := floor_le hx
  exact (toCount_le hfloor (finite_of_le hfloor hx hle hfinite)).trans
    ((le_iff_value_le hfloor hx).1 hle)

section Finite

variable {c : Config} (hc : c.Valid) (hfinite : c.pStep.isFinite)
include hc hfinite

/-- The first grid point is the start, rounded. -/
theorem gridPoint_zero : (c.gridPoint 0 == roundTo c.pStart 2) = true := by
  have hzero := rounds_mul (by decide : (0 : Float) ≤ .ofNat 0) (zero_le_of_pos hc.step_pos)
    (by decide) hfinite
  rw [show Float.ofNat 0 = 0 from rfl, value_zero, zero_mul] at hzero
  have hsum := rounds_add hc.start_unit.1 hzero.zero_le (finite_of_le_one hc.start_unit)
    (hzero.finite (n := 0) (by norm_num) (by decide))
  rw [hzero.value_eq (value_zero ▸ rounds_value (by decide : (0 : Float) ≤ 0)), value_zero,
    add_zero] at hsum
  have hround := raises_roundTo.value_congr hsum.zero_le hc.start_unit.1
    (hsum.value_eq (rounds_value hc.start_unit.1))
  have hrounded := raises_roundTo.zero_le hc.start_unit.1
  have hle := raises_roundTo.le hc.start_unit.1 (by decide) hc.start_unit.2
  have hone : roundTo 1 2 = 1 := by
    rw [roundTo_two]
    decide +kernel
  rw [hone, le_iff_value_le hrounded (by decide)] at hle
  obtain ⟨hpoint, hvalue⟩ := value_smaller (raises_roundTo.zero_le hsum.zero_le)
    (by decide : (0 : Float) ≤ 1)
  have hsmaller : value (c.gridPoint 0) = value (roundTo c.pStart 2) := by
    rw [gridPoint, show Float.ofNat 0 = 0 from rfl, hvalue, hround]
    exact min_eq_left hle
  exact (beq_iff_value_eq hpoint hrounded).2 hsmaller

variable (hfit : (c.stepCount + 1) * 8 ≤ memoryLimit) {i : ℕ} (hi : i ≤ c.stepCount)
include hfit hi

theorem steps_le : i * value c.pStep ≤ value c.pEnd - value c.pStart + 1 / 1000 := by
  have hordered := hc.start_le_end
  rcases i.eq_zero_or_pos with rfl | hpos
  · rw [Nat.cast_zero, zero_mul]
    linarith
  have hstart := value_nonneg c.pStart
  have hend := hc.value_end_le
  have hslack : (0 : Float) ≤ 1e-9 := by decide
  have hd := hc.rounds_distance
  have hq := rounds_div hd.zero_le hc.step_pos hc.finite_distance hfinite
  have hfq : ((c.pEnd - c.pStart) / c.pStep).isFinite := by
    refine (finite_or_isInfinity hq.zero_le).resolve_right fun hinf => ?_
    have hinf' := hinf.add_right hslack
    exact hinf'.not_finite (finite_of_fits hinf'.zero_le hfit)
  have hq' := rounds_add hq.zero_le hslack hfq (by decide)
  have hfq' := finite_of_fits hq'.zero_le hfit
  have hcount := (Nat.cast_le.2 hi).trans (toCount_floor_le hq'.zero_le hfq')
  exact steps_le_of_near (hd.near hc.finite_distance) (value_pos hc.step_pos) (hq.near hfq)
    value_slack_le (hq'.near hfq') hcount (Nat.one_le_cast.2 hpos) (by linarith)

/-- Before it is rounded, a grid point is hardly beyond the ends. -/
theorem sum_bounds : 0 ≤ c.pStart + .ofNat i * c.pStep ∧
    value c.pStart ≤ value (c.pStart + .ofNat i * c.pStep) ∧
    value (c.pStart + .ofNat i * c.pStep) ≤ value c.pEnd + 2 / 1000 := by
  have hsteps := steps_le hc hfinite hfit hi
  have hstart := value_nonneg c.pStart
  have hend := hc.value_end_le
  have hpos := value_pos hc.step_pos
  have hnat := rounds_ofNat i
  have hfnat : (Float.ofNat i).isFinite := by
    refine finite_ofNat ?_
    unfold memoryLimit Text.countBound at *
    omega
  have hproduct := rounds_mul hnat.zero_le (zero_le_of_pos hc.step_pos) hfnat hfinite
  have hscaled : value (.ofNat i) * value c.pStep ≤
      value c.pEnd - value c.pStart + 11 / 10000 := by
    rcases i.eq_zero_or_pos with rfl | hi
    · rw [show Float.ofNat 0 = 0 from rfl, value_zero, zero_mul]
      linarith [hc.start_le_end]
    · have hfirst : 1 * value c.pStep ≤ i * value c.pStep :=
        mul_le_mul_of_nonneg_right (Nat.one_le_cast.2 hi) hpos.le
      have hnear := mul_le_mul_of_nonneg_right (abs_le.1 (hnat.near hfnat)).2 hpos.le
      linarith
  have hfproduct := hproduct.finite (n := 2) (by push_cast; linarith) (by decide)
  have hnear := (abs_le.1 (hproduct.near hfproduct)).2
  have hsum := rounds_add hc.start_unit.1 hproduct.zero_le (finite_of_le_one hc.start_unit)
    hfproduct
  have hnear' := (abs_le.1 (hsum.near (hsum.finite (n := 3) (by push_cast; linarith)
    (by decide)))).2
  refine ⟨hsum.zero_le, ?_, by linarith⟩
  rw [← le_iff_value_le hc.start_unit.1 hsum.zero_le]
  exact (rounds_value hc.start_unit.1).le hsum (le_add_of_nonneg_right (value_nonneg _))

theorem gridPoint_near : value c.pStart - 1 / 100 ≤ value (c.gridPoint i) ∧
    value (c.gridPoint i) ≤ value c.pEnd + 1 / 100 := by
  obtain ⟨hsum, hlow, hhigh⟩ := sum_bounds hc hfinite hfit hi
  have hend := hc.value_end_le
  have hordered := hc.start_le_end
  obtain ⟨hnear, hnear'⟩ := abs_le.1 (roundTo_near hsum (by linarith))
  obtain ⟨-, hvalue⟩ := value_smaller (raises_roundTo.zero_le hsum) (by decide : (0 : Float) ≤ 1)
  rw [gridPoint, hvalue, value_one]
  constructor
  · exact le_min (by linarith) (by linarith)
  · exact (min_le_left _ _).trans (by linarith)

end Finite

/-! ### Infinite steps -/

theorem stepCount_of_infinite_step {c : Config} (hc : c.Valid) (hinf : ¬ c.pStep.isFinite) :
    c.stepCount = 0 := by
  have hstep : c.pStep.toModel.unpack = _ :=
    isInfinity_of_not_finite (zero_le_of_pos hc.step_pos) hinf
  have hzero : ∃ sign, Float.Model.UnpackedFloat.div binary64
      (c.pEnd - c.pStart).toModel.unpack c.pStep.toModel.unpack = .zero sign := by
    rw [hstep]
    rcases finite_cases hc.rounds_distance.zero_le hc.finite_distance with
      ⟨s, hu, -⟩ | ⟨m, e, hm, hu, -⟩ <;> rw [hu] <;> exact ⟨_, rfl⟩
  obtain ⟨sign, hzero⟩ := hzero
  have hslack : (c.pEnd - c.pStart) / c.pStep + 1e-9 = 1e-9 := by
    change Float.ofModel (.pack (.add binary64 (Float.Model.pack (.div binary64
      (c.pEnd - c.pStart).toModel.unpack c.pStep.toModel.unpack)).unpack
      (1e-9 : Float).toModel.unpack)) = 1e-9
    rw [hzero]
    cases sign <;> decide +kernel
  rw [stepCount, hslack]
  decide +kernel

/-! ### The sweep -/

theorem head?_dropRepeats (xs : List Float) : (dropRepeats xs).head? = xs.head? := by
  induction xs using dropRepeats.induct with
  | case1 x y rest hrepeat ih =>
    rw [dropRepeats, if_pos hrepeat, ih]
    rfl
  | case2 x y rest hrepeat ih =>
    rw [dropRepeats, if_neg hrepeat]
    rfl
  | case3 xs hxs =>
    rw [dropRepeats]
    exact hxs

/-- The grid has its room or is refused; a grid that has starts with its first point. -/
theorem pValues_cons {c : Config} (hc : c.Valid) (hfit : (c.stepCount + 1) * 8 ≤ memoryLimit) :
    ∃ rest, c.pValues = .ok (c.gridPoint 0 :: rest) ∧ Grid (c.gridPoint 0 :: rest) ∧
      ∀ p ∈ c.gridPoint 0 :: rest, ∃ i ≤ c.stepCount, p = c.gridPoint i := by
  have hvalues : c.pValues =
      .ok (dropRepeats ((List.range (c.stepCount + 1)).map c.gridPoint)) := by
    rw [pValues_eq hc, reserve_of_le hfit]
    rfl
  have hhead : (dropRepeats ((List.range (c.stepCount + 1)).map c.gridPoint)).head? =
      some (c.gridPoint 0) := by
    rw [head?_dropRepeats, List.range_succ_eq_map]
    rfl
  obtain ⟨rest, hrest⟩ := List.head?_eq_some_iff.1 hhead
  refine ⟨rest, by rw [hvalues, hrest], hrest ▸ grid_of_pValues hc hvalues, fun p hp => ?_⟩
  rw [← hrest] at hp
  obtain ⟨i, hi, rfl⟩ := List.mem_map.1 (dropRepeats_subset _ hp)
  exact ⟨i, Nat.lt_succ_iff.1 (List.mem_range.1 hi), rfl⟩

/-- Accepted settings have a usable grid, unless its points take too much room: it is not empty,
ascends strictly, and consists of probabilities that a search accepts with the other settings. -/
theorem pValues_usable {c : Config} (h : c.validate = .ok ()) :
    ((c.stepCount + 1) * 8 ≤ memoryLimit → ∃ grid, c.pValues = .ok grid ∧ grid ≠ [] ∧
      grid.Pairwise (· < ·) ∧ ∀ p ∈ grid, p.isNaN = false ∧ inUnit p ∧
        (c.searchConfig p).validate = .ok ()) ∧
    (memoryLimit < (c.stepCount + 1) * 8 → c.pValues = .error .capacityExceeded) := by
  have hc := validate_eq_ok_iff.1 h
  refine ⟨fun hfit => ?_, pValues_full hc⟩
  obtain ⟨rest, hvalues, hgrid, -⟩ := pValues_cons hc hfit
  refine ⟨_, hvalues, hgrid.ne_nil, ?_, fun p hp => ?_⟩
  · refine hgrid.ascending.imp_of_mem fun hx hy hlt => ?_
    exact (lt_iff_value_lt (hgrid.inUnit hx).1 (hgrid.inUnit hy).1).2 hlt
  · have hunit := hgrid.inUnit hp
    exact ⟨not_isNaN hunit.1, hunit, searchConfig_valid hc hunit⟩

/-- Three points, the last of which rounding takes up to one. -/
theorem pValues_usable_thirds :
    Config.validate { pStart := 0.335, pStep := 0.33 } = .ok () ∧
      ∃ grid, Config.pValues { pStart := 0.335, pStep := 0.33 } = .ok grid ∧ grid ≠ [] ∧
        grid.Pairwise (· < ·) ∧ ∀ p ∈ grid, p.isNaN = false ∧ inUnit p ∧
          (({ pStart := 0.335, pStep := 0.33 } : Config).searchConfig p).validate = .ok () := by
  have h : Config.validate { pStart := 0.335, pStep := 0.33 } = .ok () := by decide +kernel
  exact ⟨h, (pValues_usable h).1 (by decide +kernel)⟩

/-- A step so small that the points, though few are different, take too much room. -/
theorem pValues_fault_of_tiny_step :
    Config.validate { pStart := 0.5, pEnd := 0.75, pStep := 1e-300 } = .ok () ∧
      Config.pValues { pStart := 0.5, pEnd := 0.75, pStep := 1e-300 } =
        .error .capacityExceeded := by
  have h : Config.validate { pStart := 0.5, pEnd := 0.75, pStep := 1e-300 } = .ok () := by
    decide +kernel
  exact ⟨h, pValues_full (validate_eq_ok_iff.1 h) (by decide +kernel)⟩

/-- Unless the points take too much room, the sweep with a finite step starts with the start,
rounded, and stays within a hundredth of the ends. With an infinite step it is one alone. -/
theorem pValues_within {c : Config} (h : c.validate = .ok ()) :
    (c.pStep.isFinite → (c.stepCount + 1) * 8 ≤ memoryLimit →
      ∃ first rest, c.pValues = .ok (first :: rest) ∧ (first == roundTo c.pStart 2) = true ∧
        ∀ p ∈ first :: rest, 0 ≤ p ∧ value c.pStart - 1 / 100 ≤ value p ∧
          value p ≤ value c.pEnd + 1 / 100) ∧
    (c.pStep.isFinite → memoryLimit < (c.stepCount + 1) * 8 →
      c.pValues = .error .capacityExceeded) ∧
    (¬ c.pStep.isFinite → c.pValues = .ok [1]) := by
  have hc := validate_eq_ok_iff.1 h
  refine ⟨fun hfinite hfit => ?_, fun _ => pValues_full hc, fun hinf => ?_⟩
  · obtain ⟨rest, hvalues, hgrid, hpoints⟩ := pValues_cons hc hfit
    refine ⟨_, rest, hvalues, gridPoint_zero hc hfinite, fun p hp => ?_⟩
    refine ⟨(hgrid.inUnit hp).1, ?_⟩
    obtain ⟨i, hi, rfl⟩ := hpoints p hp
    exact gridPoint_near hc hfinite hfit hi
  · have hpoint := gridPoint_of_infinite_step hc hinf 0
    rw [gridPoint_eq] at hpoint
    exact pValues_single h (stepCount_of_infinite_step hc hinf) hpoint

/-- Tenths from a fifth to a half, and what becomes of them if the step is infinite. -/
theorem pValues_within_infinite_step :
    (∃ first rest, Config.pValues { pStart := 0.2, pEnd := 0.5 } = .ok (first :: rest) ∧
      (first == roundTo 0.2 2) = true ∧ ∀ p ∈ first :: rest, 0 ≤ p ∧
        value 0.2 - 1 / 100 ≤ value p ∧ value p ≤ value 0.5 + 1 / 100) ∧
    Config.validate { pStart := 0.2, pEnd := 0.5, pStep := 1 / 0 } = .ok () ∧
    Config.pValues { pStart := 0.2, pEnd := 0.5, pStep := 1 / 0 } = .ok [1] := by
  have h : Config.validate { pStart := 0.2, pEnd := 0.5 } = .ok () := by decide +kernel
  have h' : Config.validate { pStart := 0.2, pEnd := 0.5, pStep := 1 / 0 } = .ok () := by
    decide +kernel
  exact ⟨(pValues_within h).1 (by decide +kernel) (by decide +kernel), h',
    (pValues_within h').2.2 (by decide +kernel)⟩

end SatWalk.Experiment.Config
