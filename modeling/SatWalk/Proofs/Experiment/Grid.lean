import SatWalk.Experiment.Config
import SatWalk.Proofs.Binary64.Naturals

/-! The probabilities of an experiment. Whatever the ends and the step are, if they are accepted,
each probability is a hundredth between zero and one, and the probabilities ascend strictly:
every operation of a grid point keeps the order, and equal neighbours are dropped. -/

namespace SatWalk.Experiment.Config

open Binary64
open Float.Model (UnpackedFloat)
open Float.Model.Format (binary64)

/-! ### Accepted settings -/

structure Valid (c : Config) : Prop where
  step_pos : 0 < c.pStep
  start_unit : inUnit c.pStart
  end_unit : inUnit c.pEnd
  ordered : ¬ c.pEnd < c.pStart
  trials_pos : 0 < c.trials
  reference : c.referenceTimeoutSecs ≠ some 0
  search : (c.searchConfig c.pStart).validate = .ok ()

theorem validate_eq_ok_iff {c : Config} : c.validate = .ok () ↔ c.Valid := by
  unfold validate
  constructor
  · intro h
    split at h
    · cases h
    split at h
    · cases h
    split at h
    · cases h
    split at h
    · cases h
    split at h
    · cases h
    rename_i hstep hunit horder htrials href
    rw [not_or, not_not, not_not] at hunit
    refine ⟨not_not.1 hstep, hunit.1, hunit.2, horder, Nat.pos_of_ne_zero htrials, href, ?_⟩
    split at h
    · cases h
    · assumption
  · rintro ⟨hstep, hstart, hend, horder, htrials, href, hsearch⟩
    rw [if_neg (not_not.2 hstep), if_neg (not_or.2 ⟨not_not.2 hstart, not_not.2 hend⟩),
      if_neg horder, if_neg htrials.ne', if_neg href, hsearch]

/-! ### Grid points -/

theorem roundTo_two (x : Float) : Statistics.roundTo x 2 = roundAway (x * 100) / 100 := by
  have hpower : power 10 2 = 100 := by
    rw [power, powerOnto, if_neg (by decide), if_neg (by decide), powerOnto, if_pos (by decide),
      if_pos (by decide)]
    decide +kernel
  unfold Statistics.roundTo
  rw [show (2 : ℤ).natAbs = 2 from rfl, hpower]
  rfl

/-- The hundredths between zero and one. -/
structure Hundredth (p : Float) : Prop where
  zero_le : 0 ≤ p
  exists_count : ∃ k ≤ 100, magnitude p = magnitude (.ofNat k / 100)

theorem hundredth_one : Hundredth 1 :=
  ⟨by decide, 100, le_rfl, by decide +kernel⟩

/-- A number beyond one is cut off. -/
theorem smaller_of_one_lt {x : Float} (h : 1 < x) : smaller x 1 = 1 := by
  rw [smaller, if_pos h]
  split <;> rfl

theorem one_lt_of_infinity {x : Float} (h : IsInfinity x) : 1 < x := by
  rw [lt_iff_below (by decide) h.zero_le, magnitude_of_upward h.upward]
  decide

theorem raises_hundredth : Raises (· / 100) :=
  raises_div (by decide) (by decide)

/-- A natural over a hundred is cut off unless it is a hundred at most. -/
theorem hundredth_of_rounded {y : Float} (hy : 0 ≤ y) :
    Hundredth (smaller (roundAway y / 100) 1) := by
  have hround := raises_roundAway.zero_le hy
  have hcut (h : 1 < roundAway y / 100) : Hundredth (smaller (roundAway y / 100) 1) := by
    rw [smaller_of_one_lt h]
    exact hundredth_one
  rcases finite_or_isInfinity hround with hfinite | hinf
  swap
  · exact hcut (one_lt_of_infinity (hinf.div_right (by decide) (by decide)))
  have hfy : y.isFinite := (finite_or_isInfinity hy).resolve_right fun h =>
    h.roundAway.not_finite hfinite
  set n := nearestNatural (value y)
  have hsame : magnitude (roundAway y) = magnitude (.ofNat n) :=
    (rounds_roundAway hy hfy).magnitude_eq (rounds_ofNat n)
  have hnat := (rounds_ofNat n).zero_le
  have hquotient : magnitude (roundAway y / 100) = magnitude (.ofNat n / 100) := by
    have hfn : (Float.ofNat n).isFinite := by
      rw [isFinite_iff hnat, ← hsame]
      exact (isFinite_iff hround).1 hfinite
    refine (rounds_div hround (by decide) hfinite (by decide)).magnitude_eq ?_
    rw [value, hsame]
    exact rounds_div hnat (by decide) hfn (by decide)
  have hzero := raises_hundredth.zero_le hround
  by_cases hlt : 1 < roundAway y / 100
  · exact hcut hlt
  have hle : n ≤ 100 := by
    by_contra h
    have hmore : (1 : Float) < .ofNat 101 / 100 := by decide +kernel
    have hmono := raises_hundredth.le (rounds_ofNat 101).zero_le hnat
      (ofNat_le_ofNat (by omega : 101 ≤ n))
    rw [lt_iff_value_lt (by decide) (by decide +kernel)] at hmore
    rw [le_iff_value_le (by decide +kernel) (raises_hundredth.zero_le hnat)] at hmono
    rw [lt_iff_value_lt (by decide) hzero, value, value, hquotient] at hlt
    exact hlt (hmore.trans_le hmono)
  rw [smaller_eq hzero, if_neg hlt]
  exact ⟨hzero, n, hle, hquotient⟩

theorem Hundredth.le_one {p : Float} (h : Hundredth p) : p ≤ 1 := by
  obtain ⟨k, hk, hmagnitude⟩ := h.exists_count
  have hone : (Float.ofNat 100 / 100) ≤ 1 := by decide +kernel
  have hmono := raises_hundredth.le (rounds_ofNat k).zero_le (rounds_ofNat 100).zero_le
    (ofNat_le_ofNat hk)
  rw [le_iff_value_le (by decide +kernel) (by decide)] at hone
  rw [le_iff_value_le (raises_hundredth.zero_le (rounds_ofNat k).zero_le)
    (by decide +kernel)] at hmono
  rw [le_iff_value_le h.zero_le (by decide), value, hmagnitude]
  exact hmono.trans hone

/-! ### All accepted settings -/

/-- A grid point as an operation on the number of steps. -/
def pointOf (c : Config) (steps : Float) : Float :=
  smaller (roundAway ((c.pStart + steps * c.pStep) * 100) / 100) 1

theorem gridPoint_eq (c : Config) (i : ℕ) : c.gridPoint i = c.pointOf (.ofNat i) := by
  rw [gridPoint, roundTo_two, pointOf]

theorem finite_of_le_one {x : Float} (h : inUnit x) : x.isFinite :=
  finite_of_le h.1 (by decide) h.2 (by decide)

theorem raises_pointOf {c : Config} (hc : c.Valid) (hfinite : c.pStep.isFinite) :
    Raises c.pointOf :=
  (raises_smaller (by decide)).comp <| raises_hundredth.comp <| raises_roundAway.comp <|
    (raises_mul (by decide) (by decide)).comp <|
      (raises_add hc.start_unit.1 (finite_of_le_one hc.start_unit)).comp <|
        raises_mul hc.step_pos hfinite

theorem unpack_pack_nan : (Float.Model.pack .notANumber).unpack = .notANumber := rfl

theorem add_nan (u : UnpackedFloat) : UnpackedFloat.add binary64 u .notANumber = .notANumber := by
  cases u <;> rfl

/-- What has no value leads to the last probability. -/
theorem pointOf_of_nan {c : Config} {steps : Float}
    (h : (steps * c.pStep).toModel.unpack = .notANumber) : c.pointOf steps = 1 := by
  have hsum : (c.pStart + steps * c.pStep).toModel.unpack = .notANumber := by
    change (Float.Model.pack (.add binary64 c.pStart.toModel.unpack
      (steps * c.pStep).toModel.unpack)).unpack = .notANumber
    rw [h, add_nan, unpack_pack_nan]
  have hproduct : ((c.pStart + steps * c.pStep) * 100).toModel.unpack = .notANumber := by
    change (Float.Model.pack (.mul binary64 (c.pStart + steps * c.pStep).toModel.unpack
      _)).unpack = .notANumber
    rw [hsum]
    rfl
  unfold pointOf
  generalize (c.pStart + steps * c.pStep) * 100 = y at hproduct
  have hwhole : isWhole y = true := by
    have hfinite : y.isFinite = false := by
      change y.toModel.unpack.isFinite = false
      rw [hproduct]
      rfl
    rw [isWhole_eq, hfinite]
    rfl
  rw [roundAway, if_pos hwhole]
  apply smaller_of_isNaN
  change (Float.Model.pack (.div binary64 y.toModel.unpack _)).unpack.isNaN = true
  rw [hproduct]
  rfl

theorem pointOf_of_infinity {c : Config} {steps : Float} (hc : c.Valid)
    (h : IsInfinity (steps * c.pStep)) : c.pointOf steps = 1 :=
  smaller_of_one_lt <| one_lt_of_infinity <|
    ((h.add_left hc.start_unit.1).mul_right (by decide)).roundAway.div_right (by decide)
      (by decide)

theorem gridPoint_of_infinite_step {c : Config} (hc : c.Valid) (hinf : ¬ c.pStep.isFinite)
    (i : ℕ) : c.gridPoint i = 1 := by
  have hstep := isInfinity_of_not_finite (zero_le_of_pos hc.step_pos) hinf
  have hunpack : (Float.ofNat i * c.pStep).toModel.unpack = (Float.Model.pack
      ((Float.ofNat i).toModel.unpack.mul binary64 (.infinity .positive))).unpack := by
    rw [← hstep]
    rfl
  rw [gridPoint_eq]
  have hup := upward_of_zero_le (rounds_ofNat i).zero_le
  generalize (Float.ofNat i).toModel.unpack = u, magnitude (.ofNat i) = r at hup hunpack
  cases hup with
  | infinity => exact pointOf_of_infinity hc (hunpack.trans (unpack_pack_infinity .positive))
  | zero => exact pointOf_of_nan (hunpack.trans unpack_pack_nan)
  | finite => exact pointOf_of_infinity hc (hunpack.trans (unpack_pack_infinity .positive))

theorem hundredth_gridPoint {c : Config} (hc : c.Valid) (i : ℕ) : Hundredth (c.gridPoint i) := by
  by_cases hfinite : c.pStep.isFinite
  · rw [gridPoint_eq]
    refine hundredth_of_rounded ?_
    exact ((raises_mul (by decide) (by decide)).comp <|
      (raises_add hc.start_unit.1 (finite_of_le_one hc.start_unit)).comp <|
        raises_mul hc.step_pos hfinite).zero_le (rounds_ofNat i).zero_le
  · rw [gridPoint_of_infinite_step hc hfinite]
    exact hundredth_one

theorem gridPoint_mono {c : Config} (hc : c.Valid) {i j : ℕ} (h : i ≤ j) :
    value (c.gridPoint i) ≤ value (c.gridPoint j) := by
  by_cases hfinite : c.pStep.isFinite
  · have hraises := raises_pointOf hc hfinite
    have hi := (rounds_ofNat i).zero_le
    have hj := (rounds_ofNat j).zero_le
    rw [gridPoint_eq, gridPoint_eq, ← le_iff_value_le (hraises.zero_le hi) (hraises.zero_le hj)]
    exact hraises.le hi hj (ofNat_le_ofNat h)
  · rw [gridPoint_of_infinite_step hc hfinite, gridPoint_of_infinite_step hc hfinite]

/-! ### The grid -/

theorem dropRepeats_subset (xs : List Float) : dropRepeats xs ⊆ xs := by
  induction xs using dropRepeats.induct with
  | case1 x y rest hrepeat ih =>
    rw [dropRepeats, if_pos hrepeat]
    exact fun z hz => by simpa using (List.mem_cons.1 (ih hz)).imp_right .inr
  | case2 x y rest hrepeat ih =>
    rw [dropRepeats, if_neg hrepeat]
    exact List.cons_subset_cons x ih
  | case3 xs hxs =>
    rw [dropRepeats]
    · exact List.Subset.refl xs
    · exact hxs

theorem dropRepeats_ne_nil {xs : List Float} (h : xs ≠ []) : dropRepeats xs ≠ [] := by
  induction xs using dropRepeats.induct with
  | case1 x y rest hrepeat ih =>
    rw [dropRepeats, if_pos hrepeat]
    exact ih (List.cons_ne_nil _ _)
  | case2 x y rest hrepeat ih =>
    rw [dropRepeats, if_neg hrepeat]
    exact List.cons_ne_nil _ _
  | case3 xs hxs =>
    rw [dropRepeats]
    · exact h
    · exact hxs

/-- A list that ascends loses all its repeats with those of neighbours. -/
theorem dropRepeats_ascending {xs : List Float} (hzero : ∀ x ∈ xs, 0 ≤ x)
    (hxs : xs.Pairwise (value · ≤ value ·)) : (dropRepeats xs).Pairwise (value · < value ·) := by
  induction xs using dropRepeats.induct with
  | case1 x y rest hrepeat ih =>
    rw [dropRepeats, if_pos hrepeat]
    have hsublist : (x :: rest).Sublist (x :: y :: rest) := (List.sublist_cons_self y rest).cons_cons x
    exact ih (fun z hz => hzero z (hsublist.subset hz)) (hxs.sublist hsublist)
  | case2 x y rest hrepeat ih =>
    rw [dropRepeats, if_neg hrepeat]
    obtain ⟨hx, htail⟩ := List.pairwise_cons.1 hxs
    obtain ⟨hy, -⟩ := List.pairwise_cons.1 htail
    refine List.pairwise_cons.2 ⟨fun z hz => ?_, ih (fun z hz => hzero z (.tail x hz)) htail⟩
    have hne : value x ≠ value y := fun h =>
      hrepeat ((beq_iff_value_eq (hzero x (by simp)) (hzero y (by simp))).2 h)
    have hlt : value x < value y := (hx y (by simp)).lt_of_ne hne
    rcases List.mem_cons.1 (dropRepeats_subset _ hz) with rfl | hz
    · exact hlt
    · exact hlt.trans_le (hy z hz)
  | case3 xs hxs' =>
    rw [dropRepeats]
    · match xs, hxs' with
      | [], _ => exact List.Pairwise.nil
      | [x], _ => exact List.pairwise_singleton _ x
      | x :: y :: rest, h => exact absurd rfl (h x y rest)
    · exact hxs'

/-- A list of probabilities as an experiment uses it. -/
structure Grid (grid : List Float) : Prop where
  ne_nil : grid ≠ []
  hundredth : ∀ p ∈ grid, Hundredth p
  ascending : grid.Pairwise (value · < value ·)

theorem pValues_eq {c : Config} (hc : c.Valid) :
    c.pValues = (do
      reserve (c.stepCount + 1) 8
      return dropRepeats ((List.range (c.stepCount + 1)).map c.gridPoint)) := by
  unfold pValues
  rw [if_neg (not_or.2 ⟨not_not.2 hc.step_pos, hc.ordered⟩)]

theorem grid_of_pValues {c : Config} (hc : c.Valid) {grid : List Float}
    (h : c.pValues = .ok grid) : Grid grid := by
  rw [pValues_eq hc] at h
  obtain ⟨-, -, h⟩ := Checked.bind_eq_ok_iff.1 h
  obtain rfl := Except.ok.inj h
  have hmem {p : Float} (hp : p ∈ (List.range (c.stepCount + 1)).map c.gridPoint) :
      Hundredth p := by
    obtain ⟨i, -, rfl⟩ := List.mem_map.1 hp
    exact hundredth_gridPoint hc i
  refine ⟨dropRepeats_ne_nil ?_, fun p hp => hmem (dropRepeats_subset _ hp), ?_⟩
  · simp
  · refine dropRepeats_ascending (fun p hp => (hmem hp).zero_le) ?_
    exact List.pairwise_map.2 (List.pairwise_lt_range.imp fun h => gridPoint_mono hc h.le)

theorem pValues_full {c : Config} (hc : c.Valid) (h : memoryLimit < (c.stepCount + 1) * 8) :
    c.pValues = .error .capacityExceeded := by
  rw [pValues_eq hc, reserve_of_lt h]
  rfl

theorem pValues_fits {c : Config} (hc : c.Valid) (h : (c.stepCount + 1) * 8 ≤ memoryLimit) :
    ∃ grid, c.pValues = .ok grid := by
  rw [pValues_eq hc, reserve_of_le h]
  exact ⟨_, rfl⟩

/-- The grid exists unless its points take too much room. -/
theorem pValues_cases {c : Config} (hc : c.Valid) :
    (∃ grid, c.pValues = .ok grid ∧ Grid grid) ∨
      memoryLimit < (c.stepCount + 1) * 8 ∧ c.pValues = .error .capacityExceeded := by
  rcases Nat.lt_or_ge memoryLimit ((c.stepCount + 1) * 8) with hlt | hle
  · exact .inr ⟨hlt, pValues_full hc hlt⟩
  · obtain ⟨grid, hvalues⟩ := pValues_fits hc hle
    exact .inl ⟨grid, hvalues, grid_of_pValues hc hvalues⟩

/-- A grid of one point. -/
theorem pValues_single {c : Config} {p : Float} (hc : c.validate = .ok ()) (hcount : c.stepCount = 0)
    (hp : c.pointOf 0 = p) : c.pValues = .ok [p] := by
  have hsingle : dropRepeats [p] = [p] := by
    rw [dropRepeats]
    simp
  rw [pValues_eq (validate_eq_ok_iff.1 hc), hcount, reserve_of_le (by decide)]
  change Except.ok (dropRepeats [c.gridPoint 0]) = _
  rw [gridPoint_eq, show Float.ofNat 0 = 0 from rfl, hp, hsingle]

theorem Grid.inUnit {grid : List Float} (h : Grid grid) {p : Float} (hp : p ∈ grid) : inUnit p :=
  ⟨(h.hundredth p hp).zero_le, (h.hundredth p hp).le_one⟩

end SatWalk.Experiment.Config
