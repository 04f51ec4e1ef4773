import SatWalk.Proofs.Binary64.Naturals

/-! How near results are to the exact ones. A number that a real rounds to is off by a tiny share
of itself, or of one. What is cut off at a number is rounded like any real, a difference that is
cut off at zero too, though it may be negative before. Whole parts are not above what they are
parts of. -/

namespace SatWalk.Binary64

open Float.Model (UnpackedFloat)
open Float.Model.Format (binary64)
open Decimal (Interval)

/-! ### Distance from the exact result -/

theorem Rounds.near {q : ℚ} {x : Float} (h : Rounds q x) (hfinite : x.isFinite) :
    |value x - q| ≤ (value x + 1) / 2 ^ 53 := by
  have hfull := (magnitude_canonical x).full
  have hlow := h.catches.from_low.le
  have hhigh := (h.catches.upTo_high ((isFinite_iff h.zero_le).1 hfinite)).le
  have hnonneg := value_nonneg x
  rw [value] at hnonneg ⊢
  generalize magnitude x = r at hfull hlow hhigh hnonneg
  have hscale : (2 : ℚ) ^ (Interval.of r).scale = 2 ^ r.exponent / 4 := by
    rw [Interval.of, zpow_sub₀ (by norm_num)]
    norm_num
  have hlow' : (4 * r.mantissa : ℚ) - 2 ≤ (Interval.of r).low := by
    have : 4 * r.mantissa ≤ (Interval.of r).low + 2 := by
      simp only [Interval.of]
      split <;> omega
    exact sub_le_iff_le_add.2 (by exact_mod_cast this)
  have hhigh' : ((Interval.of r).high : ℚ) = 4 * r.mantissa + 2 := by simp [Interval.of]
  -- half of the last place, which is half the width of the interval
  have hhalf : (2 : ℚ) ^ r.exponent / 2 ≤ (r.value + 1) / 2 ^ 53 := by
    rcases hfull with hleast | hfull
    · have htiny : (2 : ℚ) ^ r.exponent ≤ 2 ^ (-52 : ℤ) :=
        zpow_le_zpow_right₀ (by norm_num) (by omega)
      norm_num at htiny ⊢
      linarith
    · have hfull' : (2 : ℚ) ^ 52 ≤ r.mantissa := by exact_mod_cast hfull
      have hvalue : (2 : ℚ) ^ 52 * 2 ^ r.exponent ≤ r.value := by
        unfold Magnitude.value
        gcongr
      rw [le_div_iff₀ (by positivity)]
      linarith
  have hbelow := mul_le_mul_of_nonneg_right hlow' (Magnitude.unit_pos (Interval.of r)).le
  rw [hhigh'] at hhigh
  rw [Magnitude.value_eq] at hhalf ⊢
  rw [hscale] at hlow hhigh hhalf hbelow ⊢
  rw [abs_le]
  constructor <;> linarith

/-- What is at most a count rounds to a finite number. -/
theorem Rounds.finite {q : ℚ} {x : Float} (h : Rounds q x) {n : ℕ} (hq : q ≤ n)
    (hn : n ≤ Text.countBound) : x.isFinite :=
  finite_of_le h.zero_le (rounds_ofNat n).zero_le (h.le (rounds_ofNat n) hq) (finite_ofNat hn)

theorem value_zero : value 0 = 0 := by
  have : magnitude 0 = ⟨0, -1074⟩ := by decide
  rw [value, this, Magnitude.value, Nat.cast_zero, zero_mul]

/-! ### Differences -/

/-- A difference that is not negative rounds like any real. -/
theorem rounds_sub {x y : Float} (hx : 0 ≤ x) (hy : 0 ≤ y) (hfx : x.isFinite) (hfy : y.isFinite)
    (h : value y ≤ value x) : Rounds (value x - value y) (x - y) := by
  change Rounds _ (.ofModel (.pack (.sub binary64 x.toModel.unpack y.toModel.unpack)))
  rcases finite_cases hx hfx with ⟨s, hu, hq⟩ | ⟨m, e, hm, hu, -, hq, -⟩ <;>
    rcases finite_cases hy hfy with ⟨s', hu', hq'⟩ | ⟨m', e', hm', hu', -, hq', -⟩ <;>
    rw [hq, hq'] at h <;> rw [hu, hu', hq, hq']
  · rw [sub_zero, UnpackedFloat.sub]
    split <;> exact rounds_zero _
  · exact absurd h (not_le.2 (by positivity))
  · rw [sub_zero]
    exact rounds_pack_finite hm hu
  · have hunit : (0 : ℚ) < 2 ^ min e e' := by positivity
    rw [← shifted_value m (min_le_left e e'), ← shifted_value m' (min_le_right e e')] at h ⊢
    have hle : m' <<< (e' - min e e').toNat ≤ m <<< (e - min e e').toNat := by
      exact_mod_cast le_of_mul_le_mul_right h hunit
    rw [← sub_mul, ← Nat.cast_sub hle]
    have hdifference := rounds_normalize
      (m <<< (e - min e e').toNat - m' <<< (e' - min e e').toNat) (min e e')
    rwa [Int.ofNat_sub hle] at hdifference

/-! ### Cut-offs -/

/-- The smaller of a rounded real and a number is the smaller of both, rounded. -/
theorem Rounds.smaller {q : ℚ} {x c : Float} (h : Rounds q x) (hc : 0 ≤ c) :
    Rounds (min q (value c)) (smaller x c) := by
  rw [smaller_eq h.zero_le]
  rcases le_total q (value c) with hq | hq
  · have hle := h.le (rounds_value hc) hq
    rwa [if_neg (not_lt_of_nonneg_le h.zero_le hc hle), min_eq_left hq]
  · have hle := (le_iff_value_le hc h.zero_le).1 ((rounds_value hc).le h hq)
    rw [min_eq_right hq]
    split
    case isTrue => exact rounds_value hc
    case isFalse hnot =>
      rw [lt_iff_value_lt hc h.zero_le, not_lt] at hnot
      rw [hle.antisymm hnot]
      exact rounds_value h.zero_le

theorem larger_eq {x c : Float} (hx : 0 ≤ x) : larger x c = if x < c then c else x := by
  rw [larger, not_isNaN hx, if_neg (by decide)]

/-- A number below zero gives way to zero. -/
theorem larger_of_unpack {z : Float} {u : UnpackedFloat} (hu : z.toModel.unpack = u)
    (hnan : u.isNaN = false) (hlt : u.compare (.zero .positive) = some .lt) : larger z 0 = 0 := by
  have hnan' : z.isNaN = false := by
    change z.toModel.unpack.isNaN = false
    rw [hu, hnan]
  have hlt' : z < 0 := by
    rw [lt_iff_compare, hu]
    exact hlt
  rw [larger, hnan', if_neg (by decide), if_pos hlt']

theorem rounds_larger_of_negative {r : Magnitude} (hr : r.Canonical) :
    Rounds 0 (larger (.ofModel (.pack (r.unpacked .negative))) 0) := by
  by_cases hm : r.mantissa = 0
  · rw [unpacked_of_zero hm]
    exact rounds_zero .negative
  have hcut : larger (.ofModel (.pack (r.unpacked .negative))) 0 = 0 := by
    by_cases hlt : r.exponent < 972
    · refine larger_of_unpack (unpack_pack hr hlt .negative) ?_ ?_ <;>
        rw [unpacked_of_ne_zero hm] <;> rfl
    · exact larger_of_unpack (unpack_pack_overflow hr (by omega) .negative) rfl rfl
  rw [hcut]
  exact rounds_zero .positive

/-- A difference that is cut off at zero is the exact one, cut off and rounded. -/
theorem rounds_larger_sub {x y : Float} (hx : 0 ≤ x) (hy : 0 ≤ y) (hfx : x.isFinite)
    (hfy : y.isFinite) : Rounds (max (value x - value y) 0) (larger (x - y) 0) := by
  rcases le_or_gt (value y) (value x) with hle | hlt
  · have hsub := rounds_sub hx hy hfx hfy hle
    have hnot : ¬ x - y < 0 := by
      rw [lt_iff_value_lt hsub.zero_le (by decide), value_zero]
      exact (value_nonneg _).not_gt
    rwa [max_eq_left (sub_nonneg.2 hle), larger_eq hsub.zero_le, if_neg hnot]
  rw [max_eq_right (sub_nonpos.2 hlt.le)]
  change Rounds _ (larger (.ofModel (.pack (.sub binary64 x.toModel.unpack y.toModel.unpack))) 0)
  rcases finite_cases hx hfx with ⟨s, hu, hq⟩ | ⟨m, e, hm, hu, -, hq, -⟩ <;>
    rcases finite_cases hy hfy with ⟨s', hu', hq'⟩ | ⟨m', e', hm', hu', hsize, hq', -⟩ <;>
    rw [hq, hq'] at hlt <;> rw [hu, hu']
  · exact absurd hlt (lt_irrefl 0)
  · have hnegative := rounds_larger_of_negative (hsize ▸ magnitude_canonical y)
    rwa [unpacked_of_ne_zero hm'.ne'] at hnegative
  · exact absurd hlt (not_lt.2 (by positivity))
  · have hunit : (0 : ℚ) < 2 ^ min e e' := by positivity
    rw [← shifted_value m (min_le_left e e'), ← shifted_value m' (min_le_right e e')] at hlt
    set k := m <<< (e - min e e').toNat
    set k' := m' <<< (e' - min e e').toNat
    have hlt' : k < k' := by exact_mod_cast lt_of_mul_lt_mul_right hlt hunit.le
    have hcompare : compare ((k : ℤ) - (k' : ℤ)) 0 = .lt := Int.compare_eq_lt.2 (by omega)
    have hnormalize : UnpackedFloat.sub binary64 (.finite .positive m e hm)
        (.finite .positive m' e' hm') = .round binary64 .negative (k' - k) (min e e') := by
      change UnpackedFloat.normalize binary64 ((k : ℤ) - (k' : ℤ)) (min e e') .positive = _
      rw [UnpackedFloat.normalize, hcompare]
      dsimp only
      congr 1
      omega
    obtain ⟨r, hr, heq⟩ := round_spec (Nat.sub_pos_of_lt hlt') (min e e') .negative
    rw [hnormalize, heq]
    exact rounds_larger_of_negative hr.canonical

/-! ### Whole parts -/

theorem abs_nearestNatural_sub_le {q : ℚ} (hq : 0 ≤ q) : |nearestNatural q - q| ≤ 1 / 2 := by
  have hle := Nat.floor_le (by positivity : 0 ≤ q + 1 / 2)
  have hlt := Nat.lt_floor_add_one (q + 1 / 2)
  rw [nearestNatural, abs_le]
  constructor <;> linarith

theorem floor_le {x : Float} (hx : 0 ≤ x) : 0 ≤ floor x ∧ floor x ≤ x := by
  unfold floor
  by_cases hwhole : isWhole x = true
  · rw [if_pos hwhole]
    exact ⟨hx, (le_iff_value_le hx hx).2 le_rfl⟩
  rw [if_neg hwhole]
  dsimp only
  cases hnegative : isNegative x with
  | true =>
    have hnum :
        ((magnitude x).ratio.1 + (magnitude x).ratio.2 - 1) / (magnitude x).ratio.2 = 0 := by
      rw [eq_zero_of_isNegative hx hnegative]
      rfl
    have hzero : Rounds 0 (-(Float.ofNat 0)) := rounds_zero .negative
    simp only [if_true, hnum, withSignOf, hnegative]
    exact ⟨hzero.zero_le, hzero.le (rounds_value hx) (value_nonneg x)⟩
  | false =>
    have hnat := rounds_ofNat ((magnitude x).ratio.1 / (magnitude x).ratio.2)
    simp only [withSignOf, hnegative, Bool.false_eq_true, if_false]
    refine ⟨hnat.zero_le, hnat.le (rounds_value hx) ?_⟩
    rw [value, ratio_eq]
    exact Nat.cast_div_le

theorem toNat_ofNatClamp_le (n : ℕ) : (UInt64.ofNatClamp n).toNat ≤ n := by
  unfold UInt64.ofNatClamp
  split
  case isTrue => exact le_rfl
  case isFalse h => exact (Nat.sub_le _ 1).trans (Nat.le_of_not_lt h)

/-- The bits behind the point are dropped. -/
theorem roundToInt_eq (m : ℕ) (e : ℤ) : UnpackedFloat.roundToInt .positive m e =
    ((m <<< e.toNat / 2 ^ (-e).toNat : ℕ) : ℤ) := by
  have hshift : (0 - (e - (e - 0).toNat)).toNat = (-e).toNat := by omega
  have hmantissa : (UnpackedFloat.ExtendedMantissa.ofMantissaAndAccuracy (m <<< (e - 0).toNat)
      .exact >>> (0 - (e - (e - 0).toNat)).toNat).mantissa = m <<< e.toNat / 2 ^ (-e).toNat := by
    rw [mantissa_shiftRight, mantissa_ofMantissaAndAccuracy, hshift, Int.sub_zero]
  rw [← hmantissa]
  rfl

theorem toCount_le {x : Float} (hx : 0 ≤ x) (hfinite : x.isFinite) : toCount x ≤ value x := by
  have hclamp : toCount x ≤ (UnpackedFloat.toInt 0 (UInt64.size - 1 : ℕ) x.toModel.unpack).toNat :=
    toNat_ofNatClamp_le _
  rcases finite_cases hx hfinite with ⟨s, hu, hq⟩ | ⟨m, e, hm, hu, -, hq, -⟩ <;>
    rw [hu] at hclamp <;> rw [hq]
  · exact_mod_cast hclamp
  · have hwhole : toCount x ≤ m <<< e.toNat / 2 ^ (-e).toNat := by
      refine hclamp.trans_eq ?_
      rw [UnpackedFloat.toInt, roundToInt_eq, Int.toNat_natCast]
    have hvalue : ((m <<< e.toNat : ℕ) : ℚ) / (2 ^ (-e).toNat : ℕ) = m * 2 ^ e := by
      have hsplit : (2 : ℚ) ^ e = 2 ^ e.toNat / 2 ^ (-e).toNat := by
        rw [← zpow_natCast, ← zpow_natCast, ← zpow_sub₀ (by norm_num)]
        congr 1
        omega
      rw [Nat.shiftLeft_eq, hsplit]
      push_cast
      ring
    rw [← hvalue]
    exact (Nat.cast_le.2 hwhole).trans Nat.cast_div_le

theorem floor_of_infinity {x : Float} (hx : IsInfinity x) : floor x = x := by
  refine if_pos ?_
  rw [isWhole_eq, Bool.eq_false_iff.2 hx.not_finite]
  rfl

theorem toCount_of_infinity {x : Float} (hx : IsInfinity x) : toCount x = Text.countBound - 1 := by
  change (UnpackedFloat.toUInt64 x.toModel.unpack).toNat = _
  rw [show x.toModel.unpack = _ from hx]
  decide

end SatWalk.Binary64
