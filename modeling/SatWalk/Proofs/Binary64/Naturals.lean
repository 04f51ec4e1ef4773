import SatWalk.Proofs.Binary64.Monotone
import SatWalk.Text.WholeNumber
import Mathlib.Algebra.Order.Floor.Semifield
import Mathlib.Data.Rat.Floor

/-! Naturals as binary64 numbers, and rounding to the nearest natural. A natural becomes the number
that it rounds to. -/

namespace SatWalk.Binary64

open Float.Model (UnpackedFloat)
open Float.Model.Format (binary64)

theorem value_one : value 1 = 1 := by
  have : magnitude 1 = ⟨0x10000000000000, -52⟩ := by decide
  rw [value, this, Magnitude.value]
  norm_num

theorem magnitude_mul_one {x : Float} (hx : 0 ≤ x) : magnitude (x * 1) = magnitude x := by
  rcases finite_or_isInfinity hx with hfinite | hinf
  · have hrounds := rounds_mul hx (by decide : (0 : Float) ≤ 1) hfinite (by decide)
    rw [value_one, mul_one] at hrounds
    exact hrounds.magnitude_eq (rounds_value hx)
  · have hinf' : IsInfinity (x * 1) := by
      refine isInfinity_of_model ?_
      rw [show x.toModel.unpack = _ from hinf]
      rfl
    rw [magnitude_of_upward hinf.upward, magnitude_of_upward hinf'.upward]

/-- A large natural is scaled up and rounded. -/
theorem ofScientific_zero {n : ℕ} (hn : n ≠ 0) :
    UnpackedFloat.ofScientific binary64 n (Int.ofNat 0) =
      .roundWithAccuracy binary64 .positive (n <<< 53 * 1) (-53) .exact := by
  unfold UnpackedFloat.ofScientific
  rw [dif_neg hn, if_neg (by decide), if_neg (by change ¬ (0 : ℤ) < -(2 ^ 11 + _); omega),
    if_pos (by decide)]
  rfl

theorem rounds_ofNat (n : ℕ) : Rounds n (.ofNat n) := by
  change Rounds n (Float.ofScientific n false 0)
  unfold Float.ofScientific
  split
  case isTrue h =>
    have hword : n.toUInt64.toNat = n := by
      change n % 2 ^ 64 = n
      omega
    have hrounds : Rounds n n.toUInt64.toFloat := by
      change Rounds n (.ofModel (.pack (.normalize binary64 (n.toUInt64.toNat : ℤ) 0 .positive)))
      rw [hword]
      simpa using rounds_normalize n 0
    have hone : Float.exactlyRepresentablePowersOfTen[0] = 1 := by decide
    simp only [Bool.false_eq_true, if_false, hone]
    have hone' : (0 : Float) ≤ n.toUInt64.toFloat * 1 :=
      (raises_mul (by decide) (by decide)).zero_le hrounds.zero_le
    exact ⟨hone', (magnitude_mul_one hrounds.zero_le).symm ▸ hrounds.catches⟩
  case isFalse h =>
    change Rounds n (.ofModel (.pack (.ofScientific binary64 n (Int.ofNat 0))))
    rw [ofScientific_zero (by omega)]
    have hvalue : (n : ℚ) = (n <<< 53 * 1 : ℕ) * 2 ^ (-53 : ℤ) := by
      rw [Nat.shiftLeft_eq]
      push_cast
      rw [zpow_neg]
      field_simp
      norm_num
    rw [hvalue]
    refine roundWithAccuracy_exact (.inl ?_)
    rw [Nat.shiftLeft_eq, mul_one]
    simp only [leadingBit]
    omega

theorem ofNat_le_ofNat {m n : ℕ} (h : m ≤ n) : Float.ofNat m ≤ Float.ofNat n :=
  (rounds_ofNat m).le (rounds_ofNat n) (Nat.cast_le.2 h)

theorem ofNat_pos {n : ℕ} (hn : 0 < n) : (0 : Float) < .ofNat n := by
  have hone : (0 : Float) < .ofNat 1 := by decide
  have hmono := ofNat_le_ofNat hn
  have hnat := (rounds_ofNat n).zero_le
  rw [lt_iff_value_lt (by decide) (by decide)] at hone
  rw [le_iff_value_le (by decide) hnat] at hmono
  rw [lt_iff_value_lt (by decide) hnat]
  exact hone.trans_le hmono

/-! ### Shares -/

/-- Counts are far from being too large. -/
theorem finite_ofNat {n : ℕ} (hn : n ≤ Text.countBound) : (Float.ofNat n).isFinite :=
  finite_of_le (rounds_ofNat n).zero_le (by decide +kernel) (ofNat_le_ofNat hn) (by decide +kernel)

theorem quotient_bounds {x y : Float} (hx : 0 ≤ x) (hy : 0 < y) (hfx : x.isFinite)
    (hfy : y.isFinite) (h : x ≤ y) : 0 ≤ x / y ∧ x / y ≤ 1 := by
  have hquotient := rounds_div hx hy hfx hfy
  have hratio : value x / value y ≤ value 1 := by
    rw [value_one, div_le_one (value_pos hy)]
    exact (le_iff_value_le hx (zero_le_of_pos hy)).1 h
  exact ⟨hquotient.zero_le, hquotient.le (rounds_value (by decide)) hratio⟩

/-- A part divided by its whole is at most one. -/
theorem share_bounds {part whole : ℕ} (hpos : 0 < whole) (hle : part ≤ whole)
    (hfit : whole ≤ Text.countBound) :
    (0 : Float) ≤ .ofNat part / .ofNat whole ∧ Float.ofNat part / .ofNat whole ≤ 1 :=
  quotient_bounds (rounds_ofNat part).zero_le (ofNat_pos hpos) (finite_ofNat (hle.trans hfit))
    (finite_ofNat hfit) (ofNat_le_ofNat hle)

/-- One over a count is a probability, also where the count is as good as infinite. -/
theorem reciprocal_bounds {n : ℕ} (hn : 0 < n) :
    (0 : Float) ≤ 1 / .ofNat n ∧ 1 / Float.ofNat n ≤ 1 := by
  have hone : (1 : Float) ≤ .ofNat n := ofNat_le_ofNat hn
  rcases finite_or_isInfinity (rounds_ofNat n).zero_le with hfinite | hinf
  · exact quotient_bounds (by decide) (ofNat_pos hn) (by decide) hfinite hone
  · have hzero : 1 / Float.ofNat n = 0 := by
      change Float.ofModel (.pack (.div binary64 (1 : Float).toModel.unpack
        (Float.ofNat n).toModel.unpack)) = 0
      rw [show (Float.ofNat n).toModel.unpack = _ from hinf]
      rfl
    rw [hzero]
    exact ⟨by decide, by decide⟩

/-- A probability is certainty or below it. -/
theorem beq_one_or_lt {p : Float} (hp : 0 ≤ p) (h : p ≤ 1) : (p == 1) = true ∨ 0 ≤ p ∧ p < 1 := by
  rw [beq_iff_value_eq hp (by decide), lt_iff_value_lt hp (by decide)]
  rw [le_iff_value_le hp (by decide)] at h
  exact h.eq_or_lt.imp id fun hlt => ⟨hp, hlt⟩

/-! ### The nearest natural -/

theorem ratio_eq (r : Magnitude) : r.value = r.ratio.1 / r.ratio.2 := by
  unfold Magnitude.value Magnitude.ratio
  by_cases h : 0 ≤ r.exponent
  · rw [if_pos h, Nat.shiftLeft_eq, Nat.cast_one, div_one]
    push_cast
    rw [← zpow_natCast, Int.toNat_of_nonneg h]
  · rw [if_neg h, Nat.one_shiftLeft]
    push_cast
    rw [← zpow_natCast, Int.toNat_of_nonneg (by omega), zpow_neg, div_inv_eq_mul]

/-- The nearest natural, a half going up. -/
def nearestNatural (q : ℚ) : ℕ :=
  ⌊q + 1 / 2⌋₊

theorem nearestNatural_mono : Monotone nearestNatural :=
  fun _ _ h => Nat.floor_le_floor (by gcongr)

theorem nearestNatural_ratio (num den : ℕ) (h : 0 < den) :
    nearestNatural (num / den) = (2 * num + den) / (2 * den) := by
  have hden : (den : ℚ) ≠ 0 := by exact_mod_cast h.ne'
  have : (num / den + 1 / 2 : ℚ) = (2 * num + den : ℕ) / (2 * den : ℕ) := by
    push_cast
    field_simp
  rw [nearestNatural, this, Nat.floor_div_eq_div]

theorem nearestNatural_natCast (n : ℕ) : nearestNatural n = n := by
  have := nearestNatural_ratio n 1 one_pos
  rw [Nat.cast_one, div_one] at this
  omega

theorem isWhole_eq (x : Float) :
    isWhole x = (!x.isFinite || decide (0 ≤ (magnitude x).exponent)) := rfl

theorem ratio_snd_pos (r : Magnitude) : 0 < r.ratio.2 := by
  unfold Magnitude.ratio
  split
  · exact one_pos
  · rw [Nat.one_shiftLeft]
    exact Nat.two_pow_pos _

/-- Rounding to the nearest natural is rounding of the nearest natural. -/
theorem rounds_roundAway {x : Float} (hx : 0 ≤ x) (hfinite : x.isFinite) :
    Rounds (nearestNatural (value x)) (roundAway x) := by
  unfold roundAway
  by_cases hwhole : isWhole x = true
  · rw [if_pos hwhole]
    have hexponent : 0 ≤ (magnitude x).exponent := by simpa [isWhole_eq, hfinite] using hwhole
    have hvalue : value x = (magnitude x).ratio.1 := by
      rw [value, ratio_eq]
      unfold Magnitude.ratio
      rw [if_pos hexponent, Nat.cast_one, div_one]
    rw [hvalue, nearestNatural_natCast, ← hvalue]
    exact rounds_value hx
  · rw [if_neg hwhole]
    dsimp only
    have hnatural : (2 * (magnitude x).ratio.1 + (magnitude x).ratio.2) /
        (2 * (magnitude x).ratio.2) = nearestNatural (value x) := by
      rw [← nearestNatural_ratio _ _ (ratio_snd_pos _), ← ratio_eq, value]
    rw [hnatural]
    unfold withSignOf
    cases hnegative : isNegative x with
    | false => exact rounds_ofNat _
    | true =>
      have hzero : nearestNatural (value x) = 0 := by
        rw [value, eq_zero_of_isNegative hx hnegative, Magnitude.value, Nat.cast_zero, zero_mul]
        exact nearestNatural_natCast 0
      rw [hzero]
      exact rounds_zero .negative

theorem IsInfinity.roundAway {x : Float} (hx : IsInfinity x) : IsInfinity (roundAway x) := by
  have hwhole : isWhole x = true := by
    rw [isWhole_eq, Bool.eq_false_iff.2 hx.not_finite]
    rfl
  rwa [Binary64.roundAway, if_pos hwhole]

theorem raises_roundAway : Raises roundAway :=
  raises_of_rounds (g := fun q => nearestNatural q)
    (fun _ _ h => Nat.cast_le.2 (nearestNatural_mono h)) rounds_roundAway fun hx => hx.roundAway

end SatWalk.Binary64
