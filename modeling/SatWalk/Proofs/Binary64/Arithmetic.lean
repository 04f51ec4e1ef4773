import SatWalk.Proofs.Binary64.Parts

/-! Arithmetic on binary64 numbers that are not negative. Sums, products and quotients of finite
numbers are what the exact results round to, and greater reals round to greater numbers, so
each operation with a fixed number keeps the order. -/

namespace SatWalk.Binary64

open Float.Model (UnpackedFloat)
open Float.Model.Format (binary64)
open Float.Model.UnpackedFloat (Accuracy Sign)
open Decimal (Interval)

/-- A number that is not negative is what a real rounds to. -/
structure Rounds (q : ℚ) (x : Float) : Prop where
  zero_le : 0 ≤ x
  catches : (magnitude x).Catches q

/-- Greater reals round to greater numbers. -/
theorem Rounds.le {q q' : ℚ} {x y : Float} (hx : Rounds q x) (hy : Rounds q' y) (h : q ≤ q') :
    x ≤ y := by
  rw [le_iff_not_below hx.zero_le hy.zero_le]
  intro hbelow
  have hfinite : (magnitude y).exponent < 972 := by
    by_contra hle
    rw [← isFinite_iff hy.zero_le] at hle
    rw [(eq_overflow hy.zero_le hle).2] at hbelow
    exact not_overflow_below hx.zero_le hbelow
  exact h.not_gt (Magnitude.lt_of_catches (magnitude_canonical y) (magnitude_canonical x) hbelow
    (hy.catches.upTo_high hfinite) hx.catches.from_low)

theorem catches_overflow {q : ℚ} {r : Magnitude} (hr : r.Canonical) (hle : 972 ≤ r.exponent)
    (h : (Interval.of r).From q) : Magnitude.overflow.Catches q := by
  refine ⟨?_, fun hlt => absurd hlt (by decide)⟩
  by_cases hbelow : Magnitude.overflow.Below r
  · left
    have hunit := Magnitude.unit_pos (Interval.of .overflow)
    have hends := Magnitude.high_add_gap_le_low ⟨by decide, by decide, by decide⟩ hr hbelow
    calc ((Interval.of .overflow).low : ℚ) * 2 ^ (Interval.of .overflow).scale
        < ((Interval.of .overflow).high + Magnitude.gap .overflow r : ℕ) *
          2 ^ (Interval.of .overflow).scale := by
          gcongr
          exact Nat.lt_add_right _ (by decide)
      _ ≤ _ := hends.trans h.le
  · obtain rfl : r = .overflow := by
      refine (Magnitude.eq_of_not_below hbelow fun h => ?_).symm
      have hlead := hr.full.resolve_left (by omega)
      simp only [Magnitude.Below, Magnitude.overflow] at h
      omega
    exact h

theorem upward_unpacked {r : Magnitude} (hr : r.Canonical) (hlt : r.exponent < 972) :
    Upward (r.unpacked .positive) r := by
  obtain ⟨m, e⟩ := r
  unfold Magnitude.unpacked
  by_cases hzero : m = 0
  · rw [dif_pos hzero]
    subst hzero
    have he : e = -1074 := hr.full.resolve_right (by dsimp only [leadingBit]; omega)
    subst he
    exact .zero .positive
  · rw [dif_neg hzero]
    exact .finite m e _ hr hlt

/-- A number that unpacks to a form with a magnitude has that magnitude. -/
theorem magnitude_of_upward {x : Float} {r : Magnitude} (h : Upward x.toModel.unpack r) :
    magnitude x = r := by
  generalize hu : x.toModel.unpack = u at h
  cases h with
  | infinity => exact magnitude_of_unpack hu nofun
  | zero => exact magnitude_of_unpack hu nofun
  | finite => exact magnitude_of_unpack hu nofun

theorem rounds_of_upward {x : Float} {q : ℚ} {r : Magnitude} (h : Upward x.toModel.unpack r)
    (hq : r.Catches q) : Rounds q x :=
  ⟨zero_le_of_upward h, by rwa [magnitude_of_upward h]⟩

/-- Packing what a number was rounded to. -/
theorem RoundsTo.rounds {q : ℚ} {r : Magnitude} (h : RoundsTo q r) :
    Rounds q (.ofModel (.pack (r.unpacked .positive))) := by
  by_cases hlt : r.exponent < 972
  · refine rounds_of_upward (r := r) ?_ ⟨h.from_low, fun _ => h.upTo_high⟩
    change Upward (Float.Model.pack (r.unpacked .positive)).unpack r
    rw [unpack_pack h.canonical hlt]
    exact upward_unpacked h.canonical hlt
  · have hle : 972 ≤ r.exponent := by omega
    refine rounds_of_upward (r := .overflow) ?_ (catches_overflow h.canonical hle h.from_low)
    change Upward (Float.Model.pack (r.unpacked .positive)).unpack .overflow
    rw [unpack_pack_overflow h.canonical hle]
    exact .infinity

theorem rounds_zero (sign : Sign) : Rounds 0 (.ofModel (.pack (.zero sign))) := by
  refine rounds_of_upward (r := ⟨0, -1074⟩) ?_ ?_
  · change Upward (Float.Model.pack (.zero sign)).unpack _
    rw [unpack_pack_zero]
    exact .zero sign
  · have := Magnitude.catches_value ⟨0, -1074⟩
    rwa [Magnitude.value, Nat.cast_zero, zero_mul] at this

/-- A canonical magnitude is rounded to itself. -/
theorem roundsTo_value {r : Magnitude} (hr : r.Canonical) : RoundsTo r.value r :=
  ⟨hr, r.from_value, r.upTo_value⟩

theorem tells_exact : Tells .exact 0 := by
  simp [Tells, Holds, UnpackedFloat.ExtendedMantissa.ofMantissaAndAccuracy, Remainder]

theorem roundWithAccuracy_exact {m : ℕ} {e : ℤ} (h : leadingBit ≤ m ∨ e ≤ -1074) :
    Rounds (m * 2 ^ e) (.ofModel (.pack (.roundWithAccuracy binary64 .positive m e .exact))) := by
  obtain ⟨r, hr, heq⟩ := roundWithAccuracy_spec tells_exact h .positive
  rw [heq]
  rw [add_zero] at hr
  exact hr.rounds

/-- Bits are put behind a mantissa that has too few, and the rest is as for enough bits. -/
theorem round_spec {m : ℕ} (hm : 0 < m) (e : ℤ) (sign : Sign) :
    ∃ r : Magnitude, RoundsTo (m * 2 ^ e) r ∧
      UnpackedFloat.round binary64 sign m e = r.unpacked sign := by
  have hvalue : ((m <<< (e - target m e).toNat : ℕ) : ℚ) * 2 ^ (e - (e - target m e).toNat) =
      m * 2 ^ e := by
    rw [Nat.shiftLeft_eq, zpow_sub₀ (by norm_num), zpow_natCast]
    push_cast
    field_simp
  have hbits : leadingBit ≤ m <<< (e - target m e).toNat ∨
      e - (e - target m e).toNat ≤ -1074 := by
    by_cases hleast : e - (e - target m e).toNat ≤ -1074
    · exact .inr hleast
    left
    have hlog : 52 ≤ m.log2 + (e - target m e).toNat := by
      unfold target at hleast ⊢
      omega
    calc leadingBit = 2 ^ 52 := rfl
      _ ≤ 2 ^ (m.log2 + (e - target m e).toNat) := Nat.pow_le_pow_right (by decide) hlog
      _ = 2 ^ m.log2 * 2 ^ (e - target m e).toNat := pow_add ..
      _ ≤ m * 2 ^ (e - target m e).toNat := Nat.mul_le_mul_right _ (Nat.log2_self_le hm.ne')
      _ = m <<< (e - target m e).toNat := (Nat.shiftLeft_eq ..).symm
  obtain ⟨r, hr, heq⟩ := roundWithAccuracy_spec tells_exact hbits sign
  rw [add_zero, hvalue] at hr
  exact ⟨r, hr, heq⟩

theorem rounds_round {m : ℕ} (hm : 0 < m) (e : ℤ) :
    Rounds (m * 2 ^ e) (.ofModel (.pack (.round binary64 .positive m e))) := by
  obtain ⟨r, hr, heq⟩ := round_spec hm e .positive
  rw [heq]
  exact hr.rounds

theorem rounds_normalize (m : ℕ) (e : ℤ) :
    Rounds (m * 2 ^ e) (.ofModel (.pack (.normalize binary64 m e .positive))) := by
  rcases m.eq_zero_or_pos with rfl | hm
  · rw [Nat.cast_zero, zero_mul]
    exact rounds_zero .positive
  · have hcompare : compare (m : ℤ) 0 = .gt := Int.compare_eq_gt.2 (by omega)
    have hnormalize : UnpackedFloat.normalize binary64 m e .positive =
        .round binary64 .positive m e := by
      rw [UnpackedFloat.normalize, hcompare]
      rfl
    rw [hnormalize]
    exact rounds_round hm e

/-! ### Sums, products and quotients -/

/-- What a number that is not negative stands for. -/
def value (x : Float) : ℚ :=
  (magnitude x).value

theorem value_nonneg (x : Float) : 0 ≤ value x := by
  unfold value Magnitude.value
  positivity

theorem finite_cases {x : Float} (hx : 0 ≤ x) (hfinite : x.isFinite) :
    (∃ sign, x.toModel.unpack = .zero sign ∧ value x = 0) ∨
    ∃ m e hm, x.toModel.unpack = .finite .positive m e hm ∧ magnitude x = ⟨m, e⟩ ∧
      value x = m * 2 ^ e ∧ (e ≤ -1074 ∨ leadingBit ≤ m) := by
  have h := upward_of_zero_le hx
  rw [isFinite_iff hx] at hfinite
  unfold value
  generalize hu : x.toModel.unpack = u, hr : magnitude x = r at h hfinite
  cases h with
  | infinity => exact absurd hfinite (by decide)
  | zero sign => exact .inl ⟨sign, rfl, by simp [Magnitude.value]⟩
  | finite m e hm hcanonical =>
    exact .inr ⟨m, e, hm, rfl, rfl, rfl, hcanonical.full.imp_left le_of_eq⟩

theorem rounds_mul {x y : Float} (hx : 0 ≤ x) (hy : 0 ≤ y) (hfx : x.isFinite) (hfy : y.isFinite) :
    Rounds (value x * value y) (x * y) := by
  change Rounds _ (.ofModel (.pack (.mul binary64 x.toModel.unpack y.toModel.unpack)))
  rcases finite_cases hx hfx with ⟨s, hu, hq⟩ | ⟨m, e, hm, hu, -, hq, hbits⟩ <;>
    rcases finite_cases hy hfy with ⟨s', hu', hq'⟩ | ⟨m', e', hm', hu', -, hq', hbits'⟩ <;>
    rw [hu, hu', hq, hq']
  · rw [mul_zero]
    exact rounds_zero _
  · rw [zero_mul]
    exact rounds_zero _
  · rw [mul_zero]
    exact rounds_zero _
  · have hvalue : (m * 2 ^ e : ℚ) * (m' * 2 ^ e') = (m * m' : ℕ) * 2 ^ (e + e') := by
      rw [zpow_add₀ (by norm_num)]
      push_cast
      ring
    rw [hvalue]
    refine roundWithAccuracy_exact ?_
    rcases hbits with he | hfull
    · rcases hbits' with he' | hfull'
      · exact .inr (by omega)
      · exact .inl (hfull'.trans (Nat.le_mul_of_pos_left m' hm))
    · exact .inl (hfull.trans (Nat.le_mul_of_pos_right m hm'))

/-- A finite number packed again. -/
theorem rounds_pack_finite {m : ℕ} {e : ℤ} (hm : 0 < m) {y : Float}
    (hy : y.toModel.unpack = .finite .positive m e hm) :
    Rounds (m * 2 ^ e) (.ofModel (.pack (.finite .positive m e hm))) := by
  have hsize : magnitude y = ⟨m, e⟩ := magnitude_of_unpack hy nofun
  have hround := (roundsTo_value (hsize ▸ magnitude_canonical y)).rounds
  rwa [Magnitude.unpacked, dif_neg hm.ne'] at hround

theorem shifted_value (m : ℕ) {e t : ℤ} (h : t ≤ e) :
    ((m <<< (e - t).toNat : ℕ) : ℚ) * 2 ^ t = m * 2 ^ e := by
  have he : (2 : ℚ) ^ e = 2 ^ (e - t).toNat * 2 ^ t := by
    rw [← zpow_natCast, ← zpow_add₀ (by norm_num)]
    congr 1
    omega
  rw [Nat.shiftLeft_eq, he]
  push_cast
  ring

theorem rounds_add {x y : Float} (hx : 0 ≤ x) (hy : 0 ≤ y) (hfx : x.isFinite) (hfy : y.isFinite) :
    Rounds (value x + value y) (x + y) := by
  change Rounds _ (.ofModel (.pack (.add binary64 x.toModel.unpack y.toModel.unpack)))
  rcases finite_cases hx hfx with ⟨s, hu, hq⟩ | ⟨m, e, hm, hu, -, hq, -⟩ <;>
    rcases finite_cases hy hfy with ⟨s', hu', hq'⟩ | ⟨m', e', hm', hu', -, hq', -⟩ <;>
    rw [hu, hu', hq, hq']
  · rw [add_zero, UnpackedFloat.add]
    split <;> exact rounds_zero _
  · rw [zero_add]
    exact rounds_pack_finite hm' hu'
  · rw [add_zero]
    exact rounds_pack_finite hm hu
  · rw [← shifted_value m (min_le_left e e'), ← shifted_value m' (min_le_right e e'), ← add_mul,
      ← Nat.cast_add]
    exact rounds_normalize _ _

/-! ### Quotients -/

theorem tells_accuracyOfFraction {num den : ℕ} (h : num < den) :
    Tells (UnpackedFloat.accuracyOfFraction num den) (num / den) := by
  have hden : (0 : ℚ) < den := by exact_mod_cast Nat.zero_lt_of_lt h
  have hlt : (num : ℚ) / den < 1 := by
    rw [div_lt_one hden]
    exact_mod_cast h
  unfold UnpackedFloat.accuracyOfFraction
  split
  case isTrue hzero => simpa [hzero] using tells_exact
  case isFalse hzero =>
    have hpos : (0 : ℚ) < num / den := div_pos (by exact_mod_cast Nat.pos_of_ne_zero hzero) hden
    have hhalf : 2 * ((num : ℚ) / den) = (2 * num : ℕ) / den := by push_cast; ring
    cases hcompare : compare (2 * num) den with
    | lt =>
      have : 2 * ((num : ℚ) / den) < 1 := by
        rw [hhalf, div_lt_one hden]
        exact_mod_cast Nat.compare_eq_lt.1 hcompare
      simp only [Tells, Holds, UnpackedFloat.ExtendedMantissa.ofMantissaAndAccuracy, Remainder]
      constructor <;> simp only [Nat.cast_zero, Bool.toNat_false] <;> linarith
    | eq =>
      have : 2 * ((num : ℚ) / den) = 1 := by
        rw [hhalf, div_eq_one_iff_eq hden.ne']
        exact_mod_cast Nat.compare_eq_eq.1 hcompare
      simp only [Tells, Holds, UnpackedFloat.ExtendedMantissa.ofMantissaAndAccuracy, Remainder]
      simp only [Nat.cast_zero, Bool.toNat_true, Nat.cast_one]
      linarith
    | gt =>
      have : 1 < 2 * ((num : ℚ) / den) := by
        rw [hhalf, one_lt_div hden]
        exact_mod_cast Nat.compare_eq_gt.1 hcompare
      simp only [Tells, Holds, UnpackedFloat.ExtendedMantissa.ofMantissaAndAccuracy, Remainder]
      constructor <;> simp only [Nat.cast_zero, Bool.toNat_true, Nat.cast_one] <;> linarith

/-- The exponent of a quotient before rounding. -/
def quotientExponent (m : ℕ) (e : ℤ) (m' : ℕ) (e' : ℤ) : ℤ :=
  min (e - e') (max (m.log2 + 1 + e - (m'.log2 + 1 + e') - 53) (-1074))

theorem quotient_bits {m m' : ℕ} {e e' : ℤ} (hm : 0 < m) (hm' : 0 < m') :
    leadingBit ≤ m <<< (e - e' - quotientExponent m e m' e').toNat / m' ∨
      quotientExponent m e m' e' ≤ -1074 := by
  by_cases hleast : quotientExponent m e m' e' ≤ -1074
  · exact .inr hleast
  left
  have hlog : 52 + (m'.log2 + 1) ≤ m.log2 + (e - e' - quotientExponent m e m' e').toNat := by
    unfold quotientExponent at hleast ⊢
    omega
  rw [Nat.le_div_iff_mul_le hm', Nat.shiftLeft_eq]
  calc leadingBit * m' ≤ 2 ^ 52 * 2 ^ (m'.log2 + 1) := Nat.mul_le_mul_left _ Nat.lt_log2_self.le
    _ = 2 ^ (52 + (m'.log2 + 1)) := (pow_add ..).symm
    _ ≤ 2 ^ (m.log2 + (e - e' - quotientExponent m e m' e').toNat) :=
      Nat.pow_le_pow_right (by decide) hlog
    _ = 2 ^ m.log2 * 2 ^ (e - e' - quotientExponent m e m' e').toNat := pow_add ..
    _ ≤ m * 2 ^ (e - e' - quotientExponent m e m' e').toNat :=
      Nat.mul_le_mul_right _ (Nat.log2_self_le hm.ne')

theorem value_pos {y : Float} (hy : 0 < y) : 0 < value y := by
  have hzero : magnitude 0 = ⟨0, -1074⟩ := by decide
  have hbelow := (lt_iff_below (by decide) (zero_le_of_pos hy)).1 hy
  have hfull := (magnitude_canonical y).full
  have hmantissa : 0 < (magnitude y).mantissa := by
    rw [hzero] at hbelow
    simp only [Magnitude.Below, leadingBit] at hbelow hfull
    omega
  unfold value Magnitude.value
  positivity

theorem rounds_div {x y : Float} (hx : 0 ≤ x) (hy : 0 < y) (hfx : x.isFinite) (hfy : y.isFinite) :
    Rounds (value x / value y) (x / y) := by
  change Rounds _ (.ofModel (.pack (.div binary64 x.toModel.unpack y.toModel.unpack)))
  rcases finite_cases (zero_le_of_pos hy) hfy with ⟨s', -, hq'⟩ | ⟨m', e', hm', hu', -, hq', -⟩
  · exact absurd hq' (value_pos hy).ne'
  rcases finite_cases hx hfx with ⟨s, hu, hq⟩ | ⟨m, e, hm, hu, -, hq, -⟩ <;> rw [hu, hu', hq, hq']
  · rw [zero_div]
    exact rounds_zero _
  · set k := m <<< (e - e' - quotientExponent m e m' e').toNat with hk
    obtain ⟨r, hr, hround⟩ := roundWithAccuracy_spec
      (tells_accuracyOfFraction (Nat.mod_lt k hm')) (quotient_bits hm hm') .positive
    have hdiv : UnpackedFloat.div binary64 (.finite .positive m e hm)
        (.finite .positive m' e' hm') = r.unpacked .positive := by
      rw [← hround]
      rfl
    have hle : quotientExponent m e m' e' ≤ e - e' := min_le_left ..
    have hpos : (0 : ℚ) < m' := by exact_mod_cast hm'
    have hsplit : ((k / m' : ℕ) : ℚ) + (k % m' : ℕ) / m' = k / m' := by
      rw [eq_div_iff hpos.ne', add_mul, div_mul_cancel₀ _ hpos.ne']
      exact_mod_cast Nat.div_add_mod' k m'
    have hvalue : ((k / m' : ℕ) + (k % m' : ℕ) / m' : ℚ) * 2 ^ quotientExponent m e m' e' =
        m * 2 ^ e / (m' * 2 ^ e') := by
      rw [hsplit, div_mul_eq_mul_div, hk, shifted_value m hle, zpow_sub₀ (by norm_num)]
      field_simp
    rw [hdiv, ← hvalue]
    exact hr.rounds

end SatWalk.Binary64
