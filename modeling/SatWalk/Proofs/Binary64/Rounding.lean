import SatWalk.Proofs.Binary64.Magnitude

/-! Rounding to binary64. A mantissa with its round and sticky bits tells a real up to what rounding
needs: shifts keep what is told, and the rounded mantissa is the nearest one, a tie going to
the even one. A shift to the target exponent leaves a canonical magnitude, and the number that
was rounded lies in its interval. -/

namespace SatWalk.Binary64

open Float.Model (UnpackedFloat totalExponent)
open Float.Model.Format (binary64)
open Float.Model.UnpackedFloat (Accuracy ExtendedMantissa Sign)
open Decimal (Interval)

/-- What the sticky bit says of a part of one unit. -/
def Remainder : (sticky : Bool) → ℚ → Prop
  | true, t => 0 < t ∧ t < 1
  | false, t => t = 0

/-- An extended mantissa stands for a real that its mantissa approximates from below. -/
def Holds (em : ExtendedMantissa) (v : ℚ) : Prop :=
  Remainder em.stickyBit (2 * (v - em.mantissa) - em.roundBit.toNat)

/-- What an accuracy says of the part of a number behind its mantissa. -/
def Tells (acc : Accuracy) (t : ℚ) : Prop :=
  Holds (.ofMantissaAndAccuracy 0 acc) t

theorem Remainder.bounds {sticky : Bool} {t : ℚ} (h : Remainder sticky t) : 0 ≤ t ∧ t < 1 := by
  cases sticky with
  | true => exact ⟨h.1.le, h.2⟩
  | false =>
    rw [show t = 0 from h]
    exact ⟨le_rfl, one_pos⟩

theorem Holds.bounds {em : ExtendedMantissa} {v : ℚ} (h : Holds em v) :
    em.mantissa ≤ v ∧ v < em.mantissa + 1 := by
  obtain ⟨hlow, hhigh⟩ := Remainder.bounds h
  cases hround : em.roundBit <;> simp only [hround, Bool.toNat_true, Bool.toNat_false,
    Nat.cast_zero, Nat.cast_one] at hlow hhigh <;> constructor <;> linarith

theorem holds_ofMantissaAndAccuracy {acc : Accuracy} {t : ℚ} (h : Tells acc t) (m : ℕ) :
    Holds (.ofMantissaAndAccuracy m acc) (m + t) := by
  rcases acc with _ | _ | _ | _ <;>
    simpa [Tells, Holds, ExtendedMantissa.ofMantissaAndAccuracy] using h

theorem Holds.shiftRightOne {em : ExtendedMantissa} {v : ℚ} (h : Holds em v) :
    Holds em.shiftRightOne (v / 2) := by
  obtain ⟨m, round, sticky⟩ := em
  have hm : (m : ℚ) = 2 * (m / 2 : ℕ) + (m % 2 : ℕ) := by exact_mod_cast (Nat.div_add_mod m 2).symm
  have hbit : ((m % 2 != 0).toNat : ℚ) = (m % 2 : ℕ) := by
    rcases Nat.mod_two_eq_zero_or_one m with hparity | hparity <;> simp [hparity]
  -- the part behind the new round bit is half the old round bit and what lay behind it
  have hrest : 2 * (v / 2 - (m / 2 : ℕ)) - ((m % 2 != 0).toNat : ℚ) =
      ((2 * (v - m) - round.toNat) + round.toNat) / 2 := by
    rw [hbit]
    linarith
  change Remainder (round || sticky) (2 * (v / 2 - (m / 2 : ℕ)) - ((m % 2 != 0).toNat : ℚ))
  change Remainder sticky (2 * (v - m) - round.toNat) at h
  rw [hrest]
  generalize 2 * (v - m) - (round.toNat : ℚ) = t at h
  obtain ⟨hlow, hhigh⟩ := h.bounds
  cases round with
  | true =>
    constructor <;> simp only [Bool.toNat_true, Nat.cast_one] <;> linarith
  | false =>
    cases sticky with
    | true =>
      have hpos := h.1
      constructor <;> simp only [Bool.toNat_false, Nat.cast_zero] <;> linarith
    | false =>
      rw [show t = 0 from h]
      simp [Remainder]

theorem Holds.shiftRight {em : ExtendedMantissa} {v : ℚ} (h : Holds em v) (n : ℕ) :
    Holds (em >>> n) (v / 2 ^ n) := by
  induction n with
  | zero =>
    rw [pow_zero, div_one]
    exact h
  | succ n ih =>
    have := ih.shiftRightOne
    rwa [div_div, ← pow_succ] at this

/-- A natural is one of the nearest to a real; if there are two, it is the even one. -/
structure Nearest (v : ℚ) (n : ℕ) : Prop where
  from_below : n - 1 / 2 < v ∨ n % 2 = 0 ∧ n - 1 / 2 = v
  from_above : v < n + 1 / 2 ∨ n % 2 = 0 ∧ v = n + 1 / 2

theorem Holds.nearest {em : ExtendedMantissa} {v : ℚ} (h : Holds em v) :
    Nearest v em.roundedMantissa := by
  obtain ⟨m, round, sticky⟩ := em
  change Remainder sticky (2 * (v - m) - round.toNat) at h
  cases round <;> cases sticky <;>
    simp only [Remainder, Bool.toNat_true, Bool.toNat_false, Nat.cast_zero, Nat.cast_one] at h
  case false.false =>
    have : v = m := by linarith
    constructor <;> left <;> simp [ExtendedMantissa.roundedMantissa, ExtendedMantissa.accuracy,
      Accuracy.roundToNearestEven, this]
  case false.true =>
    obtain ⟨hlow, hhigh⟩ := h
    constructor <;> left <;> simp only [ExtendedMantissa.roundedMantissa,
      ExtendedMantissa.accuracy, Accuracy.roundToNearestEven] <;> linarith
  case true.false =>
    have hv : v = m + 1 / 2 := by linarith
    have hround : ExtendedMantissa.roundedMantissa ⟨m, true, false⟩ = m + m % 2 := rfl
    rw [hround]
    rcases Nat.mod_two_eq_zero_or_one m with hparity | hparity
    · rw [hparity, Nat.add_zero]
      exact ⟨.inl (by linarith), .inr ⟨hparity, hv⟩⟩
    · rw [hparity]
      have hcast : ((m + 1 : ℕ) : ℚ) = m + 1 := Nat.cast_succ m
      exact ⟨.inr ⟨by omega, by linarith⟩, .inl (by linarith)⟩
  case true.true =>
    obtain ⟨hlow, hhigh⟩ := h
    have hround : ExtendedMantissa.roundedMantissa ⟨m, true, true⟩ = m + 1 := rfl
    have hcast : ((m + 1 : ℕ) : ℚ) = m + 1 := Nat.cast_succ m
    rw [hround]
    exact ⟨.inl (by linarith), .inl (by linarith)⟩

theorem roundedMantissa_bounds (em : ExtendedMantissa) :
    em.mantissa ≤ em.roundedMantissa ∧ em.roundedMantissa ≤ em.mantissa + 1 := by
  obtain ⟨m, round, sticky⟩ := em
  cases round <;> cases sticky <;> simp only [ExtendedMantissa.roundedMantissa,
    ExtendedMantissa.accuracy, Accuracy.roundToNearestEven] <;> omega

theorem mantissa_shiftRight (em : ExtendedMantissa) (n : ℕ) :
    (em >>> n).mantissa = em.mantissa / 2 ^ n := by
  induction n with
  | zero => exact (Nat.div_one _).symm
  | succ n ih =>
    have hstep : (em >>> (n + 1)).mantissa = (em >>> n).mantissa / 2 := rfl
    rw [hstep, ih, Nat.div_div_eq_div_mul, ← pow_succ]

theorem mantissa_ofMantissaAndAccuracy (m : ℕ) (acc : Accuracy) :
    (ExtendedMantissa.ofMantissaAndAccuracy m acc).mantissa = m := by
  rcases acc with _ | _ | _ | _ <;> rfl

/-! ### Shifts to the target -/

/-- The exponent of the canonical form of a number. -/
def target (m : ℕ) (e : ℤ) : ℤ :=
  max (m.log2 + 1 + e - 53) (-1074)

theorem targetExponent_eq (m : ℕ) (e : ℤ) :
    binary64.targetExponent (totalExponent m e) = target m e := rfl

theorem shiftToTargetExponent_eq (m : ℕ) (e : ℤ) (acc : Accuracy) :
    UnpackedFloat.shiftToTargetExponent binary64 m e acc =
      (ExtendedMantissa.ofMantissaAndAccuracy m acc >>> (target m e - e).toNat,
        max (target m e) e) := by
  have hexponent : e + ((target m e - e).toNat : ℤ) = max (target m e) e := by omega
  simp only [UnpackedFloat.shiftToTargetExponent, UnpackedFloat.shiftToExponent,
    targetExponent_eq, hexponent]

/-- Enough bits for a canonical form, which shifts to the right then reach. -/
theorem le_target {m : ℕ} {e : ℤ} (h : leadingBit ≤ m ∨ e ≤ -1074) : e ≤ target m e := by
  unfold target
  rcases h with h | h
  · have : 52 ≤ m.log2 := (Nat.le_log2 (by unfold leadingBit at h; omega)).2 h
    omega
  · omega

theorem div_target_bounds {m : ℕ} {e : ℤ} (he : e ≤ target m e) :
    m / 2 ^ (target m e - e).toNat < 2 * leadingBit ∧
      (target m e = -1074 ∨ leadingBit ≤ m / 2 ^ (target m e - e).toNat) := by
  generalize hs : (target m e - e).toNat = s
  have hpos : 0 < 2 ^ s := Nat.two_pow_pos s
  constructor
  · rw [Nat.div_lt_iff_lt_mul hpos]
    calc m < 2 ^ (m.log2 + 1) := Nat.lt_log2_self
      _ ≤ 2 ^ (53 + s) := Nat.pow_le_pow_right (by decide) (by unfold target at hs he; omega)
      _ = 2 * leadingBit * 2 ^ s := by rw [pow_add]; rfl
  · by_cases hleast : target m e = -1074
    · exact .inl hleast
    right
    rw [Nat.le_div_iff_mul_le hpos]
    have hlog : m.log2 = 52 + s := by unfold target at hs he hleast; omega
    have hm : m ≠ 0 := by
      rintro rfl
      rw [Nat.log2_zero] at hlog
      omega
    calc leadingBit * 2 ^ s = 2 ^ (52 + s) := by rw [pow_add]; rfl
      _ = 2 ^ m.log2 := by rw [hlog]
      _ ≤ m := Nat.log2_self_le hm

/-! ### Magnitudes -/

/-- The number with a magnitude and a sign. -/
def Magnitude.unpacked (sign : Sign) (r : Magnitude) : UnpackedFloat :=
  if h : r.mantissa = 0 then .zero sign
  else .finite sign r.mantissa r.exponent (Nat.pos_of_ne_zero h)

/-- A number is told by its place among quarters of the last bit of a magnitude. -/
theorem Magnitude.from_mul_iff {r : Magnitude} {v : ℚ} :
    (Interval.of r).From (v * 2 ^ r.exponent) ↔
      (Interval.of r).low < 4 * v ∨ r.mantissa % 2 = 0 ∧ (Interval.of r).low = 4 * v := by
  have hunit := Magnitude.unit_pos (Interval.of r)
  have hvalue : v * (2 : ℚ) ^ r.exponent = 4 * v * 2 ^ (Interval.of r).scale := by
    rw [Interval.of, zpow_sub₀ (by norm_num)]
    ring
  rw [Interval.From, Magnitude.closed_iff, hvalue, mul_lt_mul_iff_left₀ hunit,
    mul_left_inj' hunit.ne']

theorem Magnitude.upTo_mul_iff {r : Magnitude} {v : ℚ} :
    (Interval.of r).UpTo (v * 2 ^ r.exponent) ↔
      4 * v < (Interval.of r).high ∨ r.mantissa % 2 = 0 ∧ 4 * v = (Interval.of r).high := by
  have hunit := Magnitude.unit_pos (Interval.of r)
  have hvalue : v * (2 : ℚ) ^ r.exponent = 4 * v * 2 ^ (Interval.of r).scale := by
    rw [Interval.of, zpow_sub₀ (by norm_num)]
    ring
  rw [Interval.UpTo, Magnitude.closed_iff, hvalue, mul_lt_mul_iff_left₀ hunit,
    mul_left_inj' hunit.ne']

/-- What rounding makes of a number: a canonical magnitude whose interval it lies in. -/
structure RoundsTo (q : ℚ) (r : Magnitude) : Prop where
  canonical : r.Canonical
  from_low : (Interval.of r).From q
  upTo_high : (Interval.of r).UpTo q

/-- The nearest mantissa makes a canonical magnitude, unless it has one bit too many. -/
theorem Nearest.roundsTo {v : ℚ} {n : ℕ} {e : ℤ} (h : Nearest v n) (hn : n < 2 * leadingBit)
    (he : -1074 ≤ e) (hfull : e = -1074 ∨ leadingBit ≤ v) (hv : 0 ≤ v)
    (hlead : e = -1074 ∨ leadingBit ≤ n) : RoundsTo (v * 2 ^ e) ⟨n, e⟩ := by
  refine ⟨⟨hn, he, hlead⟩, Magnitude.from_mul_iff.2 ?_, Magnitude.upTo_mul_iff.2 ?_⟩
  · by_cases hzero : n = 0
    · subst hzero
      rcases hv.eq_or_lt with hv | hv
      · exact .inr ⟨rfl, by simp [Interval.of, ← hv]⟩
      · exact .inl (by simpa [Interval.of] using hv)
    by_cases hpower : n = leadingBit ∧ e ≠ -1074
    · have hlow : (Interval.of ⟨n, e⟩).low + 1 = 4 * n := by
        simp only [Interval.of, if_pos hpower]
        omega
      have hlow' : ((Interval.of ⟨n, e⟩).low : ℚ) + 1 = 4 * n := by exact_mod_cast hlow
      have hle : (n : ℚ) ≤ v := hpower.1 ▸ hfull.resolve_left hpower.2
      exact .inl (by linarith)
    · have hlow : (Interval.of ⟨n, e⟩).low + 2 = 4 * n := by
        simp only [Interval.of, if_neg hpower]
        omega
      have hlow' : ((Interval.of ⟨n, e⟩).low : ℚ) + 2 = 4 * n := by exact_mod_cast hlow
      rcases h.from_below with h | ⟨heven, h⟩
      · exact .inl (by linarith)
      · exact .inr ⟨heven, by linarith⟩
  · have hhigh : ((Interval.of ⟨n, e⟩).high : ℚ) = 4 * n + 2 := by simp [Interval.of]
    rcases h.from_above with h | ⟨heven, h⟩
    · exact .inl (by linarith)
    · exact .inr ⟨heven, by linarith⟩

/-- One bit too many goes to the next exponent. -/
theorem Nearest.roundsTo_carry {v : ℚ} {e : ℤ} (h : Nearest v (2 * leadingBit))
    (he : -1074 ≤ e) : RoundsTo (v * 2 ^ e) ⟨leadingBit, e + 1⟩ := by
  have hvalue : v * (2 : ℚ) ^ e = v / 2 * 2 ^ (⟨leadingBit, e + 1⟩ : Magnitude).exponent := by
    rw [zpow_add_one₀ (by norm_num)]
    ring
  have hpower : leadingBit = leadingBit ∧ e + 1 ≠ -1074 := ⟨rfl, by omega⟩
  have hlow : (Interval.of ⟨leadingBit, e + 1⟩).low = 4 * leadingBit - 1 := if_pos hpower
  have hhigh : (Interval.of ⟨leadingBit, e + 1⟩).high = 4 * leadingBit + 2 := rfl
  have hbelow := h.from_below
  have habove := h.from_above
  have hlt : leadingBit < 2 * leadingBit := by decide
  refine ⟨⟨hlt, by dsimp only; omega, .inr le_rfl⟩, ?_, ?_⟩
  · rw [hvalue, Magnitude.from_mul_iff, hlow]
    norm_num [leadingBit] at hbelow ⊢
    rcases hbelow with h | h
    · exact .inl (by linarith)
    · exact .inr (by linarith)
  · rw [hvalue, Magnitude.upTo_mul_iff, hhigh]
    norm_num [leadingBit] at habove ⊢
    rcases habove with h | h
    · exact .inl (by linarith)
    · exact .inl (by linarith)

/-- The second shift only takes a carried bit back. -/
theorem second_shift {n : ℕ} {e : ℤ} (hn : n ≤ 2 * leadingBit) (he : -1074 ≤ e) :
    ∃ r : Magnitude,
      ((UnpackedFloat.shiftToTargetExponent binary64 n e .exact).1.mantissa = r.mantissa ∧
        (UnpackedFloat.shiftToTargetExponent binary64 n e .exact).2 = r.exponent) ∧
      (n < 2 * leadingBit ∧ r = ⟨n, e⟩ ∨ n = 2 * leadingBit ∧ r = ⟨leadingBit, e + 1⟩) := by
  rw [shiftToTargetExponent_eq]
  dsimp only
  rw [mantissa_shiftRight, mantissa_ofMantissaAndAccuracy]
  rcases hn.lt_or_eq with hlt | rfl
  · have htarget : target n e ≤ e := by
      by_cases hzero : n = 0
      · subst hzero
        rw [target, Nat.log2_zero]
        omega
      · have : n.log2 < 53 := (Nat.log2_lt hzero).2 hlt
        rw [target]
        omega
    refine ⟨⟨n, e⟩, ⟨?_, ?_⟩, .inl ⟨hlt, rfl⟩⟩
    · rw [show (target n e - e).toNat = 0 by omega, pow_zero, Nat.div_one]
    · dsimp only
      omega
  · have htarget : target (2 * leadingBit) e = e + 1 := by
      have : (2 * leadingBit).log2 = 53 := by decide
      rw [target, this]
      omega
    refine ⟨⟨leadingBit, e + 1⟩, ⟨?_, ?_⟩, .inr ⟨rfl, rfl⟩⟩
    · rw [htarget, show (e + 1 - e).toNat = 1 by omega]
      rfl
    · dsimp only
      omega

/-- A number with enough bits is rounded to the magnitude whose interval it lies in. -/
theorem roundWithAccuracy_spec {m : ℕ} {e : ℤ} {acc : Accuracy} {t : ℚ} (ht : Tells acc t)
    (h : leadingBit ≤ m ∨ e ≤ -1074) (sign : Sign) :
    ∃ r : Magnitude, RoundsTo ((m + t) * 2 ^ e) r ∧
      UnpackedFloat.roundWithAccuracy binary64 sign m e acc = r.unpacked sign := by
  have he := le_target h
  obtain ⟨hlt, hfull⟩ := div_target_bounds he
  set em := ExtendedMantissa.ofMantissaAndAccuracy m acc >>> (target m e - e).toNat with hem
  have hmantissa : em.mantissa = m / 2 ^ (target m e - e).toNat := by
    rw [hem, mantissa_shiftRight, mantissa_ofMantissaAndAccuracy]
  rw [← hmantissa] at hlt hfull
  set v := (m + t) / (2 : ℚ) ^ (target m e - e).toNat with hv
  have hholds : Holds em v := (holds_ofMantissaAndAccuracy ht m).shiftRight _
  have hvalue : (m + t) * (2 : ℚ) ^ e = v * 2 ^ target m e := by
    have hsplit : (2 : ℚ) ^ target m e = 2 ^ (target m e - e).toNat * 2 ^ e := by
      rw [← zpow_natCast, ← zpow_add₀ (by norm_num)]
      congr 1
      omega
    rw [hsplit, hv]
    field_simp
  have hleast : -1074 ≤ target m e := le_max_right _ _
  obtain ⟨hle, hge⟩ := roundedMantissa_bounds em
  obtain ⟨r, ⟨hmant, hexp⟩, hr⟩ := second_shift (n := em.roundedMantissa) (by omega) hleast
  refine ⟨r, ?_, ?_⟩
  · rw [hvalue]
    have hnearest := hholds.nearest
    have hbelow := hholds.bounds.1
    rcases hr with ⟨hn, rfl⟩ | ⟨hn, rfl⟩
    · refine hnearest.roundsTo hn hleast ?_ ((Nat.cast_nonneg _).trans hbelow) ?_
      · exact hfull.imp_right fun h => (Nat.cast_le.2 h).trans hbelow
      · exact hfull.imp_right fun h => h.trans hle
    · rw [hn] at hnearest
      exact hnearest.roundsTo_carry hleast
  · have hfirst : UnpackedFloat.shiftToTargetExponent binary64 m e acc = (em, target m e) := by
      rw [shiftToTargetExponent_eq, max_eq_left he]
    clear hr
    obtain ⟨mantissa, exponent⟩ := r
    subst hmant hexp
    unfold UnpackedFloat.roundWithAccuracy
    rw [hfirst]
    rfl

end SatWalk.Binary64
