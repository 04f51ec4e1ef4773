import SatWalk.Proofs.Binary64.Parts

/-! The shortest decimal lies in the interval of the reals that round to its number. The search
starts above the interval and ends on a grid whose step is at most the unit of the
interval, where there is always a point; so it finds one. Intervals of different magnitudes share
no point, so the decimal tells the number but for its sign. -/

namespace SatWalk.Decimal

open Binary64 (Magnitude magnitude)

def value (d : Decimal) : ℚ :=
  d.digits * 10 ^ d.exponent

namespace Interval

/-- The real lies in the interval. -/
def Contains (i : Interval) (q : ℚ) : Prop :=
  i.From q ∧ i.UpTo q

/-! ### One grid -/

theorem gridRatio_pos (scale k : ℤ) : 0 < (gridRatio scale k).1 ∧ 0 < (gridRatio scale k).2 := by
  unfold gridRatio
  rw [Nat.shiftLeft_eq, Nat.shiftLeft_eq]
  have hten (n : ℕ) : 0 < Nat.pow 10 n := Nat.pow_pos (by decide)
  exact ⟨Nat.mul_pos (hten _) (Nat.two_pow_pos _), Nat.mul_pos (hten _) (Nat.two_pow_pos _)⟩

theorem zpow_eq_div (x : ℚ) (hx : x ≠ 0) (n : ℤ) : x ^ n = x ^ n.toNat / x ^ (-n).toNat := by
  rw [eq_div_iff (pow_ne_zero _ hx), ← zpow_natCast, ← zpow_natCast, ← zpow_add₀ hx]
  congr 1
  omega

/-- The numbers of a ratio stand for it. -/
theorem gridRatio_eq (scale k : ℤ) :
    ((gridRatio scale k).1 : ℚ) / (gridRatio scale k).2 = 2 ^ scale / 10 ^ k := by
  have hten (n : ℕ) : ((Nat.pow 10 n : ℕ) : ℚ) = 10 ^ n := by
    rw [show Nat.pow 10 n = 10 ^ n from rfl]
    push_cast
    rfl
  rw [zpow_eq_div 2 (by norm_num), zpow_eq_div 10 (by norm_num), gridRatio]
  rw [Nat.shiftLeft_eq, Nat.shiftLeft_eq]
  push_cast
  rw [hten, hten]
  field_simp

variable {i : Interval} {k : ℤ}

/-- What is tested of a point of a grid tells whether the interval contains it. -/
theorem holds_iff {c : ℕ} :
    i.holds (gridRatio i.scale k).1 (gridRatio i.scale k).2 c = true ↔
      i.Contains (c * 10 ^ k) := by
  obtain ⟨ha, hb⟩ := gridRatio_pos i.scale k
  have hratio := gridRatio_eq i.scale k
  generalize (gridRatio i.scale k).1 = a at *
  generalize (gridRatio i.scale k).2 = b at *
  have ha' : (0 : ℚ) < a := by exact_mod_cast ha
  have hb' : (0 : ℚ) < b := by exact_mod_cast hb
  have hten : (0 : ℚ) < 10 ^ k := by positivity
  have htwo : (2 : ℚ) ^ i.scale = a / b * 10 ^ k := by
    rw [hratio, div_mul_cancel₀ _ hten.ne']
  have hscale (n : ℕ) : (n : ℚ) * 2 ^ i.scale = n * a / b * 10 ^ k := by
    rw [htwo]
    ring
  have hlt (m n : ℕ) : (m : ℚ) * a / b * 10 ^ k < n * 10 ^ k ↔ m * a < n * b := by
    rw [mul_lt_mul_iff_left₀ hten, div_lt_iff₀ hb']
    exact_mod_cast Iff.rfl
  have hgt (m n : ℕ) : (n : ℚ) * 10 ^ k < m * a / b * 10 ^ k ↔ n * b < m * a := by
    rw [mul_lt_mul_iff_left₀ hten, lt_div_iff₀ hb']
    exact_mod_cast Iff.rfl
  have heq (m n : ℕ) : (m : ℚ) * a / b * 10 ^ k = n * 10 ^ k ↔ m * a = n * b := by
    rw [mul_left_inj' hten.ne', div_eq_iff hb'.ne']
    exact_mod_cast Iff.rfl
  unfold Contains From UpTo holds
  rw [hscale, hscale, hlt, hgt, heq, eq_comm (a := (c : ℚ) * 10 ^ k), heq]
  cases i.closed
  · simp
  · simp
    omega

theorem onGrid?_holds {t : Tie} {c : ℕ} (h : i.onGrid? t k = some c) :
    i.holds (gridRatio i.scale k).1 (gridRatio i.scale k).2 c = true := by
  unfold onGrid? at h
  dsimp only at h
  generalize hbelow : i.centre * (gridRatio i.scale k).1 / (gridRatio i.scale k).2 = below at h
  split at h
  case h_1 hlow hhigh =>
    have hpick : t.pick below = below ∨ t.pick below = below + 1 := by
      cases t with
      | even => rcases Nat.mod_two_eq_zero_or_one below with h | h <;> simp [Tie.pick, h]
      | away => exact .inr rfl
    split at h
    · exact Option.some.inj h ▸ hlow
    split at h
    · exact Option.some.inj h ▸ hhigh
    · rw [← Option.some.inj h]
      rcases hpick with hp | hp <;> rw [hp] <;> assumption
  case h_2 hlow _ => exact Option.some.inj h ▸ hlow
  case h_3 _ hhigh => exact Option.some.inj h ▸ hhigh
  case h_4 => cases h

/-- A grid whose step is at most one unit has a point between the low end and the centre. -/
theorem onGrid?_isSome {t : Tie} (hstep : (gridRatio i.scale k).2 ≤ (gridRatio i.scale k).1)
    (hlow : i.low < i.centre) (hhigh : i.centre < i.high) : (i.onGrid? t k).isSome = true := by
  obtain ⟨ha, hb⟩ := gridRatio_pos i.scale k
  unfold onGrid?
  dsimp only
  generalize (gridRatio i.scale k).1 = a at *
  generalize (gridRatio i.scale k).2 = b at *
  have hbelow : i.holds a b (i.centre * a / b) = true := by
    have hle : i.centre * a / b * b ≤ i.centre * a := Nat.div_mul_le_self _ _
    have hgt : i.centre * a < (i.centre * a / b + 1) * b :=
      (Nat.div_lt_iff_lt_mul hb).1 (Nat.lt_succ_self _)
    have hlow' : (i.low + 1) * a ≤ i.centre * a := Nat.mul_le_mul_right a hlow
    have hhigh' : (i.centre + 1) * a ≤ i.high * a := Nat.mul_le_mul_right a hhigh
    rw [Nat.add_mul] at hgt hlow' hhigh'
    have hpoint : i.low * a < i.centre * a / b * b ∧ i.centre * a / b * b < i.high * a := by omega
    unfold holds
    cases i.closed <;> simp <;> omega
  rw [hbelow]
  cases i.holds a b (i.centre * a / b + 1) with
  | false => rfl
  | true =>
    dsimp only
    split
    · rfl
    split <;> rfl

/-! ### The search -/

/-- A search finds a point if there is one on the last grid that it tries. -/
theorem search_spec {t : Tie} {i : Interval} {tries : ℕ} {k : ℤ}
    (h : (i.onGrid? t (k - tries)).isSome = true) :
    i.Contains (i.search t (tries + 1) k).value := by
  have hfound {k : ℤ} {c : ℕ} (hc : i.onGrid? t k = some c) :
      i.Contains (value ⟨c, k⟩) := holds_iff.1 (onGrid?_holds hc)
  induction tries generalizing k with
  | zero =>
    rw [Nat.cast_zero, sub_zero] at h
    obtain ⟨c, hc⟩ := Option.isSome_iff_exists.1 h
    rw [search, hc]
    exact hfound hc
  | succ tries ih =>
    rw [search]
    cases hc : i.onGrid? t k with
    | some c => exact hfound hc
    | none =>
      refine ih ?_
      rwa [show k - 1 - (tries : ℤ) = k - (tries + 1 : ℕ) by push_cast; ring]

/-- The exponent of the last grid that a search tries for a full mantissa. -/
def lastExponent (scale : ℤ) : ℤ :=
  (55 + scale) * 30103 / 100000 - 22

theorem step_le_iff {scale k : ℤ} :
    (gridRatio scale k).2 ≤ (gridRatio scale k).1 ↔ (10 : ℚ) ^ k ≤ 2 ^ scale := by
  obtain ⟨ha, hb⟩ := gridRatio_pos scale k
  have hb' : (0 : ℚ) < (gridRatio scale k).2 := by exact_mod_cast hb
  rw [← one_le_div₀ (by positivity : (0 : ℚ) < 10 ^ k), ← gridRatio_eq, one_le_div₀ hb']
  exact Nat.cast_le.symm

/-- The last grid is fine enough for every scale. -/
theorem last_step_le : ∀ n < 2048,
    (gridRatio ((n : ℕ) - 1076) (lastExponent (n - 1076))).2 ≤
      (gridRatio ((n : ℕ) - 1076) (lastExponent (n - 1076))).1 := by
  decide +kernel

theorem pow_last_le {scale k : ℤ} (hlow : -1076 ≤ scale) (hhigh : scale < 972)
    (hk : k ≤ lastExponent scale) : (10 : ℚ) ^ k ≤ 2 ^ scale := by
  obtain ⟨n, hn⟩ := Int.eq_ofNat_of_zero_le (show 0 ≤ scale + 1076 by omega)
  have hscale : scale = n - 1076 := by omega
  calc (10 : ℚ) ^ k ≤ 10 ^ lastExponent scale := zpow_le_zpow_right₀ (by norm_num) hk
    _ ≤ 2 ^ scale := by
      rw [hscale]
      exact step_le_iff.1 (last_step_le n (by omega))

end Interval

/-! ### The shortest decimal -/

theorem contains_shortest (t : Tie) {x : Float} (h : x.isFinite) :
    (Interval.of (magnitude x)).Contains (shortest t x).value := by
  have hcanonical := Binary64.magnitude_canonical x
  have hlt := Binary64.magnitude_exponent_lt h
  unfold shortest
  dsimp only
  split
  case isTrue hzero =>
    rw [show value ⟨0, 0⟩ = (magnitude x).value by simp [value, Magnitude.value, hzero]]
    exact ⟨Magnitude.from_value _, Magnitude.upTo_value _⟩
  case isFalse hpos =>
    generalize magnitude x = m at *
    have hbound := hcanonical.mantissa_lt
    have hleast := hcanonical.least_le
    rw [show 2 * Binary64.leadingBit = 2 ^ 53 from rfl] at hbound
    have hlog : (Interval.of m).high.log2 < 55 :=
      (Nat.log2_lt (by simp [Interval.of])).2 (by simp only [Interval.of]; omega)
    refine Interval.search_spec (Interval.onGrid?_isSome (Interval.step_le_iff.2 ?_) ?_ ?_)
    · refine Interval.pow_last_le ?_ ?_ ?_
      · simp only [Interval.of]
        omega
      · simp only [Interval.of]
        omega
      · unfold Interval.coarsest Interval.lastExponent
        push_cast
        omega
    · simp only [Interval.of]
      split <;> omega
    · simp only [Interval.of]
      omega

theorem magnitude_eq_of_shortest {s t : Tie} {x y : Float} (hx : x.isFinite) (hy : y.isFinite)
    (h : (shortest s x).value = (shortest t y).value) : magnitude x = magnitude y := by
  have hin := contains_shortest s hx
  have hin' := contains_shortest t hy
  have hcanonical := Binary64.magnitude_canonical x
  have hcanonical' := Binary64.magnitude_canonical y
  refine Magnitude.eq_of_not_below (fun hlt => ?_) fun hlt => ?_
  · exact (Magnitude.lt_of_catches hcanonical hcanonical' hlt hin.2 hin'.1).ne h
  · exact (Magnitude.lt_of_catches hcanonical' hcanonical hlt hin'.2 hin.1).ne h.symm

end SatWalk.Decimal
