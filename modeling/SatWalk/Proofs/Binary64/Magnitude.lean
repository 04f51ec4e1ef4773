import SatWalk.Decimal.Shortest
import Mathlib.Algebra.Order.Field.Power
import Mathlib.Data.Rat.Cast.Order
import Mathlib.Tactic.FieldSimp
import Mathlib.Tactic.Linarith
import Mathlib.Tactic.Positivity
import Mathlib.Tactic.Ring

/-! Magnitudes as reals, and the reals that round to them. Every magnitude has one canonical form:
a full mantissa, or the least exponent. Of two canonical magnitudes the one below the other
has its whole rounding interval below, as neighbours share an end that belongs only to the
even one of them. -/

namespace SatWalk.Decimal.Interval

/-- A real is not below an interval. -/
def From (i : Interval) (q : ℚ) : Prop :=
  i.low * (2 : ℚ) ^ i.scale < q ∨ i.closed = true ∧ i.low * (2 : ℚ) ^ i.scale = q

/-- A real is not above an interval. -/
def UpTo (i : Interval) (q : ℚ) : Prop :=
  q < i.high * (2 : ℚ) ^ i.scale ∨ i.closed = true ∧ q = i.high * (2 : ℚ) ^ i.scale

theorem From.le {i : Interval} {q : ℚ} (h : i.From q) : i.low * (2 : ℚ) ^ i.scale ≤ q :=
  h.elim le_of_lt fun h => h.2.le

theorem UpTo.le {i : Interval} {q : ℚ} (h : i.UpTo q) : q ≤ i.high * (2 : ℚ) ^ i.scale :=
  h.elim le_of_lt fun h => h.2.le

end SatWalk.Decimal.Interval

namespace SatWalk.Binary64.Magnitude

open Decimal (Interval)

/-- A full mantissa, or the least exponent. -/
structure Canonical (m : Magnitude) : Prop where
  mantissa_lt : m.mantissa < 2 * leadingBit
  least_le : -1074 ≤ m.exponent
  full : m.exponent = -1074 ∨ leadingBit ≤ m.mantissa

/-- The exponents decide first, then the mantissas. -/
def Below (a b : Magnitude) : Prop :=
  a.exponent < b.exponent ∨ a.exponent = b.exponent ∧ a.mantissa < b.mantissa

instance (a b : Magnitude) : Decidable (Below a b) := by unfold Below; infer_instance

def value (m : Magnitude) : ℚ :=
  m.mantissa * 2 ^ m.exponent

/-- A magnitude whose place is taken by infinity. -/
def overflow : Magnitude :=
  ⟨leadingBit, 972⟩

/-- The reals that round to a magnitude; to infinity, all from its lower end on. -/
structure Catches (m : Magnitude) (q : ℚ) : Prop where
  from_low : (Interval.of m).From q
  upTo_high : m.exponent < 972 → (Interval.of m).UpTo q

theorem eq_of_not_below {a b : Magnitude} (hab : ¬ a.Below b) (hba : ¬ b.Below a) : a = b := by
  obtain ⟨m, e⟩ := a
  obtain ⟨m', e'⟩ := b
  simp only [Below] at hab hba
  obtain ⟨rfl, rfl⟩ : m = m' ∧ e = e' := by omega
  rfl

theorem low_of_full {m : Magnitude} (hm : leadingBit ≤ m.mantissa) (he : m.exponent ≠ -1074) :
    4 * leadingBit - 1 ≤ (Interval.of m).low := by
  simp only [Interval.of]
  split <;> omega

/-- A step to a greater exponent doubles the unit at least. -/
theorem unit_le {a b : Magnitude} (h : a.exponent < b.exponent) :
    2 * (2 : ℚ) ^ (Interval.of a).scale ≤ 2 ^ (Interval.of b).scale := by
  rw [← zpow_one_add₀ (by norm_num)]
  simp only [Interval.of]
  exact zpow_le_zpow_right₀ (by norm_num) (by omega)

/-- The intervals of two magnitudes with even mantissas keep a distance, as both own their ends. -/
def gap (a b : Magnitude) : ℕ :=
  if a.mantissa % 2 = 0 ∧ b.mantissa % 2 = 0 then 1 else 0

/-- The interval of the lower one ends where that of the upper one begins, or before. -/
theorem high_add_gap_le_low {a b : Magnitude} (ha : a.Canonical) (hb : b.Canonical)
    (h : a.Below b) :
    ((Interval.of a).high + gap a b : ℕ) * (2 : ℚ) ^ (Interval.of a).scale ≤
      (Interval.of b).low * 2 ^ (Interval.of b).scale := by
  rcases h with hlt | ⟨heq, hlt⟩
  · have hexponent : b.exponent ≠ -1074 := by
      have := ha.least_le
      omega
    have hlow := low_of_full (hb.full.resolve_left hexponent) hexponent
    have hhigh : (Interval.of a).high + gap a b ≤ 2 * (4 * leadingBit - 1) := by
      have := ha.mantissa_lt
      simp only [Interval.of, gap, leadingBit] at *
      split <;> omega
    calc ((Interval.of a).high + gap a b : ℕ) * (2 : ℚ) ^ (Interval.of a).scale
        ≤ (2 * (4 * leadingBit - 1) : ℕ) * 2 ^ (Interval.of a).scale := by gcongr
      _ = (4 * leadingBit - 1 : ℕ) * (2 * 2 ^ (Interval.of a).scale) := by push_cast; ring
      _ ≤ (4 * leadingBit - 1 : ℕ) * 2 ^ (Interval.of b).scale := by
          gcongr
          exact unit_le hlt
      _ ≤ _ := by gcongr
  · have hnat : (Interval.of a).high + gap a b ≤ (Interval.of b).low := by
      have := ha.full
      simp only [Interval.of, gap]
      split <;> split <;> omega
    have hscale : (Interval.of a).scale = (Interval.of b).scale := by
      simp only [Interval.of, heq]
    rw [hscale]
    gcongr

theorem closed_iff {m : Magnitude} : (Interval.of m).closed = true ↔ m.mantissa % 2 = 0 := by
  simp only [Interval.of, beq_iff_eq]

theorem unit_pos (i : Interval) : (0 : ℚ) < 2 ^ i.scale := by positivity

theorem lt_of_catches {a b : Magnitude} (ha : a.Canonical) (hb : b.Canonical) (h : a.Below b)
    {q q' : ℚ} (hq : (Interval.of a).UpTo q) (hq' : (Interval.of b).From q') : q < q' := by
  have hends := high_add_gap_le_low ha hb h
  have hunit := unit_pos (Interval.of a)
  push_cast at hends
  have hle : ((Interval.of a).high : ℚ) * 2 ^ (Interval.of a).scale ≤
      (Interval.of b).low * 2 ^ (Interval.of b).scale := by
    nlinarith [(gap a b).cast_nonneg (α := ℚ)]
  rcases hq with hq | ⟨hclosed, rfl⟩
  · exact hq.trans_le (hle.trans hq'.le)
  · rcases hq' with hq' | ⟨hclosed', rfl⟩
    · exact hle.trans_lt hq'
    · have hgap : gap a b = 1 := if_pos ⟨closed_iff.1 hclosed, closed_iff.1 hclosed'⟩
      rw [hgap, Nat.cast_one] at hends
      linarith

theorem value_eq (m : Magnitude) :
    m.value = (4 * m.mantissa : ℚ) * 2 ^ (Interval.of m).scale := by
  rw [Interval.of, zpow_sub₀ (by norm_num), value]
  ring

theorem from_value (m : Magnitude) : (Interval.of m).From m.value := by
  rw [value_eq]
  by_cases hzero : m.mantissa = 0
  · right
    simp [Interval.of, hzero]
  · left
    have hlow : (Interval.of m).low < 4 * m.mantissa := by
      simp only [Interval.of]
      split <;> omega
    have hlow' : ((Interval.of m).low : ℚ) < 4 * m.mantissa := by exact_mod_cast hlow
    exact mul_lt_mul_of_pos_right hlow' (unit_pos _)

theorem upTo_value (m : Magnitude) : (Interval.of m).UpTo m.value := by
  left
  rw [value_eq]
  have hhigh : (4 * m.mantissa : ℚ) < (Interval.of m).high := by simp [Interval.of]
  exact mul_lt_mul_of_pos_right hhigh (unit_pos _)

theorem catches_value (m : Magnitude) : m.Catches m.value :=
  ⟨from_value m, fun _ => upTo_value m⟩

theorem value_lt {a b : Magnitude} (ha : a.Canonical) (hb : b.Canonical) (h : a.Below b) :
    a.value < b.value :=
  lt_of_catches ha hb h (upTo_value a) (from_value b)

end SatWalk.Binary64.Magnitude
