import SatWalk.Proofs.Binary64.Arithmetic

/-! Arithmetic keeps the order of binary64 numbers that are not negative. This holds beyond the
overflow too, where the results are infinite. -/

namespace SatWalk.Binary64

open Float.Model (UnpackedFloat)
open Float.Model.Format (binary64)

/-- Infinity is the greatest of the numbers that are not negative. -/
def IsInfinity (x : Float) : Prop :=
  x.toModel.unpack = .infinity .positive

theorem isInfinity_of_not_finite {x : Float} (hx : 0 ≤ x) (h : ¬ x.isFinite) : IsInfinity x :=
  (eq_overflow hx h).1

theorem IsInfinity.upward {x : Float} (h : IsInfinity x) : Upward x.toModel.unpack .overflow := by
  rw [h]
  exact .infinity

theorem IsInfinity.zero_le {x : Float} (h : IsInfinity x) : 0 ≤ x :=
  zero_le_of_upward h.upward

theorem IsInfinity.ge {x y : Float} (h : IsInfinity y) (hx : 0 ≤ x) : x ≤ y := by
  rw [le_iff_not_below hx h.zero_le, magnitude_of_upward h.upward]
  exact not_overflow_below hx

/-- A number is finite or infinite, so what holds of both holds of it. -/
theorem finite_or_isInfinity {x : Float} (hx : 0 ≤ x) : x.isFinite ∨ IsInfinity x := by
  by_cases h : x.isFinite
  · exact .inl h
  · exact .inr (isInfinity_of_not_finite hx h)

theorem IsInfinity.not_finite {x : Float} (h : IsInfinity x) : ¬ x.isFinite := by
  change ¬ x.toModel.unpack.isFinite = true
  rw [h]
  decide

/-- Only infinity is as great as infinity. -/
theorem finite_of_le {x y : Float} (hx : 0 ≤ x) (hy : 0 ≤ y) (h : x ≤ y) (hfinite : y.isFinite) :
    x.isFinite := by
  refine (finite_or_isInfinity hx).resolve_right fun hinf => ?_
  rw [le_iff_not_below hx hy, magnitude_of_upward hinf.upward] at h
  exact h (.inl ((isFinite_iff hy).1 hfinite))

theorem le_iff_value_le {x y : Float} (hx : 0 ≤ x) (hy : 0 ≤ y) : x ≤ y ↔ value x ≤ value y := by
  rw [le_iff_not_below hx hy]
  have hlt {a b : Float} (h : (magnitude a).Below (magnitude b)) : value a < value b :=
    Magnitude.value_lt (magnitude_canonical a) (magnitude_canonical b) h
  constructor
  · intro h
    by_cases hbelow : (magnitude x).Below (magnitude y)
    · exact (hlt hbelow).le
    · rw [value, value, Magnitude.eq_of_not_below hbelow h]
  · exact fun h hbelow => h.not_gt (hlt hbelow)

theorem lt_iff_value_lt {x y : Float} (hx : 0 ≤ x) (hy : 0 ≤ y) : x < y ↔ value x < value y := by
  rw [← not_le, ← le_iff_value_le hy hx, le_iff_not_below hy hx, not_not, lt_iff_below hx hy]

theorem not_lt_of_nonneg_le {x y : Float} (hx : 0 ≤ x) (hy : 0 ≤ y) (h : x ≤ y) : ¬ y < x := by
  rw [lt_iff_value_lt hy hx]
  exact ((le_iff_value_le hx hy).1 h).not_gt

theorem beq_iff_value_eq {x y : Float} (hx : 0 ≤ x) (hy : 0 ≤ y) :
    (x == y) = true ↔ value x = value y := by
  rw [beq_iff_magnitude_eq hx hy]
  constructor
  · intro h
    rw [value, value, h]
  · intro h
    refine Magnitude.eq_of_not_below ?_ ?_
    · rw [← lt_iff_below hx hy, lt_iff_value_lt hx hy]
      exact h.not_lt
    · rw [← lt_iff_below hy hx, lt_iff_value_lt hy hx]
      exact h.not_gt

/-- A real rounds to one magnitude only. -/
theorem Rounds.magnitude_eq {q : ℚ} {x y : Float} (hx : Rounds q x) (hy : Rounds q y) :
    magnitude x = magnitude y := by
  rw [← beq_iff_magnitude_eq hx.zero_le hy.zero_le, beq_iff_value_eq hx.zero_le hy.zero_le]
  exact le_antisymm ((le_iff_value_le hx.zero_le hy.zero_le).1 (hx.le hy le_rfl))
    ((le_iff_value_le hy.zero_le hx.zero_le).1 (hy.le hx le_rfl))

theorem Rounds.value_eq {q : ℚ} {x y : Float} (hx : Rounds q x) (hy : Rounds q y) :
    value x = value y := by
  rw [value, value, hx.magnitude_eq hy]

/-- A number is what it stands for rounded. -/
theorem rounds_value {x : Float} (hx : 0 ≤ x) : Rounds (value x) x :=
  ⟨hx, Magnitude.catches_value _⟩

/-! ### Operations that keep the order -/

/-- An operation keeps numbers from being negative, and their order. -/
structure Raises (f : Float → Float) : Prop where
  zero_le {x : Float} (hx : 0 ≤ x) : 0 ≤ f x
  le {x y : Float} (hx : 0 ≤ x) (hy : 0 ≤ y) (h : x ≤ y) : f x ≤ f y

theorem Raises.comp {f g : Float → Float} (hg : Raises g) (hf : Raises f) :
    Raises fun x => g (f x) :=
  ⟨fun hx => hg.zero_le (hf.zero_le hx),
    fun hx hy h => hg.le (hf.zero_le hx) (hf.zero_le hy) (hf.le hx hy h)⟩

theorem Raises.value_congr {f : Float → Float} (hf : Raises f) {x y : Float} (hx : 0 ≤ x)
    (hy : 0 ≤ y) (h : value x = value y) : value (f x) = value (f y) := by
  refine le_antisymm ?_ ?_
  · rw [← le_iff_value_le (hf.zero_le hx) (hf.zero_le hy)]
    exact hf.le hx hy ((le_iff_value_le hx hy).2 h.le)
  · rw [← le_iff_value_le (hf.zero_le hy) (hf.zero_le hx)]
    exact hf.le hy hx ((le_iff_value_le hy hx).2 h.ge)

/-- An operation keeps the order if an exact operation does from which it only differs by
rounding. -/
theorem raises_of_rounds {f : Float → Float} {g : ℚ → ℚ} (hg : Monotone g)
    (hrounds : ∀ {x : Float}, 0 ≤ x → x.isFinite → Rounds (g (value x)) (f x))
    (hinf : ∀ {x : Float}, IsInfinity x → IsInfinity (f x)) : Raises f where
  zero_le hx := (finite_or_isInfinity hx).elim (fun h => (hrounds hx h).zero_le)
    fun h => (hinf h).zero_le
  le {x y} hx hy h := by
    rcases finite_or_isInfinity hy with hfy | hty
    · have hfx := finite_of_le hx hy h hfy
      exact (hrounds hx hfx).le (hrounds hy hfy) (hg ((le_iff_value_le hx hy).1 h))
    · refine (hinf hty).ge ?_
      exact (finite_or_isInfinity hx).elim (fun h => (hrounds hx h).zero_le) fun h => (hinf h).zero_le

theorem isInfinity_of_model {u : UnpackedFloat} (h : u = .infinity .positive) :
    IsInfinity (.ofModel (.pack u)) := by
  subst h
  exact unpack_pack_infinity .positive

theorem IsInfinity.add_left {c x : Float} (hx : IsInfinity x) (hc : 0 ≤ c) : IsInfinity (c + x) := by
  refine isInfinity_of_model ?_
  rw [show x.toModel.unpack = _ from hx]
  have hup := upward_of_zero_le hc
  generalize c.toModel.unpack = u, magnitude c = r at hup
  cases hup <;> rfl

theorem IsInfinity.add_right {c x : Float} (hx : IsInfinity x) (hc : 0 ≤ c) :
    IsInfinity (x + c) := by
  refine isInfinity_of_model ?_
  rw [show x.toModel.unpack = _ from hx]
  have hup := upward_of_zero_le hc
  generalize c.toModel.unpack = u, magnitude c = r at hup
  cases hup <;> rfl

theorem IsInfinity.mul_right {c x : Float} (hx : IsInfinity x) (hc : 0 < c) : IsInfinity (x * c) := by
  refine isInfinity_of_model ?_
  rw [show x.toModel.unpack = _ from hx]
  rcases finite_or_isInfinity (zero_le_of_pos hc) with hfinite | hinf
  · rcases finite_cases (zero_le_of_pos hc) hfinite with ⟨_, -, hzero⟩ | ⟨_, _, _, hu, -⟩
    · exact absurd hzero (value_pos hc).ne'
    · rw [hu]
      rfl
  · rw [show c.toModel.unpack = _ from hinf]
    rfl

theorem IsInfinity.div_right {c x : Float} (hx : IsInfinity x) (hc : 0 < c) (hfinite : c.isFinite) :
    IsInfinity (x / c) := by
  refine isInfinity_of_model ?_
  rw [show x.toModel.unpack = _ from hx]
  rcases finite_cases (zero_le_of_pos hc) hfinite with ⟨_, -, hzero⟩ | ⟨_, _, _, hu, -⟩
  · exact absurd hzero (value_pos hc).ne'
  · rw [hu]
    rfl

theorem raises_add {c : Float} (hc : 0 ≤ c) (hfinite : c.isFinite) : Raises (c + ·) :=
  raises_of_rounds (g := (value c + ·)) (fun _ _ => (add_le_add_iff_left _).2)
    (fun hx hfx => rounds_add hc hx hfinite hfx) fun hx => hx.add_left hc

theorem raises_mul {c : Float} (hc : 0 < c) (hfinite : c.isFinite) : Raises (· * c) :=
  raises_of_rounds (g := (· * value c))
    (fun _ _ h => mul_le_mul_of_nonneg_right h (value_nonneg c))
    (fun hx hfx => rounds_mul hx (zero_le_of_pos hc) hfx hfinite) fun hx => hx.mul_right hc

theorem raises_div {c : Float} (hc : 0 < c) (hfinite : c.isFinite) : Raises (· / c) :=
  raises_of_rounds (g := (· / value c))
    (fun _ _ h => div_le_div_of_nonneg_right h (value_nonneg c))
    (fun hx hfx => rounds_div hx hc hfx hfinite) fun hx => hx.div_right hc hfinite

/-! ### The smaller of two numbers -/

theorem not_isNaN {x : Float} (hx : 0 ≤ x) : x.isNaN = false := by
  change x.toModel.unpack.isNaN = false
  have hup := upward_of_zero_le hx
  generalize x.toModel.unpack = u, magnitude x = r at hup
  cases hup <;> rfl

theorem smaller_eq {x c : Float} (hx : 0 ≤ x) : smaller x c = if c < x then c else x := by
  rw [smaller, not_isNaN hx, if_neg (by decide)]

theorem smaller_of_isNaN {x : Float} (hx : x.isNaN = true) (c : Float) : smaller x c = c := by
  rw [smaller, if_pos hx]

theorem value_smaller {x c : Float} (hx : 0 ≤ x) (hc : 0 ≤ c) :
    0 ≤ smaller x c ∧ value (smaller x c) = min (value x) (value c) := by
  rw [smaller_eq hx]
  split
  case isTrue h =>
    exact ⟨hc, (min_eq_right ((lt_iff_value_lt hc hx).1 h).le).symm⟩
  case isFalse h =>
    rw [lt_iff_value_lt hc hx, not_lt] at h
    exact ⟨hx, (min_eq_left h).symm⟩

theorem raises_smaller {c : Float} (hc : 0 ≤ c) : Raises (smaller · c) where
  zero_le hx := (value_smaller hx hc).1
  le {x y} hx hy h := by
    obtain ⟨hx', hvx⟩ := value_smaller hx hc
    obtain ⟨hy', hvy⟩ := value_smaller hy hc
    rw [le_iff_value_le hx' hy', hvx, hvy]
    exact min_le_min_right _ ((le_iff_value_le hx hy).1 h)

end SatWalk.Binary64
