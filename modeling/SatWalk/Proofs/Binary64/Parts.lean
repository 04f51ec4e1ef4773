import Mathlib
import SatWalk.Proofs.Binary64.Order
import SatWalk.Proofs.Binary64.Rounding

/-! The parts of a binary64 number: its bits tell the same magnitude as its unpacked form, and
packing a canonical magnitude keeps it, unless it is too large and becomes infinite. Numbers
that are not negative are ordered by their magnitudes, infinity being one of them. -/

namespace SatWalk.Binary64

open Float.Model (UnpackedFloat)
open Float.Model.Format (binary64)
open Float.Model.UnpackedFloat (Sign)

def field (x : Float) : ℕ :=
  x.toBits.toNat % signBit / leadingBit

def fraction (x : Float) : ℕ :=
  x.toBits.toNat % leadingBit

theorem fraction_lt (x : Float) : fraction x < leadingBit :=
  Nat.mod_lt _ (by decide)

theorem field_lt (x : Float) : field x < 2048 := by
  have : x.toBits.toNat % signBit < signBit := Nat.mod_lt _ (by decide)
  unfold field
  simp only [signBit, leadingBit] at *
  omega

theorem magnitude_eq (x : Float) :
    magnitude x =
      if field x = 0 then ⟨fraction x, -1074⟩ else ⟨leadingBit + fraction x, field x - 1075⟩ := by
  have hfraction : x.toBits.toNat % signBit % leadingBit = fraction x :=
    Nat.mod_mod_of_dvd _ (by decide)
  unfold magnitude
  dsimp only
  rw [hfraction, show x.toBits.toNat % signBit / leadingBit = field x from rfl]
  cases field x with
  | zero => rfl
  | succ n => rfl

theorem magnitude_canonical (x : Float) : (magnitude x).Canonical := by
  have hfraction := fraction_lt x
  rw [magnitude_eq]
  split
  · exact ⟨by dsimp only; omega, le_rfl, .inl rfl⟩
  · exact ⟨by dsimp only; omega, by dsimp only; omega, .inr (Nat.le_add_right _ _)⟩

theorem toNat_unpackExponent (x : Float) :
    (@UnpackedFloat.unpackExponent binary64 x.toBits.toBitVec).toNat = field x := by
  have : (@UnpackedFloat.unpackExponent binary64 x.toBits.toBitVec).toNat =
      x.toBits.toNat >>> 52 % 2 ^ 11 := by
    simp [UnpackedFloat.unpackExponent]
  rw [this, Nat.shiftRight_eq_div_pow, field]
  simp only [signBit, leadingBit]
  omega

theorem toNat_unpackMantissa (x : Float) :
    (@UnpackedFloat.unpackMantissa binary64 x.toBits.toBitVec).toNat = fraction x := by
  simp [UnpackedFloat.unpackMantissa]
  rfl

/-- The magnitude of an unpacked number, infinity standing above the finite ones. -/
def sizeOf : UnpackedFloat → Magnitude
  | .finite _ m e _ => ⟨m, e⟩
  | .zero _ => ⟨0, -1074⟩
  | .infinity _ | .notANumber => .overflow

def signOf (x : Float) : Sign :=
  if isNegative x then .negative else .positive

theorem ofBitVec_unpackSign (x : Float) :
    Sign.ofBitVec (@UnpackedFloat.unpackSign binary64 x.toBits.toBitVec) = signOf x := by
  have hbit : (@UnpackedFloat.unpackSign binary64 x.toBits.toBitVec).toNat =
      x.toBits.toNat / signBit := by
    have : (@UnpackedFloat.unpackSign binary64 x.toBits.toBitVec).toNat =
        x.toBits.toNat >>> 63 % 2 ^ 1 := by
      exact BitVec.extractLsb_toNat 63 63 x.toBits.toBitVec
    have hlt : x.toBits.toNat < 2 ^ 64 := x.toBits.toNat_lt
    rw [this, Nat.shiftRight_eq_div_pow]
    simp only [signBit]
    omega
  have hzero : @UnpackedFloat.unpackSign binary64 x.toBits.toBitVec = 0#1 ↔
      x.toBits.toNat < signBit := by
    rw [← BitVec.toNat_inj, hbit]
    change _ = 0 ↔ _
    exact Nat.div_eq_zero_iff_lt (by decide)
  unfold Sign.ofBitVec signOf isNegative
  simp only [hzero, decide_eq_true_iff, ← Nat.not_lt, ite_not]

theorem finite_congr {sign : Sign} {m m' : ℕ} {e e' : ℤ} {hm : 0 < m} {hm' : 0 < m'}
    (hmantissa : m = m') (hexponent : e = e') :
    UnpackedFloat.finite sign m e hm = .finite sign m' e' hm' := by
  subst hmantissa hexponent
  rfl

/-- The magnitude that an exponent field and a fraction stand for. -/
def sizeOfFields (e : BitVec 11) (m : BitVec 52) : Magnitude :=
  if e = 0#11 then ⟨m.toNat, -1074⟩ else ⟨leadingBit + m.toNat, e.toNat - 1075⟩

theorem unpacked_of_zero {r : Magnitude} (hr : r.mantissa = 0) (sign : Sign) :
    r.unpacked sign = .zero sign :=
  dif_pos hr

theorem unpacked_of_ne_zero {r : Magnitude} (hr : r.mantissa ≠ 0) (sign : Sign) :
    r.unpacked sign = .finite sign r.mantissa r.exponent (Nat.pos_of_ne_zero hr) :=
  dif_neg hr

/-- What bits unpack to: infinity and NaN have an exponent field of ones. -/
theorem unpack_eq (b : BitVec 64) :
    UnpackedFloat.unpack binary64 b =
      if @UnpackedFloat.unpackExponent binary64 b = -1#11 then
        if @UnpackedFloat.unpackMantissa binary64 b = 0#52 then
          .infinity (.ofBitVec (@UnpackedFloat.unpackSign binary64 b))
        else .notANumber
      else (sizeOfFields (@UnpackedFloat.unpackExponent binary64 b)
        (@UnpackedFloat.unpackMantissa binary64 b)).unpacked
          (.ofBitVec (@UnpackedFloat.unpackSign binary64 b)) := by
  by_cases hspecial : @UnpackedFloat.unpackExponent binary64 b = -1#11
  · rw [if_pos hspecial]
    exact if_pos hspecial
  rw [if_neg hspecial, sizeOfFields]
  refine (if_neg hspecial).trans ?_
  by_cases hsubnormal : @UnpackedFloat.unpackExponent binary64 b = 0#11
  · refine (if_pos hsubnormal).trans ?_
    rw [if_pos hsubnormal]
    by_cases hzero : @UnpackedFloat.unpackMantissa binary64 b = 0#52
    · refine (dif_pos hzero).trans (unpacked_of_zero ?_ _).symm
      rw [hzero]
      rfl
    · have hne : (@UnpackedFloat.unpackMantissa binary64 b).toNat ≠ 0 := fun h =>
        hzero (BitVec.eq_of_toNat_eq h)
      refine (dif_neg hzero).trans ?_
      rw [unpacked_of_ne_zero hne, hsubnormal]
      rfl
  · have hone := toNat_one_append (@UnpackedFloat.unpackMantissa binary64 b)
    have hne : leadingBit + (@UnpackedFloat.unpackMantissa binary64 b).toNat ≠ 0 :=
      (Nat.add_pos_left (by decide) _).ne'
    refine (if_neg hsubnormal).trans ?_
    rw [if_neg hsubnormal, unpacked_of_ne_zero hne]
    exact finite_congr hone rfl

theorem sizeOfFields_eq (x : Float) :
    sizeOfFields (@UnpackedFloat.unpackExponent binary64 x.toBits.toBitVec)
      (@UnpackedFloat.unpackMantissa binary64 x.toBits.toBitVec) = magnitude x := by
  have hzero : @UnpackedFloat.unpackExponent binary64 x.toBits.toBitVec = 0#11 ↔ field x = 0 := by
    rw [← BitVec.toNat_inj, toNat_unpackExponent]
    rfl
  rw [sizeOfFields, toNat_unpackMantissa, toNat_unpackExponent, magnitude_eq]
  exact if_congr hzero rfl rfl

/-- What a number unpacks to is told by its fields. -/
theorem unpack_fields (x : Float) :
    (x.toModel.unpack = .notANumber ∧ field x = 2047) ∨
    (x.toModel.unpack = .infinity (signOf x) ∧ field x = 2047 ∧ fraction x = 0) ∨
    (x.toModel.unpack = .zero (signOf x) ∧ field x = 0 ∧ fraction x = 0) ∨
    ∃ m e hm, x.toModel.unpack = .finite (signOf x) m e hm ∧ field x ≠ 2047 ∧
      magnitude x = ⟨m, e⟩ := by
  have hspecial : @UnpackedFloat.unpackExponent binary64 x.toBits.toBitVec = -1#11 ↔
      field x = 2047 := by
    rw [← BitVec.toNat_inj, toNat_unpackExponent]
    rfl
  have hfraction : @UnpackedFloat.unpackMantissa binary64 x.toBits.toBitVec = 0#52 ↔
      fraction x = 0 := by
    rw [← BitVec.toNat_inj, toNat_unpackMantissa]
    rfl
  have hunpack := unpack_eq x.toBits.toBitVec
  rw [sizeOfFields_eq, ofBitVec_unpackSign] at hunpack
  change x.toModel.unpack = _ at hunpack
  by_cases hfield : field x = 2047
  · rw [if_pos (hspecial.2 hfield)] at hunpack
    by_cases hnothing : fraction x = 0
    · rw [if_pos (hfraction.2 hnothing)] at hunpack
      exact .inr (.inl ⟨hunpack, hfield, hnothing⟩)
    · rw [if_neg (mt hfraction.1 hnothing)] at hunpack
      exact .inl ⟨hunpack, hfield⟩
  rw [if_neg (mt hspecial.1 hfield)] at hunpack
  by_cases hzero : (magnitude x).mantissa = 0
  · rw [unpacked_of_zero hzero] at hunpack
    refine .inr (.inr (.inl ⟨hunpack, ?_⟩))
    rw [magnitude_eq] at hzero
    split at hzero
    case isTrue hsubnormal => exact ⟨hsubnormal, hzero⟩
    case isFalse =>
      simp only [leadingBit] at hzero
      omega
  · rw [unpacked_of_ne_zero hzero] at hunpack
    exact .inr (.inr (.inr ⟨_, _, _, hunpack, hfield, rfl⟩))

theorem magnitude_of_unpack {x : Float} {u : UnpackedFloat} (h : x.toModel.unpack = u)
    (hu : u ≠ .notANumber) : magnitude x = sizeOf u := by
  subst h
  rcases unpack_fields x with ⟨h, -⟩ | ⟨h, hfield, hfraction⟩ | ⟨h, hfield, hfraction⟩ |
    ⟨m, e, hm, h, -, hsize⟩
  · exact absurd h hu
  · rw [h, magnitude_eq, hfield, hfraction]
    rfl
  · rw [h, magnitude_eq, hfield, hfraction]
    rfl
  · rw [h, hsize]
    rfl

theorem eq_of_toBits {x y : Float} (h : x.toBits = y.toBits) : x = y := by
  obtain ⟨⟨bits, _⟩⟩ := x
  obtain ⟨⟨bits', _⟩⟩ := y
  obtain rfl : bits = bits' := h
  rfl

/-- The sign and the magnitude tell a number. -/
theorem eq_of_magnitude_eq {x y : Float} (hsign : isNegative x = isNegative y)
    (h : magnitude x = magnitude y) : x = y := by
  have hx := fraction_lt x
  have hy := fraction_lt y
  have hparts : field x = field y ∧ fraction x = fraction y := by
    rw [magnitude_eq, magnitude_eq] at h
    split at h <;> split at h <;> rw [Magnitude.mk.injEq] at h <;> omega
  have hneg : signBit ≤ x.toBits.toNat ↔ signBit ≤ y.toBits.toNat := by
    simpa only [isNegative, decide_eq_decide] using hsign
  have hxlt : x.toBits.toNat < 2 ^ 64 := x.toBits.toNat_lt
  have hylt : y.toBits.toNat < 2 ^ 64 := y.toBits.toNat_lt
  refine eq_of_toBits (UInt64.toNat_inj.1 ?_)
  unfold field fraction at hparts
  simp only [signBit, leadingBit] at *
  omega

theorem magnitude_exponent_lt {x : Float} (h : x.isFinite) : (magnitude x).exponent < 972 := by
  have h : x.toModel.unpack.isFinite = true := h
  rcases unpack_fields x with ⟨hu, -⟩ | ⟨hu, -⟩ | ⟨hu, -⟩ | ⟨-, -, -, -, hfield, -⟩
  · rw [hu] at h
    cases h
  · rw [hu] at h
    cases h
  · rw [magnitude_of_unpack hu nofun, sizeOf]
    decide
  · have hlt := field_lt x
    rw [magnitude_eq]
    split <;> dsimp only <;> omega

theorem exponent_lt_of_finite {x : Float} {sign : Sign} {m : ℕ} {e : ℤ} {hm : 0 < m}
    (h : x.toModel.unpack = .finite sign m e hm) : e < 972 := by
  rcases unpack_fields x with ⟨h', -⟩ | ⟨h', -⟩ | ⟨h', -⟩ | ⟨_, _, _, h', hfield, hsize⟩ <;>
    rw [h'] at h
  · exact absurd h nofun
  · exact absurd h nofun
  · exact absurd h nofun
  · obtain ⟨rfl, rfl, rfl⟩ := UnpackedFloat.finite.inj h
    have hlt := field_lt x
    rw [magnitude_eq] at hsize
    split at hsize <;> cases hsize <;> omega

/-! ### Packing -/

theorem ofBitVec_unpackSign_packComponents (sign : Sign) (e : BitVec 11) (m : BitVec 52) :
    Sign.ofBitVec (UnpackedFloat.unpackSign (UnpackedFloat.packComponents binary64 sign e m)) =
      sign := by
  change Sign.ofBitVec (BitVec.extractLsb' 63 1 (sign.toBitVec ++ e ++ m)) = sign
  rw [BitVec.extractLsb'_append_eq_of_le (by omega), BitVec.extractLsb'_append_eq_of_le (by omega)]
  cases sign <;> rfl

/-- What components unpack to if the exponent is not that of infinity. -/
theorem unpack_packComponents {sign : Sign} {e : BitVec 11} {m : BitVec 52} (he : e ≠ -1#11) :
    UnpackedFloat.unpack binary64 (UnpackedFloat.packComponents binary64 sign e m) =
      (sizeOfFields e m).unpacked sign := by
  rw [unpack_eq, UnpackedFloat.unpackExponent_packComponents, if_neg he,
    UnpackedFloat.unpackMantissa_packComponents, ofBitVec_unpackSign_packComponents]

theorem unpack_pack_infinity (sign : Sign) :
    (Float.Model.pack (.infinity sign)).unpack = .infinity sign := by
  cases sign <;> rfl

theorem unpack_pack_zero (sign : Sign) :
    (Float.Model.pack (.zero sign)).unpack = .zero sign := by
  cases sign <;> rfl

theorem pack_unpacked {sign : Sign} {r : Magnitude} (hr : r.mantissa ≠ 0) :
    UnpackedFloat.pack binary64 (r.unpacked sign) =
      if 2048 ≤ (r.exponent + 1075).toNat + 1 then UnpackedFloat.packedInfinity binary64 sign
      else if r.mantissa.log2 + 1 = 53 then
        UnpackedFloat.packComponents binary64 sign (.ofNat 11 (r.exponent + 1075).toNat)
          (.ofNat 52 r.mantissa)
      else UnpackedFloat.packComponents binary64 sign 0#11 (.ofNat 52 r.mantissa) := by
  have hbiased : r.exponent + (1023 : ℤ) + (52 : ℤ) = r.exponent + 1075 := by omega
  rw [Magnitude.unpacked, dif_neg hr, ← hbiased]
  rfl

/-- Packing keeps a canonical magnitude below the overflow. -/
theorem unpack_pack {r : Magnitude} (hr : r.Canonical) (hlt : r.exponent < 972) (sign : Sign) :
    (Float.Model.pack (r.unpacked sign)).unpack = r.unpacked sign := by
  obtain ⟨m, e⟩ := r
  obtain ⟨hm, hleast, hfull⟩ := hr
  dsimp only at hm hleast hfull hlt
  by_cases hzero : m = 0
  · subst hzero
    exact unpack_pack_zero sign
  change UnpackedFloat.unpack binary64 (UnpackedFloat.pack binary64 _) = _
  rw [pack_unpacked hzero, if_neg (by dsimp only; omega)]
  dsimp only
  by_cases hnormal : leadingBit ≤ m
  · have hlog : m.log2 = 52 := (Nat.log2_eq_iff hzero).2 ⟨hnormal, hm⟩
    have hexponent : (BitVec.ofNat 11 (e + 1075).toNat).toNat = (e + 1075).toNat := by
      rw [BitVec.toNat_ofNat]
      omega
    have hmantissa : leadingBit + (BitVec.ofNat 52 m).toNat = m := by
      rw [BitVec.toNat_ofNat]
      simp only [leadingBit] at *
      omega
    have hdiffers (v : BitVec 11) (hv : v.toNat ≠ (e + 1075).toNat) :
        BitVec.ofNat 11 (e + 1075).toNat ≠ v := by
      rintro rfl
      exact hv hexponent
    rw [hlog, if_pos rfl, unpack_packComponents (hdiffers _ (by change 2047 ≠ _; omega)),
      sizeOfFields, if_neg (hdiffers _ (by change 0 ≠ _; omega)), hmantissa, hexponent]
    congr 2
    omega
  · have hlog : m.log2 < 52 := (Nat.log2_lt hzero).2 (Nat.lt_of_not_le hnormal)
    have hmantissa : (BitVec.ofNat 52 m).toNat = m := by
      rw [BitVec.toNat_ofNat]
      simp only [leadingBit] at *
      omega
    rw [if_neg (by omega), unpack_packComponents (by decide), sizeOfFields, if_pos rfl, hmantissa,
      hfull.resolve_right hnormal]

/-- Packing makes a canonical magnitude from the overflow on infinite. -/
theorem unpack_pack_overflow {r : Magnitude} (hr : r.Canonical) (hle : 972 ≤ r.exponent)
    (sign : Sign) : (Float.Model.pack (r.unpacked sign)).unpack = .infinity sign := by
  have hzero : r.mantissa ≠ 0 := by
    have hlead := hr.full.resolve_left (by omega)
    unfold leadingBit at hlead
    omega
  change UnpackedFloat.unpack binary64 (UnpackedFloat.pack binary64 _) = _
  rw [pack_unpacked hzero, if_pos (by omega)]
  exact unpack_pack_infinity sign

/-! ### Numbers that are not negative -/

/-- The unpacked forms of numbers that are not negative, with their magnitudes. -/
inductive Upward : UnpackedFloat → Magnitude → Prop
  | infinity : Upward (.infinity .positive) .overflow
  | zero (sign : Sign) : Upward (.zero sign) ⟨0, -1074⟩
  | finite (m : ℕ) (e : ℤ) (hm : 0 < m) (hcanonical : Magnitude.Canonical ⟨m, e⟩)
      (hlt : e < 972) : Upward (.finite .positive m e hm) ⟨m, e⟩

theorem le_iff_compare {x y : Float} :
    x ≤ y ↔ (x.toModel.unpack.compare y.toModel.unpack).any (·.isLE) = true := by
  change decide (_ = true) = true ↔ _
  rw [decide_eq_true_iff]
  rfl

theorem beq_iff_compare {x y : Float} :
    (x == y) = true ↔ x.toModel.unpack.compare y.toModel.unpack = some .eq := by
  change (x.toModel.unpack.compare y.toModel.unpack == some .eq) = true ↔ _
  rw [beq_iff_eq]

theorem zero_le_of_pos {x : Float} (h : 0 < x) : 0 ≤ x := by
  rw [le_iff_compare, lt_iff_compare.1 h]
  rfl

theorem upward_of_zero_le {x : Float} (h : 0 ≤ x) : Upward x.toModel.unpack (magnitude x) := by
  have hzero : (0 : Float).toModel.unpack = .zero .positive := rfl
  rw [le_iff_compare, hzero] at h
  have hcanonical := magnitude_canonical x
  cases hx : x.toModel.unpack with
  | notANumber => rw [hx] at h; exact absurd h nofun
  | zero sign =>
    rw [magnitude_of_unpack hx nofun]
    exact .zero sign
  | infinity sign =>
    cases sign with
    | negative => rw [hx] at h; exact absurd h nofun
    | positive =>
      rw [magnitude_of_unpack hx nofun]
      exact .infinity
  | finite sign m e hm =>
    cases sign with
    | negative => rw [hx] at h; exact absurd h nofun
    | positive =>
      rw [magnitude_of_unpack hx nofun] at hcanonical ⊢
      exact .finite m e hm hcanonical (exponent_lt_of_finite hx)

theorem zero_le_of_upward {x : Float} {r : Magnitude} (h : Upward x.toModel.unpack r) : 0 ≤ x := by
  have hzero : (0 : Float).toModel.unpack = .zero .positive := rfl
  rw [le_iff_compare, hzero]
  generalize x.toModel.unpack = u at h
  cases h <;> rfl

theorem Upward.canonical {u : UnpackedFloat} {r : Magnitude} (h : Upward u r) : r.Canonical := by
  cases h with
  | infinity => exact ⟨by decide, by decide, by decide⟩
  | zero => exact ⟨by decide, by decide, by decide⟩
  | finite _ _ _ hcanonical => exact hcanonical

/-- The exponents decide first, then the mantissas. -/
def Magnitude.order (r t : Magnitude) : Ordering :=
  (compare r.exponent t.exponent).then (compare r.mantissa t.mantissa)

theorem Magnitude.order_eq_lt_iff {r t : Magnitude} : r.order t = .lt ↔ r.Below t := by
  rw [order, Ordering.then_eq_lt, Int.compare_eq_lt, Int.compare_eq_eq, Nat.compare_eq_lt, Below]

theorem Magnitude.order_eq_gt_iff {r t : Magnitude} : r.order t = .gt ↔ t.Below r := by
  rw [order, Ordering.then_eq_gt, Int.compare_eq_gt, Int.compare_eq_eq, Nat.compare_eq_gt, Below,
    eq_comm]

theorem Upward.compare_eq {u v : UnpackedFloat} {r t : Magnitude} (hu : Upward u r)
    (hv : Upward v t) : u.compare v = some (r.order t) := by
  have hlt {r t : Magnitude} (h : r.Below t) : some .lt = some (r.order t) := by
    rw [Magnitude.order_eq_lt_iff.2 h]
  have hgt {r t : Magnitude} (h : t.Below r) : some .gt = some (r.order t) := by
    rw [Magnitude.order_eq_gt_iff.2 h]
  have hpos {m : ℕ} {e : ℤ} (hm : 0 < m) (h : Magnitude.Canonical ⟨m, e⟩) :
      Magnitude.Below ⟨0, -1074⟩ ⟨m, e⟩ := by
    have := h.least_le
    simp only [Magnitude.Below] at *
    omega
  cases hu with
  | infinity =>
    cases hv with
    | infinity => rfl
    | zero => rfl
    | finite m e hm hcanonical h => exact hgt (.inl h)
  | zero =>
    cases hv with
    | infinity => rfl
    | zero => rfl
    | finite m e hm hcanonical => exact hlt (hpos hm hcanonical)
  | finite m e hm hcanonical h =>
    cases hv with
    | infinity => exact hlt (.inl h)
    | zero => exact hgt (hpos hm hcanonical)
    | finite => rfl

theorem compare_eq_order {x y : Float} (hx : 0 ≤ x) (hy : 0 ≤ y) :
    x.toModel.unpack.compare y.toModel.unpack = some ((magnitude x).order (magnitude y)) :=
  (upward_of_zero_le hx).compare_eq (upward_of_zero_le hy)

theorem lt_iff_below {x y : Float} (hx : 0 ≤ x) (hy : 0 ≤ y) :
    x < y ↔ (magnitude x).Below (magnitude y) := by
  rw [lt_iff_compare, compare_eq_order hx hy, Option.some_inj, Magnitude.order_eq_lt_iff]

theorem le_iff_not_below {x y : Float} (hx : 0 ≤ x) (hy : 0 ≤ y) :
    x ≤ y ↔ ¬ (magnitude y).Below (magnitude x) := by
  rw [le_iff_compare, compare_eq_order hx hy, ← Magnitude.order_eq_gt_iff]
  cases (magnitude x).order (magnitude y) <;> decide

theorem beq_iff_magnitude_eq {x y : Float} (hx : 0 ≤ x) (hy : 0 ≤ y) :
    (x == y) = true ↔ magnitude x = magnitude y := by
  rw [beq_iff_compare, compare_eq_order hx hy, Option.some_inj]
  constructor
  · intro h
    refine Magnitude.eq_of_not_below ?_ ?_
    · rw [← Magnitude.order_eq_lt_iff, h]
      decide
    · rw [← Magnitude.order_eq_gt_iff, h]
      decide
  · intro h
    rw [h, Magnitude.order, Ordering.then_eq_eq, Int.compare_eq_eq, Nat.compare_eq_eq]
    exact ⟨rfl, rfl⟩

theorem isFinite_iff {x : Float} (hx : 0 ≤ x) :
    x.isFinite = true ↔ (magnitude x).exponent < 972 := by
  change x.toModel.unpack.isFinite = true ↔ _
  have h := upward_of_zero_le hx
  generalize x.toModel.unpack = u, magnitude x = r at h
  cases h with
  | infinity => decide
  | zero => exact iff_of_true rfl (by decide)
  | finite m e hm hcanonical hlt => exact iff_of_true rfl hlt

/-- Negative zero has a sign but is not below zero. -/
theorem eq_zero_of_isNegative {x : Float} (hx : 0 ≤ x) (h : isNegative x = true) :
    magnitude x = ⟨0, -1074⟩ := by
  have hsign : signOf x = .negative := if_pos h
  have hup := upward_of_zero_le hx
  rcases unpack_fields x with ⟨hu, -⟩ | ⟨hu, -⟩ | ⟨hu, -⟩ | ⟨m, e, hm, hu, -⟩
  · rw [hu] at hup
    cases hup
  · rw [hu, hsign] at hup
    cases hup
  · exact magnitude_of_unpack hu nofun
  · rw [hu, hsign] at hup
    cases hup

/-- Only infinity has the magnitude of the overflow. -/
theorem eq_overflow {x : Float} (hx : 0 ≤ x) (h : ¬ x.isFinite) :
    x.toModel.unpack = .infinity .positive ∧ magnitude x = .overflow := by
  rw [isFinite_iff hx] at h
  have hup := upward_of_zero_le hx
  revert h hup
  generalize x.toModel.unpack = u, magnitude x = r
  intro h hup
  cases hup with
  | infinity => exact ⟨rfl, rfl⟩
  | zero => exact absurd (by decide) h
  | finite m e hm hcanonical hlt => exact absurd hlt h

theorem not_overflow_below {x : Float} (hx : 0 ≤ x) : ¬ Magnitude.overflow.Below (magnitude x) := by
  have h := upward_of_zero_le hx
  generalize x.toModel.unpack = u, magnitude x = r at h
  cases h with
  | infinity => decide
  | zero => decide
  | finite m e hm hcanonical hlt =>
    simp only [Magnitude.Below, Magnitude.overflow]
    omega

end SatWalk.Binary64
