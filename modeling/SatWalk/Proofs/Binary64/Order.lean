import SatWalk.Binary64

/-! The order of binary64 numbers, told by their parts. A finite number that is not subnormal has
a full mantissa, so of two positive ones the exponents decide first. No number lies
between one and the number with the greatest mantissa below it. -/

namespace SatWalk.Binary64

open Float.Model (UnpackedFloat)

theorem lt_iff_compare {x y : Float} :
    x < y ↔ x.toModel.unpack.compare y.toModel.unpack = some .lt := by
  change decide ((x.toModel.unpack.compare y.toModel.unpack == some .lt) = true) = true ↔ _
  rw [decide_eq_true_iff, beq_iff_eq]

theorem toNat_one_append (v : BitVec 52) : (1#1 ++ v).toNat = leadingBit + v.toNat := by
  rw [BitVec.toNat_append, ← Nat.shiftLeft_add_eq_or_of_lt v.isLt]
  rfl

/-- A mantissa has at most 53 bits, and only those with the least exponent have fewer. -/
theorem mantissa_bounds {x : Float.Model} {sign : UnpackedFloat.Sign} {m : Nat} {e : Int}
    {hm : 0 < m} (h : x.unpack = .finite sign m e hm) :
    m < 2 * leadingBit ∧ (e = -1074 ∨ leadingBit ≤ m) := by
  unfold Float.Model.unpack UnpackedFloat.unpack at h
  dsimp only at h
  have hlt (v : BitVec 52) : v.toNat < leadingBit := v.isLt
  by_cases hspecial : @UnpackedFloat.unpackExponent .binary64 x.toBits.toBitVec = -1#11
  · rw [if_pos hspecial] at h
    by_cases hinfinite : @UnpackedFloat.unpackMantissa .binary64 x.toBits.toBitVec = 0#52
    · rw [if_pos hinfinite] at h
      cases h
    · rw [if_neg hinfinite] at h
      cases h
  rw [if_neg hspecial] at h
  by_cases hsubnormal : @UnpackedFloat.unpackExponent .binary64 x.toBits.toBitVec = 0#11
  · rw [if_pos hsubnormal] at h
    by_cases hzero : @UnpackedFloat.unpackMantissa .binary64 x.toBits.toBitVec = 0#52
    · rw [dif_pos hzero] at h
      cases h
    · rw [dif_neg hzero] at h
      injection h with _ hm he
      rw [hsubnormal] at he
      exact ⟨by have := hm ▸ hlt _; omega, .inl he.symm⟩
  · rw [if_neg hsubnormal] at h
    injection h with _ hm he
    have hsum := hm.symm.trans (toNat_one_append _)
    have := hlt (@UnpackedFloat.unpackMantissa .binary64 x.toBits.toBitVec)
    exact ⟨by omega, .inr (by omega)⟩

/-- Of two positive numbers the exponents decide first, then the mantissas. -/
theorem positive_lt_iff {m m' : Nat} {e e' : Int} {hm : 0 < m} {hm' : 0 < m'} :
    UnpackedFloat.compare (.finite .positive m e hm) (.finite .positive m' e' hm') = some .lt ↔
      e < e' ∨ e = e' ∧ m < m' := by
  change some ((compare e e').then (compare m m')) = some .lt ↔ _
  rw [Option.some_inj, Ordering.then_eq_lt, Int.compare_eq_lt, Int.compare_eq_eq,
    Nat.compare_eq_lt]

/-- The greatest number below one. -/
def belowOne : Float :=
  .ofNat 0x1fffffffffffff / .ofNat 0x20000000000000

theorem not_belowOne_lt {x : Float} (hx : x < 1) : ¬ belowOne < x := by
  have hone : (1 : Float).toModel.unpack = .finite .positive 0x10000000000000 (-52) (by decide) :=
    rfl
  have hbelow : belowOne.toModel.unpack =
      .finite .positive 0x1fffffffffffff (-53) (by decide) := rfl
  rw [lt_iff_compare, hone] at hx
  rw [lt_iff_compare, hbelow]
  cases h : x.toModel.unpack with
  | notANumber => exact nofun
  | zero sign => exact nofun
  | infinity sign =>
    cases sign with
    | negative => exact nofun
    | positive => rw [h] at hx; exact absurd hx nofun
  | finite sign m e hm =>
    cases sign with
    | negative => exact nofun
    | positive =>
      obtain ⟨hlt, hfull⟩ := mantissa_bounds h
      have hlead : leadingBit = 0x10000000000000 := rfl
      rw [h, positive_lt_iff] at hx
      rw [positive_lt_iff]
      omega

end SatWalk.Binary64
