import SatWalk.Proofs.Experiment.Grid
import SatWalk.Proofs.Json.Canonical

/-! The text whose digest seeds a run tells the run. It starts with the settings, whose canonical
text tells where it ends; and it ends with the probability and the trial, neither of which
has a bar in it. So what stands between is the name of the instance, bars or not. -/

namespace SatWalk.Experiment.Config

open Binary64
open Json (EndsNumber)
open Decimal (fixed fixedSize)
open Text (takeWhile_run dropWhile_run)

/-! ### Settings -/

theorem eq_of_not_finite {x y : Float} (hx : 0 < x) (hy : 0 < y) (hfx : ¬ x.isFinite)
    (hfy : ¬ y.isFinite) : x = y := by
  have hparts {x : Float} (hx : 0 < x) (hfx : ¬ x.isFinite) :
      isNegative x = false ∧ magnitude x = .overflow := by
    have hzero := zero_le_of_pos hx
    have hsize := (eq_overflow hzero hfx).2
    refine ⟨Bool.eq_false_iff.2 fun hneg => ?_, hsize⟩
    rw [eq_zero_of_isNegative hzero hneg] at hsize
    exact absurd hsize (by decide)
  obtain ⟨hsx, hmx⟩ := hparts hx hfx
  obtain ⟨hsy, hmy⟩ := hparts hy hfy
  exact eq_of_magnitude_eq (hsx.trans hsy.symm) (hmx.trans hmy.symm)

theorem name_injective {t t' : TrackerKind} (h : t.name = t'.name) : t = t' := by
  cases t <;> cases t' <;> first | rfl | exact absurd h (by decide)

/-- The only number in accepted settings that may lack a value is an infinite step. -/
theorem tells_codec {c c' : Config} (hc : c.Valid) (hc' : c'.Valid) : codec.Tells c c' := by
  have hunit {x y : Float} (hx : inUnit x) : Json.Codec.float.Tells x y :=
    Json.tells_float fun h => absurd (finite_of_le_one hx) h
  refine Json.tells_record (by decide) ⟨hunit hc.start_unit, hunit hc.end_unit,
    Json.tells_float (eq_of_not_finite hc.step_pos hc'.step_pos), Json.tells_count _ _ _,
    Json.tells_count _ _ _, Json.tells_boolean _ _, Json.tells_boolean _ _,
    Json.tells_choice fun h => ?_, Json.tells_count _ _ _, Json.tells_string _ _,
    Json.tells_optional (by rintro _ ⟨⟩) Json.tells_string,
    Json.tells_optional (by rintro _ ⟨⟩) (Json.tells_count _), trivial⟩ fun h => ?_
  · exact name_injective h
  · cases c
    cases c'
    simp only [Prod.mk.injEq] at h
    obtain ⟨rfl, rfl, rfl, rfl, rfl, rfl, rfl, rfl, rfl, rfl, rfl, rfl, -⟩ := h
    rfl

/-! ### Probabilities -/

/-- With two places a hundredth is written exactly. -/
theorem fixedSize_hundredth :
    ∀ k ≤ 100, fixedSize 2 (.ofNat k / 100) = k := by
  decide +kernel

theorem Hundredth.eq_of_fixed {p q : Float} (hp : Hundredth p) (hq : Hundredth q)
    (h : fixed 2 p = fixed 2 q) : p = q := by
  have hfp := finite_of_le_one ⟨hp.zero_le, hp.le_one⟩
  have hfq := finite_of_le_one ⟨hq.zero_le, hq.le_one⟩
  have hread (x : Float) := Decimal.valueOf?_fixedText 2 x
  rw [Decimal.fixed_eq hfp, Decimal.fixed_eq hfq] at h
  obtain ⟨hsign, htext⟩ := Decimal.signed_inj (by rw [hread]; rfl) (by rw [hread]; rfl) h
  have hsize : fixedSize 2 p = fixedSize 2 q := by
    have hvalue := (hread p).symm.trans (htext ▸ hread q)
    simpa using hvalue
  obtain ⟨k, hk, hmp⟩ := hp.exists_count
  obtain ⟨l, hl, hmq⟩ := hq.exists_count
  have hpk : fixedSize 2 p = k := by
    rw [← fixedSize_hundredth k hk, fixedSize, hmp, fixedSize]
  have hql : fixedSize 2 q = l := by
    rw [← fixedSize_hundredth l hl, fixedSize, hmq, fixedSize]
  have hkl : k = l := by rw [← hpk, hsize, hql]
  exact eq_of_magnitude_eq hsign (by rw [hmp, hmq, hkl])

theorem Hundredth.bar_not_mem {p : Float} (hp : Hundredth p) : '|' ∉ fixed 2 p := by
  rw [Decimal.fixed_eq (finite_of_le_one ⟨hp.zero_le, hp.le_one⟩)]
  intro hmem
  rcases List.mem_append.1 hmem with hsign | htext
  · split at hsign <;> simp at hsign
  · exact absurd (Decimal.isNumeral_of_mem_fixedText _ htext) (by decide)

/-! ### Keys -/

/-- The last of several marks is told by what stands after it. -/
theorem eq_of_last_mark {α : Type} [DecidableEq α] {mark : α} {xs xs' ys ys' : List α}
    (hys : mark ∉ ys) (hys' : mark ∉ ys') (h : xs ++ mark :: ys = xs' ++ mark :: ys') :
    xs = xs' ∧ ys = ys' := by
  have hrun {ys : List α} (hys : mark ∉ ys) : ∀ c ∈ ys.reverse, (c != mark) = true := fun c hc =>
    bne_iff_ne.2 fun heq => hys (heq ▸ List.mem_reverse.1 hc)
  have hstop (xs : List α) : ∀ c ∈ (mark :: xs.reverse).head?, (c != mark) = false := by
    rintro c ⟨⟩
    exact bne_self_eq_false mark
  have hrev := congrArg List.reverse h
  simp only [List.reverse_append, List.reverse_cons, List.append_assoc, List.singleton_append] at hrev
  have htake := congrArg (List.takeWhile (· != mark)) hrev
  have hdrop := congrArg (List.dropWhile (· != mark)) hrev
  rw [takeWhile_run (hrun hys) (hstop xs), takeWhile_run (hrun hys') (hstop xs')] at htake
  rw [dropWhile_run (hrun hys) (hstop xs), dropWhile_run (hrun hys') (hstop xs')] at hdrop
  exact ⟨List.reverse_injective (List.cons_injective hdrop), List.reverse_injective htake⟩

theorem toList_seedKey (c : Config) (inst : String) (p : Float) (trial : ℕ) :
    (c.seedKey inst p trial).toList = (codec.write c).toList ++
      '|' :: ((inst.toList ++ '|' :: fixed 2 p) ++ '|' :: Nat.toDigits 10 trial) := by
  simp [seedKey, Nat.toList_repr]

theorem seedKey_inj {c c' : Config} {inst inst' : String} {p p' : Float} {trial trial' : ℕ}
    {grid grid' : List Float} (hc : c.validate = .ok ()) (hc' : c'.validate = .ok ())
    (hgrid : c.pValues = .ok grid) (hgrid' : c'.pValues = .ok grid') (hp : p ∈ grid)
    (hp' : p' ∈ grid') (h : c.seedKey inst p trial = c'.seedKey inst' p' trial') :
    c = c' ∧ inst = inst' ∧ p = p' ∧ trial = trial' := by
  rw [validate_eq_ok_iff] at hc hc'
  have hhundredth := (grid_of_pValues hc hgrid).hundredth p hp
  have hhundredth' := (grid_of_pValues hc' hgrid').hundredth p' hp'
  rw [← String.toList_inj, toList_seedKey, toList_seedKey] at h
  obtain ⟨rfl, htail⟩ := Json.Codec.write_append_inj (tells_codec hc hc')
    (by rintro c ⟨⟩; rfl) (by rintro c ⟨⟩; rfl) h
  have hdigits (n : ℕ) : '|' ∉ Nat.toDigits 10 n := fun hmem =>
    absurd (Text.digit_of_mem_writeNatural hmem) (by decide)
  obtain ⟨hhead, htrial⟩ := eq_of_last_mark (hdigits trial) (hdigits trial')
    (List.cons_injective htail)
  obtain ⟨hinst, hprobability⟩ := eq_of_last_mark hhundredth.bar_not_mem hhundredth'.bar_not_mem hhead
  refine ⟨rfl, String.toList_inj.1 hinst, hhundredth.eq_of_fixed hhundredth' hprobability, ?_⟩
  have hread := congrArg (Nat.ofDigitChars 10 · 0) htrial
  simpa only [Nat.ofDigitChars_ten_toDigits] using hread

/-- A name of an instance that looks like the end of a key. -/
theorem seedKey_inj_barred :
    Config.validate { pStart := 0.5, pEnd := 0.5 } = .ok () ∧
      Config.pValues { pStart := 0.5, pEnd := 0.5 } = .ok [0.5] ∧
      seedKey { pStart := 0.5, pEnd := 0.5 } "a|0.50" 0.5 1 =
        seedKey { pStart := 0.5, pEnd := 1 / 2 } ("a|" ++ "0.50") 0.5 1 ∧
      ({ pStart := 0.5, pEnd := 0.5 } : Config) = { pStart := 0.5, pEnd := 1 / 2 } ∧
      "a|0.50" = "a|" ++ "0.50" := by
  have hc : Config.validate { pStart := 0.5, pEnd := 0.5 } = .ok () := by decide +kernel
  have hgrid : Config.pValues { pStart := 0.5, pEnd := 0.5 } = .ok [0.5] :=
    pValues_single hc (by decide +kernel) (by decide +kernel)
  have hend : (1 / 2 : Float) = 0.5 := by decide +kernel
  have hkey : seedKey { pStart := 0.5, pEnd := 0.5 } "a|0.50" 0.5 1 =
      seedKey { pStart := 0.5, pEnd := 1 / 2 } ("a|" ++ "0.50") 0.5 1 := by
    rw [hend]
    rfl
  obtain ⟨hconfig, hinst, -⟩ := seedKey_inj hc (by rwa [hend]) hgrid (by rwa [hend])
    List.mem_cons_self List.mem_cons_self hkey
  exact ⟨hc, hgrid, hkey, hconfig, hinst⟩

end SatWalk.Experiment.Config
