import SatWalk.Decimal.Layout
import SatWalk.Decimal.Reading
import SatWalk.Proofs.Decimal.Shortest
import SatWalk.Proofs.Text.Numerals

/-! Written numbers read back. Every layout writes a decimal so that the reader finds its digits,
its point and its exponent again; hence its text tells its value, and with the sign the
number. So does the text with fixed places, up to the places that it drops. -/

namespace SatWalk.Decimal

open Text (writeNatural readDigits? readDigits?_eq_some_iff digit_of_mem_writeNatural
  digit_of_mem_padNatural ofDigitChars_padNatural le_length_padNatural
  writeNatural_ne_nil takeWhile_run dropWhile_run)

/-- The value of a number in text, without a sign. -/
def valueOf? (cs : List Char) : Option ℚ := do
  let (digits, places, rest) ← readMantissa? cs
  let exponent ← readExponent? rest
  return digits * 10 ^ (exponent - places)

/-! ### Mantissas -/

section Mantissa

variable {whole : List Char}

/-- Digits up to something else are a mantissa. -/
theorem readMantissa?_whole (rest : List Char) (hne : whole ≠ []) (hwhole : ∀ c ∈ whole, c.isDigit = true)
    (hrest : ∀ c ∈ rest.head?, c.isDigit = false ∧ c ≠ '.') :
    readMantissa? (whole ++ rest) = some (Nat.ofDigitChars 10 whole 0, 0, rest) := by
  have hstop : ∀ c ∈ rest.head?, c.isDigit = false := fun c hc => (hrest c hc).1
  have hdigits := readDigits?_eq_some_iff.2 ⟨hne, hwhole, rfl⟩
  unfold readMantissa?
  rw [takeWhile_run hwhole hstop, dropWhile_run hwhole hstop]
  dsimp only
  split
  · exact absurd rfl (hrest '.' rfl).2
  · simp [hdigits]

/-- So are digits on both sides of a point. -/
theorem readMantissa?_pointed (fraction rest : List Char) (hne : whole ≠ [])
    (hwhole : ∀ c ∈ whole, c.isDigit = true) (hfraction : ∀ c ∈ fraction, c.isDigit = true)
    (hrest : ∀ c ∈ rest.head?, c.isDigit = false) :
    readMantissa? (whole ++ '.' :: (fraction ++ rest)) =
      some (Nat.ofDigitChars 10 (whole ++ fraction) 0, fraction.length, rest) := by
  have hpoint : ∀ c ∈ ('.' :: (fraction ++ rest)).head?, c.isDigit = false := by simp
  have hdigits : readDigits? (whole ++ fraction) =
      some (Nat.ofDigitChars 10 (whole ++ fraction) 0) :=
    readDigits?_eq_some_iff.2 ⟨by simp [hne], List.forall_mem_append.2 ⟨hwhole, hfraction⟩, rfl⟩
  unfold readMantissa?
  rw [takeWhile_run hwhole hpoint, dropWhile_run hwhole hpoint]
  simp only
  rw [takeWhile_run hfraction hrest, dropWhile_run hfraction hrest, hdigits]
  rfl

theorem valueOf?_eq {cs rest : List Char} {n places : ℕ} {e : ℤ}
    (hmantissa : readMantissa? cs = some (n, places, rest)) (hexponent : readExponent? rest = some e) :
    valueOf? cs = some ((n : ℚ) * 10 ^ (e - places)) := by
  simp [valueOf?, hmantissa, hexponent]

end Mantissa

variable {digits : List Char}

/-- A point inside a run of digits. -/
theorem valueOf?_take_drop {places : ℕ} (hplaces : places < digits.length)
    (hdigits : ∀ c ∈ digits, c.isDigit = true) :
    valueOf? (digits.take (digits.length - places) ++ '.' :: digits.drop (digits.length - places)) =
      some ((Nat.ofDigitChars 10 digits 0 : ℚ) * 10 ^ (-places : ℤ)) := by
  have hne : digits.take (digits.length - places) ≠ [] :=
    List.ne_nil_of_length_pos (by rw [List.length_take]; omega)
  have hread := readMantissa?_pointed (digits.drop (digits.length - places)) [] hne
    (fun c hc => hdigits c (List.mem_of_mem_take hc))
    (fun c hc => hdigits c (List.mem_of_mem_drop hc)) (by simp)
  rw [List.append_nil] at hread
  rw [valueOf?_eq hread rfl, List.take_append_drop, List.length_drop]
  congr 3
  omega

/-! ### Layouts -/

theorem valueOf?_placedDigits (l : Layout) (hne : digits ≠ [])
    (hdigits : ∀ c ∈ digits, c.isDigit = true) (e : ℤ) :
    valueOf? (placedDigits l digits e) = some ((Nat.ofDigitChars 10 digits 0 : ℚ) * 10 ^ e) := by
  have hzeros (n : ℕ) : ∀ c ∈ List.replicate n '0', c.isDigit = true := fun c hc => by
    rw [(List.mem_replicate.1 hc).2]
    rfl
  unfold placedDigits
  split
  case isTrue hpos =>
    obtain ⟨n, rfl⟩ := Int.eq_ofNat_of_zero_le hpos
    have hrun : ∀ c ∈ digits ++ List.replicate n '0', c.isDigit = true :=
      List.forall_mem_append.2 ⟨hdigits, hzeros n⟩
    have hcount : Nat.ofDigitChars 10 (digits ++ List.replicate n '0') 0 =
        10 ^ n * Nat.ofDigitChars 10 digits 0 := by
      rw [Nat.ofDigitChars_append, Nat.ofDigitChars_replicate_zero]
    rw [Int.toNat_natCast]
    split
    · have hread := readMantissa?_pointed ['0'] [] (by simp [hne]) hrun
        (by simp) (by simp)
      rw [List.append_nil] at hread
      rw [valueOf?_eq hread rfl, Nat.ofDigitChars_append, hcount]
      simp [Nat.ofDigitChars_cons]
      ring
    · have hread := readMantissa?_whole [] (by simp [hne]) hrun (by simp)
      rw [valueOf?_eq hread rfl, hcount]
      simp [mul_comm]
  case isFalse hneg =>
    obtain ⟨places, hplaces⟩ := Int.eq_ofNat_of_zero_le (show 0 ≤ -e by omega)
    rw [hplaces, Int.toNat_natCast]
    dsimp only
    set padded := List.replicate (places + 1 - digits.length) '0' ++ digits with hpadded
    have hrun : ∀ c ∈ padded, c.isDigit = true :=
      List.forall_mem_append.2 ⟨hzeros _, hdigits⟩
    have hlong : places < padded.length := by
      rw [hpadded, List.length_append, List.length_replicate]
      omega
    have hcount : Nat.ofDigitChars 10 padded 0 = Nat.ofDigitChars 10 digits 0 := by
      rw [hpadded, Nat.ofDigitChars_append, Nat.ofDigitChars_replicate_zero, Nat.mul_zero]
    rw [valueOf?_take_drop hlong hrun, hcount, ← hplaces, neg_neg]

theorem readExponent?_write (z : ℤ) :
    readExponent? (['e'] ++ (if z < 0 then ['-'] else ['+']) ++ writeNatural z.natAbs) = some z := by
  have hdigits := Text.readDigits?_writeNatural z.natAbs
  split
  · change (readDigits? (writeNatural z.natAbs)).map (fun n => -Int.ofNat n) = some z
    rw [hdigits, Option.map_some, Option.some_inj, Int.ofNat_eq_natCast]
    omega
  · change (readDigits? (writeNatural z.natAbs)).map Int.ofNat = some z
    rw [hdigits, Option.map_some, Option.some_inj, Int.ofNat_eq_natCast]
    omega

theorem valueOf?_scientificDigits (hne : digits ≠ []) (hdigits : ∀ c ∈ digits, c.isDigit = true)
    (e : ℤ) :
    valueOf? (scientificDigits digits (e + digits.length - 1)) =
      some ((Nat.ofDigitChars 10 digits 0 : ℚ) * 10 ^ e) := by
  obtain ⟨d, rest, rfl⟩ := List.exists_cons_of_ne_nil hne
  rw [List.forall_mem_cons] at hdigits
  set leading : ℤ := e + (d :: rest).length - 1 with hleading
  have hmantissa : readMantissa? (scientificDigits (d :: rest) leading) =
      some (Nat.ofDigitChars 10 (d :: rest) 0, rest.length,
        ['e'] ++ (if leading < 0 then ['-'] else ['+']) ++ writeNatural leading.natAbs) := by
    have hd : ∀ c ∈ [d], c.isDigit = true := List.forall_mem_singleton.2 hdigits.1
    unfold scientificDigits
    dsimp only [List.drop_one, List.tail_cons, List.take_one, List.head?_cons, Option.toList_some]
    split
    case isTrue hnil =>
      subst hnil
      exact readMantissa?_whole _ (by simp) hd (by simp)
    case isFalse hmore =>
      have hread := readMantissa?_pointed rest (['e'] ++ (if leading < 0 then ['-'] else ['+']) ++
        writeNatural leading.natAbs) (by simp) hd hdigits.2 (by simp)
      simpa using hread
  rw [valueOf?_eq hmantissa (readExponent?_write leading), hleading, List.length_cons]
  congr 3
  push_cast
  ring

/-- Every layout keeps the value. -/
theorem valueOf?_magnitude (l : Layout) (d : Decimal) : valueOf? (l.magnitude d) = some d.value := by
  have hne := writeNatural_ne_nil d.digits
  have hdigits : ∀ c ∈ writeNatural d.digits, c.isDigit = true := fun _ =>
    digit_of_mem_writeNatural
  have hcount : Nat.ofDigitChars 10 (writeNatural d.digits) 0 = d.digits :=
    Nat.ofDigitChars_ten_toDigits
  unfold Layout.magnitude
  dsimp only
  split
  · rw [valueOf?_placedDigits l hne hdigits, hcount, value]
  · rw [valueOf?_scientificDigits hne hdigits, hcount, value]

/-! ### Characters -/

/-- The characters of numbers in text. -/
def isNumeral (c : Char) : Bool :=
  c.isDigit || c ∈ ['-', '+', '.', 'e']

theorem isNumeral_of_isDigit {c : Char} (h : c.isDigit = true) : isNumeral c = true := by
  simp [isNumeral, h]

theorem isNumeral_of_mem_magnitude {l : Layout} {d : Decimal} :
    ∀ c ∈ l.magnitude d, isNumeral c = true := by
  have hdigits : ∀ n, ∀ c ∈ writeNatural n, isNumeral c = true := fun n c hc =>
    isNumeral_of_isDigit (digit_of_mem_writeNatural hc)
  have hzeros : ∀ n, ∀ c ∈ List.replicate n '0', isNumeral c = true := fun n c hc => by
    rw [(List.mem_replicate.1 hc).2]
    rfl
  unfold Layout.magnitude
  dsimp only
  have hrun := hdigits d.digits
  generalize writeNatural d.digits = run at *
  split
  · unfold placedDigits
    split
    · refine List.forall_mem_append.2 ⟨List.forall_mem_append.2 ⟨hrun, hzeros _⟩, ?_⟩
      split
      · exact List.forall_mem_cons.2 ⟨rfl, List.forall_mem_singleton.2 rfl⟩
      · exact fun _ => nofun
    · dsimp only
      have hpadded := List.forall_mem_append.2 ⟨hzeros ((-d.exponent).toNat + 1 - run.length), hrun⟩
      refine List.forall_mem_append.2 ⟨fun c hc => hpadded c (List.mem_of_mem_take hc), ?_⟩
      exact List.forall_mem_cons.2 ⟨rfl, fun c hc => hpadded c (List.mem_of_mem_drop hc)⟩
  · unfold scientificDigits
    dsimp only
    refine List.forall_mem_append.2 ⟨List.forall_mem_append.2 ⟨List.forall_mem_append.2
      ⟨List.forall_mem_append.2 ⟨fun c hc => hrun c (List.mem_of_mem_take hc), ?_⟩,
        List.forall_mem_singleton.2 rfl⟩, ?_⟩, hdigits _⟩
    · split
      · exact fun _ => nofun
      · exact List.forall_mem_cons.2 ⟨rfl, fun c hc => hrun c (List.mem_of_mem_drop hc)⟩
    · split <;> exact List.forall_mem_singleton.2 rfl

theorem isNaN_of_isFinite {x : Float} (h : x.isFinite) : x.isNaN = false := by
  change x.toModel.unpack.isFinite = true at h
  change x.toModel.unpack.isNaN = false
  generalize x.toModel.unpack = u at *
  cases u <;> first | rfl | cases h

theorem isNumeral_of_mem_write {l : Layout} {x : Float} (h : x.isFinite) :
    ∀ c ∈ l.write x, isNumeral c = true := by
  simp only [Layout.write, isNaN_of_isFinite h, h, if_true, Bool.false_eq_true, if_false]
  refine List.forall_mem_append.2 ⟨?_, isNumeral_of_mem_magnitude⟩
  split
  · exact List.forall_mem_singleton.2 rfl
  · exact fun _ => nofun

/-- Where whole numbers end in a point, no number has digits only. -/
theorem not_isDigit_mem_magnitude {l : Layout} (hl : l.pointed = true) (d : Decimal) :
    '.' ∈ l.magnitude d ∨ 'e' ∈ l.magnitude d := by
  unfold Layout.magnitude
  dsimp only
  split
  · left
    unfold placedDigits
    rw [hl]
    split <;> simp
  · right
    simp [scientificDigits]

/-! ### Signs -/

theorem valueOf?_minus (cs : List Char) : valueOf? ('-' :: cs) = none :=
  rfl

/-- A sign stands before the text of a number exactly if both signs do. -/
theorem signed_inj {n n' : Bool} {cs cs' : List Char} (hcs : (valueOf? cs).isSome)
    (hcs' : (valueOf? cs').isSome)
    (h : (if n then ['-'] else []) ++ cs = (if n' then ['-'] else []) ++ cs') : n = n' ∧ cs = cs' := by
  cases n <;> cases n'
  · exact ⟨rfl, h⟩
  · rw [show cs = '-' :: cs' from h, valueOf?_minus] at hcs
    cases hcs
  · rw [show cs' = '-' :: cs from h.symm, valueOf?_minus] at hcs'
    cases hcs'
  · exact ⟨rfl, List.cons_injective h⟩

theorem write_ne_nil (l : Layout) {x : Float} (h : x.isFinite) : l.write x ≠ [] := by
  have hread := valueOf?_magnitude l (shortest l.tie x)
  simp only [Layout.write, isNaN_of_isFinite h, h, if_true, Bool.false_eq_true, if_false]
  intro hnil
  rw [(List.append_eq_nil_iff.1 hnil).2] at hread
  cases hread

/-- A layout writes different finite numbers differently. -/
theorem write_inj (l : Layout) {x y : Float} (hx : x.isFinite) (hy : y.isFinite)
    (h : l.write x = l.write y) : x = y := by
  have hread (t : Tie) (x : Float) := valueOf?_magnitude l (shortest t x)
  simp only [Layout.write, isNaN_of_isFinite hx, isNaN_of_isFinite hy, hx, hy, if_true,
    Bool.false_eq_true, if_false] at h
  obtain ⟨hsign, htext⟩ := signed_inj (by rw [hread]; rfl) (by rw [hread]; rfl) h
  have hvalue : some (shortest l.tie x).value = some (shortest l.tie y).value := by
    rw [← hread, ← hread, htext]
  exact Binary64.eq_of_magnitude_eq hsign
    (magnitude_eq_of_shortest hx hy (Option.some.inj hvalue))

/-! ### Fixed places -/

/-- The size of a number in units of the last of its places, rounded. -/
def fixedSize (places : ℕ) (x : Float) : ℕ :=
  roundEven ((Binary64.magnitude x).ratio.1 * Nat.pow 10 places) (Binary64.magnitude x).ratio.2

/-- What stands after the sign of a finite number with fixed places. -/
def fixedText (places : ℕ) (x : Float) : List Char :=
  let digits := Text.padNatural (places + 1) (fixedSize places x)
  digits.take (digits.length - places) ++
    if places = 0 then [] else '.' :: digits.drop (digits.length - places)

theorem fixed_eq {places : ℕ} {x : Float} (h : x.isFinite) :
    fixed places x = (if Binary64.isNegative x then ['-'] else []) ++ fixedText places x := by
  simp only [fixed, isNaN_of_isFinite h, h, if_true, Bool.false_eq_true, if_false]
  rfl

theorem isNumeral_of_mem_fixedText {places : ℕ} {x : Float} :
    ∀ c ∈ fixedText places x, isNumeral c = true := by
  have hrun : ∀ c ∈ Text.padNatural (places + 1) (fixedSize places x), isNumeral c = true :=
    fun c hc => isNumeral_of_isDigit (digit_of_mem_padNatural hc)
  refine List.forall_mem_append.2 ⟨fun c hc => hrun c (List.mem_of_mem_take hc), ?_⟩
  split
  · exact fun _ => nofun
  · exact List.forall_mem_cons.2 ⟨rfl, fun c hc => hrun c (List.mem_of_mem_drop hc)⟩

theorem valueOf?_fixedText (places : ℕ) (x : Float) :
    valueOf? (fixedText places x) = some ((fixedSize places x : ℚ) * 10 ^ (-places : ℤ)) := by
  have hlength := le_length_padNatural (places + 1) (fixedSize places x)
  have hcount := ofDigitChars_padNatural (places + 1) (fixedSize places x)
  have hrun : ∀ c ∈ Text.padNatural (places + 1) (fixedSize places x), c.isDigit = true :=
    fun _ => digit_of_mem_padNatural
  unfold fixedText
  generalize Text.padNatural (places + 1) (fixedSize places x) = digits at *
  dsimp only
  split
  case isTrue hzero =>
    subst hzero
    have hread := readMantissa?_whole [] (List.ne_nil_of_length_pos hlength) hrun (by simp)
    rw [Nat.sub_zero, List.take_length, valueOf?_eq hread rfl, hcount]
    simp
  case isFalse hpos =>
    rw [valueOf?_take_drop hlength hrun, hcount]

end SatWalk.Decimal
