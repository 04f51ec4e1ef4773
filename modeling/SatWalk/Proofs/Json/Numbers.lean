import SatWalk.Fault
import SatWalk.Json.Codec
import SatWalk.Proofs.Json.Printer

/-! Numbers read back. A number ends where something follows that cannot belong to it, so it is read
the same whether the text goes on or not. Whole numbers of up to 64 bits are read exactly; for other
numbers it is a property of each whether its text is read as it. -/

namespace SatWalk.Json

open Text (takeWhile_run dropWhile_run)

/-! ### What may follow a value -/

namespace Delimits

variable {rest : List Char} (h : Delimits rest)
include h

theorem ne {c d : Char} (hc : c ∈ rest.head?) (hspace : isSpace d = false)
    (hmark : d ≠ ',' ∧ d ≠ ']' ∧ d ≠ '\x7d') : c ≠ d := by
  rintro rfl
  rcases h c hc with hc | hc | hc | hc
  · rw [hspace] at hc
    contradiction
  · exact hmark.1 hc
  · exact hmark.2.1 hc
  · exact hmark.2.2 hc

theorem not_isDigit {c : Char} (hc : c ∈ rest.head?) : c.isDigit = false := by
  rcases h c hc with hc | rfl | rfl | rfl
  · simp only [isSpace, Bool.or_eq_true, decide_eq_true_eq] at hc
    rcases hc with ((rfl | rfl) | rfl) | rfl <;> rfl
  all_goals rfl

theorem takeWhile_digits (cs : List Char) :
    (cs ++ rest).takeWhile Char.isDigit = cs.takeWhile Char.isDigit := by
  induction cs with
  | nil =>
    cases rest with
    | nil => rfl
    | cons c rest => exact List.takeWhile_cons_of_neg (by rw [h.not_isDigit rfl]; decide)
  | cons c cs ih =>
    rw [List.cons_append, List.takeWhile_cons, List.takeWhile_cons, ih]

theorem dropWhile_digits (cs : List Char) :
    (cs ++ rest).dropWhile Char.isDigit = cs.dropWhile Char.isDigit ++ rest := by
  induction cs with
  | nil =>
    cases rest with
    | nil => rfl
    | cons c rest => exact List.dropWhile_cons_of_neg (by rw [h.not_isDigit rfl]; decide)
  | cons c cs ih =>
    rw [List.cons_append, List.dropWhile_cons, List.dropWhile_cons, ih]
    split_ifs <;> rfl

end Delimits

/-! ### What follows a number -/

variable {α : Type}

/-- What is read does not change when something follows that may follow a value. -/
def Steady (r : Reader α) : Prop :=
  ∀ {cs x left rest}, r cs = .ok (x, left) → Delimits rest → r (cs ++ rest) = .ok (x, left ++ rest)

theorem steady_readWhole : Steady readWhole := by
  intro cs ds left rest h hrest
  cases cs with
  | nil => cases h
  | cons c cs =>
    rw [List.cons_append]
    unfold readWhole at h ⊢
    dsimp only at h ⊢
    split_ifs at h ⊢ with hzero hdigit
    · cases cs with
      | nil =>
        cases h
        cases rest with
        | nil => rfl
        | cons d rest => exact if_neg (by rw [hrest.not_isDigit rfl]; decide)
      | cons d cs =>
        dsimp only at h
        split_ifs at h with hd
        cases h
        exact if_neg hd
    · cases h
      rw [hrest.takeWhile_digits, hrest.dropWhile_digits]

theorem readFraction_of_ne {cs : List Char} (h : ∀ c ∈ cs.head?, c ≠ '.') :
    readFraction cs = .ok (none, cs) := by
  unfold readFraction
  split
  · exact absurd rfl (h '.' rfl)
  · rfl

theorem steady_readFraction : Steady readFraction := by
  intro cs ds left rest h hrest
  cases cs with
  | nil =>
    cases h
    exact readFraction_of_ne fun c hc => hrest.ne hc rfl (by decide)
  | cons c cs =>
    by_cases hc : c = '.'
    · subst hc
      cases cs with
      | nil => cases h
      | cons d cs =>
        simp only [readFraction] at h
        rw [List.cons_append, List.cons_append]
        simp only [readFraction]
        split_ifs at h ⊢
        cases h
        rw [← List.cons_append, hrest.takeWhile_digits, hrest.dropWhile_digits]
    · rw [readFraction_of_ne (by rintro _ ⟨⟩; exact hc)] at h
      cases h
      exact readFraction_of_ne (by rintro _ ⟨⟩; exact hc)

/-- The sign that an exponent may have. -/
def exponentSign : List Char → Bool × List Char
  | '-' :: rest => (true, rest)
  | '+' :: rest => (false, rest)
  | rest => (false, rest)

/-- The digits of an exponent. -/
def readExponentDigits (negative : Bool) : Reader (Option Int)
  | [] => .error .truncated
  | d :: rest =>
    if d.isDigit then
      let n := Nat.ofDigitChars 10 ((d :: rest).takeWhile Char.isDigit) 0
      .ok (some (if negative then -n else n), rest.dropWhile Char.isDigit)
    else .error .malformed

theorem readExponent_cons {c : Char} (h : c = 'e' ∨ c = 'E') (cs : List Char) :
    readExponent (c :: cs) = readExponentDigits (exponentSign cs).1 (exponentSign cs).2 :=
  if_pos h

theorem readExponent_of_ne {cs : List Char} (h : ∀ c ∈ cs.head?, c ≠ 'e' ∧ c ≠ 'E') :
    readExponent cs = .ok (none, cs) := by
  cases cs with
  | nil => rfl
  | cons c cs => exact if_neg (not_or.2 (h c rfl))

theorem exponentSign_append {cs : List Char} (h : cs ≠ []) (rest : List Char) :
    exponentSign (cs ++ rest) = ((exponentSign cs).1, (exponentSign cs).2 ++ rest) := by
  obtain ⟨c, cs, rfl⟩ := List.exists_cons_of_ne_nil h
  by_cases hminus : c = '-'
  · subst hminus
    rfl
  · by_cases hplus : c = '+'
    · subst hplus
      rfl
    · have hnone (rest : List Char) : exponentSign (c :: rest) = (false, c :: rest) := by
        unfold exponentSign
        split
        · next heq => exact absurd (List.cons.inj heq).1 hminus
        · next heq => exact absurd (List.cons.inj heq).1 hplus
        · rfl
      rw [List.cons_append, hnone, hnone]
      rfl

theorem steady_readExponentDigits (negative : Bool) : Steady (readExponentDigits negative) := by
  intro cs e left rest h hrest
  cases cs with
  | nil => cases h
  | cons d cs =>
    rw [List.cons_append]
    simp only [readExponentDigits] at h ⊢
    rw [← List.cons_append, hrest.takeWhile_digits, hrest.dropWhile_digits]
    split_ifs at h ⊢ <;> cases h <;> rfl

theorem steady_readExponent : Steady readExponent := by
  intro cs e left rest h hrest
  cases cs with
  | nil =>
    cases h
    exact readExponent_of_ne fun c hc =>
      ⟨hrest.ne hc rfl (by decide), hrest.ne hc rfl (by decide)⟩
  | cons c cs =>
    by_cases hc : c = 'e' ∨ c = 'E'
    · rw [readExponent_cons hc] at h
      have hne : cs ≠ [] := by
        rintro rfl
        cases h
      rw [List.cons_append, readExponent_cons hc, exponentSign_append hne]
      exact steady_readExponentDigits _ h hrest
    · rw [readExponent_of_ne (by rintro _ ⟨⟩; exact not_or.1 hc)] at h
      cases h
      exact readExponent_of_ne (by rintro _ ⟨⟩; exact not_or.1 hc)

theorem steady_readUnsigned (negative : Bool) : Steady (readUnsigned negative) := by
  intro cs n left rest h hrest
  obtain ⟨⟨whole, cs₁⟩, hwhole, h⟩ := Checked.bind_eq_ok_iff.1 h
  obtain ⟨⟨fraction, cs₂⟩, hfraction, h⟩ := Checked.bind_eq_ok_iff.1 h
  obtain ⟨⟨exponent, cs₃⟩, hexponent, h⟩ := Checked.bind_eq_ok_iff.1 h
  refine Checked.bind_eq_ok_iff.2 ⟨_, steady_readWhole hwhole hrest, ?_⟩
  refine Checked.bind_eq_ok_iff.2 ⟨_, steady_readFraction hfraction hrest, ?_⟩
  refine Checked.bind_eq_ok_iff.2 ⟨_, steady_readExponent hexponent hrest, ?_⟩
  dsimp only at h ⊢
  split_ifs at h ⊢
  · obtain ⟨n', hn, h⟩ := Checked.bind_eq_ok_iff.1 h
    cases h
    exact Checked.bind_eq_ok_iff.2 ⟨_, hn, rfl⟩
  · obtain ⟨n', hn, h⟩ := Checked.bind_eq_ok_iff.1 h
    cases h
    exact Checked.bind_eq_ok_iff.2 ⟨_, hn, rfl⟩

theorem readNumber_of_ne {cs : List Char} (h : ∀ c ∈ cs.head?, c ≠ '-') :
    readNumber cs = readUnsigned false cs := by
  unfold readNumber
  split
  · exact absurd rfl (h '-' rfl)
  · rfl

theorem steady_readNumber : Steady readNumber := by
  intro cs n left rest h hrest
  cases cs with
  | nil => cases h
  | cons c cs =>
    by_cases hc : c = '-'
    · subst hc
      exact steady_readUnsigned true h hrest
    · rw [readNumber_of_ne (by rintro _ ⟨⟩; exact hc)] at h
      rw [List.cons_append, readNumber_of_ne (by rintro _ ⟨⟩; exact hc)]
      exact steady_readUnsigned false h hrest

/-! ### What is left of the text -/

/-- What is left stood at the end of the text. -/
def Leaves (r : Reader α) : Prop :=
  ∀ {cs x left}, r cs = .ok (x, left) → left <:+ cs

theorem leaves_readWhole : Leaves readWhole := by
  intro cs ds left h
  cases cs with
  | nil => cases h
  | cons c cs =>
    unfold readWhole at h
    dsimp only at h
    split_ifs at h
    · cases cs with
      | nil =>
        cases h
        exact List.suffix_cons c []
      | cons d cs =>
        dsimp only at h
        split_ifs at h
        cases h
        exact List.suffix_cons c _
    · cases h
      exact (List.dropWhile_suffix _).trans (List.suffix_cons c cs)

theorem leaves_readFraction : Leaves readFraction := by
  intro cs ds left h
  unfold readFraction at h
  split at h
  · next cs =>
    cases cs with
    | nil => cases h
    | cons d cs =>
      dsimp only at h
      split_ifs at h
      cases h
      exact (List.dropWhile_suffix _).trans (List.suffix_cons '.' _)
  · cases h
    exact List.suffix_rfl

theorem exponentSign_suffix (cs : List Char) : (exponentSign cs).2 <:+ cs := by
  unfold exponentSign
  split
  · exact List.suffix_cons '-' _
  · exact List.suffix_cons '+' _
  · exact List.suffix_rfl

theorem leaves_readExponent : Leaves readExponent := by
  intro cs e left h
  cases cs with
  | nil =>
    cases h
    exact List.suffix_rfl
  | cons c cs =>
    by_cases hc : c = 'e' ∨ c = 'E'
    · rw [readExponent_cons hc] at h
      have hdigits : left <:+ (exponentSign cs).2 := by
        cases hsign : (exponentSign cs).2 with
        | nil =>
          rw [hsign] at h
          cases h
        | cons d ds =>
          rw [hsign, readExponentDigits] at h
          split_ifs at h <;> cases h <;>
            exact (List.dropWhile_suffix _).trans (List.suffix_cons d ds)
      exact (hdigits.trans (exponentSign_suffix cs)).trans (List.suffix_cons c cs)
    · rw [readExponent_of_ne (by rintro _ ⟨⟩; exact not_or.1 hc)] at h
      cases h
      exact List.suffix_rfl

theorem leaves_readUnsigned (negative : Bool) : Leaves (readUnsigned negative) := by
  intro cs n left h
  obtain ⟨⟨whole, cs₁⟩, hwhole, h⟩ := Checked.bind_eq_ok_iff.1 h
  obtain ⟨⟨fraction, cs₂⟩, hfraction, h⟩ := Checked.bind_eq_ok_iff.1 h
  obtain ⟨⟨exponent, cs₃⟩, hexponent, h⟩ := Checked.bind_eq_ok_iff.1 h
  have hleft : left = cs₃ := by
    dsimp only at h
    split_ifs at h
    · obtain ⟨_, -, h⟩ := Checked.bind_eq_ok_iff.1 h
      cases h
      rfl
    · obtain ⟨_, -, h⟩ := Checked.bind_eq_ok_iff.1 h
      cases h
      rfl
  rw [hleft]
  exact ((leaves_readExponent hexponent).trans (leaves_readFraction hfraction)).trans
    (leaves_readWhole hwhole)

theorem leaves_readNumber : Leaves readNumber := by
  intro cs n left h
  cases cs with
  | nil => cases h
  | cons c cs =>
    by_cases hc : c = '-'
    · subst hc
      exact (leaves_readUnsigned true h).trans (List.suffix_cons '-' cs)
    · rw [readNumber_of_ne (by rintro _ ⟨⟩; exact hc)] at h
      exact leaves_readUnsigned false h

/-! ### Whole numbers -/

theorem le_ofDigitChars (n : ℕ) (cs : List Char) : n ≤ Nat.ofDigitChars 10 cs n := by
  induction cs generalizing n with
  | nil => exact le_rfl
  | cons c cs ih =>
    rw [Nat.ofDigitChars_cons]
    have := ih (10 * n + (c.toNat - '0'.toNat))
    omega

/-- All digits of a number of up to 64 bits are read. -/
theorem appendDigits_eq {n : ℕ} {cs : List Char} (h : Nat.ofDigitChars 10 cs n < Text.countBound) :
    appendDigits n cs = (Nat.ofDigitChars 10 cs n, []) := by
  induction cs generalizing n with
  | nil => rfl
  | cons c cs ih =>
    rw [Nat.ofDigitChars_cons] at h ⊢
    have hlt : 10 * n + digitValue c < Text.countBound := lt_of_le_of_lt (le_ofDigitChars _ cs) h
    rw [appendDigits, if_pos hlt]
    exact ih h

/-- A number does not start with a zero unless it is zero. -/
theorem head?_writeNatural {n : ℕ} (hn : 0 < n) : (Text.writeNatural n).head? ≠ some '0' := by
  have hsmall : ∀ n < 10, 0 < n → Nat.digitChar n ≠ '0' := by decide
  induction n using Nat.strong_induction_on with
  | _ n ih =>
    unfold Text.writeNatural
    by_cases hlt : n < 10
    · rw [Nat.toDigits_of_lt_base hlt]
      exact fun h => hsmall n hlt hn (Option.some.inj h)
    · have hdiv : 0 < n / 10 := by omega
      have hhead := ih (n / 10) (by omega) hdiv
      rw [Nat.toDigits_of_base_le (by decide) (by omega), List.head?_append]
      obtain ⟨c, cs, hcs⟩ := List.exists_cons_of_ne_nil (Text.writeNatural_ne_nil (n / 10))
      unfold Text.writeNatural at hcs hhead
      rw [hcs] at hhead ⊢
      exact hhead

theorem writeNatural_eq_cons {n : ℕ} {c : Char} {cs : List Char}
    (h : Text.writeNatural n = c :: cs) :
    c.isDigit = true ∧ (c = '0' → cs = []) := by
  refine ⟨Text.digit_of_mem_writeNatural (h ▸ List.mem_cons_self), ?_⟩
  rintro rfl
  rcases Nat.eq_zero_or_pos n with rfl | hn
  · cases h
    rfl
  · exact absurd (h ▸ rfl) (head?_writeNatural hn)

theorem readWhole_writeNatural (n : ℕ) :
    readWhole (Text.writeNatural n) = .ok (Text.writeNatural n, []) := by
  obtain ⟨c, cs, h⟩ := List.exists_cons_of_ne_nil (Text.writeNatural_ne_nil n)
  obtain ⟨hdigit, hzero⟩ := writeNatural_eq_cons h
  have hcs : ∀ d ∈ cs, d.isDigit = true := fun d hd =>
    Text.digit_of_mem_writeNatural (h ▸ List.mem_cons_of_mem c hd)
  have hnil : ∀ d ∈ ([] : List Char).head?, Char.isDigit d = false := by simp
  have htake := takeWhile_run hcs hnil
  have hdrop := dropWhile_run hcs hnil
  rw [List.append_nil] at htake hdrop
  rw [h]
  unfold readWhole
  dsimp only
  split_ifs with hc
  · rw [hc, hzero hc]
  · rw [htake, hdrop]

theorem readUnsigned_writeNatural {n : ℕ} (h : n < Text.countBound) (negative : Bool) :
    readUnsigned negative (Text.writeNatural n) =
      wholeNumber negative n >>= fun m => .ok (m, []) := by
  have hcount : Nat.ofDigitChars 10 (Text.writeNatural n) 0 = n := Nat.ofDigitChars_ten_toDigits
  have happend : appendDigits 0 (Text.writeNatural n) = (n, []) := by
    rw [appendDigits_eq (by rwa [hcount]), hcount]
  unfold readUnsigned
  rw [readWhole_writeNatural, Checked.ok_bind]
  dsimp only
  rw [happend]
  rfl

/-- A whole number is read as it was written. -/
theorem readNumber_writeInteger {z : ℤ} (hlow : -0x8000000000000000 ≤ z)
    (hhigh : z < Text.countBound) :
    readNumber (Text.writeInteger z) = .ok (.whole z, []) := by
  cases z with
  | ofNat n =>
    have hne : ∀ c ∈ (Text.writeNatural n).head?, c ≠ '-' := by
      rintro c hc rfl
      exact absurd (Text.digit_of_mem_writeNatural (List.mem_of_mem_head? hc)) (by decide)
    change readNumber (Text.writeNatural n) = _
    have hbound : n < Text.countBound := Int.ofNat_lt.1 hhigh
    rw [readNumber_of_ne hne, readUnsigned_writeNatural hbound]
    rfl
  | negSucc n =>
    have hle : n + 1 ≤ 0x8000000000000000 := by omega
    have hbound : n + 1 < Text.countBound := lt_of_le_of_lt hle (by decide)
    change readUnsigned true (Text.writeNatural (n + 1)) = _
    rw [readUnsigned_writeNatural hbound, wholeNumber, if_neg (by decide),
      if_pos ⟨Nat.succ_pos n, hle⟩]
    rfl

/-! ### Other numbers -/

/-- The text of the number is read as the number. -/
def ReadsBack (x : Float) : Prop :=
  Codec.float.parse (Codec.float.write x) = .ok x

instance (x : Float) : Decidable (ReadsBack x) :=
  inferInstanceAs (Decidable (_ = _))

theorem skipSpace_of_ne {cs : List Char} (h : ∀ c ∈ cs.head?, isSpace c = false) :
    skipSpace cs = cs := by
  cases cs with
  | nil => rfl
  | cons c cs => exact List.dropWhile_cons_of_neg (by rw [h c rfl]; decide)

theorem skipSpace_append {spaces : List Char} (h : ∀ c ∈ spaces, isSpace c = true)
    (cs : List Char) : skipSpace (spaces ++ cs) = skipSpace cs :=
  List.dropWhile_append_of_pos h

theorem not_isSpace_of_isNumeral {c : Char} (h : Decimal.isNumeral c = true) :
    isSpace c = false := by
  by_contra hspace
  rw [isNumeral_of_isSpace (Bool.eq_true_of_not_eq_false hspace)] at h
  contradiction

/-- Numbers start with a digit or a minus. -/
theorem startsNumber_of_readNumber {cs left : List Char} {n : Number}
    (h : readNumber cs = .ok (n, left)) : startsNumber cs = true := by
  cases cs with
  | nil => cases h
  | cons c cs =>
    by_cases hc : c = '-'
    · simp [startsNumber, hc]
    · rw [readNumber_of_ne (by rintro _ ⟨⟩; exact hc)] at h
      obtain ⟨⟨whole, left'⟩, hwhole, -⟩ := Checked.bind_eq_ok_iff.1 h
      unfold readWhole at hwhole
      dsimp only at hwhole
      split_ifs at hwhole with hzero hdigit
      · rw [hzero]
        rfl
      · simp [startsNumber, hdigit]

theorem not_isSpace_of_startsNumber {cs : List Char} (h : startsNumber cs = true) :
    ∀ c ∈ cs.head?, isSpace c = false := by
  intro c hc
  obtain ⟨cs, rfl⟩ := List.head?_eq_some_iff.1 hc
  apply not_isSpace_of_isNumeral
  rcases Bool.or_eq_true_iff.1 h with hminus | hdigit
  · rw [of_decide_eq_true hminus]
    rfl
  · exact Decimal.isNumeral_of_isDigit hdigit

section Codec

variable {expected : String} {encode : α → Value} {accept : Number → Except Mismatch α} {n : Number}
  {x : α} {text spaces rest : List Char}

/-- A number that is accepted is read up to what follows it. -/
theorem read_ofNumber (hread : readNumber text = .ok (n, [])) (haccept : accept n = .ok x)
    (hspaces : ∀ c ∈ spaces, isSpace c = true) (hrest : Delimits rest) (depth : ℕ) :
    (Codec.ofNumber expected encode accept).read depth (spaces ++ (text ++ rest)) =
      .ok (x, rest) := by
  have hlong := steady_readNumber hread hrest
  have hstart := startsNumber_of_readNumber hlong
  have hskip : skipSpace (spaces ++ (text ++ rest)) = text ++ rest := by
    rw [skipSpace_append hspaces, skipSpace_of_ne (not_isSpace_of_startsNumber hstart)]
  simp only [Codec.ofNumber]
  rw [hskip, if_pos hstart, hlong, Checked.ok_bind]
  dsimp only
  rw [haccept]
  rfl

/-- What is read by such a codec is a number that was accepted. -/
theorem readNumber_of_read {depth : ℕ}
    (h : (Codec.ofNumber expected encode accept).read depth text = .ok (x, rest)) :
    ∃ n, readNumber (skipSpace text) = .ok (n, rest) ∧ accept n = .ok x := by
  simp only [Codec.ofNumber] at h
  split_ifs at h
  obtain ⟨⟨n, left⟩, hn, h⟩ := Checked.bind_eq_ok_iff.1 h
  obtain ⟨y, hy, h⟩ := Checked.bind_eq_ok_iff.1 h
  cases h
  refine ⟨n, hn, ?_⟩
  cases haccept : accept n with
  | ok y' =>
    rw [haccept] at hy
    cases hy
    rfl
  | error m =>
    rw [haccept] at hy
    cases hy

end Codec

theorem toList_write_float {x : Float} (hx : x.isFinite = true) :
    (Codec.float.write x).toList = numberLayout.write x := by
  have hencode : Codec.float.encode x = .number (.real x hx) := dif_pos hx
  rw [Codec.write, hencode]
  exact String.toList_ofList

/-- Only finite numbers are read back, and no part of their text is left. -/
theorem readsBack_iff {x : Float} : ReadsBack x ↔ x.isFinite = true ∧
    ∃ n, readNumber (numberLayout.write x) = .ok (n, []) ∧ n.toFloat = x := by
  unfold ReadsBack Codec.parse
  constructor
  · intro h
    obtain ⟨⟨y, left⟩, hread, hfinish⟩ := Checked.bind_eq_ok_iff.1 h
    obtain ⟨n, hn, hy⟩ := readNumber_of_read hread
    have hx : x.isFinite = true := by
      by_contra hx
      have hnull : Codec.float.encode x = .null := dif_neg hx
      rw [Codec.write, hnull] at hn
      cases startsNumber_of_readNumber hn
    rw [toList_write_float hx] at hn
    have hnumeral := Decimal.isNumeral_of_mem_write (l := numberLayout) hx
    rw [skipSpace_of_ne fun c hc =>
      not_isSpace_of_isNumeral (hnumeral c (List.mem_of_mem_head? hc))] at hn
    rw [finish] at hfinish
    split_ifs at hfinish with hleft
    cases hfinish
    have hsuffix := leaves_readNumber hn
    have hnone : left = [] := by
      rwa [skipSpace_of_ne fun c hc => not_isSpace_of_isNumeral
        (hnumeral c (hsuffix.mem (List.mem_of_mem_head? hc)))] at hleft
    rw [hnone] at hn
    exact ⟨hx, n, hn, Except.ok.inj hy⟩
  · rintro ⟨hx, n, hn, hvalue⟩
    have haccept : (.ok n.toFloat : Except Mismatch Float) = .ok x := congrArg Except.ok hvalue
    have hread : Codec.float.read depthLimit ([] ++ (numberLayout.write x ++ [])) = .ok (x, []) :=
      read_ofNumber hn haccept (by simp) delimits_nil depthLimit
    rw [List.nil_append, List.append_nil] at hread
    rw [toList_write_float hx]
    exact Checked.bind_eq_ok_iff.2 ⟨_, hread, rfl⟩

/-- A number with many digits may be read as a neighbour of it. -/
example : (1.2410476196607219 : Float).isFinite = true ∧ ¬ ReadsBack 1.2410476196607219 := by
  decide +kernel

end SatWalk.Json
