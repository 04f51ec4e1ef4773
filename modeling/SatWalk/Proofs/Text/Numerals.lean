import Mathlib.Algebra.Group.Nat.Defs
import Mathlib.Tactic.SplitIfs
import SatWalk.Text.Blank
import SatWalk.Text.WholeNumber

/-! Numerals. What is read as a number is a run of digits with or without a sign, within the bound;
what is written is such a run and has no blanks. -/

namespace SatWalk.Text

/-! ### Runs -/

section Run

variable {α : Type} {p : α → Bool} {run rest : List α}

/-- A run that something else or the end follows is taken whole. -/
theorem takeWhile_run (hrun : ∀ c ∈ run, p c = true) (hrest : ∀ c ∈ rest.head?, p c = false) :
    (run ++ rest).takeWhile p = run := by
  rw [List.takeWhile_append_of_pos hrun]
  cases rest with
  | nil => simp
  | cons c cs => simp [hrest c rfl]

theorem dropWhile_run (hrun : ∀ c ∈ run, p c = true) (hrest : ∀ c ∈ rest.head?, p c = false) :
    (run ++ rest).dropWhile p = rest := by
  rw [List.dropWhile_append_of_pos hrun]
  cases rest with
  | nil => rfl
  | cons c cs => simp [hrest c rfl]

end Run

/-! ### Reading -/

/-- Digits, with or without a plus. -/
inductive IsNatural : List Char → Nat → Prop
  | digits {ds : List Char} {n : Nat} (h : readDigits? ds = some n) : IsNatural ds n
  | plus {ds : List Char} {n : Nat} (h : readDigits? ds = some n) : IsNatural ('+' :: ds) n

/-- A natural number, or digits with a minus. -/
inductive IsInteger : List Char → Int → Prop
  | natural {cs : List Char} {n : Nat} (h : IsNatural cs n) : IsInteger cs n
  | minus {ds : List Char} {n : Nat} (h : readDigits? ds = some n) : IsInteger ('-' :: ds) (-n)

theorem readDigits?_eq_some_iff {cs : List Char} {n : Nat} : readDigits? cs = some n ↔
    cs ≠ [] ∧ (∀ c ∈ cs, c.isDigit = true) ∧ Nat.ofDigitChars 10 cs 0 = n := by
  rw [readDigits?, ← List.all_eq_true]
  split_ifs with h
  · rw [Option.some_inj, and_iff_right h.1, and_iff_right h.2]
  · exact iff_of_false nofun fun hn => h ⟨hn.1, hn.2.1⟩

theorem readDigits?_sign {c : Char} (h : c.isDigit = false) (cs : List Char) (n : Nat) :
    readDigits? (c :: cs) ≠ some n := by
  intro hn
  have hc := (readDigits?_eq_some_iff.1 hn).2.1 c List.mem_cons_self
  rw [h] at hc
  contradiction

/-- A bound put on a number that was read. -/
theorem within_eq_some_iff {α : Type} {o : Option α} {within : α → Prop} [DecidablePred within]
    {x : α} : (o.bind fun y => if within y then some y else none) = some x ↔
      o = some x ∧ within x := by
  rw [Option.bind_eq_some_iff]
  constructor
  · rintro ⟨y, hy, h⟩
    split_ifs at h with hwithin
    cases h
    exact ⟨hy, hwithin⟩
  · rintro ⟨hx, hwithin⟩
    exact ⟨x, hx, if_pos hwithin⟩

theorem isNatural_plus_iff {ds : List Char} {n : Nat} :
    IsNatural ('+' :: ds) n ↔ readDigits? ds = some n := by
  constructor
  · rintro (h | h)
    · exact absurd h (readDigits?_sign rfl ds n)
    · exact h
  · exact .plus

theorem isNatural_iff {cs : List Char} (hplus : ∀ ds, cs ≠ '+' :: ds) {n : Nat} :
    IsNatural cs n ↔ readDigits? cs = some n := by
  constructor
  · rintro (h | h)
    · exact h
    · exact absurd rfl (hplus _)
  · exact .digits

theorem readNatural?_eq_some_iff {bound : Nat} {cs : List Char} {n : Nat} :
    readNatural? bound cs = some n ↔ IsNatural cs n ∧ n < bound := by
  unfold readNatural?
  dsimp only
  split
  · exact within_eq_some_iff.trans (and_congr_left fun _ => isNatural_plus_iff.symm)
  · next hplus =>
    exact within_eq_some_iff.trans (and_congr_left fun _ => (isNatural_iff hplus).symm)

theorem isInteger_minus_iff {ds : List Char} {z : Int} :
    IsInteger ('-' :: ds) z ↔ ∃ n, readDigits? ds = some n ∧ -(n : Int) = z := by
  constructor
  · rintro (h | h)
    · exact absurd ((isNatural_iff (by simp)).1 h) (readDigits?_sign rfl ds _)
    · exact ⟨_, h, rfl⟩
  · rintro ⟨n, h, rfl⟩
    exact .minus h

theorem isInteger_iff {cs : List Char} (hminus : ∀ ds, cs ≠ '-' :: ds) {z : Int} :
    IsInteger cs z ↔ ∃ n, IsNatural cs n ∧ (n : Int) = z := by
  constructor
  · rintro (h | h)
    · exact ⟨_, h, rfl⟩
    · exact absurd rfl (hminus _)
  · rintro ⟨n, h, rfl⟩
    exact .natural h

theorem readInteger?_eq_some_iff {bound : Nat} {cs : List Char} {z : Int} :
    readInteger? bound cs = some z ↔ IsInteger cs z ∧ -(bound : Int) ≤ z ∧ z < bound := by
  unfold readInteger?
  dsimp only
  split
  · refine within_eq_some_iff.trans (and_congr_left fun _ => ?_)
    rw [isInteger_iff (by simp), Option.map_eq_some_iff]
    exact exists_congr fun n => and_congr_left fun _ => isNatural_plus_iff.symm
  · refine within_eq_some_iff.trans (and_congr_left fun _ => ?_)
    rw [isInteger_minus_iff, Option.map_eq_some_iff]
    rfl
  · next hplus hminus =>
    refine within_eq_some_iff.trans (and_congr_left fun _ => ?_)
    rw [isInteger_iff hminus, Option.map_eq_some_iff]
    exact exists_congr fun n => and_congr_left fun _ => (isNatural_iff hplus).symm

/-! ### Writing -/

theorem digit_of_mem_writeNatural {n : Nat} {c : Char} (h : c ∈ writeNatural n) :
    c.isDigit = true :=
  Nat.isDigit_of_mem_toDigits (by decide) (by decide) h

theorem digit_of_mem_padNatural {width n : Nat} {c : Char} (h : c ∈ padNatural width n) :
    c.isDigit = true := by
  unfold padNatural at h
  rcases List.mem_append.1 h with h | h
  · rw [(List.mem_replicate.1 h).2]
    rfl
  · exact digit_of_mem_writeNatural h

theorem ofDigitChars_padNatural (width n : Nat) :
    Nat.ofDigitChars 10 (padNatural width n) 0 = n := by
  rw [padNatural, Nat.ofDigitChars_append, Nat.ofDigitChars_replicate_zero, Nat.mul_zero]
  exact Nat.ofDigitChars_ten_toDigits

theorem le_length_padNatural (width n : Nat) : width ≤ (padNatural width n).length := by
  rw [padNatural, List.length_append, List.length_replicate]
  omega

theorem writeNatural_ne_nil (n : Nat) : writeNatural n ≠ [] :=
  Nat.toDigits_ne_nil

/-- The first character written is a digit or a minus. -/
theorem writeInteger_eq_cons (z : Int) :
    ∃ c cs, writeInteger z = c :: cs ∧ (c.isDigit = true ∨ c = '-') := by
  cases z with
  | ofNat n =>
    obtain ⟨c, cs, h⟩ := List.exists_cons_of_ne_nil (writeNatural_ne_nil n)
    exact ⟨c, cs, h, .inl (digit_of_mem_writeNatural (h ▸ List.mem_cons_self))⟩
  | negSucc n => exact ⟨_, _, rfl, .inr rfl⟩

theorem writeInteger_ne_nil (z : Int) : writeInteger z ≠ [] := by
  obtain ⟨c, cs, h, -⟩ := writeInteger_eq_cons z
  rw [h]
  exact List.cons_ne_nil c cs

theorem readDigits?_writeNatural (n : Nat) : readDigits? (writeNatural n) = some n :=
  readDigits?_eq_some_iff.2 ⟨writeNatural_ne_nil n, fun _ => digit_of_mem_writeNatural,
    Nat.ofDigitChars_ten_toDigits⟩

theorem isInteger_writeInteger (z : Int) : IsInteger (writeInteger z) z := by
  cases z with
  | ofNat n => exact .natural (.digits (readDigits?_writeNatural n))
  | negSucc n => exact .minus (readDigits?_writeNatural (n + 1))

theorem not_isBlank_of_isDigit {c : Char} (h : c.isDigit = true) : isBlank c = false := by
  have hrange : 48 ≤ c.toNat ∧ c.toNat ≤ 57 := by
    simpa [Char.isDigit, UInt32.le_iff_toNat_le] using h
  simp [isBlank, blankRanges]
  omega

theorem not_isBlank_of_mem_writeNatural {n : Nat} {c : Char} (h : c ∈ writeNatural n) :
    isBlank c = false :=
  not_isBlank_of_isDigit (digit_of_mem_writeNatural h)

theorem not_isBlank_of_mem_writeInteger {z : Int} {c : Char} (h : c ∈ writeInteger z) :
    isBlank c = false := by
  cases z with
  | ofNat n => exact not_isBlank_of_mem_writeNatural h
  | negSucc n =>
    obtain rfl | h := List.mem_cons.1 h
    · rfl
    · exact not_isBlank_of_mem_writeNatural h

/-! ### Order -/

section Order

theorem ofDigitChars_lt {ds : List Char} (hds : ∀ c ∈ ds, c.isDigit = true) :
    Nat.ofDigitChars 10 ds 0 < 10 ^ ds.length := by
  induction ds with
  | nil => decide
  | cons c ds ih =>
    obtain ⟨hc, hds⟩ := List.forall_mem_cons.1 hds
    have hrest := ih hds
    have hdigit : c.toNat - '0'.toNat ≤ 9 := Nat.sub_le_iff_le_add.2 (Char.isDigit_iff_toNat.1 hc).2
    have hfirst := Nat.mul_le_mul_left (10 ^ ds.length) hdigit
    rw [Nat.ofDigitChars_cons, Nat.ofDigitChars_eq_ofDigitChars_zero, List.length_cons,
      Nat.pow_succ, Nat.mul_zero, Nat.zero_add]
    omega

/-- Among numerals of one length the smaller number comes first, whatever follows them. -/
theorem append_lt_append {as bs : List Char} (has : ∀ c ∈ as, c.isDigit = true)
    (hbs : ∀ c ∈ bs, c.isDigit = true) (hlength : as.length = bs.length)
    (h : Nat.ofDigitChars 10 as 0 < Nat.ofDigitChars 10 bs 0) (xs ys : List Char) :
    as ++ xs < bs ++ ys := by
  induction as generalizing bs with
  | nil =>
    rw [List.length_eq_zero_iff.1 hlength.symm] at h
    exact absurd h (Nat.lt_irrefl _)
  | cons a as ih =>
    cases bs with
    | nil => cases hlength
    | cons b bs =>
      obtain ⟨ha, has⟩ := List.forall_mem_cons.1 has
      obtain ⟨hb, htail⟩ := List.forall_mem_cons.1 hbs
      have hrests : as.length = bs.length := Nat.succ.inj hlength
      rw [Nat.ofDigitChars_cons, Nat.ofDigitChars_cons, Nat.ofDigitChars_eq_ofDigitChars_zero,
        Nat.ofDigitChars_eq_ofDigitChars_zero (l := bs), hrests, Nat.mul_zero, Nat.zero_add,
        Nat.zero_add] at h
      rw [List.cons_append, List.cons_append, List.cons_lt_cons_iff]
      by_cases hab : a = b
      · subst hab
        exact .inr ⟨rfl, ih has htail hrests (Nat.lt_of_add_lt_add_left h)⟩
      · refine .inl (Char.lt_def.2 (UInt32.lt_iff_toNat_lt.2 (Nat.lt_of_not_le fun hle => ?_)))
        -- a greater first digit outweighs all digits after it
        have hne : a.toNat ≠ b.toNat := mt Char.toNat_inj.1 hab
        have hsucc : b.toNat - '0'.toNat + 1 ≤ a.toNat - '0'.toNat := by
          have hzero := (Char.isDigit_iff_toNat.1 hb).1
          have hle : b.toNat ≤ a.toNat := hle
          omega
        have hfirst := Nat.mul_le_mul_left (10 ^ bs.length) hsucc
        have hrest := ofDigitChars_lt htail
        rw [Nat.mul_succ] at hfirst
        omega

variable {width n : Nat}

theorem length_padNatural (hwidth : 0 < width) (hn : n < 10 ^ width) :
    (padNatural width n).length = width := by
  have hdigits : (writeNatural n).length ≤ width :=
    (Nat.length_toDigits_le_iff (by decide) hwidth).2 hn
  rw [padNatural, List.length_append, List.length_replicate]
  omega

/-- Numbers that fit into the width are in order. -/
theorem padNatural_append_lt (hwidth : 0 < width) (hn : n < 10 ^ width) {k : Nat} (hk : k < n)
    (xs ys : List Char) : padNatural width k ++ xs < padNatural width n ++ ys := by
  refine append_lt_append (fun c => digit_of_mem_padNatural) (fun c => digit_of_mem_padNatural) ?_
    ?_ xs ys
  · rw [length_padNatural hwidth (Nat.lt_trans hk hn), length_padNatural hwidth hn]
  · rwa [ofDigitChars_padNatural, ofDigitChars_padNatural]

end Order

end SatWalk.Text
