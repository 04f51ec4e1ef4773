import SatWalk.Json.Token
import SatWalk.Proofs.Decimal.Layout

/-! Strings and numbers as JSON text writes them. A written string reads back whatever follows. The
characters of a number run up to what follows, and no two numbers have the same ones:
whole numbers differ from the others by having neither a point nor an exponent. -/

namespace SatWalk.Json

open Decimal (isNumeral)
open Text (takeWhile_run dropWhile_run)

/-! ### Strings -/

theorem hexValue?_hexDigit : ∀ n < 16, Text.hexValue? (Text.hexDigit n) = some n := by
  decide

theorem utf8Size_hexDigit : ∀ n < 16, (Text.hexDigit n).utf8Size = 1 := by
  decide

theorem readHex4_write {n : ℕ} (h : n < 0x100) (cs : List Char) :
    readHex4 ('0' :: '0' :: Text.hexDigit (n / 16) :: Text.hexDigit n :: cs) = .ok (n, cs) := by
  have hmod : Text.hexDigit n = Text.hexDigit (n % 16) := by
    rw [Text.hexDigit, Text.hexDigit, Nat.mod_mod]
  have hhigh : n / 16 < 16 := by omega
  have hlow : n % 16 < 16 := by omega
  have hzero : Text.hexValue? '0' = some 0 := rfl
  unfold readHex4
  simp only [hmod, List.take_succ_cons, List.take_zero, List.foldl_cons, List.foldl_nil,
    utf8Size_hexDigit _ hhigh, utf8Size_hexDigit _ hlow, List.mapM_cons, List.mapM_nil,
    hexValue?_hexDigit _ hhigh, hexValue?_hexDigit _ hlow, hzero]
  rw [if_neg (by decide)]
  have hvalue : 16 * (16 * (16 * (16 * 0 + 0) + 0) + n / 16) + n % 16 = n := by omega
  change Except.ok (16 * (16 * (16 * (16 * 0 + 0) + 0) + n / 16) + n % 16, cs) = _
  rw [hvalue]

/-- The escape of a control character without a letter of its own. -/
theorem readEscape_hex {c : Char} (h : c.toNat < 0x20) (cs : List Char) :
    readEscape ('u' :: '0' :: '0' :: Text.hexDigit (c.toNat / 16) :: Text.hexDigit c.toNat :: cs) =
      .ok (c, cs) := by
  have hhigh : isHighSurrogate c.toNat = false := by simp [isHighSurrogate]; omega
  have hlow : isLowSurrogate c.toNat = false := by simp [isLowSurrogate]; omega
  change readCodePoint _ = _
  unfold readCodePoint
  rw [readHex4_write (by omega)]
  change (if isLowSurrogate c.toNat = true then _ else if isHighSurrogate c.toNat = true then _
    else _) = _
  rw [hlow, hhigh]
  change Except.ok (Char.ofNat c.toNat, cs) = _
  rw [Char.ofNat_toNat]

/-- Reading goes past one escaped character. -/
theorem readStringBody_escape (c : Char) (s : Char) (steps done cs : List Char) :
    readStringBody (s :: steps) done (escape c ++ cs) = readStringBody steps (c :: done) cs := by
  -- a letter after the backslash is read at once, the digits of a code by a reader of their own
  have hescape {e : List Char} (hread : readEscape (e ++ cs) = .ok (c, cs)) :
      readStringBody (s :: steps) done (('\\' :: e) ++ cs) =
        readStringBody steps (c :: done) cs := by
    simp [readStringBody, hread]
  unfold escape
  split_ifs with hquote hslash hb hf hn hr ht hcontrol
  · subst hquote
    exact hescape rfl
  · subst hslash
    exact hescape rfl
  · subst hb
    exact hescape rfl
  · subst hf
    exact hescape rfl
  · subst hn
    exact hescape rfl
  · subst hr
    exact hescape rfl
  · subst ht
    exact hescape rfl
  · exact hescape (readEscape_hex hcontrol cs)
  · simp [readStringBody, hquote, hslash, hcontrol]

theorem readStringBody_write {text steps : List Char} (done rest : List Char)
    (hsteps : text.length < steps.length) :
    readStringBody steps done (text.flatMap escape ++ '"' :: rest) =
      .ok (String.ofList (done.reverse ++ text), rest) := by
  induction text generalizing steps done with
  | nil =>
    cases steps with
    | nil => cases hsteps
    | cons s steps => simp [readStringBody]
  | cons c text ih =>
    cases steps with
    | nil => cases hsteps
    | cons s steps =>
      rw [List.flatMap_cons, List.append_assoc, readStringBody_escape,
        ih (c :: done) (Nat.lt_of_succ_lt_succ hsteps)]
      simp

theorem length_le_length_flatMap_escape (text : List Char) :
    text.length ≤ (text.flatMap escape).length := by
  have hne (c : Char) : 1 ≤ (escape c).length := by
    unfold escape
    split_ifs <;> simp
  induction text with
  | nil => exact le_rfl
  | cons c text ih =>
    rw [List.flatMap_cons, List.length_append, List.length_cons]
    have := hne c
    omega

/-- A written string, after its opening quote, reads back. -/
theorem readString_write (text : String) (rest : List Char) :
    readString (text.toList.flatMap escape ++ '"' :: rest) = .ok (text, rest) := by
  have hlength := length_le_length_flatMap_escape text.toList
  rw [readString, readStringBody_write [] rest (by
    rw [List.length_append, List.length_cons]
    omega)]
  simp

theorem writeString_inj {s t : String} {r u : List Char}
    (h : writeString s ++ r = writeString t ++ u) : s = t ∧ r = u := by
  have hread (s : String) (r : List Char) :
      readString (writeString s ++ r).tail = .ok (s, r) := by
    rw [← readString_write]
    simp [writeString]
  have heq := (hread s r).symm.trans ((congrArg (readString ·.tail) h).trans (hread t u))
  exact ⟨congrArg Prod.fst (Except.ok.inj heq), congrArg Prod.snd (Except.ok.inj heq)⟩

/-! ### Numbers -/

theorem isNumeral_of_mem_writeInteger (z : ℤ) : ∀ c ∈ Text.writeInteger z, isNumeral c = true := by
  have hdigits (n : ℕ) : ∀ c ∈ Text.writeNatural n, isNumeral c = true := fun c hc =>
    Decimal.isNumeral_of_isDigit (Text.digit_of_mem_writeNatural hc)
  cases z with
  | ofNat n => exact hdigits n
  | negSucc n => exact List.forall_mem_cons.2 ⟨rfl, hdigits (n + 1)⟩

theorem isNumeral_of_mem_number (n : Number) : ∀ c ∈ n.write, isNumeral c = true := by
  cases n with
  | whole z => exact isNumeral_of_mem_writeInteger z
  | real x h => exact Decimal.isNumeral_of_mem_write h

theorem number_write_ne_nil (n : Number) : n.write ≠ [] := by
  cases n with
  | whole z => exact Text.writeInteger_ne_nil z
  | real x h => exact Decimal.write_ne_nil numberLayout h

theorem writeInteger_inj {y z : ℤ} (h : Text.writeInteger y = Text.writeInteger z) : y = z := by
  let bound := y.natAbs + z.natAbs + 1
  have hread {x : ℤ} (hx : x.natAbs < bound) :
      Text.readInteger? bound (Text.writeInteger x) = some x :=
    Text.readInteger?_eq_some_iff.2 ⟨Text.isInteger_writeInteger x, by omega, by omega⟩
  have hy := hread (x := y) (by omega)
  have hz := hread (x := z) (by omega)
  rw [h, hz] at hy
  exact (Option.some.inj hy).symm

/-- A number with a point or an exponent is not written as a whole number is. -/
theorem writeInteger_ne_write (z : ℤ) {x : Float} (hx : x.isFinite) :
    Text.writeInteger z ≠ numberLayout.write x := by
  intro h
  have hmark : '.' ∈ numberLayout.write x ∨ 'e' ∈ numberLayout.write x := by
    have := Decimal.not_isDigit_mem_magnitude (l := numberLayout) rfl
      (Decimal.shortest numberLayout.tie x)
    simp only [Decimal.Layout.write, Decimal.isNaN_of_isFinite hx, hx, if_true, Bool.false_eq_true,
      if_false, List.mem_append]
    exact this.imp .inr .inr
  have hdigits : ∀ c ∈ Text.writeInteger z, c.isDigit = true ∨ c = '-' := by
    cases z with
    | ofNat n => exact fun c hc => .inl (Text.digit_of_mem_writeNatural hc)
    | negSucc n =>
      exact List.forall_mem_cons.2 ⟨.inr rfl, fun c hc => .inl (Text.digit_of_mem_writeNatural hc)⟩
  rw [← h] at hmark
  rcases hmark with hmark | hmark
  · exact absurd (hdigits _ hmark) (by decide)
  · exact absurd (hdigits _ hmark) (by decide)

theorem number_write_inj {m n : Number} (h : m.write = n.write) : m = n := by
  cases m with
  | whole y =>
    cases n with
    | whole z => rw [writeInteger_inj h]
    | real x hx => exact absurd h (writeInteger_ne_write y hx)
  | real x hx =>
    cases n with
    | whole z => exact absurd h.symm (writeInteger_ne_write z hx)
    | real y hy =>
      obtain rfl := Decimal.write_inj numberLayout hx hy h
      rfl

/-- What may follow a number. -/
def EndsNumber (cs : List Char) : Prop :=
  ∀ c ∈ cs.head?, isNumeral c = false

theorem writeNumber_inj {m n : Number} {r u : List Char} (hr : EndsNumber r) (hu : EndsNumber u)
    (h : m.write ++ r = n.write ++ u) : m = n ∧ r = u := by
  have hm := isNumeral_of_mem_number m
  have hn := isNumeral_of_mem_number n
  have htake := congrArg (List.takeWhile isNumeral) h
  have hdrop := congrArg (List.dropWhile isNumeral) h
  rw [takeWhile_run hm hr, takeWhile_run hn hu] at htake
  rw [dropWhile_run hm hr, dropWhile_run hn hu] at hdrop
  exact ⟨number_write_inj htake, hdrop⟩

end SatWalk.Json
