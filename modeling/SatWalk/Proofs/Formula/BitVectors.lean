import SatWalk.Proofs.Formula.SavedModel
import SatWalk.Proofs.Json.Steady

/-! The values of an assignment in JSON. They are read from an array of ones, zeros and truth values
and from no other array, whether the array stands in a text, in a value or among the members of an
object that is at hand. What is written of them has a number in the place of each truth value. -/

namespace SatWalk

open Json

/-! ### Items refined while an array is read -/

namespace Json

variable {α β : Type}

theorem mapM_eq_ok_iff_forall₂ {ε : Type} {f : α → Except ε β} {xs : List α} {ys : List β} :
    xs.mapM f = .ok ys ↔ List.Forall₂ (fun x y => f x = .ok y) xs ys := by
  induction xs generalizing ys with
  | nil => simp [Checked.pure_eq_ok, eq_comm]
  | cons x xs ih =>
    rw [List.mapM_cons, List.forall₂_cons_left_iff]
    simp only [Checked.bind_eq_ok_iff, Checked.pure_eq_ok, Except.ok.injEq, ih]
    constructor
    · rintro ⟨y, hy, ys, hys, rfl⟩
      exact ⟨y, ys, hy, hys, rfl⟩
    · rintro ⟨y, ys, hy, hys, rfl⟩
      exact ⟨y, hy, ys, hys, rfl⟩

/-- Where each item is accepted or refused once it is read, an array that is read without that is
read with it if all its items are accepted. -/
theorem readItems_refined {item : Reader α} {item' : Reader β} {R : α → β → Prop}
    (hitem : ∀ {cs y left}, item' cs = .ok (y, left) ↔ ∃ x, item cs = .ok (x, left) ∧ R x y)
    {steps cs left : List Char} {first : Bool} {done xs : List α}
    (h : readItems item steps first done cs = .ok (xs, left)) :
    ∃ new, xs = done.reverse ++ new ∧ ∀ (done' : List β) (ys : List β) (left' : List Char),
      readItems item' steps first done' cs = .ok (ys, left') ↔
        left = left' ∧ ∃ new', List.Forall₂ R new new' ∧ done'.reverse ++ new' = ys := by
  -- accepted or not, an item leaves the same text, so both readers meet the same items
  induction steps generalizing cs first done with
  | nil => cases h
  | cons step steps ih =>
    rw [readItems] at h
    obtain ⟨next, hnext, h⟩ := Checked.bind_eq_ok_iff.1 h
    cases next with
    | none =>
      obtain ⟨⟨_, left₁⟩, hclose, h⟩ := Checked.bind_eq_ok_iff.1 h
      cases h
      refine ⟨[], by simp, fun done' ys left' => ?_⟩
      rw [readItems, hnext, Checked.ok_bind]
      dsimp only
      rw [hclose, Checked.ok_bind]
      simp [Checked.pure_eq_ok, and_comm]
    | some next =>
      obtain ⟨⟨x, left₁⟩, hx, h⟩ := Checked.bind_eq_ok_iff.1 h
      obtain ⟨new, rfl, hnew⟩ := ih h
      refine ⟨x :: new, by simp, fun done' ys left' => ?_⟩
      rw [readItems, hnext, Checked.ok_bind]
      dsimp only
      constructor
      · intro h'
        obtain ⟨⟨y, left₂⟩, hy, h'⟩ := Checked.bind_eq_ok_iff.1 h'
        obtain ⟨x', hx', hR⟩ := hitem.1 hy
        rw [hx] at hx'
        cases hx'
        obtain ⟨hleft, new', hnew', rfl⟩ := (hnew _ _ _).1 h'
        exact ⟨hleft, y :: new', .cons hR hnew', by simp⟩
      · rintro ⟨hleft, _, hall, rfl⟩
        cases hall with
        | cons hR hnew' =>
          exact Checked.bind_eq_ok_iff.2
            ⟨_, hitem.2 ⟨_, hx, hR⟩, (hnew _ _ _).2 ⟨hleft, _, hnew', by simp⟩⟩

theorem located_eq_ok_iff {r : Except Mismatch α} {x : α} : located r = .ok x ↔ r = .ok x := by
  cases r <;> simp [located]

/-! ### Records with one field -/

section Record

variable {ρ : Type} {head : Field α} {closed : Bool} {depth : ℕ} {build : α × Unit → ρ}
  {body : List Char}

/-- Reads what follows the value of the only field, to the end of the text. -/
def readAfter (head : Field α) (closed : Bool) (depth : ℕ) (build : α × Unit → ρ)
    (steps : List Char) : α × List Char → Except Error ρ := fun (x, cs) => do
  let (draft, cs) ← (Fields.field head .done).readPutAll closed depth steps false (some x, ()) cs
  let t ← located ((Fields.field head .done).complete draft)
  finish (build t, cs)

/-- Where only the closing brace follows, the record is complete. -/
theorem readAfter_closing {left after : List Char} (hleft : skipSpace left = [])
    (hafter : skipSpace after = []) (x : α) (step : Char) (steps : List Char) :
    readAfter head closed depth build (step :: steps) (x, left ++ '\x7d' :: after) =
      .ok (build (x, ())) := by
  dsimp only [readAfter]
  rw [Fields.readPutAll, nextKey_closing hleft, Checked.ok_bind]
  dsimp only
  rw [expectMark_append (isSpace_of_skipSpace_eq_nil hleft) rfl, Checked.ok_bind]
  dsimp only
  exact if_pos hafter

theorem readPutAll_member {start colon item : List Char}
    (hstart : nextKey true body = .ok (some start))
    (hkey : readString start = .ok (head.key, colon))
    (hcolon : expectMark ':' colon = .ok ((), item)) (step : Char) (steps : List Char) :
    (Fields.field head .done).readPutAll closed depth (step :: steps) true (none, ()) body =
      head.codec.read depth item >>= fun (x, cs) =>
        (Fields.field head .done).readPutAll closed depth steps false (some x, ()) cs := by
  rw [Fields.readPutAll, hstart, Checked.ok_bind]
  dsimp only
  rw [hkey, Checked.ok_bind]
  dsimp only [Fields.readPut]
  rw [if_pos rfl]
  dsimp only
  rw [if_neg (by simp), hcolon, Checked.ok_bind]
  dsimp only
  rw [bind_assoc]
  rfl

/-- The record is read from a text of an object with its member as the value of the member is, and
then only the brace is left to read. -/
theorem exists_parse_record {name : String} {parts : ρ → α × Unit} {text : String} {v : Value}
    (h : SpellsMember text.toList head.key v) :
    ∃ item left level, ∃ close : α × List Char → Except Error ρ,
      (Codec.record name closed (.field head .done) build parts).parse text =
          head.codec.read 126 item >>= close ∧
        readValue level item = .ok (v, left) ∧ ∀ x, close (x, left) = .ok (build (x, ())) := by
  obtain ⟨body, start, colon, item, left, after, level, hskip, hlength, hstart, hkey, hcolon, hv,
    hleft, hafter⟩ := h.exists_parts
  obtain ⟨step, next, steps, hbody⟩ : ∃ step next steps, body = step :: next :: steps := by
    match body, hlength with
    | step :: next :: steps, _ => exact ⟨step, next, steps, rfl⟩
  refine ⟨item, _, level, readAfter head closed 126 build (next :: steps), ?_, hv,
    fun x => readAfter_closing hleft hafter x next steps⟩
  simp only [Codec.parse, Codec.record]
  rw [hskip]
  -- the text also counts the steps, which are unfolded and the text is not
  change ((Fields.field head .done).readPutAll closed 126 body true (none, ()) body >>= _) >>= _ = _
  nth_rewrite 1 [hbody]
  rw [readPutAll_member hstart hkey hcolon, bind_assoc, bind_assoc]
  congr 1
  funext found
  simp only [readAfter, bind_assoc]
  rfl

end Record

end Json

/-! ### Bits -/

/-- One and true denote true; zero and false denote false. -/
inductive Denotes : Value → Bool → Prop
  | one : Denotes (.number (.whole 1)) true
  | zero : Denotes (.number (.whole 0)) false
  | boolean (b : Bool) : Denotes (.boolean b) b

/-- The number that is written for a truth value; other values stay. -/
def numbered : Value → Value
  | .boolean b => .ofInt (if b then 1 else 0)
  | v => v

variable {xs : List Value} {bits : List Bool}

theorem bitOf_eq_ok_iff {v : Value} {b : Bool} : bitOf v = .ok b ↔ Denotes v b := by
  constructor
  · intro h
    unfold bitOf at h
    split at h
    · cases h
      exact .one
    · cases h
      exact .zero
    · cases h
      exact .boolean _
    · cases h
  · rintro (_ | _ | _) <;> rfl

theorem mapM_bitOf_eq_ok_iff : xs.mapM bitOf = .ok bits ↔ List.Forall₂ Denotes xs bits := by
  simp only [mapM_eq_ok_iff_forall₂, bitOf_eq_ok_iff]

/-- A reading is one of the items as bits: it succeeds exactly if each item denotes a bit, it gives
the bits that the items denote, one for each, and they are written with a number in the place of
each truth value. -/
structure ReadsBits {ε : Type} (xs : List Value) (reading : Except ε Assignment) : Prop where
  succeeds_iff : (∃ a, reading = .ok a) ↔ ∀ x ∈ xs, ∃ b, Denotes x b
  fails : (∃ x ∈ xs, ∀ b, ¬ Denotes x b) → ∃ e, reading = .error e
  size_eq : ∀ a, reading = .ok a → a.values.size = xs.length
  denoted : ∀ a, reading = .ok a → List.Forall₂ Denotes xs a.values.toList
  rewritten : ∀ a, reading = .ok a →
    Assignment.codec.encode a = .object [("variables", .array (xs.map numbered))]

theorem exists_denotes_iff :
    (∃ bits, List.Forall₂ Denotes xs bits) ↔ ∀ x ∈ xs, ∃ b, Denotes x b := by
  induction xs with
  | nil => exact ⟨fun _ => by simp, fun _ => ⟨[], .nil⟩⟩
  | cons x xs ih =>
    simp only [List.forall₂_cons_left_iff, List.forall_mem_cons, ← ih]
    constructor
    · rintro ⟨_, b, bits, hb, hbits, -⟩
      exact ⟨⟨b, hb⟩, bits, hbits⟩
    · rintro ⟨⟨b, hb⟩, bits, hbits⟩
      exact ⟨b :: bits, b, bits, hb, hbits, rfl⟩

theorem map_numbered (h : List.Forall₂ Denotes xs bits) :
    xs.map numbered = bits.map fun b => .ofInt (if b then 1 else 0) := by
  induction h with
  | nil => rfl
  | cons hx _ ih =>
    rw [List.map_cons, List.map_cons, ih]
    cases hx <;> rfl

theorem readsBits_of_iff {ε : Type} {reading : Except ε Assignment}
    (h : ∀ a, reading = .ok a ↔ List.Forall₂ Denotes xs a.values.toList) :
    ReadsBits xs reading := by
  have hsucceeds : (∃ a, reading = .ok a) ↔ ∀ x ∈ xs, ∃ b, Denotes x b := by
    rw [← exists_denotes_iff]
    constructor
    · rintro ⟨a, ha⟩
      exact ⟨_, (h a).1 ha⟩
    · rintro ⟨bits, hbits⟩
      exact ⟨⟨bits.toArray⟩, (h _).2 hbits⟩
  refine ⟨hsucceeds, ?_, fun a ha => ?_, fun a ha => (h a).1 ha, fun a ha => ?_⟩
  · rintro ⟨x, hx, hnone⟩
    cases reading with
    | error e => exact ⟨e, rfl⟩
    | ok a =>
      obtain ⟨b, hb⟩ := hsucceeds.1 ⟨a, rfl⟩ x hx
      exact absurd hb (hnone b)
  · rw [← Array.length_toList, ((h a).1 ha).length_eq]
  · rw [map_numbered ((h a).1 ha)]
    rfl

/-! ### Readings -/

namespace Assignment

theorem decode_eq_ok_iff {a : Assignment} :
    codec.decode (.object [("variables", .array xs)]) = .ok a ↔
      List.Forall₂ Denotes xs a.values.toList := by
  have hdecode : codec.decode (.object [("variables", .array xs)]) =
      (xs.mapM bitOf).map fun bits => ⟨bits.toArray⟩ := by
    simp only [codec, Codec.record, Fields.putAll, Fields.put, bitsCodec]
    cases xs.mapM bitOf <;> rfl
  rw [hdecode, Checked.map_eq_ok_iff]
  simp only [mapM_bitOf_eq_ok_iff]
  constructor
  · rintro ⟨bits, hbits, rfl⟩
    exact hbits
  · intro h
    exact ⟨_, h, rfl⟩

theorem readBit_eq_ok_iff (depth inner : ℕ) {cs left : List Char} {b : Bool} :
    readBit depth cs = .ok (b, left) ↔ ∃ v, readValue inner cs = .ok (v, left) ∧ Denotes v b := by
  -- a bit has no levels, so it does not matter how many of them may be nested
  have hlevels {d d' : ℕ} {v : Value} (hv : Denotes v b) (h : readValue d cs = .ok (v, left)) :
      readValue d' cs = .ok (v, left) := by
    rcases readValue_cases h with ⟨_, _, _, rfl, -⟩ | ⟨_, rfl⟩ | h
    · cases hv
    · cases hv
    · exact readValue_of_zero d' h
  constructor
  · intro h
    obtain ⟨⟨v, left'⟩, hread, h⟩ := Checked.bind_eq_ok_iff.1 h
    obtain ⟨b', hb, h⟩ := Checked.bind_eq_ok_iff.1 h
    cases h
    have hv := bitOf_eq_ok_iff.1 (located_eq_ok_iff.1 hb)
    exact ⟨v, hlevels hv hread, hv⟩
  · rintro ⟨v, hread, hv⟩
    refine Checked.bind_eq_ok_iff.2 ⟨_, hlevels hv hread, ?_⟩
    exact Checked.bind_eq_ok_iff.2 ⟨_, located_eq_ok_iff.2 (bitOf_eq_ok_iff.2 hv), rfl⟩

theorem read_bits_eq_ok_iff (depth : ℕ) {level : ℕ} {cs left left' : List Char}
    (h : readValue level cs = .ok (.array xs, left)) :
    bitsCodec.read (depth + 1) cs = .ok (bits, left') ↔
      left = left' ∧ List.Forall₂ Denotes xs bits := by
  obtain ⟨inner, tail, hskip, hxs⟩ := readItems_of_readValue h
  obtain ⟨new, rfl, hnew⟩ := readItems_refined (readBit_eq_ok_iff depth inner) hxs
  simp only [bitsCodec]
  rw [hskip]
  refine (hnew [] bits left').trans ?_
  simp

theorem parse_eq_ok_iff {text : String} {a : Assignment}
    (h : SpellsMember text.toList "variables" (.array xs)) :
    codec.parse text = .ok a ↔ List.Forall₂ Denotes xs a.values.toList := by
  have hmember : SpellsMember text.toList
      (Field.key ⟨"variables", bitsCodec, none, none⟩) (.array xs) := h
  obtain ⟨item, left, level, close, hparse, hitem, hclose⟩ := exists_parse_record hmember
  rw [codec, hparse]
  constructor
  · intro hparsed
    obtain ⟨⟨bits, left'⟩, hread, hclosed⟩ := Checked.bind_eq_ok_iff.1 hparsed
    obtain ⟨rfl, hbits⟩ := (read_bits_eq_ok_iff 125 hitem).1 hread
    rw [hclose] at hclosed
    cases hclosed
    exact hbits
  · intro hbits
    refine Checked.bind_eq_ok_iff.2 ⟨_, (read_bits_eq_ok_iff 125 hitem).2 ⟨rfl, hbits⟩, ?_⟩
    rw [hclose]

/-- An object with an array of variables is read as an assignment exactly if all items of the array
are bits, and the assignment holds them in their order. It makes no difference whether the object is
read from any of its texts, decoded from its value, or given by its members. -/
theorem reads_bits (xs : List Value) :
    (∀ text : String, SpellsMember text.toList "variables" (.array xs) →
        ReadsBits xs (codec.parse text)) ∧
      ReadsBits xs (codec.decode (.object [("variables", .array xs)])) ∧
      ReadsBits xs (ofMembers [("variables", .array xs)]) :=
  ⟨fun _ h => readsBits_of_iff fun _ => parse_eq_ok_iff h,
    readsBits_of_iff fun _ => decode_eq_ok_iff, readsBits_of_iff fun _ => decode_eq_ok_iff⟩

/-- Numbers and truth values side by side, with spaces where they may stand. -/
theorem reads_bits_mixed :
    SpellsMember " \x7b\"variables\":[1, true,0 ,false] \x7d".toList "variables"
        (.array [.ofInt 1, .boolean true, .ofInt 0, .boolean false]) ∧
      ∃ a, codec.parse " \x7b\"variables\":[1, true,0 ,false] \x7d" = .ok a := by
  have hkey : Spells ['"', 'v', 'a', 'r', 'i', 'a', 'b', 'l', 'e', 's', '"']
      (.string "variables") := by
    have hname : String.ofList ['v', 'a', 'r', 'i', 'a', 'b', 'l', 'e', 's'] = "variables" := by
      decide +kernel
    rw [← hname]
    exact ⟨0, [], rfl, rfl⟩
  have hitems : Spells ['[', '1', ',', ' ', 't', 'r', 'u', 'e', ',', '0', ' ', ',',
      'f', 'a', 'l', 's', 'e', ']', ' ']
      (.array [.ofInt 1, .boolean true, .ofInt 0, .boolean false]) :=
    ⟨1, [' '], rfl, rfl⟩
  have hspells : SpellsMember " \x7b\"variables\":[1, true,0 ,false] \x7d".toList "variables"
      (.array [.ofInt 1, .boolean true, .ofInt 0, .boolean false]) :=
    ⟨[' '], _, _, [], by decide +kernel, rfl, rfl, hkey, hitems⟩
  refine ⟨hspells, ((reads_bits _).1 _ hspells).succeeds_iff.2 ?_⟩
  simp only [List.forall_mem_cons]
  exact ⟨⟨_, .one⟩, ⟨_, .boolean _⟩, ⟨_, .zero⟩, ⟨_, .boolean _⟩, by simp⟩

/-- A negative zero is no bit, nor is a number with a fraction. -/
example : ∀ text ∈ ["\x7b\"variables\":[1,-0]\x7d", "\x7b\"variables\":[1.0]\x7d"],
    codec.parse text = .error (.mismatch (.refused "expected 0, 1, true, or false")) := by
  decide +kernel

end Assignment

end SatWalk
