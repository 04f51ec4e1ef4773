import Mathlib.Data.List.TakeWhile
import SatWalk.Text.Blank

/-! Lines of encoded text. The line feed is encoded by the byte 10 and no other character has that
byte in its code, so characters and bytes are cut at the same places. -/

namespace SatWalk

/-- Induction along the parts of a list between its separators. -/
@[elab_as_elim]
theorem parts_induction {α : Type} [DecidableEq α] (separator : α) {motive : List α → Prop}
    (xs : List α) (last : ∀ part, separator ∉ part → motive part)
    (next : ∀ part rest, separator ∉ part → motive rest → motive (part ++ separator :: rest)) :
    motive xs := by
  induction hn : xs.length using Nat.strongRecOn generalizing xs with
  | ind n ih =>
    by_cases h : separator ∈ xs
    · obtain ⟨part, rest, rfl, hpart⟩ := List.eq_append_cons_of_mem h
      apply next part rest hpart
      apply ih rest.length _ rest rfl
      rw [← hn, List.length_append, List.length_cons]
      omega
    · exact last xs h

namespace Text

/-! ### Bytes -/

theorem lines_of_not_mem {bytes : List UInt8} (h : 10 ∉ bytes) (hne : bytes ≠ []) :
    lines bytes = [bytes] := by
  obtain ⟨b, rest, rfl⟩ := List.exists_cons_of_ne_nil hne
  have hall : ∀ x ∈ b :: rest, decide (x ≠ 10) = true := by
    intro x hx
    simpa using ne_of_mem_of_not_mem hx h
  rw [lines, List.takeWhile_eq_self_iff.2 hall, List.dropWhile_eq_nil_iff.2 hall, List.drop_nil,
    lines]

theorem lines_append_lineFeed {line : List UInt8} (h : 10 ∉ line) (rest : List UInt8) :
    lines (line ++ 10 :: rest) = line :: lines rest := by
  have hall : ∀ x ∈ line, decide (x ≠ 10) = true := by
    intro x hx
    simpa using ne_of_mem_of_not_mem hx h
  obtain ⟨b, tail, hb⟩ := List.exists_cons_of_ne_nil (List.append_ne_nil_of_right_ne_nil line
    (List.cons_ne_nil 10 rest))
  rw [hb, lines, ← hb, List.takeWhile_append_of_pos hall, List.dropWhile_append_of_pos hall]
  simp

/-- The lines are the parts between line feeds, apart from a last part that is empty. -/
theorem splitOn_lineFeed (bytes : List UInt8) :
    bytes.splitOn 10 = lines bytes ∨ bytes.splitOn 10 = lines bytes ++ [[]] := by
  induction bytes using parts_induction (10 : UInt8) with
  | last line h =>
    rw [List.splitOn_eq_singleton h]
    by_cases hne : line = []
    · subst hne
      exact .inr (by rw [lines, List.nil_append])
    · exact .inl (lines_of_not_mem h hne).symm
  | next line rest h ih =>
    rw [List.splitOn_append_cons_self_of_not_mem h, lines_append_lineFeed h]
    exact ih.imp (congrArg _) (congrArg _)

/-! ### Characters -/

/-- The bytes of characters. -/
def encode (cs : List Char) : List UInt8 :=
  cs.flatMap String.utf8EncodeChar

theorem toBytes_eq (text : String) : toBytes text = encode text.toList := by
  rw [toBytes, String.toUTF8_eq_toByteArray, ← String.utf8Encode_toList, List.utf8Encode,
    List.data_toByteArray]
  rfl

theorem ofBytes?_encode (cs : List Char) : ofBytes? (encode cs) = some (String.ofList cs) := by
  have hbytes : (⟨(encode cs).toArray⟩ : ByteArray) = (String.ofList cs).toByteArray := by
    rw [String.toByteArray_ofList, List.utf8Encode, ← List.data_toByteArray]
    rfl
  rw [ofBytes?, hbytes, String.fromUTF8?, dif_pos (String.ofList cs).isValidUTF8]
  rfl

theorem ofBytes?_toBytes (text : String) : ofBytes? (toBytes text) = some text := by
  rw [toBytes_eq, ofBytes?_encode, String.ofList_toList]

theorem eq_encode_of_ofBytes? {bytes : List UInt8} {text : String} (h : ofBytes? bytes = some text) :
    bytes = encode text.toList := by
  rw [← toBytes_eq]
  rw [ofBytes?, String.fromUTF8?] at h
  split at h
  · cases h
    rfl
  · cases h

theorem lineFeed_mem_iff {c : Char} : 10 ∈ String.utf8EncodeChar c ↔ c = '\n' := by
  constructor
  · intro h
    have hbyte (n : Nat) : (10 : UInt8) = UInt8.ofNat n → n % 256 = 10 := by
      intro hn
      rw [← UInt8.toNat_ofNat', ← hn]
      rfl
    -- The bytes of codes with more than one byte are at least 128.
    have hcode : c.val.toNat = 10 := by
      unfold String.utf8EncodeChar at h
      dsimp only at h
      split_ifs at h <;>
        simp only [List.mem_cons, List.not_mem_nil, or_false] at h
      · have := hbyte _ h
        omega
      · obtain h | h := h <;> have := hbyte _ h <;> omega
      · obtain h | h | h := h <;> have := hbyte _ h <;> omega
      · obtain h | h | h | h := h <;> have := hbyte _ h <;> omega
    exact Char.ext (UInt32.toNat_inj.1 hcode)
  · rintro rfl
    decide

theorem lineFeed_not_mem_encode {cs : List Char} (h : '\n' ∉ cs) : 10 ∉ encode cs := by
  intro hmem
  obtain ⟨c, hc, h10⟩ := List.mem_flatMap.1 hmem
  exact h (lineFeed_mem_iff.1 h10 ▸ hc)

theorem splitOn_encode (cs : List Char) :
    (encode cs).splitOn 10 = (cs.splitOn '\n').map encode := by
  induction cs using parts_induction '\n' with
  | last line h =>
    rw [List.splitOn_eq_singleton h, List.splitOn_eq_singleton (lineFeed_not_mem_encode h)]
    rfl
  | next line rest h ih =>
    have hencode : encode (line ++ '\n' :: rest) = encode line ++ 10 :: encode rest := by
      rw [encode, List.flatMap_append, List.flatMap_cons]
      rfl
    rw [hencode, List.splitOn_append_cons_self_of_not_mem (lineFeed_not_mem_encode h),
      List.splitOn_append_cons_self_of_not_mem h, List.map_cons, ih]

end Text

end SatWalk
