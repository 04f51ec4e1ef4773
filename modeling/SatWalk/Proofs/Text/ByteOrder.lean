import Mathlib.Data.String.Basic
import SatWalk.Proofs.Text.Lines

/-! The order of encoded text. A character with a larger code is encoded by larger bytes, at the
first place where the two encodings differ, and neither encoding starts with the other. So text is
ordered by its bytes as it is by its characters. -/

namespace SatWalk.Text

/-- What follows two encodings does not matter to their order. -/
theorem utf8EncodeChar_append_lt {c d : Char} (h : c < d) (xs ys : List UInt8) :
    String.utf8EncodeChar c ++ xs < String.utf8EncodeChar d ++ ys := by
  have hlt : c.val.toNat < d.val.toNat := h
  have hbound : d.val.toNat < 0x110000 := by
    rcases d.valid with hd | hd <;> omega
  unfold String.utf8EncodeChar
  dsimp only
  generalize c.val.toNat = v at hlt ⊢
  generalize d.val.toNat = w at hlt hbound ⊢
  -- The first byte is larger the longer the encoding is, and of one length the digits decide.
  split_ifs <;>
    simp (disch := omega) only [List.cons_append, List.nil_append, List.cons_lt_cons_iff,
      UInt8.lt_iff_toNat_lt, ← UInt8.toNat_inj, UInt8.toNat_ofNat', Nat.mod_eq_of_lt] <;>
    omega

theorem encode_lt_encode {cs ds : List Char} (h : cs < ds) : encode cs < encode ds := by
  induction h with
  | @nil d ds =>
    obtain ⟨b, bytes, hb⟩ := List.exists_cons_of_ne_nil (String.utf8EncodeChar_ne_nil (c := d))
    rw [encode, encode, List.flatMap_nil, List.flatMap_cons, hb]
    exact List.nil_lt_cons b _
  | @rel c d cs ds hlt =>
    rw [encode, encode, List.flatMap_cons, List.flatMap_cons]
    exact utf8EncodeChar_append_lt hlt _ _
  | @cons c cs ds h ih =>
    rw [encode, encode, List.flatMap_cons, List.flatMap_cons]
    exact List.append_left_lt ih

/-- Text is ordered by its bytes as it is by its characters. -/
theorem toBytes_lt_toBytes {s t : String} (h : s < t) : toBytes s < toBytes t := by
  rw [toBytes_eq, toBytes_eq]
  exact encode_lt_encode (String.lt_iff_toList_lt.1 h)

end SatWalk.Text
