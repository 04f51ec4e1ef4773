/-! Blank characters (the `White_Space` property of Unicode) and the words they separate. -/

namespace SatWalk.Text

def blankRanges : List (Nat × Nat) :=
  [(0x9, 0xd), (0x20, 0x20), (0x85, 0x85), (0xa0, 0xa0), (0x1680, 0x1680), (0x2000, 0x200a),
    (0x2028, 0x2029), (0x202f, 0x202f), (0x205f, 0x205f), (0x3000, 0x3000)]

def isBlank (c : Char) : Bool :=
  blankRanges.any fun (first, last) => first ≤ c.toNat && c.toNat ≤ last

/-- Without the blanks at both ends. -/
def trim (cs : List Char) : List Char :=
  ((cs.dropWhile isBlank).reverse.dropWhile isBlank).reverse

/-- The longest runs of characters that are not blank, in order. -/
def words (cs : List Char) : List (List Char) :=
  match _h : cs.dropWhile isBlank with
  | [] => []
  | c :: rest =>
    (c :: rest.takeWhile (!isBlank ·)) :: words (rest.dropWhile (!isBlank ·))
termination_by cs.length
decreasing_by
  have hlen := (List.dropWhile_suffix isBlank (l := cs)).length_le
  have hrest := (List.dropWhile_suffix (!isBlank ·) (l := rest)).length_le
  simp only [_h, List.length_cons] at hlen
  omega

/-- The parts between line feeds. A last part that is empty is no line. -/
def lines (bytes : List UInt8) : List (List UInt8) :=
  match bytes with
  | [] => []
  | b :: rest =>
    (b :: rest).takeWhile (· ≠ 10) :: lines (((b :: rest).dropWhile (· ≠ 10)).drop 1)
termination_by bytes.length
decreasing_by
  rw [List.length_drop, List.dropWhile_cons]
  split
  · have := (List.dropWhile_suffix (· ≠ (10 : UInt8)) (l := rest)).length_le
    simp only [List.length_cons] at this ⊢
    omega
  · simp

/-- The text that a byte sequence encodes in UTF-8, if it encodes one. -/
def ofBytes? (bytes : List UInt8) : Option String :=
  String.fromUTF8? ⟨bytes.toArray⟩

def toBytes (text : String) : List UInt8 :=
  text.toUTF8.data.toList

end SatWalk.Text
