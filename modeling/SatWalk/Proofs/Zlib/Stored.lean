import Mathlib.Tactic.Ring
import SatWalk.Zlib.Stream

/-! Encoders, and the one that stores. The bits of whole bytes are read as the numbers that the
bytes stand for, so each block is decoded to the bytes it stores, and a compressed stream to
what it was made of. -/

namespace SatWalk.Zlib

/-- Every stream that is made is decompressed to what it was made of. -/
def IsEncoder (encode : List UInt8 → List UInt8) : Prop :=
  ∀ bytes, decompress? (encode bytes) = some bytes

/-! ### Bits of bytes -/

namespace Bits

theorem take_succ_eq {bits after : Bits} {b : Bool} (h : bits.next? = some (b, after)) (n : Nat) :
    bits.take (n + 1) = (after.take n).map fun (a, bits) => (2 * a + b.toNat, bits) := by
  rw [take, h, Option.bind_eq_bind, Option.bind_some]
  dsimp only
  cases after.take n <;> rfl

/-- Bits that are taken at once may be taken in two parts. -/
theorem take_add {m n a b : Nat} {bits after last : Bits} (ha : bits.take m = some (a, after))
    (hb : after.take n = some (b, last)) : bits.take (m + n) = some (a + 2 ^ m * b, last) := by
  induction m generalizing a bits with
  | zero =>
    cases ha
    simpa using hb
  | succ m ih =>
    cases hnext : bits.next? with
    | none =>
      rw [take, hnext] at ha
      cases ha
    | some p =>
      obtain ⟨bit, rest⟩ := p
      rw [take_succ_eq hnext] at ha
      obtain ⟨⟨a', after'⟩, ha', hvalue⟩ := Option.map_eq_some_iff.1 ha
      cases hvalue
      rw [Nat.add_right_comm, take_succ_eq hnext, ih ha']
      simp only [Option.map_some, Option.some_inj, Prod.mk.injEq, and_true]
      ring

/-- A byte is the number of its bits. -/
theorem toNat_bits : ∀ n < 256, n = 2 * (2 * (2 * (2 * (2 * (2 * (2 * (2 * 0 +
    (n.testBit 7).toNat) + (n.testBit 6).toNat) + (n.testBit 5).toNat) + (n.testBit 4).toNat) +
    (n.testBit 3).toNat) + (n.testBit 2).toNat) + (n.testBit 1).toNat) + (n.testBit 0).toNat := by
  decide +kernel

theorem take_byte (byte : UInt8) (bytes : List UInt8) :
    take 8 ⟨[], byte :: bytes⟩ = some (byte.toNat, ⟨[], bytes⟩) := by
  exact congrArg (fun n => some (n, (⟨[], bytes⟩ : Bits))) (toNat_bits _ byte.toNat_lt).symm

theorem take_two_bytes (low high : UInt8) (bytes : List UInt8) :
    take 16 ⟨[], low :: high :: bytes⟩ = some (low.toNat + 256 * high.toNat, ⟨[], bytes⟩) := by
  exact take_add (take_byte low _) (take_byte high bytes)

/-- A number of 16 bits is read from its bytes. -/
theorem take_toLittleEndian {n : Nat} (h : n ≤ 65535) (bytes : List UInt8) :
    take 16 ⟨[], Seed.toLittleEndian 2 n ++ bytes⟩ = some (n, ⟨[], bytes⟩) := by
  change take 16 ⟨[], .ofNat n :: .ofNat (n / 256) :: bytes⟩ = _
  rw [take_two_bytes]
  simp only [UInt8.toNat_ofNat']
  congr 2
  omega

theorem copyBytes_append (out : Array UInt8) (bytes rest : List UInt8) :
    copyBytes bytes.length out (bytes ++ rest) = some (out ++ bytes, ofBytes rest) := by
  induction bytes generalizing out with
  | nil => simp [copyBytes]
  | cons b bytes ih =>
    rw [List.length_cons, List.cons_append, copyBytes, ih]
    simp

end Bits

/-! ### Blocks -/

/-- A stored block gives its bytes, wherever in its byte the head of the block ends. -/
theorem readStored_eq (begun : List Bool) (out : Array UInt8) {bytes : List UInt8}
    (h : bytes.length ≤ 65535) (rest : List UInt8) :
    readStored out ⟨begun, Seed.toLittleEndian 2 bytes.length ++
      (Seed.toLittleEndian 2 (65535 - bytes.length) ++ (bytes ++ rest))⟩ =
        some (out ++ bytes, .ofBytes rest) := by
  have hlength := Bits.take_toLittleEndian h
    (Seed.toLittleEndian 2 (65535 - bytes.length) ++ (bytes ++ rest))
  have hcomplement := Bits.take_toLittleEndian (Nat.sub_le 65535 bytes.length) (bytes ++ rest)
  have hsum : bytes.length + (65535 - bytes.length) = 65535 := by omega
  unfold readStored Bits.align
  refine Option.bind_eq_some_iff.2 ⟨_, hlength, ?_⟩
  refine Option.bind_eq_some_iff.2 ⟨_, hcomplement, ?_⟩
  dsimp only
  rw [if_pos hsum, Bits.copyBytes_append]

theorem readHead_storedBlock (last : Bool) (out : Array UInt8) {bytes : List UInt8}
    (h : bytes.length ≤ 65535) (rest : List UInt8) :
    readHead out (.ofBytes (storedBlock last bytes ++ rest)) =
      some (if last then .finished else .between, out ++ bytes, .ofBytes rest) := by
  have hblock : storedBlock last bytes ++ rest = (if last then 1 else 0) ::
      (Seed.toLittleEndian 2 bytes.length ++
        (Seed.toLittleEndian 2 (65535 - bytes.length) ++ (bytes ++ rest))) := by
    simp [storedBlock]
  rw [hblock]
  cases last
  all_goals
    exact Option.bind_eq_some_iff.2 ⟨_, readStored_eq _ out h rest, rfl⟩

/-- Decoding goes on block by block. Every block but the last stores a byte, so there are no more
blocks than bytes, and one more for the end. -/
theorem inflateFrom_storedBlocks {fuel steps : Nat} {bytes : List UInt8}
    (hfuel : bytes.length < fuel) (hsteps : bytes.length < steps) (out : Array UInt8)
    (rest : List UInt8) :
    inflateFrom steps .between out (.ofBytes (storedBlocks fuel bytes ++ rest)) =
      some (out ++ bytes, .ofBytes rest) := by
  induction fuel generalizing bytes steps out with
  | zero => contradiction
  | succ fuel ih =>
    cases steps with
    | zero => contradiction
    | succ steps =>
      rw [storedBlocks]
      split_ifs with hshort
      · refine Option.bind_eq_some_iff.2 ⟨_, readHead_storedBlock true out hshort rest, ?_⟩
        cases steps <;> rfl
      · have hlong : 65535 < bytes.length := Nat.lt_of_not_le hshort
        have hdrop : (bytes.drop 65535).length < bytes.length := by
          rw [List.length_drop]
          omega
        rw [List.append_assoc]
        refine Option.bind_eq_some_iff.2
          ⟨_, readHead_storedBlock false out (List.length_take_le _ _) _, ?_⟩
        have hall : out ++ bytes.take 65535 ++ bytes.drop 65535 = out ++ bytes := by
          apply Array.ext'
          simp
        rw [← hall]
        exact ih (by omega) (by omega) _

theorem length_le_length_storedBlocks {fuel : Nat} {bytes : List UInt8} (h : bytes.length < fuel) :
    bytes.length ≤ (storedBlocks fuel bytes).length := by
  induction fuel generalizing bytes with
  | zero => contradiction
  | succ fuel ih =>
    rw [storedBlocks]
    split_ifs with hshort
    · simp [storedBlock]
      omega
    · have hrest : (bytes.drop 65535).length < fuel := by
        rw [List.length_drop]
        omega
      have hdrop := ih hrest
      simp only [storedBlock, List.length_append, List.length_take, List.length_drop,
        List.length_cons] at hdrop ⊢
      omega

theorem isEncoder_compress : IsEncoder compress := by
  intro bytes
  have hfuel : bytes.length < bytes.length + 1 := Nat.lt_succ_self _
  have hinflate : inflate (storedBlocks (bytes.length + 1) bytes ++ bigEndian (adler32 bytes)) =
      some ((#[] : Array UInt8) ++ bytes, .ofBytes (bigEndian (adler32 bytes))) := by
    have hlength := length_le_length_storedBlocks hfuel
    refine inflateFrom_storedBlocks hfuel ?_ #[] _
    rw [List.length_append]
    omega
  have hbytes : ((#[] : Array UInt8) ++ bytes).toList = bytes := by simp
  have hheader : isHeader (0x78 : UInt8).toNat (0x01 : UInt8).toNat = true := by decide
  change (if isHeader (0x78 : UInt8).toNat (0x01 : UInt8).toNat = true then _ else none) = _
  rw [if_pos hheader]
  refine Option.bind_eq_some_iff.2 ⟨_, hinflate, ?_⟩
  dsimp only
  rw [hbytes]
  exact if_pos rfl

end SatWalk.Zlib
