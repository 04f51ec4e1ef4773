import SatWalk.Json.Codec
import SatWalk.Random.Seed
import SatWalk.Text.Blank
import SatWalk.Zlib.Adler32
import SatWalk.Zlib.Inflate

/-! Streams of compressed data: two header bytes, blocks, and the checksum of what they decode
to. What follows a stream does not matter. There are many streams that decode to the same
data; how one is made of it is up to the encoder, and the simplest encoder stores it in blocks
as it is. -/

namespace SatWalk.Zlib

/-- The header names the method, a window of at most 32 KiB and no dictionary, and is a
multiple of 31. -/
def isHeader (method flags : Nat) : Bool :=
  method % 16 == 8 && method / 16 ≤ 7 && (256 * method + flags) % 31 == 0 && !flags.testBit 5

def decompress? (bytes : List UInt8) : Option (List UInt8) :=
  match bytes with
  | method :: flags :: body =>
    if isHeader method.toNat flags.toNat then do
      let (out, bits) ← inflate body
      let out := out.toList
      if bits.bytes.take 4 = bigEndian (adler32 out) then some out else none
    else none
  | _ => none

/-- A stored block with fewer than `2 ^ 16` bytes. -/
def storedBlock (last : Bool) (bytes : List UInt8) : List UInt8 :=
  (if last then 1 else 0) :: Seed.toLittleEndian 2 bytes.length ++
    Seed.toLittleEndian 2 (65535 - bytes.length) ++ bytes

def storedBlocks : (fuel : Nat) → List UInt8 → List UInt8
  | 0, _ => []
  | fuel + 1, bytes =>
    if bytes.length ≤ 65535 then storedBlock true bytes
    else storedBlock false (bytes.take 65535) ++ storedBlocks fuel (bytes.drop 65535)

/-- The encoder that stores. -/
def compress (bytes : List UInt8) : List UInt8 :=
  [0x78, 0x01] ++ storedBlocks (bytes.length + 1) bytes ++ bigEndian (adler32 bytes)

/-! ### Compressed JSON -/

inductive Error
  /-- The bytes are no stream, or its content is no text. -/
  | corrupt
  | json (cause : Json.Error)
  deriving DecidableEq, Repr

/-- The stream that an encoder makes of the text of a value. -/
def pack {α : Type} (encode : List UInt8 → List UInt8) (c : Json.Codec α) (x : α) : List UInt8 :=
  encode (Text.toBytes (c.write x))

/-- The text of a stream. -/
def text? (bytes : List UInt8) : Option String :=
  decompress? bytes >>= Text.ofBytes?

def unpack {α : Type} (c : Json.Codec α) (bytes : List UInt8) : Except Error α :=
  match text? bytes with
  | none => .error .corrupt
  | some text =>
    match c.parse text with
    | .ok x => .ok x
    | .error e => .error (.json e)

end SatWalk.Zlib
