import SatWalk.Fault

/-! Sources of random words and the draws made from them. A draw that may refuse a word asks
for another one, at most `patience` times; a source that never gives an acceptable word
leads to a fault, so every draw ends. -/

namespace SatWalk

class Source (σ : Type) where
  word32 : σ → UInt32 × σ
  word64 : σ → UInt64 × σ
  /-- How many words a draw looks at. A draw without this limit goes on until a word is
  acceptable, and it is the same draw unless so many words in a row are refused. -/
  patience : Nat

/-- A computation that draws from a source with states `σ`. -/
abbrev Draw (σ α : Type) := StateT σ Checked α

/-- How many words of 32 bits there are. -/
def size32 : Nat := 0x100000000

/-- How many words of 64 bits there are. -/
def size64 : Nat := 0x10000000000000000

namespace Draw

variable {σ α : Type} [Source σ]

/-- The top bit of a word of 32 bits. -/
def bit (s : σ) : Bool × σ :=
  let (w, s) := Source.word32 s
  (decide (size32 / 2 ≤ w.toNat), s)

/-- A number in `[0, 1)` from the top 53 bits of a word of 64 bits. -/
def unit (s : σ) : Float × σ :=
  let (w, s) := Source.word64 s
  (.ofNat (w.toNat >>> 11) / .ofNat (size64 >>> 11), s)

/-- True with the given probability; certainty needs no word. -/
def chance (p : Float) : Draw σ Bool := fun s =>
  if p == 1 then .ok (true, s)
  else if 0 ≤ p ∧ p < 1 then
    let (w, s) := Source.word64 s
    .ok (decide (w.toNat < (p * .ofNat size64).toUInt64.toNat), s)
  else .error .badProbability

/-! ### Below a bound

A word times the bound has a high part, which is the draw, and a low part, which decides
whether the word is accepted. -/

def word32 (s : σ) : Nat × σ :=
  let (w, s) := Source.word32 s
  (w.toNat, s)

def word64 (s : σ) : Nat × σ :=
  let (w, s) := Source.word64 s
  (w.toNat, s)

/-- Draws words below `size` until the low part of one is at most `zone`. -/
def scaled (size : Nat) (word : σ → Nat × σ) (bound zone : Nat) : (tries : Nat) → Draw σ Nat
  | 0, _ => .error .drawsExhausted
  | tries + 1, s =>
    let (w, s) := word s
    let product := w * bound
    if product % size ≤ zone then .ok (product / size, s)
    else scaled size word bound zone tries s

/-- The greatest low part that keeps all draws equally likely. -/
def exactZone (size bound : Nat) : Nat :=
  size - 1 - (size - bound) % bound

/-- A low part that is found by shifting: the bound, moved up to fill the word, less one. -/
def shiftedZone (size bound : Nat) : Nat :=
  (bound <<< ((size - 1).log2 - bound.log2)) - 1

/-- One of `bound` numbers, as a prepared distribution draws it. -/
def uniform (bound : Nat) : Draw σ Nat :=
  scaled size32 word32 bound (exactZone size32 bound) (Source.patience σ)

/-- One of `bound` numbers from words of 32 bits. -/
def below32 (bound : Nat) : Draw σ Nat :=
  scaled size32 word32 bound (shiftedZone size32 bound) (Source.patience σ)

/-- One of `bound` numbers from words of 64 bits. -/
def below64 (bound : Nat) : Draw σ Nat :=
  scaled size64 word64 bound (shiftedZone size64 bound) (Source.patience σ)

/-- A number from `least` to `greatest`, both included; the full range takes a word as it is. -/
def between (least greatest : Nat) : Draw σ Nat := fun s =>
  let count := greatest - least + 1
  if count = size64 then
    .ok (word64 s)
  else do
    let (n, s) ← below64 count s
    return (least + n, s)

/-- One entry of a list; nothing is drawn from an empty one. -/
def choose (xs : Array α) : Draw σ (Option α) := fun s =>
  if xs.size = 0 then .ok (none, s)
  else do
    let (i, s) ← below32 xs.size s
    return (xs[i]?, s)

/-! ### Repetition -/

/-- Appends `count` draws to `done`. -/
def timesOnto (d : Draw σ α) : (count : Nat) → (done : Array α) → Draw σ (Array α)
  | 0, done, s => .ok (done, s)
  | count + 1, done, s =>
    match d s with
    | .error e => .error e
    | .ok (x, s) => timesOnto d count (done.push x) s

/-- That many draws, in order. -/
def times (count : Nat) (d : Draw σ α) : Draw σ (Array α) :=
  timesOnto d count #[]

/-- That many bits, in order. -/
def bitsOnto : (count : Nat) → (done : Array Bool) → σ → Array Bool × σ
  | 0, done, s => (done, s)
  | count + 1, done, s =>
    let (b, s) := bit s
    bitsOnto count (done.push b) s

def bits (count : Nat) (s : σ) : Array Bool × σ :=
  bitsOnto count #[] s

end Draw

end SatWalk
