import SatWalk.Proofs.Binary64.Order
import SatWalk.Proofs.Random.Draws
import SatWalk.Walk.Gate

/-! Draws from chosen words. A script of words can stand before any source. Before zeros it is
generous: a zero is acceptable to every draw, and the script ends in time. The greatest words
lead past every gate below one, and every entry of a list has a word that draws it at the
first try. -/

namespace SatWalk

/-- A source that gives out the words of a script and then those of another source. -/
structure Scripted (σ : Type) where
  script : List UInt32
  rest : σ

namespace Scripted

variable {σ : Type} [Source σ]

def next : Scripted σ → UInt32 × Scripted σ
  | ⟨w :: ws, rest⟩ => (w, ⟨ws, rest⟩)
  | ⟨[], rest⟩ => ((Source.word32 rest).1, ⟨[], (Source.word32 rest).2⟩)

/-- A word of 64 bits is the next two words, the low one first. -/
instance : Source (Scripted σ) where
  word32 := next
  word64 s :=
    let (low, s) := s.next
    let (high, s) := s.next
    (low.toUInt64 ||| (high.toUInt64 <<< 32), s)
  patience := Source.patience σ + 1

theorem script_word32 (s : Scripted σ) : (Source.word32 s).2.script = s.script.tail := by
  obtain ⟨_ | ⟨w, ws⟩, rest⟩ := s <;> rfl

theorem script_word64 (s : Scripted σ) : (Source.word64 s).2.script = s.script.tail.tail := by
  obtain ⟨_ | ⟨w, _ | ⟨w', ws⟩⟩, rest⟩ := s <;> rfl

/-- Words are taken from the script and never put back. -/
theorem length_script_le {s s' : Scripted σ} (h : Source.Reaches s s') :
    s'.script.length ≤ s.script.length := by
  induction h with
  | refl => exact Nat.le_refl _
  | word32 _ ih =>
    rw [script_word32, List.length_tail]
    omega
  | word64 _ ih =>
    rw [script_word64, List.length_tail, List.length_tail]
    omega

/-- A word shortens a script that is not used up. -/
theorem length_script_lt {s : Scripted σ} (h : s.script ≠ []) :
    (Draw.word32 s).2.script.length < s.script.length ∧
      (Draw.word64 s).2.script.length < s.script.length := by
  have hpos := List.length_pos_iff.2 h
  constructor
  · rw [show (Draw.word32 s).2.script = s.script.tail from script_word32 s, List.length_tail]
    omega
  · rw [show (Draw.word64 s).2.script = s.script.tail.tail from script_word64 s,
      List.length_tail, List.length_tail]
    omega

end Scripted

/-! ### Words before zeros -/

/-- A source that gives out zeros, with the given patience. -/
structure Zeros (patience : Nat)

instance {n : Nat} : Source (Zeros n) where
  word32 s := (0, s)
  word64 s := (0, s)
  patience := n

namespace Scripted

variable {n : Nat} {s : Scripted (Zeros n)}

/-- A zero comes at the latest after the script. -/
theorem accepts_of_length_lt {size bound zone tries : Nat}
    {word : Scripted (Zeros n) → Nat × Scripted (Zeros n)}
    (hzero : ∀ s, s.script = [] → (word s).1 = 0)
    (hshorter : ∀ s, s.script ≠ [] → (word s).2.script.length < s.script.length)
    (h : s.script.length < tries) : Draw.Accepts size word bound zone tries s := by
  induction tries generalizing s with
  | zero => cases h
  | succ tries ih =>
    by_cases hs : s.script = []
    · refine .inl ?_
      rw [hzero s hs, Nat.zero_mul, Nat.zero_mod]
      exact Nat.zero_le _
    · refine .inr (ih ?_)
      have := hshorter s hs
      omega

theorem words_of_nil (h : s.script = []) : (Draw.word32 s).1 = 0 ∧ (Draw.word64 s).1 = 0 := by
  obtain ⟨_, rest⟩ := s
  subst h
  refine ⟨rfl, ?_⟩
  change ((0 : UInt32).toUInt64 ||| (0 : UInt32).toUInt64 <<< 32).toNat = 0
  decide

theorem generous_of_length_le (h : s.script.length ≤ n) : Source.Generous s := by
  have hlength {s' : Scripted (Zeros n)} (hs : Source.Reaches s s') :
      s'.script.length < Source.patience (Scripted (Zeros n)) :=
    Nat.lt_succ_of_le (Nat.le_trans (length_script_le hs) h)
  have hword32 {s' : Scripted (Zeros n)} (hs : Source.Reaches s s') (bound zone : Nat) :
      Draw.Accepts size32 Draw.word32 bound zone (Source.patience (Scripted (Zeros n))) s' :=
    accepts_of_length_lt (fun _ hnil => (words_of_nil hnil).1)
      (fun _ hne => (length_script_lt hne).1) (hlength hs)
  have hword64 {s' : Scripted (Zeros n)} (hs : Source.Reaches s s') (bound zone : Nat) :
      Draw.Accepts size64 Draw.word64 bound zone (Source.patience (Scripted (Zeros n))) s' :=
    accepts_of_length_lt (fun _ hnil => (words_of_nil hnil).2)
      (fun _ hne => (length_script_lt hne).2) (hlength hs)
  exact ⟨fun hs _ => hword32 hs _ _, fun hs _ => hword32 hs _ _, fun hs _ => hword64 hs _ _⟩

end Scripted

namespace Source

variable {σ : Type} [Source σ]

/-- The next words of a source. -/
def words : (count : Nat) → σ → List UInt32
  | 0, _ => []
  | count + 1, s => (word32 s).1 :: words count (word32 s).2

theorem length_words (count : Nat) (s : σ) : (words count s).length = count := by
  induction count generalizing s with
  | zero => rfl
  | succ count ih => rw [words, List.length_cons, ih]

/-- The next words of a source, and zeros after them. -/
def cutOff (count : Nat) (s : σ) : Scripted (Zeros count) :=
  ⟨words count s, ⟨⟩⟩

theorem generous_cutOff (count : Nat) (s : σ) : Generous (cutOff count s) :=
  Scripted.generous_of_length_le (Nat.le_of_eq (length_words count s))

end Source

variable {σ : Type} [Source σ]

/-- The words for a gate that is to choose at random. -/
def randomGate : List UInt32 :=
  [0xffffffff, 0xffffffff]

theorem Gate.draw_randomGate {g : Gate} (hp : g.p < 1) (ws : List UInt32) (rest : σ) :
    g.draw (⟨randomGate ++ ws, rest⟩ : Scripted σ) = (.random, ⟨ws, rest⟩) := by
  have hx : (Draw.unit (⟨randomGate ++ ws, rest⟩ : Scripted σ)) =
      (Binary64.belowOne, ⟨ws, rest⟩) := rfl
  rw [draw, hx]
  dsimp only
  rw [if_neg (Binary64.not_belowOne_lt hp)]

namespace Draw

/-- The least word whose product with the bound reaches the high part `i`. -/
def wordFor (bound i : Nat) : UInt32 :=
  .ofNat ((i * size32 + (bound - 1)) / bound)

theorem toNat_wordFor {bound i : Nat} (hi : i < bound) (hb : bound ≤ size32) :
    (wordFor bound i).toNat = (i * size32 + (bound - 1)) / bound := by
  have hmul : (i + 1) * size32 ≤ bound * size32 := Nat.mul_le_mul_right _ hi
  apply UInt32.toNat_ofNat_of_lt'
  apply Nat.div_lt_of_lt_mul
  change _ < bound * size32
  rw [Nat.succ_mul] at hmul
  omega

theorem wordFor_mul {bound i : Nat} (hi : i < bound) (hb : bound ≤ size32) :
    i * size32 ≤ (wordFor bound i).toNat * bound ∧
      (wordFor bound i).toNat * bound < i * size32 + bound := by
  rw [toNat_wordFor hi hb]
  have hdiv := Nat.div_add_mod' (i * size32 + (bound - 1)) bound
  have hmod := Nat.mod_lt (i * size32 + (bound - 1)) (Nat.zero_lt_of_lt hi)
  omega

theorem le_shiftedZone (size bound : Nat) : bound ≤ shiftedZone size bound + 1 := by
  have := Nat.le_mul_of_pos_right bound (Nat.two_pow_pos ((size - 1).log2 - bound.log2))
  rw [shiftedZone, Nat.shiftLeft_eq]
  omega

omit [Source σ] in
/-- A word whose low part is accepted is the last one drawn. -/
theorem scaled_of_le {size bound zone w : Nat} {word : σ → Nat × σ} {s s' : σ}
    (hw : word s = (w, s')) (h : w * bound % size ≤ zone) (tries : Nat) :
    scaled size word bound zone (tries + 1) s = .ok (w * bound / size, s') := by
  rw [scaled, hw]
  exact if_pos h

theorem below32_wordFor {bound i : Nat} (hi : i < bound) (hb : bound ≤ size32) (ws : List UInt32)
    (rest : σ) : below32 bound (⟨wordFor bound i :: ws, rest⟩ : Scripted σ) =
      .ok (i, ⟨ws, rest⟩) := by
  obtain ⟨hle, hlt⟩ := wordFor_mul hi hb
  have hzone := le_shiftedZone size32 bound
  have hdiv : (wordFor bound i).toNat * bound / size32 = i :=
    Nat.div_eq_of_lt_le hle (by rw [Nat.succ_mul]; omega)
  have haccept : (wordFor bound i).toNat * bound % size32 ≤ shiftedZone size32 bound := by
    have hmod := Nat.div_add_mod' ((wordFor bound i).toNat * bound) size32
    rw [hdiv] at hmod
    omega
  have hw : word32 (⟨wordFor bound i :: ws, rest⟩ : Scripted σ) =
      ((wordFor bound i).toNat, ⟨ws, rest⟩) := rfl
  have hfirst := scaled_of_le hw haccept (Source.patience σ)
  rwa [hdiv] at hfirst

/-- Every entry can be drawn. -/
theorem choose_wordFor {α : Type} {xs : Array α} {i : Nat} (hi : i < xs.size)
    (hb : xs.size ≤ size32) (ws : List UInt32) (rest : σ) :
    choose xs (⟨wordFor xs.size i :: ws, rest⟩ : Scripted σ) = .ok (some xs[i], ⟨ws, rest⟩) := by
  rw [choose, if_neg (Nat.ne_of_gt (Nat.zero_lt_of_lt hi)), below32_wordFor hi hb]
  simp [hi]

end Draw

end SatWalk
