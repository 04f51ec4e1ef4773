import Mathlib.Tactic.SplitIfs
import SatWalk.Random.Source

/-! Sources that give acceptable words in time. A draw that may refuse words ends if one of the
next words is accepted before the source's patience ends, and which words are accepted is told by
the words, the bound and the zone alone. A source is generous if this holds wherever it
comes to. With more patience a draw that ends is the same, so how much patience there is
matters only to draws that would refuse as many words in a row. -/

namespace SatWalk

/-! ### Words in time -/

/-- One of the next `tries` words, times the bound, has a low part of at most `zone`. -/
def Draw.Accepts {σ : Type} (size : Nat) (word : σ → Nat × σ) (bound zone : Nat) :
    (tries : Nat) → σ → Prop
  | 0, _ => False
  | tries + 1, s =>
    (word s).1 * bound % size ≤ zone ∨ Accepts size word bound zone tries (word s).2

namespace Source

variable {σ : Type} [Source σ]

/-- The states that a source comes to by giving out words. -/
inductive Reaches (s : σ) : σ → Prop
  | refl : Reaches s s
  | word32 {s' : σ} (h : Reaches s s') : Reaches s (word32 s').2
  | word64 {s' : σ} (h : Reaches s s') : Reaches s (word64 s').2

theorem Reaches.trans {s s' s'' : σ} (h : Reaches s s') (h' : Reaches s' s'') : Reaches s s'' := by
  induction h' with
  | refl => exact h
  | word32 _ ih => exact ih.word32
  | word64 _ ih => exact ih.word64

/-- Wherever the source comes to, it gives an acceptable word in time, for each way of drawing
below a bound. -/
structure Generous (s : σ) : Prop where
  uniform {s' : σ} (h : Reaches s s') (bound : Nat) :
    Draw.Accepts size32 Draw.word32 bound (Draw.exactZone size32 bound) (patience σ) s'
  below32 {s' : σ} (h : Reaches s s') (bound : Nat) :
    Draw.Accepts size32 Draw.word32 bound (Draw.shiftedZone size32 bound) (patience σ) s'
  below64 {s' : σ} (h : Reaches s s') (bound : Nat) :
    Draw.Accepts size64 Draw.word64 bound (Draw.shiftedZone size64 bound) (patience σ) s'

theorem Generous.of_reaches {s s' : σ} (hs : Generous s) (h : Reaches s s') : Generous s' where
  uniform h' := hs.uniform (h.trans h')
  below32 h' := hs.below32 (h.trans h')
  below64 h' := hs.below64 (h.trans h')

end Source

namespace Draw

variable {σ : Type} {size bound zone : Nat} {word : σ → Nat × σ} {tries : Nat} {s : σ}

/-! ### Draws below a bound -/

/-- A draw fails exactly if no word is accepted in time. -/
theorem scaled_eq_error_iff {e : Fault} :
    scaled size word bound zone tries s = .error e ↔
      e = .drawsExhausted ∧ ¬ Accepts size word bound zone tries s := by
  induction tries generalizing s with
  | zero => simp [scaled, Accepts, eq_comm]
  | succ tries ih =>
    rw [scaled, Accepts]
    dsimp only
    split_ifs with haccept
    · simp [haccept]
    · rw [ih]
      simp [haccept]

/-- A draw that ends is the same with more patience. -/
theorem scaled_of_more_tries {r : Nat × σ} (h : scaled size word bound zone tries s = .ok r)
    {tries' : Nat} (hle : tries ≤ tries') : scaled size word bound zone tries' s = .ok r := by
  induction tries generalizing s tries' with
  | zero => cases h
  | succ tries ih =>
    obtain ⟨more, rfl⟩ := Nat.exists_eq_add_of_le' (Nat.le_trans (Nat.succ_pos tries) hle)
    rw [scaled] at h ⊢
    dsimp only at h ⊢
    split_ifs at h ⊢ with haccept
    · exact h
    · exact ih h (Nat.le_of_succ_le_succ hle)

/-- What a draw gives is below its bound, and what words keep holds of the state it leaves. -/
theorem scaled_spec {P : σ → Prop} (hstep : ∀ {s}, P s → P (word s).2)
    (hword : ∀ s, (word s).1 < size) (hbound : 0 < bound) {x : Nat} {s' : σ} (hs : P s)
    (h : scaled size word bound zone tries s = .ok (x, s')) : x < bound ∧ P s' := by
  induction tries generalizing s with
  | zero => cases h
  | succ tries ih =>
    rw [scaled] at h
    dsimp only at h
    split_ifs at h
    · cases h
      refine ⟨Nat.div_lt_of_lt_mul ?_, hstep hs⟩
      exact Nat.mul_lt_mul_of_pos_right (hword s) hbound
    · exact ih (hstep hs) h

end Draw

end SatWalk
