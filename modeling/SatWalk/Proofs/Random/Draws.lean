import SatWalk.Formula.Assignment
import SatWalk.Proofs.Random.Acceptance

/-! What draws give, whatever words come. A number below a bound stays below it and a choice is
an entry of the list. Draws end from every state that a generous source comes to; from
others a source's patience may end first. Bits come in the number asked for. -/

namespace SatWalk.Draw

open Source (Reaches Generous)

variable {σ α : Type} [Source σ]

/-- The draw from `s` has a value as described and the source has given out words. Only if the
source is not generous there may be no value. -/
def Gives (p : α → Prop) (s : σ) (d : Checked (α × σ)) : Prop :=
  (d = .error .drawsExhausted ∧ ¬ Generous s) ∨
    ∃ x s', d = .ok (x, s') ∧ p x ∧ Reaches s s'

theorem gives_of_ok {p : α → Prop} {d : Checked (α × σ)} {x : α} {s s' : σ}
    (h : d = .ok (x, s')) (hx : p x) (hs : Reaches s s') : Gives p s d :=
  .inr ⟨x, s', h, hx, hs⟩

/-- Words that are given out before do not matter. -/
theorem Gives.of_reaches {p : α → Prop} {d : Checked (α × σ)} {s s₁ : σ} (hd : Gives p s₁ d)
    (hs : Reaches s s₁) : Gives p s d := by
  rcases hd with ⟨h, hmean⟩ | ⟨x, s', h, hx, hs'⟩
  · exact .inl ⟨h, fun hg => hmean (hg.of_reaches hs)⟩
  · exact gives_of_ok h hx (hs.trans hs')

/-- A draw after another one. -/
theorem Gives.bind {β : Type} {p : α → Prop} {q : β → Prop} {d : Checked (α × σ)} {s : σ}
    {k : α × σ → Checked (β × σ)} (hd : Gives p s d) (hk : ∀ x s', p x → Gives q s' (k (x, s'))) :
    Gives q s (d >>= k) := by
  rcases hd with ⟨h, hmean⟩ | ⟨x, s', h, hx, hs⟩
  · rw [h]
    exact .inl ⟨rfl, hmean⟩
  · rw [h]
    exact (hk x s' hx).of_reaches hs

theorem Gives.mono {p q : α → Prop} {d : Checked (α × σ)} {s : σ} (hd : Gives p s d)
    (hpq : ∀ x, p x → q x) : Gives q s d := by
  rcases hd with h | ⟨x, s', h, hx, hs⟩
  · exact .inl h
  · exact gives_of_ok h (hpq x hx) hs

theorem Gives.holds {p : α → Prop} {d : Checked (α × σ)} {x : α} {s s' : σ} (hd : Gives p s d)
    (h : d = .ok (x, s')) : p x := by
  rcases hd with ⟨hnone, -⟩ | ⟨y, s'', hy, hp, -⟩
  · rw [h] at hnone
    cases hnone
  · rw [h] at hy
    cases hy
    exact hp

/-- Repeated draws come in the number asked for, each as described. -/
theorem timesOnto_gives {p : α → Prop} {d : Draw σ α} (hd : ∀ s, Gives p s (d s)) (count : Nat)
    {done : Array α} (hdone : ∀ x ∈ done, p x) (s : σ) :
    Gives (fun xs => xs.size = done.size + count ∧ ∀ x ∈ xs, p x) s
      (timesOnto d count done s) := by
  induction count generalizing done s with
  | zero => exact gives_of_ok rfl ⟨rfl, hdone⟩ .refl
  | succ count ih =>
    rw [timesOnto]
    rcases hd s with ⟨h, hmean⟩ | ⟨x, s', h, hx, hs⟩
    · rw [h]
      exact .inl ⟨rfl, hmean⟩
    · rw [h]
      have hpush : ∀ y ∈ done.push x, p y := by
        intro y hy
        rcases Array.mem_push.1 hy with hy | rfl
        · exact hdone y hy
        · exact hx
      refine ((ih hpush s').of_reaches hs).mono fun xs hxs => ⟨?_, hxs.2⟩
      have := hxs.1
      rw [Array.size_push] at this
      omega

theorem times_gives {p : α → Prop} {d : Draw σ α} (hd : ∀ s, Gives p s (d s)) (count : Nat)
    (s : σ) : Gives (fun xs => xs.size = count ∧ ∀ x ∈ xs, p x) s (times count d s) := by
  have hnone : ∀ x ∈ (#[] : Array α), p x := by simp
  refine (timesOnto_gives hd count hnone s).mono fun xs hxs => ⟨?_, hxs.2⟩
  simpa using hxs.1

/-! ### Below a bound -/

theorem word32_lt (s : σ) : (word32 s).1 < size32 :=
  UInt32.toNat_lt _

theorem word64_lt (s : σ) : (word64 s).1 < size64 :=
  UInt64.toNat_lt _

/-- A draw below a bound gives a number below it, if generous sources end it in time. -/
theorem scaled_gives {size bound zone tries : Nat} {word : σ → Nat × σ} {s : σ}
    (hstep : ∀ {s'}, Reaches s s' → Reaches s (word s').2) (hword : ∀ s, (word s).1 < size)
    (hbound : 0 < bound) (haccept : Generous s → Accepts size word bound zone tries s) :
    Gives (· < bound) s (scaled size word bound zone tries s) := by
  cases h : scaled size word bound zone tries s with
  | error e =>
    obtain ⟨rfl, hnone⟩ := scaled_eq_error_iff.1 h
    exact .inl ⟨rfl, fun hg => hnone (haccept hg)⟩
  | ok r =>
    obtain ⟨hx, hs⟩ := scaled_spec (P := Reaches s) hstep hword hbound .refl h
    exact gives_of_ok rfl hx hs

theorem uniform_gives {bound : Nat} (hb : 0 < bound) (s : σ) :
    Gives (· < bound) s (uniform bound s) :=
  scaled_gives .word32 word32_lt hb fun hg => hg.uniform .refl bound

theorem below32_gives {bound : Nat} (hb : 0 < bound) (s : σ) :
    Gives (· < bound) s (below32 bound s) :=
  scaled_gives .word32 word32_lt hb fun hg => hg.below32 .refl bound

theorem below64_gives {bound : Nat} (hb : 0 < bound) (s : σ) :
    Gives (· < bound) s (below64 bound s) :=
  scaled_gives .word64 word64_lt hb fun hg => hg.below64 .refl bound

/-- A number from a range of words is in the range. -/
theorem between_gives {least greatest : Nat} (hle : least ≤ greatest) (hlt : greatest < size64)
    (s : σ) : Gives (fun n => least ≤ n ∧ n ≤ greatest) s (between least greatest s) := by
  unfold between
  dsimp only
  split_ifs with hfull
  · have hword := word64_lt s
    exact gives_of_ok (x := (word64 s).1) rfl ⟨by omega, by omega⟩ (.word64 .refl)
  · refine (below64_gives (by omega) s).bind fun n s' hn => ?_
    exact gives_of_ok rfl ⟨by omega, by omega⟩ .refl

/-- With a probability there is always an outcome. -/
theorem chance_gives {p : Float} (h : (p == 1) = true ∨ 0 ≤ p ∧ p < 1) (s : σ) :
    Gives (fun _ => True) s (chance p s) := by
  unfold chance
  split_ifs with hone hp
  · exact gives_of_ok rfl trivial .refl
  · exact gives_of_ok rfl trivial (.word64 .refl)
  · exact absurd h (not_or.2 ⟨hone, hp⟩)

theorem choose_gives (xs : Array α) (hx : xs ≠ #[]) (s : σ) :
    Gives (fun x => ∃ y ∈ xs, x = some y) s (choose xs s) := by
  have hpos : 0 < xs.size := Array.size_pos_iff.2 hx
  rw [choose, if_neg (Nat.ne_of_gt hpos)]
  refine (below32_gives hpos s).bind fun i s' hi => ?_
  refine gives_of_ok (x := some xs[i]) ?_ ⟨xs[i], Array.getElem_mem hi, rfl⟩ .refl
  simp [Array.getElem?_eq_getElem hi]

/-! ### Bits -/

theorem reaches_bitsOnto (count : Nat) (done : Array Bool) (s : σ) :
    Reaches s (bitsOnto count done s).2 := by
  induction count generalizing done s with
  | zero => exact .refl
  | succ count ih => exact (Reaches.word32 .refl).trans (ih _ (bit s).2)

theorem reaches_bits (count : Nat) (s : σ) : Reaches s (bits count s).2 :=
  reaches_bitsOnto count #[] s

theorem size_bitsOnto (count : Nat) (done : Array Bool) (s : σ) :
    (bitsOnto count done s).1.size = done.size + count := by
  induction count generalizing done s with
  | zero => rfl
  | succ count ih =>
    rw [bitsOnto]
    dsimp only
    rw [ih, Array.size_push]
    omega

@[simp] theorem size_bits (count : Nat) (s : σ) : (bits count s).1.size = count := by
  rw [bits, size_bitsOnto, Array.size_empty, Nat.zero_add]

end SatWalk.Draw

namespace SatWalk.Assignment

variable {σ : Type} [Source σ]

@[simp] theorem size_redraw (a : Assignment) (s : σ) :
    (a.redraw s).1.values.size = a.values.size :=
  Draw.size_bits a.values.size s

/-- Drawing fails only for want of memory. -/
theorem draw_eq {n : Nat} (hn : n ≤ memoryLimit) (s : σ) :
    draw n s = .ok (⟨(Draw.bits n s).1⟩, (Draw.bits n s).2) := by
  rw [draw, reserve_of_le (by omega)]
  rfl

theorem draw_full {n : Nat} (hn : memoryLimit < n) (s : σ) :
    draw n s = .error .capacityExceeded := by
  rw [draw, reserve_of_lt (by omega)]
  rfl

theorem size_of_draw {n : Nat} {s s' : σ} {a : Assignment} (h : draw n s = .ok (a, s')) :
    a.values.size = n := by
  by_cases hn : n ≤ memoryLimit
  · rw [draw_eq hn] at h
    cases h
    exact Draw.size_bits n s
  · rw [draw_full (Nat.lt_of_not_le hn)] at h
    contradiction

end SatWalk.Assignment
