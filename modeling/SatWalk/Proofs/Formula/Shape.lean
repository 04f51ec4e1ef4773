import SatWalk.Proofs.Formula.Planted

/-! The shape of generated formulas. A size that passes the check has room for one more variable in
32 bits, so no literal leaves its range on the way; the literals of a plain formula are drawn in one
piece and cut into clauses of the length that was asked for. So both kinds of formulas have the size
that was asked for, unless memory or the source gives out, and sizes that do not pass are refused
before anything is drawn. -/

namespace SatWalk

/-- There is memory for the table of all literals and for the list of clauses. -/
def Difficulty.FitsPlain (d : Difficulty) : Prop :=
  max d.numClauses 1 * d.clauseLength ≤ memoryLimit ∧
    d.numClauses * d.clauseLength * 4 ≤ memoryLimit ∧ d.numClauses * 24 ≤ memoryLimit

instance (d : Difficulty) : Decidable d.FitsPlain :=
  inferInstanceAs (Decidable (_ ∧ _))

namespace Draw

variable {σ α β : Type} [Source σ]

/-- Memory is wanting, unless words are before, which they never are to a generous source. -/
def Wants (s : σ) (d : Checked α) : Prop :=
  (d = .error .drawsExhausted ∧ ¬ Source.Generous s) ∨ d = .error .capacityExceeded

theorem wants_bind {p : α → Prop} {s : σ} {d : Checked (α × σ)} {k : α × σ → Checked β}
    (hd : Gives p s d) (hk : ∀ x s', Wants s' (k (x, s'))) : Wants s (d >>= k) := by
  rcases hd with ⟨h, hmean⟩ | ⟨x, s', h, -, hs⟩
  · rw [h]
    exact .inl ⟨rfl, hmean⟩
  · rw [h]
    exact (hk x s').imp_left fun hnone => ⟨hnone.1, fun hg => hnone.2 (hg.of_reaches hs)⟩

end Draw

namespace Literal

variable {n : Nat}

theorem var_signed (v sign : Nat) : var (Generation.signed v sign) = v := by
  unfold Generation.signed var
  split_ifs <;> simp

theorem declared_signed {v : Nat} (hpos : 0 < v) (hle : v ≤ n) (sign : Nat) :
    Declared n (Generation.signed v sign) := by
  have hvar := var_signed v sign
  refine ⟨fun h0 => ?_, hvar.trans_le hle⟩
  rw [h0] at hvar
  exact absurd hvar hpos.ne

/-- A literal of a declared variable fits into 32 bits. -/
theorem Declared.fitsWord {l : Literal} (h : Declared n l) (hn : n < Text.literalBound) :
    l.FitsWord :=
  (h.bounds hn).imp_left Int.le_of_lt

end Literal

namespace Generation

open Draw (Gives Wants gives_of_ok times_gives wants_bind)
open Source (Generous)
open Literal (Declared)

variable {σ : Type} [Source σ] {d : Difficulty}

/-! ### Rows -/

/-- Enough entries are cut into rows of the same length. -/
theorem mem_rows {α : Type} {length count : Nat} {xs row : List α}
    (hxs : xs.length = count * length) (hrow : row ∈ rows length count xs) :
    row.length = length ∧ ∀ x ∈ row, x ∈ xs := by
  induction count generalizing xs with
  | zero => cases hrow
  | succ count ih =>
    rw [Nat.succ_mul] at hxs
    rcases List.mem_cons.1 hrow with rfl | hrow
    · exact ⟨by rw [List.length_take]; omega, fun x hx => List.mem_of_mem_take hx⟩
    · obtain ⟨hlength, hmem⟩ := ih (by rw [List.length_drop]; omega) hrow
      exact ⟨hlength, fun x hx => List.mem_of_mem_drop (hmem x hx)⟩

theorem declared_of_mem_zipWith {n : Nat} {vars signs : List Nat}
    (hvars : ∀ v ∈ vars, 0 < v ∧ v ≤ n) {l : Literal} (hl : l ∈ List.zipWith signed vars signs) :
    Declared n l := by
  obtain ⟨i, hi, rfl⟩ := List.mem_iff_getElem.1 hl
  rw [List.getElem_zipWith]
  obtain ⟨hpos, hle⟩ := hvars _ (List.getElem_mem _)
  exact Literal.declared_signed hpos hle _

/-- The rows of drawn variables and signs are clauses as asked for. -/
theorem shaped_of_mem_rows {vars signs : Array Nat} {c : Clause}
    (hvars : vars.size = d.numClauses * d.clauseLength ∧ ∀ v ∈ vars, 0 < v ∧ v ≤ d.numVariables)
    (hsigns : signs.size = d.numClauses * d.clauseLength)
    (hc : c ∈ rows d.clauseLength d.numClauses (List.zipWith signed vars.toList signs.toList)) :
    Shaped d c := by
  have hlength : (List.zipWith signed vars.toList signs.toList).length =
      d.numClauses * d.clauseLength := by
    rw [List.length_zipWith, Array.length_toList, Array.length_toList, hvars.1, hsigns,
      Nat.min_self]
  obtain ⟨hrow, hmem⟩ := mem_rows hlength hc
  refine ⟨hrow, fun l hl => declared_of_mem_zipWith (fun v hv => ?_) (hmem l hl)⟩
  exact hvars.2 v (Array.mem_toList_iff.1 hv)

/-! ### Plain formulas -/

theorem drawPlain_gives (hd : d.check = .ok ()) (hfits : d.FitsPlain) (s : σ) :
    Gives (fun cs => cs.length = d.numClauses ∧ ∀ c ∈ cs, Shaped d c) s (drawPlain d s) := by
  obtain ⟨htable, hliterals, hclauses⟩ := hfits
  unfold drawPlain
  rw [reserve_of_le (by omega), Checked.ok_bind, reserve_of_le hliterals, Checked.ok_bind]
  refine (times_gives (drawVar_gives (check_eq_ok_iff.1 hd).1) _ s).bind fun vars s₁ hvars => ?_
  refine (times_gives (Draw.uniform_gives Nat.two_pos) _ s₁).bind fun signs s₂ hsigns => ?_
  dsimp only
  rw [reserve_of_le hclauses, Checked.ok_bind]
  refine gives_of_ok rfl ⟨length_rows _ _ _, fun c hc => ?_⟩ .refl
  exact shaped_of_mem_rows hvars hsigns.1 hc

/-- Without memory nothing is generated. The list of clauses is the last thing that needs memory, so
the words may be used up before. -/
theorem drawPlain_full (hd : d.check = .ok ()) (hfull : ¬ d.FitsPlain) (s : σ) :
    Wants s (drawPlain d s) := by
  unfold drawPlain
  by_cases htable : max d.numClauses 1 * d.clauseLength * 1 ≤ memoryLimit
  · rw [reserve_of_le htable, Checked.ok_bind]
    by_cases hliterals : d.numClauses * d.clauseLength * 4 ≤ memoryLimit
    · have hclauses : memoryLimit < d.numClauses * 24 :=
        Nat.lt_of_not_le fun h => hfull ⟨by omega, hliterals, h⟩
      rw [reserve_of_le hliterals, Checked.ok_bind]
      refine wants_bind (times_gives (drawVar_gives (check_eq_ok_iff.1 hd).1) _ s) fun vars s₁ => ?_
      refine wants_bind (times_gives (Draw.uniform_gives Nat.two_pos) _ s₁) fun signs s₂ => ?_
      dsimp only
      rw [reserve_of_lt hclauses]
      exact .inr rfl
    · rw [reserve_of_lt (Nat.lt_of_not_le hliterals)]
      exact .inr rfl
  · rw [reserve_of_lt (Nat.lt_of_not_le htable)]
    exact .inr rfl

theorem plainFrom_of_fault (hd : d.check = .ok ()) {s : σ} {fault : Fault}
    (h : drawPlain d s = .error fault) : plainFrom d s = (.error fault : Checked _) := by
  unfold plainFrom
  rw [hd, h]
  rfl

theorem plainFrom_of_draw (hd : d.check = .ok ()) {s s' : σ} {cs : List Clause}
    (h : drawPlain d s = .ok (cs, s')) (hcs : ∀ c ∈ cs, Shaped d c) :
    plainFrom d s = (.ok (.ok ⟨d.numVariables, cs.toArray⟩) : Checked _) := by
  unfold plainFrom
  rw [hd, h]
  change checked .formula (Formula.ofClauses d.numVariables cs) = _
  rw [ofClauses_of_shaped hd hcs]
  rfl

/-! ### Both kinds -/

/-- The formula has the size that was asked for, and so have its clauses. -/
structure HasShape (d : Difficulty) (f : Formula) : Prop where
  numVariables : f.numVariables = d.numVariables
  numClauses : f.numClauses = d.numClauses
  clauses : ∀ c ∈ f.clauses, Shaped d c

theorem hasShape_of_shaped {cs : List Clause} (hlength : cs.length = d.numClauses)
    (hcs : ∀ c ∈ cs, Shaped d c) : HasShape d ⟨d.numVariables, cs.toArray⟩ where
  numVariables := rfl
  numClauses := hlength
  clauses c hc := hcs c (List.mem_toArray.1 hc)

theorem plainFrom_settles (hd : d.check = .ok ()) (s : σ) :
    Settles d.FitsPlain (HasShape d) s (plainFrom d s) := by
  by_cases hfits : d.FitsPlain
  · rcases drawPlain_gives hd hfits s with ⟨h, hmean⟩ | ⟨cs, s', h, ⟨hlength, hcs⟩, -⟩
    · rw [plainFrom_of_fault hd h]
      exact .wanting hmean
    · rw [plainFrom_of_draw hd h hcs]
      exact .made hfits (hasShape_of_shaped hlength hcs)
  · rcases drawPlain_full hd hfits s with ⟨h, hmean⟩ | h <;> rw [plainFrom_of_fault hd h]
    · exact .wanting hmean
    · exact .full hfits

theorem plantedFrom_shape (hd : d.check = .ok ()) (s : σ) :
    Settles d.Fits (fun (f, _) => HasShape d f) s (plantedFrom d s) :=
  (plantedFrom_settles hd s).mono fun _ ⟨hmodelled, hcs⟩ =>
    ⟨hmodelled.numVariables, hmodelled.numClauses, hcs⟩

/-- A size that does not pass the check is refused by it, whatever the source. -/
theorem refused_of_check {e : Difficulty.Error} (he : d.check = .error e) (s : σ) :
    plainFrom d s = (.ok (.error (.difficulty e)) : Checked _) ∧
      plantedFrom d s = (.ok (.error (.difficulty e)) : Checked _) := by
  unfold plainFrom plantedFrom
  rw [he]
  exact ⟨rfl, rfl⟩

/-- With a size that passes the check there is a formula or a fault, but no error. -/
theorem ofText_of_check (hd : d.check = .ok ()) (seed : String) (planted : Bool) :
    (∃ fault, ofText seed d planted = (.error fault : Checked _)) ∨
      ∃ r, ofText seed d planted = (.ok (.ok r) : Checked _) := by
  unfold ofText ofSeed
  cases planted with
  | true =>
    rw [if_pos rfl]
    have hplanted := plantedFrom_shape hd (sourceOf (.ofText seed))
    exact (hplanted.map (Q := fun _ => True) fun _ _ => trivial).fault_or_value
  | false =>
    rw [if_neg Bool.false_ne_true]
    have hplain := plainFrom_settles hd (sourceOf (.ofText seed))
    exact (hplain.map (Q := fun _ => True) fun _ _ => trivial).fault_or_value

theorem ofText_of_refused {c : Difficulty.Error} (hd : d.check = .error c) (seed : String)
    (planted : Bool) : ofText seed d planted = (.ok (.error (.difficulty c)) : Checked _) := by
  obtain ⟨hplain, hplanted⟩ := refused_of_check hd (sourceOf (.ofText seed))
  unfold ofText ofSeed
  cases planted with
  | true =>
    rw [if_pos rfl, hplanted]
    rfl
  | false =>
    rw [if_neg Bool.false_ne_true, hplain]
    rfl

/-- The range that variables are drawn from ends within 32 bits, and so do literals of what is
drawn, whatever their sign. -/
theorem fitsWord_of_drawVar (hd : d.check = .ok ()) {s s' : σ} {v : Nat}
    (h : drawVar d.numVariables s = .ok (v, s')) :
    (∀ sign, (signed v sign).FitsWord) ∧ ∀ value agree, (literalFor v value agree).FitsWord := by
  obtain ⟨hn, hlt, -⟩ := check_eq_ok_iff.1 hd
  obtain ⟨hpos, hle⟩ := (drawVar_gives hn s).holds h
  have hbound : d.numVariables < Text.literalBound := Nat.lt_of_lt_of_le hlt (Nat.sub_le _ _)
  exact ⟨fun sign => (Literal.declared_signed hpos hle sign).fitsWord hbound,
    fun value agree => (Literal.declared_literalFor hpos hle value agree).fitsWord hbound⟩

/-- Generation is refused exactly for sizes that do not pass the check. With others it ends in a
formula of that size from every generous source, unless the memory that is asked for exceeds
what can be asked for; and whatever the source, it has no other end. -/
theorem generated_shape (d : Difficulty) (s : σ) :
    (0 < d.numVariables ∧ d.numVariables < Text.literalBound - 1 ∧ 0 < d.clauseLength →
      (Generous s →
        (if d.FitsPlain then ∃ f, plainFrom d s = (.ok (.ok f) : Checked _) ∧ HasShape d f
        else plainFrom d s = (.error .capacityExceeded : Checked _)) ∧
        if d.Fits then ∃ f a, plantedFrom d s = (.ok (.ok (f, a)) : Checked _) ∧ HasShape d f
        else plantedFrom d s = (.error .capacityExceeded : Checked _)) ∧
      (∀ r, plainFrom d s = (.ok r : Checked _) → ∃ f, r = .ok f ∧ HasShape d f) ∧
      (∀ r, plantedFrom d s = (.ok r : Checked _) → ∃ f a, r = .ok (f, a) ∧ HasShape d f) ∧
      (∀ fault, plainFrom d s = (.error fault : Checked _) ∨
        plantedFrom d s = (.error fault : Checked _) →
        fault = .drawsExhausted ∨ fault = .capacityExceeded) ∧
      d.numVariables + 1 < Text.literalBound ∧
      ∀ (s₁ s₂ : σ) (v : Nat), drawVar d.numVariables s₁ = .ok (v, s₂) →
        (∀ sign, (signed v sign).FitsWord) ∧
          ∀ value agree, (literalFor v value agree).FitsWord) ∧
    (d.numVariables = 0 ∨ Text.literalBound - 1 ≤ d.numVariables →
      plainFrom d s = (.ok (.error (.difficulty (.badVariableCount d.numVariables))) : Checked _) ∧
      plantedFrom d s =
        (.ok (.error (.difficulty (.badVariableCount d.numVariables))) : Checked _)) ∧
    (0 < d.numVariables ∧ d.numVariables < Text.literalBound - 1 ∧ d.clauseLength = 0 →
      plainFrom d s = (.ok (.error (.difficulty .zeroClauseLength)) : Checked _) ∧
      plantedFrom d s = (.ok (.error (.difficulty .zeroClauseLength)) : Checked _)) := by
  refine ⟨fun h => ?_, fun h => ?_, fun ⟨hpos, hlt, hk⟩ => ?_⟩
  · have hd := check_eq_ok_iff.2 h
    have hplain := plainFrom_settles hd s
    have hplanted := plantedFrom_shape hd s
    refine ⟨fun hs => ⟨?_, ?_⟩, fun _ hr => hplain.holds hr, fun _ hr => ?_, fun _ hf => ?_, ?_,
      fun _ _ _ hv => fitsWord_of_drawVar hd hv⟩
    · split_ifs with hfits
      · exact hplain.made_of_generous hs hfits
      · exact hplain.full_of_generous hs hfits
    · split_ifs with hfits
      · obtain ⟨⟨f, a⟩, hmade⟩ := hplanted.made_of_generous hs hfits
        exact ⟨f, a, hmade⟩
      · exact hplanted.full_of_generous hs hfits
    · obtain ⟨⟨f, a⟩, hf⟩ := hplanted.holds hr
      exact ⟨f, a, hf⟩
    · exact hf.elim hplain.fault_eq hplanted.fault_eq
    · have := h.2.1
      omega
  · have hd : d.check = .error (.badVariableCount d.numVariables) := by
      rw [Difficulty.check, if_pos h]
    exact refused_of_check hd s
  · have hd : d.check = .error .zeroClauseLength := by
      rw [Difficulty.check, if_neg (by omega), if_pos hk]
    exact refused_of_check hd s

/-- The greatest number of variables that passes, for both kinds of formulas. -/
theorem generated_shape_most_variables :
    (∃ f, plainFrom ⟨2147483646, 2, 2⟩ (Source.cutOff 64 (⟨1, 2, 3, 4⟩ : Xoshiro)) =
        (.ok (.ok f) : Checked _) ∧ HasShape ⟨2147483646, 2, 2⟩ f) ∧
      ∃ f a, plantedFrom ⟨2147483646, 2, 2⟩ (Source.cutOff 64 (⟨1, 2, 3, 4⟩ : Xoshiro)) =
        (.ok (.ok (f, a)) : Checked _) ∧ HasShape ⟨2147483646, 2, 2⟩ f := by
  obtain ⟨hpasses, -, -⟩ :=
    generated_shape ⟨2147483646, 2, 2⟩ (Source.cutOff 64 (⟨1, 2, 3, 4⟩ : Xoshiro))
  obtain ⟨hgenerous, -⟩ := hpasses (by decide)
  obtain ⟨hplain, hplanted⟩ := hgenerous (Source.generous_cutOff _ _)
  rw [if_pos (by decide)] at hplain hplanted
  exact ⟨hplain, hplanted⟩

/-- A table whose shape may be asked for, but not its bytes. -/
theorem shape_faults_without_memory :
    Difficulty.check ⟨1, 0x4000000000000000, 1⟩ = .ok () ∧
      max 0x4000000000000000 1 * 1 ≤ memoryLimit ∧
      ofText "0" ⟨1, 0x4000000000000000, 1⟩ false = (.error .capacityExceeded : Checked _) ∧
      ofText "0" ⟨1, 0x4000000000000000, 1⟩ true = (.error .capacityExceeded : Checked _) := by
  have hcheck : Difficulty.check ⟨1, 0x4000000000000000, 1⟩ = .ok () := by decide
  refine ⟨hcheck, by decide, ?_, ?_⟩
  · have hfault {s : Xoshiro} :
        drawPlain ⟨1, 0x4000000000000000, 1⟩ s = .error .capacityExceeded := by
      unfold drawPlain
      rw [reserve_of_le (by decide), Checked.ok_bind, reserve_of_lt (by decide)]
      rfl
    rw [ofText, ofSeed, if_neg Bool.false_ne_true, plainFrom_of_fault hcheck hfault]
    rfl
  · rw [ofText, ofSeed, if_pos rfl, plantedFrom_full hcheck (by decide)]
    rfl

end Generation

end SatWalk
