import SatWalk.Proofs.Binary64.Naturals
import SatWalk.Proofs.Formula.Generation
import SatWalk.Proofs.Random.Script

/-! Planted formulas. Every literal that is drawn is one of a declared variable, so its model has a
value for it and its negative is a literal as well; and a clause that needs repair has a place
to repair. So generation ends in a formula with its model, unless memory or the source gives
out. -/

namespace SatWalk

open Draw (Gives gives_of_ok times_gives)
open Source (Generous)
open Literal (Declared)

/-- There is memory for the list of clauses and, if there is a clause, for its literals. -/
def Difficulty.Fits (d : Difficulty) : Prop :=
  d.numClauses * 24 ≤ memoryLimit ∧ (d.numClauses = 0 ∨ d.clauseLength * 4 ≤ memoryLimit)

instance (d : Difficulty) : Decidable d.Fits :=
  inferInstanceAs (Decidable (_ ∧ _))

namespace Literal

variable {n : Nat}

/-- A literal of a declared variable has 32 bits, and so has its negative. -/
theorem Declared.bounds {z : Int} (h : Declared n z) (hn : n < Text.literalBound) :
    -(Text.literalBound : Int) < z ∧ z < Text.literalBound := by
  have hle : z.natAbs ≤ n := h.2
  omega

theorem declared_literalFor {v : Nat} (hpos : 0 < v) (hle : v ≤ n) (value agree : Bool) :
    Declared n (Generation.literalFor v value agree) := by
  have hvar := Generation.var_literalFor v value agree
  refine ⟨fun h0 => ?_, hvar.trans_le hle⟩
  rw [h0] at hvar
  exact absurd hvar hpos.ne

end Literal

namespace Generation

variable {σ : Type} [Source σ] {d : Difficulty} {model : Assignment}

/-! ### Ends of generation -/

/-- How a generation ends: with a value as described if it fits into memory, and for want of memory
otherwise. Words may be wanting before, which they never are to a generous source. -/
inductive Settles {α : Type} (fits : Prop) (P : α → Prop) (s : σ) : Attempt Error α → Prop
  | made (hfits : fits) {x : α} (hx : P x) : Settles fits P s (.ok (.ok x) : Checked _)
  | full (hfull : ¬ fits) : Settles fits P s (.error .capacityExceeded : Checked _)
  | wanting (hmean : ¬ Generous s) : Settles fits P s (.error .drawsExhausted : Checked _)

namespace Settles

variable {α β : Type} {fits : Prop} {P : α → Prop} {s : σ} {x : Attempt Error α}

theorem map {Q : β → Prop} {g : α → β} (h : Settles fits P s x) (hg : ∀ a, P a → Q (g a)) :
    Settles fits Q s (g <$> x) := by
  cases h with
  | made hfits hx => exact .made hfits (hg _ hx)
  | full hfull => exact .full hfull
  | wanting hmean => exact .wanting hmean

theorem mono {Q : α → Prop} (h : Settles fits P s x) (hq : ∀ a, P a → Q a) :
    Settles fits Q s x := by
  cases h with
  | made hfits hx => exact .made hfits (hq _ hx)
  | full hfull => exact .full hfull
  | wanting hmean => exact .wanting hmean

theorem wanting_or_made (h : Settles fits P s x) (hfits : fits) :
    (x = (.error .drawsExhausted : Checked _) ∧ ¬ Generous s) ∨
      ∃ a, x = (.ok (.ok a) : Checked _) ∧ P a := by
  cases h with
  | made _ hx => exact .inr ⟨_, rfl, hx⟩
  | full hfull => exact absurd hfits hfull
  | wanting hmean => exact .inl ⟨rfl, hmean⟩

theorem made_of_generous (h : Settles fits P s x) (hs : Generous s) (hfits : fits) :
    ∃ a, x = (.ok (.ok a) : Checked _) ∧ P a :=
  (h.wanting_or_made hfits).resolve_left fun hnone => hnone.2 hs

theorem full_of_generous (h : Settles fits P s x) (hs : Generous s) (hfull : ¬ fits) :
    x = (.error .capacityExceeded : Checked _) := by
  cases h with
  | made hfits _ => exact absurd hfits hfull
  | full _ => rfl
  | wanting hmean => exact absurd hs hmean

/-- What is not a fault is a value as described. -/
theorem holds (h : Settles fits P s x) {r : Except Error α} (hr : x = (.ok r : Checked _)) :
    ∃ a, r = .ok a ∧ P a := by
  cases h with
  | made _ hx =>
    cases hr
    exact ⟨_, rfl, hx⟩
  | full _ => cases hr
  | wanting _ => cases hr

/-- Nothing but words and memory is ever wanting. -/
theorem fault_eq (h : Settles fits P s x) {fault : Fault} (hx : x = (.error fault : Checked _)) :
    fault = .drawsExhausted ∨ fault = .capacityExceeded := by
  cases h with
  | made _ _ => cases hx
  | full _ =>
    cases hx
    exact .inr rfl
  | wanting _ =>
    cases hx
    exact .inl rfl

theorem fault_or_value (h : Settles fits P s x) :
    (∃ fault, x = (.error fault : Checked _)) ∨ ∃ a, x = (.ok (.ok a) : Checked _) := by
  cases h with
  | made _ _ => exact .inr ⟨_, rfl⟩
  | full _ => exact .inl ⟨_, rfl⟩
  | wanting _ => exact .inl ⟨_, rfl⟩

end Settles

/-! ### Literals -/

theorem drawVar_gives {n : Nat} (hn : 0 < n) (s : σ) :
    Gives (fun v => 0 < v ∧ v ≤ n) s (drawVar n s) := by
  refine (Draw.uniform_gives hn s).bind fun i s' hi => ?_
  exact gives_of_ok rfl ⟨Nat.succ_pos i, hi⟩ .refl

theorem drawPlantedLiteral_gives (hd : d.check = .ok ()) (hm : model.values.size = d.numVariables)
    (s : σ) : Gives (Declared d.numVariables) s (drawPlantedLiteral model d s) := by
  obtain ⟨hn, -, hk⟩ := check_eq_ok_iff.1 hd
  obtain ⟨hnonneg, hone⟩ := Binary64.reciprocal_bounds hk
  refine (drawVar_gives hn s).bind fun v s₁ hv => ?_
  dsimp only
  rw [Assignment.value_eq hv.1 (hm ▸ hv.2), Checked.ok_bind]
  refine (Draw.chance_gives (Binary64.beq_one_or_lt hnonneg hone) s₁).bind fun agree s₂ _ => ?_
  exact gives_of_ok rfl (Literal.declared_literalFor hv.1 hv.2 _ agree) .refl

/-! ### Clauses -/

/-- As many literals as a clause has, each of a declared variable. -/
def Shaped (d : Difficulty) (c : Clause) : Prop :=
  c.length = d.clauseLength ∧ ∀ l ∈ c, Declared d.numVariables l

theorem repair_gives (hd : d.check = .ok ()) (hm : model.values.size = d.numVariables)
    {drawn : Array Literal} (hdrawn : Shaped d drawn.toList) (s : σ) :
    Gives (fun c : Array Literal => Shaped d c.toList) s (repair model drawn s) := by
  have hsize : drawn.size = d.clauseLength := hdrawn.1
  have hpos : 0 < drawn.size := hsize ▸ (check_eq_ok_iff.1 hd).2.2
  refine (Draw.below64_gives hpos s).bind fun i s' hi => ?_
  have hl : Declared d.numVariables drawn[i] := hdrawn.2 _ (Array.getElem_mem_toList hi)
  have hfetch : fetch drawn i = .ok drawn[i] := by simp [hi]
  dsimp only
  rw [hfetch, Checked.ok_bind, Assignment.value_eq hl.var_pos (hm ▸ hl.2), Checked.ok_bind,
    store_of_lt hi]
  refine gives_of_ok rfl ⟨by simpa using hsize, fun l hmem => ?_⟩ .refl
  rcases Array.mem_or_eq_of_mem_set (Array.mem_toList_iff.1 hmem) with hmem | rfl
  · exact hdrawn.2 l (Array.mem_toList_iff.2 hmem)
  · exact Literal.declared_literalFor hl.var_pos hl.2 _ true

theorem drawPlantedClause_gives (hd : d.check = .ok ()) (hk : d.clauseLength * 4 ≤ memoryLimit)
    (hm : model.values.size = d.numVariables) (s : σ) :
    Gives (Shaped d) s (drawPlantedClause model d s) := by
  unfold drawPlantedClause
  rw [reserve_of_le hk, Checked.ok_bind]
  refine (times_gives (drawPlantedLiteral_gives hd hm) d.clauseLength s).bind fun c s' hc => ?_
  have hshaped : Shaped d c.toList := ⟨hc.1, fun l hl => hc.2 l (Array.mem_toList_iff.1 hl)⟩
  dsimp only
  rw [Assignment.satisfiesClause_eq (hm ▸ hshaped.2), Checked.ok_bind]
  split
  · exact gives_of_ok rfl hshaped .refl
  · refine (repair_gives hd hm hshaped s').bind fun c' s'' hc' => ?_
    exact gives_of_ok rfl hc' .refl

/-! ### Formulas -/

theorem drawPlanted_gives (hd : d.check = .ok ()) (hfits : d.Fits) (s : σ) :
    Gives (fun (model, cs) => model.values.size = d.numVariables ∧ cs.length = d.numClauses ∧
      ∀ c ∈ cs, Shaped d c) s (drawPlanted d s) := by
  have hn : d.numVariables ≤ memoryLimit :=
    (Nat.le_of_lt (check_eq_ok_iff.1 hd).2.1).trans (by decide)
  unfold drawPlanted
  rw [Assignment.draw_eq hn, Checked.ok_bind]
  dsimp only
  rw [reserve_of_le hfits.1, Checked.ok_bind]
  generalize hmodel : (⟨(Draw.bits d.numVariables s).1⟩ : Assignment) = model
  have hm : model.values.size = d.numVariables := hmodel ▸ Draw.size_bits d.numVariables s
  rcases hfits.2 with hnone | hk
  · rw [hnone]
    exact gives_of_ok rfl ⟨hm, rfl, fun _ => nofun⟩ (Draw.reaches_bits _ s)
  · refine .of_reaches ?_ (Draw.reaches_bits d.numVariables s)
    refine (times_gives (drawPlantedClause_gives hd hk hm) d.numClauses _).bind fun cs s' hcs => ?_
    exact gives_of_ok rfl ⟨hm, hcs.1, fun c hc => hcs.2 c (Array.mem_toList_iff.1 hc)⟩ .refl

/-- Without memory for the clauses nothing is generated. -/
theorem drawPlanted_full (hd : d.check = .ok ()) (hfull : ¬ d.Fits) (s : σ) :
    drawPlanted d s = .error .capacityExceeded := by
  have hn : d.numVariables ≤ memoryLimit :=
    (Nat.le_of_lt (check_eq_ok_iff.1 hd).2.1).trans (by decide)
  unfold drawPlanted
  rw [Assignment.draw_eq hn, Checked.ok_bind]
  dsimp only
  by_cases hm : d.numClauses * 24 ≤ memoryLimit
  · obtain ⟨hsome, hk⟩ := not_or.1 fun h => hfull ⟨hm, h⟩
    obtain ⟨m, hcount⟩ := Nat.exists_eq_succ_of_ne_zero hsome
    rw [reserve_of_le hm, Checked.ok_bind, hcount, Draw.times, Draw.timesOnto, drawPlantedClause,
      reserve_of_lt (Nat.lt_of_not_le hk)]
    rfl
  · rw [reserve_of_lt (Nat.lt_of_not_le hm)]
    rfl

theorem plantedFrom_of_fault (hd : d.check = .ok ()) {s : σ} {fault : Fault}
    (h : drawPlanted d s = .error fault) : plantedFrom d s = (.error fault : Checked _) := by
  unfold plantedFrom
  rw [hd, h]
  rfl

theorem plantedFrom_full (hd : d.check = .ok ()) (hfull : ¬ d.Fits) (s : σ) :
    plantedFrom d s = (.error .capacityExceeded : Checked _) :=
  plantedFrom_of_fault hd (drawPlanted_full hd hfull s)

/-- What is drawn makes a valid formula. -/
theorem ofClauses_of_shaped (hd : d.check = .ok ()) {cs : List Clause}
    (hcs : ∀ c ∈ cs, Shaped d c) :
    Formula.ofClauses d.numVariables cs = .ok ⟨d.numVariables, cs.toArray⟩ := by
  have hk := (check_eq_ok_iff.1 hd).2.2
  refine Formula.ofClauses_eq_ok_iff.2 ⟨rfl, Formula.validate_eq_ok_iff.2 fun c hc => ?_⟩
  obtain ⟨hlength, hdeclared⟩ := hcs c (List.mem_toArray.1 hc)
  exact ⟨List.ne_nil_of_length_pos (hlength ▸ hk), hdeclared⟩

theorem plantedFrom_of_draw (hd : d.check = .ok ()) {s s' : σ} {model : Assignment}
    {cs : List Clause} (h : drawPlanted d s = .ok ((model, cs), s')) (hcs : ∀ c ∈ cs, Shaped d c) :
    plantedFrom d s = (.ok (.ok (⟨d.numVariables, cs.toArray⟩, model)) : Checked _) := by
  unfold plantedFrom
  rw [hd, h]
  change (checked .formula (Formula.ofClauses d.numVariables cs) >>= _ : Attempt _ _) = _
  rw [ofClauses_of_shaped hd hcs]
  rfl

/-- A valid formula of the size that was asked for, and a model that satisfies it. -/
structure Modelled (d : Difficulty) (f : Formula) (a : Assignment) : Prop where
  values : a.values.size = d.numVariables
  verified : a.verify f = (.ok (.ok ()) : Checked _)
  valid : f.validate = .ok ()
  numVariables : f.numVariables = d.numVariables
  numClauses : f.numClauses = d.numClauses
  clauses : ∀ c ∈ f.clauses, c.length = d.clauseLength

theorem plantedFrom_settles (hd : d.check = .ok ()) (s : σ) :
    Settles d.Fits (fun (f, a) => Modelled d f a ∧ ∀ c ∈ f.clauses, Shaped d c) s
      (plantedFrom d s) := by
  by_cases hfits : d.Fits
  · rcases drawPlanted_gives hd hfits s with ⟨h, hmean⟩ | ⟨⟨a, cs⟩, s', h, ⟨ha, -, hcs⟩, -⟩
    · rw [plantedFrom_of_fault hd h]
      exact .wanting hmean
    · have hplanted := plantedFrom_of_draw hd h hcs
      have hg := generated_of_plantedFrom hplanted
      have hshaped : ∀ c ∈ cs.toArray, Shaped d c := fun c hc => hcs c (List.mem_toArray.1 hc)
      have hlength : ∀ c ∈ cs.toArray, c.length = d.clauseLength := fun c hc => (hshaped c hc).1
      rw [hplanted]
      exact .made hfits
        ⟨⟨ha, hg.verified a rfl, hg.valid, hg.numVariables, hg.numClauses, hlength⟩, hshaped⟩
  · rw [plantedFrom_full hd hfits]
    exact .full hfits

/-- The literals that are drawn on the way have 32 bits, and so do their negatives. -/
theorem bounds_of_drawn (hd : d.check = .ok ()) (hm : model.values.size = d.numVariables)
    {s s' : σ} {c : Array Literal}
    (h : Draw.times d.clauseLength (drawPlantedLiteral model d) s = .ok (c, s')) :
    ∀ l ∈ c, -(Text.literalBound : Int) < l ∧ (l : Int) < Text.literalBound := by
  obtain ⟨-, hn, -⟩ := check_eq_ok_iff.1 hd
  have hc := (times_gives (drawPlantedLiteral_gives hd hm) d.clauseLength s).holds h
  intro l hl
  exact (hc.2 l hl).bounds (Nat.lt_of_lt_of_le hn (Nat.sub_le _ _))

/-- With memory and a generous source a planted formula has the size that was asked for, and the
model that is drawn with it is a solution. From any other source only words may be wanting:
literals stay in range on the way, and what they agree by is a probability. -/
theorem planted_satisfied (hd : d.check = .ok ()) (s : σ) :
    (¬ d.Fits → plantedFrom d s = (.error .capacityExceeded : Checked _)) ∧
    (d.Fits → Generous s →
      ∃ f a, plantedFrom d s = (.ok (.ok (f, a)) : Checked _) ∧ Modelled d f a) ∧
    (d.Fits → plantedFrom d s = (.error .drawsExhausted : Checked _) ∨
      ∃ f a, plantedFrom d s = (.ok (.ok (f, a)) : Checked _) ∧ Modelled d f a) ∧
    ((0 : Float) ≤ 1 / .ofNat d.clauseLength ∧ 1 / Float.ofNat d.clauseLength ≤ 1) ∧
    ∀ (a : Assignment) (s₁ s₂ : σ) (c : Array Literal), a.values.size = d.numVariables →
      Draw.times d.clauseLength (drawPlantedLiteral a d) s₁ = .ok (c, s₂) →
      ∀ l ∈ c, -(Text.literalBound : Int) < l ∧ (l : Int) < Text.literalBound := by
  have hk := (check_eq_ok_iff.1 hd).2.2
  have hsettles := plantedFrom_settles hd s
  refine ⟨fun hfull => plantedFrom_full hd hfull s, fun hfits hs => ?_, fun hfits => ?_,
    Binary64.reciprocal_bounds hk, fun _ _ _ _ ha h => bounds_of_drawn hd ha h⟩
  · obtain ⟨⟨f, a⟩, h, hmodelled, -⟩ := hsettles.made_of_generous hs hfits
    exact ⟨f, a, h, hmodelled⟩
  · rcases hsettles.wanting_or_made hfits with ⟨h, -⟩ | ⟨⟨f, a⟩, h, hmodelled, -⟩
    · exact .inl h
    · exact .inr ⟨f, a, h, hmodelled⟩

/-- A clause with a variable and its negative, and one that had to be repaired; and the first words
of a source with zeros after them, which are enough for every draw. -/
theorem planted_satisfied_both_signs :
    Difficulty.check ⟨2, 3, 2⟩ = .ok () ∧
      plantedFrom ⟨2, 3, 2⟩ (⟨1, 2, 3, 4⟩ : Xoshiro) =
        (.ok (.ok (⟨2, #[[-1, 2], [-2, 2], [-2, 1]]⟩, ⟨#[false, false]⟩)) : Checked _) ∧
      Assignment.verify ⟨#[false, false]⟩ ⟨2, #[[-1, 2], [-2, 2], [-2, 1]]⟩ =
        (.ok (.ok ()) : Checked _) ∧
      ∃ f a, plantedFrom ⟨2, 3, 2⟩ (Source.cutOff 64 (⟨1, 2, 3, 4⟩ : Xoshiro)) =
        (.ok (.ok (f, a)) : Checked _) ∧ Modelled ⟨2, 3, 2⟩ f a := by
  have hplanted : (plantedFrom ⟨2, 3, 2⟩ (⟨1, 2, 3, 4⟩ : Xoshiro)).run =
      .ok (.ok (⟨2, #[[-1, 2], [-2, 2], [-2, 1]]⟩, ⟨#[false, false]⟩)) := by decide +kernel
  refine ⟨rfl, hplanted, ?_, ?_⟩
  · obtain ⟨-, -, hfit, -⟩ := planted_satisfied (d := ⟨2, 3, 2⟩) rfl (⟨1, 2, 3, 4⟩ : Xoshiro)
    rcases hfit (by decide) with h | ⟨f, a, h, hsolved⟩
    · cases hplanted.symm.trans h
    · cases hplanted.symm.trans h
      exact hsolved.verified
  · obtain ⟨-, hok, -⟩ := planted_satisfied (d := ⟨2, 3, 2⟩) rfl
      (Source.cutOff 64 (⟨1, 2, 3, 4⟩ : Xoshiro))
    exact hok (by decide) (Source.generous_cutOff _ _)

/-- The most clauses that can be asked for are too many. -/
theorem planted_faults_without_memory :
    Difficulty.check ⟨1, 0xffffffffffffffff, 1⟩ = .ok () ∧
      ofText "0" ⟨1, 0xffffffffffffffff, 1⟩ true = (.error .capacityExceeded : Checked _) := by
  have hcheck : Difficulty.check ⟨1, 0xffffffffffffffff, 1⟩ = .ok () := by decide
  have hfull : ¬ Difficulty.Fits ⟨1, 0xffffffffffffffff, 1⟩ := by decide
  refine ⟨hcheck, ?_⟩
  rw [ofText, ofSeed, if_pos rfl, plantedFrom_full hcheck hfull]
  rfl

end Generation

end SatWalk
