import SatWalk.Formula.Generation
import SatWalk.Proofs.Dimacs.RoundTrip
import SatWalk.Proofs.Random.Draws

/-! What generation gives, if it gives anything. A formula has the size that was asked for, is valid
and fits into machine words. The clauses of a planted one hold under its model: a clause that
does not hold as it was drawn gets a literal that does. -/

namespace SatWalk

namespace Draw

variable {σ α β : Type}

/-- Whatever the draw gives is as described. -/
def Ensures (p : α → Prop) (d : Draw σ α) : Prop :=
  ∀ s x s', d s = .ok (x, s') → p x

theorem ensures_timesOnto {p : α → Prop} {d : Draw σ α} (h : Ensures p d) {count : Nat}
    {done xs : Array α} {s s' : σ} (hdone : ∀ x ∈ done, p x)
    (hx : timesOnto d count done s = .ok (xs, s')) :
    xs.size = done.size + count ∧ ∀ x ∈ xs, p x := by
  induction count generalizing done s with
  | zero =>
    cases hx
    exact ⟨rfl, hdone⟩
  | succ count ih =>
    rw [timesOnto] at hx
    split at hx
    · cases hx
    · next x s₁ hd =>
      have hpush : ∀ y ∈ done.push x, p y := by
        intro y hy
        rcases Array.mem_push.1 hy with hy | rfl
        · exact hdone y hy
        · exact h _ _ _ hd
      obtain ⟨hsize, hall⟩ := ih hpush hx
      rw [Array.size_push] at hsize
      exact ⟨by omega, hall⟩

/-- Repeated draws come in the number asked for. -/
theorem ensures_times {p : α → Prop} {d : Draw σ α} (h : Ensures p d) (count : Nat) :
    Ensures (fun xs => xs.size = count ∧ ∀ x ∈ xs, p x) (times count d) := fun s xs s' hx => by
  obtain ⟨hsize, hall⟩ := ensures_timesOnto h (fun x hx => absurd hx (Array.not_mem_empty x)) hx
  rw [Array.size_empty, Nat.zero_add] at hsize
  exact ⟨hsize, hall⟩

end Draw

namespace Generation

open Draw (Ensures ensures_times)

variable {σ : Type} [Source σ] {d : Difficulty}

theorem length_rows {α : Type} (length count : Nat) (xs : List α) :
    (rows length count xs).length = count := by
  induction count generalizing xs with
  | zero => rfl
  | succ count ih => rw [rows, List.length_cons, ih]

theorem le_of_reserve {count size : Nat} {u : Unit} (h : reserve count size = .ok u) :
    count * size ≤ memoryLimit := by
  by_contra hlt
  rw [reserve_of_lt (Nat.lt_of_not_le hlt)] at h
  cases h

/-! ### Clauses of a planted formula -/

theorem var_literalFor (v : Nat) (value agree : Bool) : Literal.var (literalFor v value agree) = v := by
  unfold literalFor Literal.var
  split_ifs <;> simp

/-- A literal that agrees with the model is true under it. -/
theorem holds_literalFor {model : Assignment} {v : Nat} {value : Bool}
    (hvalue : model.value v = .ok value)
    (hl : Literal.Declared model.values.size (literalFor v value true)) :
    model.holds (literalFor v value true) = true := by
  have hpos : 0 < v := by
    have := hl.var_pos
    rwa [var_literalFor] at this
  have hle : v ≤ model.values.size := by
    have := hl.2
    rwa [var_literalFor] at this
  rw [Assignment.value_eq hpos hle] at hvalue
  rw [Assignment.holds, var_literalFor, Except.ok.inj hvalue, literalFor]
  cases value with
  | true => simpa using hpos
  | false => simp

/-- Some literal of the clause is true under the model if all their variables have values. -/
def Covers (model : Assignment) (c : Clause) : Prop :=
  (∀ l ∈ c, Literal.Declared model.values.size l) → model.holdsClause c = true

theorem ensures_repair (model : Assignment) (c : Array Literal) :
    Ensures (fun c : Array Literal => Covers model c.toList) (repair (σ := σ) model c) := by
  intro s c' s' h
  obtain ⟨⟨i, s₁⟩, -, h⟩ := Checked.bind_eq_ok_iff.1 h
  obtain ⟨l, hl, h⟩ := Checked.bind_eq_ok_iff.1 h
  obtain ⟨value, hvalue, h⟩ := Checked.bind_eq_ok_iff.1 h
  obtain ⟨stored, hstored, h⟩ := Checked.bind_eq_ok_iff.1 h
  cases h
  obtain ⟨hi, -⟩ := Array.getElem?_eq_some_iff.1 (fetch_eq_ok_iff.1 hl)
  rw [store_of_lt hi] at hstored
  cases hstored
  intro hdeclared
  have hmem : literalFor (Literal.var l) value true ∈
      (c.set i (literalFor (Literal.var l) value true) hi).toList :=
    Array.mem_toList_iff.2 (Array.mem_set hi)
  exact List.any_eq_true.2 ⟨_, hmem, holds_literalFor hvalue (hdeclared _ hmem)⟩

theorem ensures_drawPlantedClause (model : Assignment) (d : Difficulty) :
    Ensures (Covers model) (drawPlantedClause (σ := σ) model d) := by
  intro s c s' h
  obtain ⟨_, -, h⟩ := Checked.bind_eq_ok_iff.1 h
  obtain ⟨⟨drawn, s₁⟩, -, h⟩ := Checked.bind_eq_ok_iff.1 h
  obtain ⟨satisfied, hsatisfied, h⟩ := Checked.bind_eq_ok_iff.1 h
  cases satisfied with
  | true =>
    cases h
    intro hdeclared
    rw [Assignment.satisfiesClause_eq hdeclared] at hsatisfied
    exact Except.ok.inj hsatisfied
  | false =>
    obtain ⟨⟨repaired, s₂⟩, hrepaired, h⟩ := Checked.bind_eq_ok_iff.1 h
    cases h
    exact ensures_repair model drawn _ _ _ hrepaired

/-! ### Formulas -/

/-- What is known of a generated formula and its model. -/
structure Generated (d : Difficulty) (planted : Bool) (f : Formula) (model : Option Assignment) :
    Prop where
  difficulty : d.check = .ok ()
  numVariables : f.numVariables = d.numVariables
  numClauses : f.numClauses = d.numClauses
  valid : f.validate = .ok ()
  fitsWords : f.FitsWords
  planted : model.isSome = planted
  verified : ∀ a ∈ model, a.verify f = (.ok (.ok ()) : Checked _)

theorem check_eq_ok_iff : d.check = .ok () ↔
    0 < d.numVariables ∧ d.numVariables < Text.literalBound - 1 ∧ 0 < d.clauseLength := by
  unfold Difficulty.check
  split_ifs with hn hk
  · exact iff_of_false nofun (by omega)
  · exact iff_of_false nofun (by omega)
  · exact iff_of_true rfl (by omega)

/-- A valid formula with variables and clauses in range fits into words. -/
theorem fitsWords_of_valid {f : Formula} (hf : f.Valid) (hn : f.numVariables < Text.literalBound)
    (hm : f.numClauses < Text.countBound) : f.FitsWords where
  numVariables_lt := Nat.lt_trans hn (by decide)
  numClauses_lt := hm
  literals c hc l hl := by
    have hz (z : Int) : z.natAbs < Text.literalBound →
        -(Text.literalBound : Int) ≤ z ∧ z < Text.literalBound := by omega
    exact hz l (Nat.lt_of_le_of_lt ((hf c hc).2 l hl).2 hn)

theorem checked_eq_ok_iff {α ε : Type} {wrap : ε → Error} {r : Except ε α} {x : α} :
    checked wrap r = (.ok (.ok x) : Checked _) ↔ r = .ok x := by
  cases r with
  | ok y =>
    constructor <;> rintro ⟨⟩ <;> rfl
  | error e => exact iff_of_false nofun nofun

/-- What an attempt gave comes from what its first part gave. -/
theorem attempt_bind_eq_ok_iff {α β ε : Type} {x : Attempt ε α} {k : α → Attempt ε β} {y : β} :
    (x >>= k) = (.ok (.ok y) : Checked _) ↔
      ∃ a, x = (.ok (.ok a) : Checked _) ∧ k a = (.ok (.ok y) : Checked _) := by
  change (x.run >>= _ : Checked _) = _ ↔ ∃ a, x.run = _ ∧ _
  rw [Checked.bind_eq_ok_iff]
  constructor
  · rintro ⟨_ | a, hx, h⟩
    · cases h
    · exact ⟨a, hx, h⟩
  · rintro ⟨a, hx, h⟩
    exact ⟨.ok a, hx, h⟩

theorem lift_eq_ok_iff {α ε : Type} {x : Checked α} {y : α} :
    (liftM x : Attempt ε α) = (.ok (.ok y) : Checked _) ↔ x = .ok y := by
  cases x with
  | ok x => constructor <;> rintro ⟨⟩ <;> rfl
  | error fault => exact iff_of_false nofun nofun

/-- As many clauses as asked for are drawn, and they are no more than fit into memory. -/
theorem ensures_drawPlain (hd : 0 < d.clauseLength) :
    Ensures (fun cs => cs.length = d.numClauses ∧ d.numClauses < Text.countBound)
      (drawPlain (σ := σ) d) := by
  intro s cs s' h
  obtain ⟨_, -, h⟩ := Checked.bind_eq_ok_iff.1 h
  obtain ⟨_, hroom, h⟩ := Checked.bind_eq_ok_iff.1 h
  obtain ⟨⟨vars, s₁⟩, -, h⟩ := Checked.bind_eq_ok_iff.1 h
  obtain ⟨⟨signs, s₂⟩, -, h⟩ := Checked.bind_eq_ok_iff.1 h
  obtain ⟨_, -, h⟩ := Checked.bind_eq_ok_iff.1 h
  cases h
  refine ⟨length_rows _ _ _, ?_⟩
  have hle : d.numClauses ≤ d.numClauses * d.clauseLength := Nat.le_mul_of_pos_right _ hd
  have hmemory : memoryLimit < Text.countBound := by decide
  have := le_of_reserve hroom
  omega

/-- The model has a value for each variable, and the clauses hold under it. -/
theorem ensures_drawPlanted :
    Ensures (fun (model, cs) => model.values.size = d.numVariables ∧
      cs.length = d.numClauses ∧ d.numClauses < Text.countBound ∧ ∀ c ∈ cs, Covers model c)
      (drawPlanted (σ := σ) d) := by
  intro s _ s' h
  obtain ⟨⟨model, s₁⟩, hmodel, h⟩ := Checked.bind_eq_ok_iff.1 h
  obtain ⟨_, hroom, h⟩ := Checked.bind_eq_ok_iff.1 h
  obtain ⟨⟨cs, s₂⟩, hcs, h⟩ := Checked.bind_eq_ok_iff.1 h
  cases h
  obtain ⟨hlength, hcovers⟩ :=
    ensures_times (ensures_drawPlantedClause model d) d.numClauses _ _ _ hcs
  refine ⟨Assignment.size_of_draw hmodel, hlength, ?_, fun c hc => hcovers c (by simpa using hc)⟩
  have hmemory : memoryLimit < Text.countBound := by decide
  have := le_of_reserve hroom
  omega

/-- The model of a planted formula is a solution. -/
theorem verify_of_covers {f : Formula} {model : Assignment} (hf : f.Valid)
    (hsize : model.values.size = f.numVariables) (hcovers : ∀ c ∈ f.clauses, Covers model c) :
    model.verify f = (.ok (.ok ()) : Checked _) := by
  apply Assignment.verify_eq_ok hf hsize
  rw [List.eq_nil_iff_forall_not_mem]
  intro i hi
  obtain ⟨c, hc, hfalse⟩ := Formula.mem_unsatisfiedBy.1 hi
  have hmem := Array.mem_of_getElem? hc
  rw [hcovers c hmem (hf.declared hsize hmem)] at hfalse
  contradiction

/-- The parts of a generated formula that do not depend on how its clauses were drawn. -/
theorem generated_of_ofClauses {cs : List Clause} {f : Formula} {planted : Bool}
    {model : Option Assignment} (hplanted : model.isSome = planted)
    (hd : d.check = .ok ()) (hf : Formula.ofClauses d.numVariables cs = .ok f)
    (hlength : cs.length = d.numClauses) (hm : d.numClauses < Text.countBound)
    (hmodel : ∀ a ∈ model, a.values.size = d.numVariables ∧ ∀ c ∈ cs, Covers a c) :
    Generated d planted f model := by
  obtain ⟨rfl, hvalid⟩ := Formula.ofClauses_eq_ok_iff.1 hf
  have hvalid' := Formula.validate_eq_ok_iff.1 hvalid
  have hsize : cs.toArray.size = d.numClauses := hlength
  refine ⟨hd, rfl, hsize, hvalid, ?_, hplanted, fun a ha => ?_⟩
  · have hn := (check_eq_ok_iff.1 hd).2.1
    exact fitsWords_of_valid hvalid' (Nat.lt_of_lt_of_le hn (Nat.sub_le _ _)) (hsize.trans_lt hm)
  · obtain ⟨hvalues, hcovers⟩ := hmodel a ha
    exact verify_of_covers hvalid' hvalues fun c hc => hcovers c (List.mem_toArray.1 hc)

theorem generated_of_plainFrom {s : σ} {f : Formula}
    (h : plainFrom d s = (.ok (.ok f) : Checked _)) : Generated d false f none := by
  obtain ⟨_, hcheck, h⟩ := attempt_bind_eq_ok_iff.1 h
  obtain ⟨⟨cs, s'⟩, hdraw, h⟩ := attempt_bind_eq_ok_iff.1 h
  have hd := checked_eq_ok_iff.1 hcheck
  obtain ⟨hlength, hm⟩ := ensures_drawPlain (check_eq_ok_iff.1 hd).2.2 _ _ _ (lift_eq_ok_iff.1 hdraw)
  exact generated_of_ofClauses rfl hd (checked_eq_ok_iff.1 h) hlength hm nofun

theorem generated_of_plantedFrom {s : σ} {f : Formula} {model : Assignment}
    (h : plantedFrom d s = (.ok (.ok (f, model)) : Checked _)) :
    Generated d true f (some model) := by
  obtain ⟨_, hcheck, h⟩ := attempt_bind_eq_ok_iff.1 h
  obtain ⟨⟨⟨model', cs⟩, s'⟩, hdraw, h⟩ := attempt_bind_eq_ok_iff.1 h
  obtain ⟨f', hf, h⟩ := attempt_bind_eq_ok_iff.1 h
  cases h
  obtain ⟨hsize, hlength, hm, hcovers⟩ := ensures_drawPlanted _ _ _ (lift_eq_ok_iff.1 hdraw)
  refine generated_of_ofClauses rfl (checked_eq_ok_iff.1 hcheck) (checked_eq_ok_iff.1 hf) hlength
    hm ?_
  rintro _ ⟨⟩
  exact ⟨hsize, hcovers⟩

/-- Whatever is generated has the size that was asked for, can be written, and has its model as
a solution. -/
theorem generated_of_ofText {seed : String} {planted : Bool} {f : Formula}
    {model : Option Assignment} (h : ofText seed d planted = (.ok (.ok (f, model)) : Checked _)) :
    Generated d planted f model := by
  cases planted with
  | true =>
    obtain ⟨⟨f', a⟩, hplanted, h⟩ := attempt_bind_eq_ok_iff.1 h
    cases h
    exact generated_of_plantedFrom hplanted
  | false =>
    obtain ⟨f', hplain, h⟩ := attempt_bind_eq_ok_iff.1 h
    cases h
    exact generated_of_plainFrom hplain

end Generation

end SatWalk
