import Mathlib.Data.List.Nodup
import SatWalk.Formula.Assignment

/-! Truth without look-ups that may fail. For a valid formula and an assignment with a value
for each variable, every checked look-up succeeds, so literals, clauses and formulas have
plain truth values, and a formula has the list of its unsatisfied clauses in ascending
order. A flip turns exactly the literals of its variable. -/

namespace SatWalk

namespace Literal

/-- The literal is one of a declared variable. -/
def Declared (numVariables : Nat) (l : Literal) : Prop :=
  (l : Int) ≠ 0 ∧ var l ≤ numVariables

theorem Declared.var_pos {n : Nat} {l : Literal} (h : Declared n l) : 0 < var l :=
  Int.natAbs_pos.2 h.1

end Literal

namespace Formula

/-- Every clause is nonempty and uses declared variables only. -/
def Valid (f : Formula) : Prop :=
  ∀ c ∈ f.clauses, c ≠ [] ∧ ∀ l ∈ c, Literal.Declared f.numVariables l

theorem checkLiterals_eq_ok_iff {n clause : Nat} {ls : List Literal} {u : Unit} :
    checkLiterals n clause ls = .ok u ↔ ∀ l ∈ ls, Literal.Declared n l := by
  induction ls with
  | nil => simp [checkLiterals]
  | cons l ls ih =>
    rw [checkLiterals]
    split_ifs with h0 hv
    · simp [Literal.Declared, h0]
    · simp [Literal.Declared, Nat.not_le.2 hv]
    · simp [ih, Literal.Declared, h0, Nat.not_lt.1 hv]

theorem checkClauses_eq_ok_iff {n clause : Nat} {cs : List Clause} {u : Unit} :
    checkClauses n clause cs = .ok u ↔
      ∀ c ∈ cs, c ≠ [] ∧ ∀ l ∈ c, Literal.Declared n l := by
  induction cs generalizing clause with
  | nil => simp [checkClauses]
  | cons c cs ih =>
    by_cases hc : c = []
    · simp [checkClauses, hc]
    · simp [checkClauses, hc, Checked.bind_eq_ok_iff, checkLiterals_eq_ok_iff, ih]

theorem validate_eq_ok_iff {f : Formula} : f.validate = .ok () ↔ f.Valid := by
  simp [validate, Valid, checkClauses_eq_ok_iff]

/-- How many literals the clauses have together. -/
def numLiterals (f : Formula) : Nat :=
  f.clauses.toList.flatten.length

theorem length_le_numLiterals {f : Formula} {c : Clause} (hc : c ∈ f.clauses) :
    c.length ≤ f.numLiterals :=
  (List.sublist_flatten_of_mem (Array.mem_toList_iff.2 hc)).length_le

end Formula

/-! ### Machine words -/

/-- The literal fits into 32 bits. -/
def Literal.FitsWord (l : Literal) : Prop :=
  -(Text.literalBound : Int) ≤ l ∧ l < Text.literalBound

instance (l : Literal) : Decidable l.FitsWord :=
  inferInstanceAs (Decidable (_ ∧ _))

theorem Literal.FitsWord.var_le {l : Literal} (h : l.FitsWord) : var l ≤ Text.literalBound := by
  have hz (z : Int) : -(Text.literalBound : Int) ≤ z ∧ z < Text.literalBound →
      z.natAbs ≤ Text.literalBound := by omega
  exact hz l h

/-- The counts fit into 64 bits and the literals into 32. -/
structure Formula.FitsWords (f : Formula) : Prop where
  numVariables_lt : f.numVariables < Text.countBound
  numClauses_lt : f.numClauses < Text.countBound
  literals : ∀ c ∈ f.clauses, ∀ l ∈ c, l.FitsWord

/-! ### Truth values -/

theorem slotOf_of_pos {v : Nat} (h : 0 < v) : slotOf v = .ok (v - 1) := by
  cases v with
  | zero => contradiction
  | succ v => rfl

theorem anyChecked_eq {α : Type} {test : α → Checked Bool} {p : α → Bool} {xs : List α}
    (h : ∀ x ∈ xs, test x = .ok (p x)) : anyChecked test xs = .ok (xs.any p) := by
  induction xs with
  | nil => rfl
  | cons x xs ih =>
    rw [anyChecked, h x (by simp), ih fun y hy => h y (by simp [hy])]
    cases hx : p x <;> simp [hx]

theorem firstFailing_eq {α : Type} {test : α → Checked Bool} {p : α → Bool} {xs : List α}
    {position : Nat} (h : ∀ x ∈ xs, test x = .ok (p x)) :
    firstFailing test position xs = .ok (xs.findIdxs (fun x => !p x) position).head? := by
  induction xs generalizing position with
  | nil => rfl
  | cons x xs ih =>
    rw [firstFailing, h x (by simp), ih fun y hy => h y (by simp [hy])]
    cases hx : p x <;> simp [hx]

namespace Assignment

variable {f : Formula} {a : Assignment}

/-- The value of a variable; without one it counts as false. -/
def valueD (a : Assignment) (v : Nat) : Bool :=
  a.values.getD (v - 1) false

theorem value_eq {v : Nat} (hv : 0 < v) (hs : v ≤ a.values.size) : a.value v = .ok (a.valueD v) := by
  have hlt : v - 1 < a.values.size := by omega
  simp [value, slotOf_of_pos hv, valueD, Array.getD_eq_getD_getElem?, hlt]

/-- Whether a literal is true. -/
def holds (a : Assignment) (l : Literal) : Bool :=
  decide ((0 : Int) < l) == a.valueD (Literal.var l)

theorem makesTrue_eq {l : Literal} (hl : Literal.Declared a.values.size l) :
    a.makesTrue l = .ok (a.holds l) := by
  rw [makesTrue, value_eq hl.var_pos hl.2]
  by_cases h : 0 < l <;> simp [holds, h]

/-- Whether some literal of a clause is true. -/
def holdsClause (a : Assignment) (c : Clause) : Bool :=
  c.any a.holds

theorem satisfiesClause_eq {c : Clause} (hc : ∀ l ∈ c, Literal.Declared a.values.size l) :
    a.satisfiesClause c = .ok (a.holdsClause c) :=
  anyChecked_eq fun l hl => makesTrue_eq (hc l hl)

/-- How many literals of a clause are true. -/
def trueCount (a : Assignment) (c : Clause) : Nat :=
  c.countP a.holds

theorem trueCount_eq_zero_iff {c : Clause} : a.trueCount c = 0 ↔ a.holdsClause c = false := by
  simp [trueCount, holdsClause]

end Assignment

/-- The clauses that an assignment leaves unsatisfied, in ascending order. -/
def Formula.unsatisfiedBy (f : Formula) (a : Assignment) : List Nat :=
  f.clauses.toList.findIdxs (fun c => !a.holdsClause c)

namespace Formula

variable {f : Formula} {a : Assignment}

theorem mem_unsatisfiedBy {i : Nat} :
    i ∈ f.unsatisfiedBy a ↔ ∃ c, f.clauses[i]? = some c ∧ a.holdsClause c = false := by
  simp [unsatisfiedBy, Array.getElem?_eq_some_iff]

theorem nodup_unsatisfiedBy : (f.unsatisfiedBy a).Nodup :=
  List.nodup_findIdxs

theorem lt_of_mem_unsatisfiedBy {i : Nat} (h : i ∈ f.unsatisfiedBy a) : i < f.numClauses := by
  simpa [numClauses] using List.lt_add_of_mem_findIdxs i h

theorem Valid.declared (hf : f.Valid) (ha : a.values.size = f.numVariables) {c : Clause}
    (hc : c ∈ f.clauses) : ∀ l ∈ c, Literal.Declared a.values.size l :=
  ha ▸ (hf c hc).2

end Formula

namespace Assignment

variable {f : Formula} {a : Assignment}

theorem firstUnsatisfied_eq (hf : f.Valid) (ha : a.values.size = f.numVariables) :
    a.firstUnsatisfied f = .ok (f.unsatisfiedBy a).head? :=
  firstFailing_eq fun _ hc => satisfiesClause_eq (hf.declared ha (Array.mem_toList_iff.1 hc))

theorem satisfies_eq (hf : f.Valid) (ha : a.values.size = f.numVariables) :
    a.satisfies f = .ok (f.unsatisfiedBy a).isEmpty := by
  rw [satisfies, firstUnsatisfied_eq hf ha]
  cases f.unsatisfiedBy a <;> rfl

/-- The solutions of a valid formula are its assignments without unsatisfied clauses. -/
theorem verify_eq_ok (hf : f.Valid) (ha : a.values.size = f.numVariables)
    (hu : f.unsatisfiedBy a = []) : a.verify f = .ok (.ok ()) := by
  have h : a.firstUnsatisfied f = .ok none := by rw [firstUnsatisfied_eq hf ha, hu]; rfl
  rw [verify, if_neg (not_not.2 ha), h]
  rfl

theorem unsatisfiedBy_of_verify (hf : f.Valid) (h : a.verify f = (.ok (.ok ()) : Checked _)) :
    f.unsatisfiedBy a = [] := by
  by_cases ha : a.values.size = f.numVariables
  · rw [verify, if_neg (not_not.2 ha), firstUnsatisfied_eq hf ha] at h
    cases hu : f.unsatisfiedBy a with
    | nil => rfl
    | cons i is => rw [hu] at h; cases h
  · rw [verify, if_pos ha] at h
    cases h

/-! ### Flips -/

/-- The assignment with the value of one variable turned. -/
def flipped (a : Assignment) (v : Nat) : Assignment :=
  ⟨a.values.modify (v - 1) not⟩

@[simp] theorem size_flipped (v : Nat) : (a.flipped v).values.size = a.values.size := by
  simp [flipped]

theorem flip_eq {v : Nat} (hv : 0 < v) (hs : v ≤ a.values.size) :
    a.flip v = .ok (a.flipped v) := by
  have hlt : v - 1 < a.values.size := by omega
  have hf : fetch a.values (v - 1) = .ok a.values[v - 1] := by simp [hlt]
  simp only [flip, slotOf_of_pos hv, Checked.ok_bind, hf, store_of_lt hlt, Checked.pure_eq_ok,
    flipped]
  congr 2
  ext i h₁ h₂
  · simp
  · by_cases h : v - 1 = i
    · subst h
      simp [Array.getElem_modify]
    · simp [h, Array.getElem_set, Array.getElem_modify]

theorem valueD_flipped {v w : Nat} (hv : 0 < v) (hs : v ≤ a.values.size) (hw : 0 < w) :
    (a.flipped v).valueD w = if w = v then !a.valueD w else a.valueD w := by
  have hlt : v - 1 < a.values.size := by omega
  have hne : v - 1 = w - 1 ↔ w = v := by omega
  simp only [valueD, flipped, Array.getD_eq_getD_getElem?, Array.getElem?_modify, hne]
  split_ifs with h
  · subst h; simp [hlt]
  · rfl

/-- The literal of a variable that is true. -/
def trueLiteral (a : Assignment) (v : Nat) : Int :=
  if a.valueD v then v else -(v : Int)

theorem holds_iff {l : Int} (hl : l ≠ 0) :
    a.holds l = true ↔ l = a.trueLiteral l.natAbs := by
  have hsign := Int.natAbs_eq l
  rw [holds, trueLiteral, Literal.var]
  generalize l.natAbs = v at *
  cases a.valueD v <;> simp <;> omega

theorem natAbs_trueLiteral (v : Nat) : (a.trueLiteral v).natAbs = v := by
  unfold trueLiteral
  split_ifs <;> simp

theorem holds_flipped {v : Nat} (hv : 0 < v) (hs : v ≤ a.values.size) {l : Int} (hl : l ≠ 0) :
    (a.flipped v).holds l = if l.natAbs = v then !a.holds l else a.holds l := by
  rw [holds, Literal.var, valueD_flipped hv hs (Int.natAbs_pos.2 hl), holds, Literal.var]
  split_ifs
  · cases a.valueD l.natAbs <;> simp
  · rfl

/-- A flip adds the literals that become true to the true ones and takes away those that
become false. -/
theorem trueCount_flipped {v : Nat} (hv : 0 < v) (hs : v ≤ a.values.size) {c : Clause}
    (hc : ∀ l ∈ c, (l : Int) ≠ 0) :
    (a.flipped v).trueCount c + c.count (a.trueLiteral v) =
      a.trueCount c + c.count (-a.trueLiteral v) := by
  have hv' : a.trueLiteral v ≠ -a.trueLiteral v := by
    have := natAbs_trueLiteral (a := a) v
    omega
  unfold trueCount
  induction c with
  | nil => rfl
  | cons l c ih =>
    have ih := ih fun x hx => hc x (by simp [hx])
    have hl : (l : Int) ≠ 0 := hc l (by simp)
    have hi := holds_iff (a := a) hl
    simp only [List.countP_cons, List.count_cons, holds_flipped hv hs hl]
    by_cases hvar : Int.natAbs l = v
    · have hsign := Int.natAbs_eq_natAbs_iff.1 (hvar.trans (natAbs_trueLiteral (a := a) v).symm)
      rw [hvar] at hi
      rcases hsign with h | h
      · have hn : (l == -a.trueLiteral v) = false := beq_false_of_ne (h ▸ hv')
        have hp : (l == a.trueLiteral v) = true := beq_iff_eq.2 h
        simp only [hvar, if_true, hi.2 h, hn, hp, Bool.not_true, Bool.false_eq_true, if_false]
        omega
      · have hn : (l == -a.trueLiteral v) = true := beq_iff_eq.2 h
        have hp : (l == a.trueLiteral v) = false := beq_false_of_ne (h ▸ hv'.symm)
        have hf : a.holds l = false := Bool.eq_false_iff.2 fun ht => hv' (hi.1 ht ▸ h)
        simp only [hvar, if_true, hf, hn, hp, Bool.not_false, Bool.false_eq_true, if_false]
        omega
    · have hp : (l == a.trueLiteral v) = false :=
        beq_false_of_ne fun h => hvar (by rw [h, natAbs_trueLiteral])
      have hn : (l == -a.trueLiteral v) = false :=
        beq_false_of_ne fun h => hvar (by rw [h, Int.natAbs_neg, natAbs_trueLiteral])
      simp only [hvar, if_false, hn, hp, Bool.false_eq_true]
      omega

theorem count_trueLiteral_le {v : Nat} (hv : 0 < v) (c : Clause) :
    c.count (a.trueLiteral v) ≤ a.trueCount c := by
  have hne : a.trueLiteral v ≠ 0 := by have := natAbs_trueLiteral (a := a) v; omega
  have hh : a.holds (a.trueLiteral v) = true := by rw [holds_iff hne, natAbs_trueLiteral]
  exact List.countP_mono_left fun l _ hl => (beq_iff_eq.1 hl) ▸ hh

/-- The literals that a flip makes true are not true before it. -/
theorem trueCount_add_count_le {v : Nat} (hv : 0 < v) (c : Clause) :
    a.trueCount c + c.count (-a.trueLiteral v) ≤ c.length := by
  have hne : -a.trueLiteral v ≠ 0 := by have := natAbs_trueLiteral (a := a) v; omega
  have hh : a.holds (-a.trueLiteral v) = false := by
    rw [Bool.eq_false_iff, Ne, holds_iff hne, Int.natAbs_neg, natAbs_trueLiteral]
    omega
  rw [trueCount, List.length_eq_countP_add_countP a.holds]
  refine Nat.add_le_add_left (List.countP_mono_left fun l _ hl => ?_) _
  simp [beq_iff_eq.1 hl, hh]

end Assignment

end SatWalk
