import SatWalk.Proofs.Dimacs.RoundTrip
import SatWalk.Proofs.Tracker.Faithful

/-! What validation and verification say. An error of validation names the first clause in reading
order that is empty or has a literal that is not declared, and the first such literal. Verification
of a valid formula never faults; it rejects an assignment of another length, and otherwise names the
first clause without a literal that agrees with the values. All ways to evaluate a formula come to
the same verdict. -/

namespace SatWalk

/-! ### First places -/

section FirstAt

variable {α : Type} {Good : α → Prop} {Bad : Nat → α → Prop} {x : α} {xs : List α}

/-- An entry is bad in its place, and all entries before it are good. -/
def FirstAt (Good : α → Prop) (Bad : Nat → α → Prop) (xs : List α) : Prop :=
  ∃ before x after, xs = before ++ x :: after ∧ (∀ y ∈ before, Good y) ∧ Bad before.length x

theorem not_firstAt_nil : ¬ FirstAt Good Bad [] := by
  rintro ⟨before, x, after, h, -⟩
  exact List.append_ne_nil_of_right_ne_nil before (List.cons_ne_nil x after) h.symm

theorem firstAt_cons : FirstAt Good Bad (x :: xs) ↔
    Bad 0 x ∨ Good x ∧ FirstAt Good (fun i => Bad (i + 1)) xs := by
  constructor
  · rintro ⟨_ | ⟨y, before⟩, z, after, h, hbefore, hz⟩
    · cases h
      exact .inl hz
    · cases h
      obtain ⟨hy, hbefore⟩ := List.forall_mem_cons.1 hbefore
      exact .inr ⟨hy, before, z, after, rfl, hbefore, hz⟩
  · rintro (hx | ⟨hx, before, z, after, rfl, hbefore, hz⟩)
    · exact ⟨[], x, xs, rfl, fun _ => nofun, hx⟩
    · exact ⟨x :: before, z, after, rfl, List.forall_mem_cons.2 ⟨hx, hbefore⟩, hz⟩

theorem firstAt_congr {Good' : α → Prop} {Bad' : Nat → α → Prop}
    (hgood : ∀ x ∈ xs, (Good x ↔ Good' x)) (hbad : ∀ i, ∀ x ∈ xs, (Bad i x ↔ Bad' i x)) :
    FirstAt Good Bad xs ↔ FirstAt Good' Bad' xs := by
  refine exists_congr fun before => exists_congr fun x => exists_congr fun after =>
    and_congr_right fun h => ?_
  subst h
  exact and_congr
    (forall₂_congr fun y hy => hgood y (List.mem_append_left _ hy))
    (hbad _ x (List.mem_append_right _ List.mem_cons_self))

theorem head?_findIdxs_eq_some_iff {p : α → Bool} {start i : Nat} :
    (xs.findIdxs p start).head? = some i ↔
      FirstAt (fun x => p x = false) (fun j x => p x = true ∧ i = start + j) xs := by
  induction xs generalizing start with
  | nil => exact iff_of_false nofun not_firstAt_nil
  | cons x xs ih =>
    rw [List.findIdxs_cons, firstAt_cons]
    cases hx : p x with
    | true => simpa using eq_comm
    | false => simp [ih, Nat.add_right_comm, Nat.add_assoc]

end FirstAt

/-! ### Validation -/

/-- The error says what is wrong with a literal of the given clause. -/
def Literal.Faulty (numVariables clause : Nat) (l : Literal) (e : Formula.Error) : Prop :=
  (l : Int) = 0 ∧ e = .zeroLiteral clause ∨
    (l : Int) ≠ 0 ∧ numVariables < var l ∧ e = .literalOutOfRange clause l numVariables

/-- The clause has literals, and they are declared. -/
def Clause.Declared (numVariables : Nat) (c : Clause) : Prop :=
  c ≠ [] ∧ ∀ l ∈ c, Literal.Declared numVariables l

/-- The error says what is wrong with a clause: that it is empty, or what is wrong with its first
literal that is not declared. -/
def Clause.Faulty (numVariables clause : Nat) (c : Clause) (e : Formula.Error) : Prop :=
  c = [] ∧ e = .emptyClause clause ∨
    FirstAt (Literal.Declared numVariables) (fun _ l => l.Faulty numVariables clause e) c

namespace Formula

variable {n clause : Nat} {e : Error}

theorem checkLiterals_eq_error_iff {ls : List Literal} : checkLiterals n clause ls = .error e ↔
    FirstAt (Literal.Declared n) (fun _ l => Literal.Faulty n clause l e) ls := by
  induction ls with
  | nil => exact iff_of_false nofun not_firstAt_nil
  | cons l ls ih =>
    rw [checkLiterals, firstAt_cons]
    split_ifs with hzero hrange
    · simp [Literal.Faulty, Literal.Declared, hzero, eq_comm]
    · simp [Literal.Faulty, Literal.Declared, hzero, hrange, Nat.not_le.2 hrange, eq_comm]
    · simp [Literal.Faulty, Literal.Declared, hzero, hrange, Nat.not_lt.1 hrange, ih]

theorem checkClauses_eq_error_iff {cs : List Clause} : checkClauses n clause cs = .error e ↔
    FirstAt (Clause.Declared n) (fun i c => Clause.Faulty n (clause + i) c e) cs := by
  induction cs generalizing clause with
  | nil => exact iff_of_false (fun h => by cases h) not_firstAt_nil
  | cons c cs ih =>
    have hrest : (fun i c => Clause.Faulty n (clause + (i + 1)) c e) =
        fun i c => Clause.Faulty n (clause + 1 + i) c e := by
      funext i c
      rw [Nat.add_right_comm, Nat.add_assoc]
    rw [checkClauses, firstAt_cons, hrest, ← ih]
    by_cases hc : c = []
    · simp [hc, Clause.Faulty, Clause.Declared, not_firstAt_nil, eq_comm]
    · have hfaulty : Clause.Faulty n (clause + 0) c e ↔ checkLiterals n clause c = .error e := by
        rw [checkLiterals_eq_error_iff, Clause.Faulty]
        simp [hc]
      have hdeclared : Clause.Declared n c ↔ checkLiterals n clause c = .ok () := by
        rw [checkLiterals_eq_ok_iff, Clause.Declared]
        simp [hc]
      rw [hfaulty, hdeclared, if_neg hc]
      change (checkLiterals n clause c >>= fun _ => checkClauses n (clause + 1) cs) = _ ↔ _
      rw [Checked.bind_eq_error_iff]
      refine or_congr_right ⟨?_, fun h => ⟨(), h⟩⟩
      rintro ⟨_, h⟩
      exact h

/-- The error names what is wrong first in reading order. -/
theorem ofClauses_eq_error_iff {cs : List Clause} : ofClauses n cs = .error e ↔
    FirstAt (Clause.Declared n) (fun i c => Clause.Faulty n i c e) cs := by
  have hplace : (fun i c => Clause.Faulty n i c e) = fun i c => Clause.Faulty n (0 + i) c e := by
    funext i c
    rw [Nat.zero_add]
  rw [hplace, ← checkClauses_eq_error_iff, ofClauses, Checked.bind_eq_error_iff, validate]
  simp

end Formula

/-! ### Verification -/

namespace Assignment

variable {f : Formula} {a : Assignment} {c : Clause}

/-- Some literal of the clause has the sign that the value of its variable asks for. -/
def Agrees (a : Assignment) (c : Clause) : Prop :=
  ∃ l ∈ c, a.values[Literal.var l - 1]? = some (decide ((0 : Int) < l))

theorem agrees_iff (hc : ∀ l ∈ c, Literal.Declared a.values.size l) :
    a.Agrees c ↔ a.holdsClause c = true := by
  rw [holdsClause, List.any_eq_true]
  refine exists_congr fun l => and_congr_right fun hl => ?_
  have hlt : Literal.var l - 1 < a.values.size := by
    have hpos := (hc l hl).var_pos
    have hle := (hc l hl).2
    omega
  rw [holds, valueD, Array.getD_eq_getD_getElem?, Array.getElem?_eq_getElem hlt, Option.some_inj,
    Option.getD_some, beq_iff_eq]
  exact eq_comm

/-- Why an assignment is rejected: for its length, or for the first clause that has no literal that
agrees with it. -/
def Rejects (f : Formula) (a : Assignment) : Rejection → Prop
  | .wrongLength expected actual =>
    a.values.size ≠ f.numVariables ∧ expected = f.numVariables ∧ actual = a.values.size
  | .unsatisfied i => a.values.size = f.numVariables ∧
    FirstAt a.Agrees (fun j c => ¬ a.Agrees c ∧ i = j) f.clauses.toList

theorem agrees_of_mem (hf : f.Valid) (ha : a.values.size = f.numVariables) (hc : c ∈ f.clauses) :
    a.Agrees c ↔ a.holdsClause c = true :=
  agrees_iff (hf.declared ha hc)

theorem firstAt_agrees_iff (hf : f.Valid) (ha : a.values.size = f.numVariables) {i : Nat} :
    FirstAt a.Agrees (fun j c => ¬ a.Agrees c ∧ i = j) f.clauses.toList ↔
      (f.unsatisfiedBy a).head? = some i := by
  rw [Formula.unsatisfiedBy, head?_findIdxs_eq_some_iff]
  refine firstAt_congr (fun c hc => ?_) (fun j c hc => ?_)
  · rw [agrees_of_mem hf ha (Array.mem_toList_iff.1 hc)]
    simp
  · rw [agrees_of_mem hf ha (Array.mem_toList_iff.1 hc)]
    simp

theorem forall_agrees_iff (hf : f.Valid) (ha : a.values.size = f.numVariables) :
    (∀ c ∈ f.clauses, a.Agrees c) ↔ f.unsatisfiedBy a = [] := by
  rw [Formula.unsatisfiedBy, List.findIdxs_eq_nil_iff]
  refine ⟨fun h c hc => ?_, fun h c hc => ?_⟩
  · have hmem := Array.mem_toList_iff.1 hc
    simpa using (agrees_of_mem hf ha hmem).1 (h c hmem)
  · refine (agrees_of_mem hf ha hc).2 ?_
    simpa using h c (Array.mem_toList_iff.2 hc)

theorem verify_of_length (ha : a.values.size ≠ f.numVariables) : a.verify f =
    (.ok (.error (.wrongLength f.numVariables a.values.size)) : Checked _) := by
  rw [verify, if_pos ha]
  rfl

theorem verify_of_head? (hf : f.Valid) (ha : a.values.size = f.numVariables) {i : Nat}
    (h : (f.unsatisfiedBy a).head? = some i) :
    a.verify f = (.ok (.error (.unsatisfied i)) : Checked _) := by
  rw [verify, if_neg (not_not.2 ha), firstUnsatisfied_eq hf ha, h]
  rfl

/-- Verification of a valid formula ends, and each of its answers has one reason. -/
theorem verify_cases (hf : f.Valid) (a : Assignment) :
    a.verify f = (.ok (.ok ()) : Checked _) ∧ a.values.size = f.numVariables ∧
        f.unsatisfiedBy a = [] ∨
      ∃ r, a.verify f = (.ok (.error r) : Checked _) ∧ a.Rejects f r := by
  by_cases ha : a.values.size = f.numVariables
  · cases hu : f.unsatisfiedBy a with
    | nil => exact .inl ⟨verify_eq_ok hf ha hu, ha, rfl⟩
    | cons i rest =>
      have hhead : (f.unsatisfiedBy a).head? = some i := by rw [hu, List.head?_cons]
      exact .inr ⟨_, verify_of_head? hf ha hhead, ha, (firstAt_agrees_iff hf ha).2 hhead⟩
  · exact .inr ⟨_, verify_of_length ha, ha, rfl, rfl⟩

theorem verify_eq_ok_iff (hf : f.Valid) : a.verify f = (.ok (.ok ()) : Checked _) ↔
    a.values.size = f.numVariables ∧ f.unsatisfiedBy a = [] := by
  constructor
  · intro h
    rcases verify_cases hf a with ⟨-, hsolution⟩ | ⟨r, hr, -⟩
    · exact hsolution
    · cases h.symm.trans hr
  · exact fun ⟨ha, hu⟩ => verify_eq_ok hf ha hu

theorem verify_eq_error_iff (hf : f.Valid) {r : Rejection} :
    a.verify f = (.ok (.error r) : Checked _) ↔ a.Rejects f r := by
  constructor
  · intro h
    rcases verify_cases hf a with ⟨hok, -⟩ | ⟨r', hr', hrejects⟩
    · cases hok.symm.trans h
    · cases hr'.symm.trans h
      exact hrejects
  · intro h
    cases r with
    | wrongLength expected actual =>
      obtain ⟨ha, rfl, rfl⟩ := h
      exact verify_of_length ha
    | unsatisfied i => exact verify_of_head? hf h.1 ((firstAt_agrees_iff hf h.1).1 h.2)

end Assignment

/-! ### Trackers -/

/-- A tracker that has just been built lists no clause exactly if there is none to list. -/
theorem Tracker.Faithful.unsatisfied_build {ω : Type} {t : Tracker ω} {f : Formula} {width : Nat}
    {Tracks : Assignment → ω → Prop} (ht : t.Faithful f width Tracks) {a : Assignment}
    (ha : a.values.size = f.numVariables) :
    memoryLimit < f.numVariables * width ∧ t.build f a = .error .capacityExceeded ∨
      ∃ k, t.build f a = .ok k ∧ (t.unsatisfied k = #[] ↔ f.unsatisfiedBy a = []) := by
  by_cases hm : f.numVariables * width ≤ memoryLimit
  · obtain ⟨k, hk, htracks⟩ := ht.build_eq ha hm
    refine .inr ⟨k, hk, ?_⟩
    rw [← Array.toList_eq_nil_iff, ← List.length_eq_zero_iff, (ht.perm htracks).length_eq,
      List.length_eq_zero_iff]
  · have hlt := Nat.lt_of_not_le hm
    exact .inl ⟨hlt, ht.build_full a hlt⟩

namespace Formula

/-- A formula is made exactly if its clauses have literals and these are declared; otherwise the
error names what is wrong first in reading order. Verification of a formula that was made
always has an answer: it accepts exactly the assignments of the right length that agree with
each clause, and otherwise names the lengths or the first clause that fails. Evaluation and
both trackers come to the same verdict, if the counting one has the memory it asks for. -/
theorem verdicts_exact (numVariables : Nat) (cs : List Clause) :
    ((∃ f, ofClauses numVariables cs = .ok f) ↔ ∀ c ∈ cs, c.Declared numVariables) ∧
    (∀ e, ofClauses numVariables cs = .error e ↔
      FirstAt (Clause.Declared numVariables) (fun i c => c.Faulty numVariables i e) cs) ∧
    ∀ f, ofClauses numVariables cs = .ok f →
      f = ⟨numVariables, cs.toArray⟩ ∧ ∀ a : Assignment,
        (∃ r, a.verify f = (.ok r : Checked _)) ∧
        (a.verify f = (.ok (.ok ()) : Checked _) ↔
          a.values.size = f.numVariables ∧ ∀ c ∈ f.clauses, a.Agrees c) ∧
        (∀ r, a.verify f = (.ok (.error r) : Checked _) ↔ a.Rejects f r) ∧
        (a.values.size = f.numVariables →
          (∃ b, a.satisfies f = .ok b ∧ (b = true ↔ a.verify f = (.ok (.ok ()) : Checked _))) ∧
          (∃ k, Tracker.scan.build f a = .ok k ∧
            (Tracker.scan.unsatisfied k = #[] ↔ a.verify f = (.ok (.ok ()) : Checked _))) ∧
          ((∀ c ∈ f.clauses, c.length < size32) →
            memoryLimit < f.numVariables * 24 ∧
              Tracker.incremental.build f a = .error .capacityExceeded ∨
            ∃ k, Tracker.incremental.build f a = .ok k ∧
              (Tracker.incremental.unsatisfied k = #[] ↔
                a.verify f = (.ok (.ok ()) : Checked _)))) := by
  refine ⟨?_, fun e => ofClauses_eq_error_iff, fun f hmade => ?_⟩
  · simp [ofClauses_eq_ok_iff, validate_eq_ok_iff, Valid, Clause.Declared]
  · obtain ⟨hf, hvalid⟩ := ofClauses_eq_ok_iff.1 hmade
    rw [validate_eq_ok_iff] at hvalid
    refine ⟨hf, fun a => ⟨?_, ?_, fun r => Assignment.verify_eq_error_iff hvalid, fun ha => ?_⟩⟩
    · rcases Assignment.verify_cases hvalid a with ⟨h, -⟩ | ⟨r, h, -⟩
      · exact ⟨_, h⟩
      · exact ⟨_, h⟩
    · rw [Assignment.verify_eq_ok_iff hvalid]
      exact and_congr_right fun ha => (Assignment.forall_agrees_iff hvalid ha).symm
    · have hverdict : a.verify f = (.ok (.ok ()) : Checked _) ↔ f.unsatisfiedBy a = [] := by
        rw [Assignment.verify_eq_ok_iff hvalid, and_iff_right ha]
      rw [hverdict]
      refine ⟨⟨_, Assignment.satisfies_eq hvalid ha, List.isEmpty_iff⟩, ?_, fun hshort => ?_⟩
      · exact ((Tracker.scan_faithful hvalid).unsatisfied_build ha).resolve_left
          fun h => absurd h.1 (Nat.not_lt_zero _)
      · exact (Tracker.incremental_faithful hvalid hshort).unsatisfied_build ha

/-- The second of two clauses fails; with another literal in it the formula is not made. -/
theorem verdicts_exact_second_clause :
    ofClauses 2 [[1, -2], [2, 2]] = .ok ⟨2, #[[1, -2], [2, 2]]⟩ ∧
      Assignment.verify ⟨#[false, false]⟩ ⟨2, #[[1, -2], [2, 2]]⟩ =
        (.ok (.error (.unsatisfied 1)) : Checked _) ∧
      ¬ Assignment.Agrees ⟨#[false, false]⟩ [2, 2] ∧
      ofClauses 2 [[1, -2], [2, -3, 0]] = .error (.literalOutOfRange 1 (-3) 2) ∧
      ¬ Clause.Declared 2 [2, -3, 0] := by
  have hmade : ofClauses 2 [[1, -2], [2, 2]] = .ok ⟨2, #[[1, -2], [2, 2]]⟩ := by decide
  have hfailed : ofClauses 2 [[1, -2], [2, -3, 0]] = .error (.literalOutOfRange 1 (-3) 2) := by
    decide
  have hverify : (Assignment.verify ⟨#[false, false]⟩ ⟨2, #[[1, -2], [2, 2]]⟩).run =
      (.ok (.error (.unsatisfied 1)) : Checked _) := by decide
  have hagrees : Assignment.Agrees ⟨#[false, false]⟩ [1, -2] := ⟨-2, by decide, rfl⟩
  refine ⟨hmade, hverify, fun h => ?_, hfailed, fun h => ?_⟩
  · obtain ⟨-, -, hverdict⟩ := verdicts_exact 2 [[1, -2], [2, 2]]
    obtain ⟨-, hverdict⟩ := hverdict _ hmade
    obtain ⟨-, haccepts, -⟩ := hverdict ⟨#[false, false]⟩
    have hok := haccepts.2 ⟨rfl, by simp [hagrees, h]⟩
    cases hverify.symm.trans hok
  · obtain ⟨hmakes, -⟩ := verdicts_exact 2 [[1, -2], [2, -3, 0]]
    have hdeclared : Clause.Declared 2 [1, -2] := by
      simp [Clause.Declared, Literal.Declared, Literal.var]
    obtain ⟨f, hf⟩ := hmakes.2 (by simp [hdeclared, h])
    cases hf.symm.trans hfailed

end Formula

end SatWalk
