import Mathlib.Tactic.SplitIfs
import SatWalk.Proofs.Selector.Choice
import SatWalk.Random.Xoshiro

/-! Calls of one selector, one after another. Every call finds cleared counts and leaves cleared
counts, also one that is refused halfway. So what it gives is what a new selector gives: nothing
for lists that are empty or name an unknown clause, and a draw from the candidates for others. -/

namespace SatWalk

/-- A call of a selector: the clauses it lists, by number, and the source it draws from. -/
structure Call (σ : Type) where
  strategy : Strategy
  listed : Array Nat
  source : σ

namespace Call

variable {σ : Type} {f : Formula} {c : Call σ}

/-- Some clause is listed, and all that are listed are there. -/
def Known (f : Formula) (c : Call σ) : Prop :=
  c.listed ≠ #[] ∧ ∀ i ∈ c.listed, i < f.numClauses

instance (f : Formula) (c : Call σ) : Decidable (c.Known f) :=
  inferInstanceAs (Decidable (_ ∧ _))

/-- The variables to choose among. -/
def pool (f : Formula) (c : Call σ) : List Nat :=
  f.candidates c.strategy c.listed.toList

theorem Known.pool_ne_nil (hf : f.Valid) (h : c.Known f) : c.pool f ≠ [] := by
  refine hf.candidates_ne_nil c.strategy (fun hnil => h.1 ?_) fun i hi => ?_
  · exact Array.toList_eq_nil_iff.1 hnil
  · exact h.2 i (Array.mem_toList_iff.1 hi)

variable [Source σ]

/-- What a call gives by itself. -/
def answer (f : Formula) (c : Call σ) : Checked (Option Nat × σ) :=
  if c.Known f then Draw.choose (c.pool f).toArray c.source else .ok (none, c.source)

theorem answer_of_not_known (h : ¬ c.Known f) : c.answer f = .ok (none, c.source) :=
  if_neg h

theorem answer_of_known (h : c.Known f) :
    c.answer f = Draw.choose (c.pool f).toArray c.source :=
  if_pos h

/-- A call gives no variable exactly if it is refused, and then it draws nothing. -/
theorem answer_eq_none_iff (hf : f.Valid) {s : σ} :
    c.answer f = .ok (none, s) ↔ ¬ c.Known f ∧ s = c.source := by
  constructor
  · intro h
    by_cases hk : c.Known f
    · rw [answer_of_known hk] at h
      have hpool : (c.pool f).toArray ≠ #[] := by simpa using hk.pool_ne_nil hf
      obtain ⟨v, -, hv⟩ := (Draw.choose_gives _ hpool c.source).holds h
      cases hv
    · rw [answer_of_not_known hk] at h
      cases h
      exact ⟨hk, rfl⟩
  · rintro ⟨hk, rfl⟩
    exact answer_of_not_known hk

/-- The order in which the clauses are listed does not matter. -/
theorem answer_perm {listed : Array Nat} (h : listed.toList.Perm c.listed.toList) :
    answer f { c with listed } = c.answer f := by
  have hnil : listed = #[] ↔ c.listed = #[] := by
    rw [← Array.toList_eq_nil_iff, ← Array.toList_eq_nil_iff]
    exact ⟨fun hl => List.perm_nil.1 (hl ▸ h.symm), fun hl => List.perm_nil.1 (hl ▸ h)⟩
  have hmem (i : Nat) : i ∈ listed ↔ i ∈ c.listed := by
    rw [← Array.mem_toList_iff, ← Array.mem_toList_iff]
    exact h.mem_iff
  have hknown : Known f { c with listed } ↔ c.Known f := by
    simp only [Known, ne_eq, hnil, hmem]
  have hpool : pool f { c with listed } = c.pool f := Formula.candidates_perm c.strategy h
  unfold answer
  rw [hpool]
  simp only [hknown]

end Call

namespace Selector

variable {σ : Type} [Source σ] {f : Formula} {t : Selector}

/-- A list that names an unknown clause is refused, and the counts are cleared. -/
theorem select_of_unknown (hf : f.Valid) (ht : t.Clean f.numVariables) {listed : Array Nat}
    (hlen : (f.variablesOf listed.toList).length < size32)
    (h : ¬ ∀ i ∈ listed, i < f.numClauses) (strategy : Strategy) (s : σ) :
    ∃ t', t'.Clean f.numVariables ∧ t.select strategy f listed s = .ok ((none, t'), s) := by
  obtain ⟨known, t₁, vs, he, h₁, hknown, -, hsub⟩ :=
    tallyClauses_eq hf ht.tallied listed.toList (by simpa using hlen)
  have hfalse : known = false := by
    cases known with
    | false => rfl
    | true => exact absurd (fun i hi => hknown.1 rfl i (Array.mem_toList_iff.2 hi)) h
  subst hfalse
  have hreset := h₁.reset_eq fun v hv => hf.le_of_mem_variablesOf (by simpa using hsub hv)
  refine ⟨⟨.replicate (f.numVariables + 1) 0, t₁.touched⟩, rfl, ?_⟩
  have htally : t.tally f listed =
      .ok (false, ⟨.replicate (f.numVariables + 1) 0, t₁.touched⟩) := by
    rw [tally, he, Checked.ok_bind]
    dsimp only
    rw [if_neg Bool.false_ne_true, hreset]
    rfl
  rw [select, htally]
  rfl

/-- With cleared counts a call is answered as if it were the first. -/
theorem select_answer (hf : f.Valid) (ht : t.Clean f.numVariables) {c : Call σ}
    (hlen : (f.variablesOf c.listed.toList).length < size32) :
    ∃ t', t'.Clean f.numVariables ∧ t.select c.strategy f c.listed c.source = (do
      let (pick, s) ← c.answer f
      return ((pick, t'), s)) := by
  by_cases hall : ∀ i ∈ c.listed, i < f.numClauses
  · refine ⟨spent f c.listed.toList, spent_clean f _, ?_⟩
    rw [select_eq hf ht hall hlen]
    by_cases hnil : c.listed = #[]
    · -- nothing is listed, so there is nothing to draw from
      rw [Call.answer_of_not_known fun hk => hk.1 hnil, hnil, Formula.candidates_nil]
      rfl
    · rw [Call.answer_of_known ⟨hnil, hall⟩]
      rfl
  · obtain ⟨t', ht', he⟩ := select_of_unknown hf ht hlen hall c.strategy c.source
    refine ⟨t', ht', ?_⟩
    rw [he, Call.answer_of_not_known fun hk => hall hk.2]
    rfl

/-- Calls one after another: what each of them gives, and the selector after the last. -/
def selectEach (f : Formula) : List (Call σ) → Selector → Checked (List (Option Nat × σ) × Selector)
  | [], t => .ok ([], t)
  | c :: cs, t => do
    let ((pick, t), s) ← t.select c.strategy f c.listed c.source
    let (answers, t) ← selectEach f cs t
    return ((pick, s) :: answers, t)

theorem selectEach_eq (hf : f.Valid) (ht : t.Clean f.numVariables) (calls : List (Call σ))
    (hlen : ∀ c ∈ calls, (f.variablesOf c.listed.toList).length < size32) :
    ∃ t', t'.Clean f.numVariables ∧ t.selectEach f calls = (do
      let answers ← calls.mapM (Call.answer f)
      return (answers, t')) := by
  induction calls generalizing t with
  | nil => exact ⟨t, ht, rfl⟩
  | cons c calls ih =>
    obtain ⟨t₁, ht₁, hselect⟩ := select_answer hf ht (hlen c (by simp))
    obtain ⟨t₂, ht₂, hrest⟩ := ih ht₁ fun c' hc' => hlen c' (by simp [hc'])
    refine ⟨t₂, ht₂, ?_⟩
    rw [selectEach, hselect, List.mapM_cons]
    cases c.answer f with
    | error e => rfl
    | ok r =>
      simp only [Checked.ok_bind, Checked.pure_eq_ok, hrest]
      cases calls.mapM (Call.answer f) <;> rfl

/-- A selector serves calls in any number, of any kind and in any order, as if each of them were
the only one. A call that lists no clause or an unknown one gives nothing and draws nothing. Any
other one draws from the variables of the listed clauses in ascending order: all of them, or
those with the most occurrences. -/
theorem calls_answered (hf : f.validate = .ok ()) (ht : ofVariables f.numVariables = .ok t)
    (calls : List (Call σ))
    (hlen : ∀ c ∈ calls, (f.variablesOf c.listed.toList).length < size32) :
    (∃ t', t'.counts = .replicate (f.numVariables + 1) 0 ∧ t.selectEach f calls = (do
      let answers ← calls.mapM (Call.answer f)
      return (answers, t'))) ∧
    ∀ c ∈ calls,
      (∀ s, c.answer f = .ok (none, s) ↔
        (c.listed = #[] ∨ ∃ i ∈ c.listed, f.numClauses ≤ i) ∧ s = c.source) ∧
      (¬ (c.listed = #[] ∨ ∃ i ∈ c.listed, f.numClauses ≤ i) →
        c.pool f ≠ [] ∧ c.answer f = Draw.choose (c.pool f).toArray c.source) ∧
      (c.pool f).Pairwise (· < ·) ∧
      (∀ v, v ∈ c.pool f ↔ v ∈ f.variablesOf c.listed.toList ∧
        (c.strategy = .greedy → ∀ w ∈ f.variablesOf c.listed.toList,
          (f.variablesOf c.listed.toList).count w ≤ (f.variablesOf c.listed.toList).count v)) ∧
      ∀ listed : Array Nat, listed.toList.Perm c.listed.toList →
        Call.answer f { c with listed } = c.answer f := by
  have hvalid := Formula.validate_eq_ok_iff.1 hf
  refine ⟨selectEach_eq hvalid (ofVariables_clean ht) calls hlen, fun c _ => ?_⟩
  have hknown : ¬ c.Known f ↔ c.listed = #[] ∨ ∃ i ∈ c.listed, f.numClauses ≤ i := by
    simp [Call.Known, ← or_iff_not_imp_left]
  simp only [← hknown, not_not]
  refine ⟨fun s => Call.answer_eq_none_iff hvalid, fun hk => ?_, f.sorted_candidates c.strategy,
    fun v => ?_, fun listed hperm => Call.answer_perm hperm⟩
  · exact ⟨hk.pool_ne_nil hvalid, Call.answer_of_known hk⟩
  · unfold Call.pool
    cases c.strategy with
    | random => simp [hvalid.mem_candidates_random]
    | greedy => simp [Formula.mem_candidates_greedy, hvalid.mem_candidates_random]

/-- A clause listed twice, an unknown clause, no clause, and clauses out of order. -/
theorem calls_answered_refused :
    ∃ t t' answers, ofVariables 3 = .ok t ∧
      t.selectEach ⟨3, #[[1, -1, 2], [2, 3], [-3]]⟩
        [⟨.greedy, #[0, 0], (⟨1, 2, 3, 4⟩ : Xoshiro)⟩, ⟨.random, #[1, 9], ⟨1, 2, 3, 4⟩⟩,
          ⟨.random, #[], ⟨1, 2, 3, 4⟩⟩, ⟨.greedy, #[2, 1], ⟨1, 2, 3, 4⟩⟩] = .ok (answers, t') ∧
      answers.map (·.1) = [some 1, none, none, some 3] ∧ t'.counts = #[0, 0, 0, 0] := by
  obtain ⟨⟨t', hcounts, hcalls⟩, -⟩ := calls_answered
    (f := ⟨3, #[[1, -1, 2], [2, 3], [-3]]⟩) (t := ⟨#[0, 0, 0, 0], #[]⟩) (by decide) rfl
    [⟨.greedy, #[0, 0], (⟨1, 2, 3, 4⟩ : Xoshiro)⟩, ⟨.random, #[1, 9], ⟨1, 2, 3, 4⟩⟩,
      ⟨.random, #[], ⟨1, 2, 3, 4⟩⟩, ⟨.greedy, #[2, 1], ⟨1, 2, 3, 4⟩⟩] (by simp; decide)
  exact ⟨_, t', _, rfl, hcalls, rfl, hcounts⟩

end Selector

end SatWalk
