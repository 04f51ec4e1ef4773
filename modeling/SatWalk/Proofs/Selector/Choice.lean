import Mathlib.Data.List.MinMax
import Mathlib.Data.List.Sort
import SatWalk.Proofs.Random.Draws
import SatWalk.Proofs.Selector.Tally

/-! The choice of a selector. For each strategy the candidates are an ascending list that is
determined by how often each variable occurs, so neither the order of the clauses nor what
the selector was used for before has an influence on what is chosen or drawn. -/

namespace SatWalk

namespace Formula

/-- The variables that a strategy chooses among, for a list of clauses, in ascending order. -/
def candidates (f : Formula) (strategy : Strategy) (ids : List Nat) : List Nat :=
  (List.range (f.numVariables + 1)).filter fun v =>
    decide (v ∈ f.variablesOf ids) &&
      match strategy with
      | .random => true
      | .greedy => (f.variablesOf ids).all fun w =>
          decide ((f.variablesOf ids).count w ≤ (f.variablesOf ids).count v)

variable {f : Formula} {ids : List Nat}

theorem Valid.mem_candidates_random (hf : f.Valid) {v : Nat} :
    v ∈ f.candidates .random ids ↔ v ∈ f.variablesOf ids := by
  simp only [candidates, List.mem_filter, List.mem_range, Bool.and_true, decide_eq_true_iff,
    and_iff_right_iff_imp]
  exact fun h => Nat.lt_succ_of_le (hf.le_of_mem_variablesOf h)

theorem mem_candidates_greedy {v : Nat} : v ∈ f.candidates .greedy ids ↔
    v ∈ f.candidates .random ids ∧
      ∀ w ∈ f.variablesOf ids, (f.variablesOf ids).count w ≤ (f.variablesOf ids).count v := by
  simp [candidates, and_assoc]

theorem candidates_greedy : f.candidates .greedy ids = (f.candidates .random ids).filter fun v =>
    (f.variablesOf ids).all fun w =>
      decide ((f.variablesOf ids).count w ≤ (f.variablesOf ids).count v) := by
  simp [candidates, List.filter_filter, Bool.and_comm]

theorem mem_variablesOf_of_mem_candidates {strategy : Strategy} {v : Nat}
    (h : v ∈ f.candidates strategy ids) : v ∈ f.variablesOf ids := by
  simp only [candidates, List.mem_filter, Bool.and_eq_true, decide_eq_true_iff] at h
  exact h.2.1

theorem sorted_candidates (strategy : Strategy) :
    (f.candidates strategy ids).Pairwise (· < ·) :=
  List.pairwise_lt_range.filter _

@[simp] theorem candidates_nil (strategy : Strategy) : f.candidates strategy [] = [] := by
  simp [candidates]

/-- The order of the clauses does not matter. -/
theorem candidates_perm (strategy : Strategy) {ids' : List Nat} (h : ids.Perm ids') :
    f.candidates strategy ids = f.candidates strategy ids' := by
  have hp : (f.variablesOf ids).Perm (f.variablesOf ids') := h.flatMap_right _
  have hc : ∀ v, (f.variablesOf ids).count v = (f.variablesOf ids').count v := hp.count_eq
  simp only [candidates, hp.mem_iff, hc, hp.all_eq]

/-- Some variable can be chosen whenever a clause of a valid formula is listed. -/
theorem Valid.candidates_ne_nil (hf : f.Valid) (strategy : Strategy) (hne : ids ≠ [])
    (hids : ∀ c ∈ ids, c < f.numClauses) : f.candidates strategy ids ≠ [] := by
  have hvs : f.variablesOf ids ≠ [] := by
    obtain ⟨c, rest, rfl⟩ := List.exists_cons_of_ne_nil hne
    have hd := Array.getElem?_eq_getElem (hids c (by simp))
    have hcons := (hf _ (Array.getElem_mem (hids c (by simp)))).1
    rw [f.variablesOf_cons, hd, Option.getD_some]
    simp [hcons]
  obtain ⟨v, hv⟩ := Option.ne_none_iff_exists'.1
    (mt (List.argmax_eq_none (f := fun v => (f.variablesOf ids).count v)).1 hvs)
  have hmem := hf.mem_candidates_random.2 (List.argmax_mem hv)
  cases strategy with
  | random => exact List.ne_nil_of_mem hmem
  | greedy =>
    exact List.ne_nil_of_mem
      (mem_candidates_greedy.2 ⟨hmem, fun w hw => List.le_of_mem_argmax hw hv⟩)

end Formula

namespace Selector

/-- Whatever the counted variables, sorting the touched ones lists them in ascending order. -/
theorem Tallied.sort_touched {f : Formula} {ids : List Nat} {t : Selector} (hf : f.Valid)
    (h : Tallied f.numVariables (f.variablesOf ids) t) :
    t.touched.toList.mergeSort (· ≤ ·) = f.candidates .random ids := by
  have hp : (t.touched.toList.mergeSort (· ≤ ·)).Perm (f.candidates .random ids) := by
    refine (List.perm_ext_iff_of_nodup (List.nodup_mergeSort.2 h.nodup)
      (List.Pairwise.imp Nat.ne_of_lt (f.sorted_candidates .random))).2 fun v => ?_
    rw [List.mem_mergeSort, Array.mem_toList_iff, h.mem_iff, hf.mem_candidates_random]
  exact hp.eq_of_pairwise (fun a b _ _ => Nat.le_antisymm)
    List.sortedLE_mergeSort.pairwise ((f.sorted_candidates .random).imp Nat.le_of_lt)

theorem foldl_max_le_iff {α : Type} (g : α → Nat) (xs : List α) {m b : Nat} :
    xs.foldl (fun m v => max m (g v)) m ≤ b ↔ m ≤ b ∧ ∀ v ∈ xs, g v ≤ b := by
  induction xs generalizing m with
  | nil => simp
  | cons x xs ih => simp [ih, and_assoc]

theorem pool_eq {f : Formula} {ids : List Nat} (hf : f.Valid) {counts : Array Nat}
    (hc : ∀ v ≤ f.numVariables, counts[v]? = some ((f.variablesOf ids).count v))
    (strategy : Strategy) :
    pool strategy ⟨counts, (f.candidates .random ids).toArray⟩ =
      (f.candidates strategy ids).toArray := by
  cases strategy with
  | random => rfl
  | greedy =>
    have hcount : ∀ v ∈ f.candidates .random ids,
        counts.getD v 0 = (f.variablesOf ids).count v := fun v hv => by
      rw [Array.getD_eq_getD_getElem?,
        hc v (hf.le_of_mem_variablesOf (Formula.mem_variablesOf_of_mem_candidates hv))]
      rfl
    simp only [pool, List.size_toArray, List.foldl_toArray', List.filter_toArray']
    congr 1
    rw [Formula.candidates_greedy]
    refine List.filter_congr fun v hv => ?_
    rw [Bool.eq_iff_iff, decide_eq_true_iff, List.all_eq_true]
    have hle := (foldl_max_le_iff (fun v => counts.getD v 0) (f.candidates .random ids)
      (m := 0)).1 (Nat.le_refl _)
    refine ⟨fun he w hw => ?_, fun hall => Nat.le_antisymm (hle.2 v hv) ?_⟩
    · have hw' := hf.mem_candidates_random.2 hw
      have := hle.2 w hw'
      rw [decide_eq_true_iff, ← hcount v hv, ← hcount w hw', he]
      exact this
    · refine (foldl_max_le_iff _ _).2 ⟨Nat.zero_le _, fun w hw => ?_⟩
      rw [hcount v hv, hcount w hw]
      exact of_decide_eq_true (hall w (hf.mem_candidates_random.1 hw))

/-- A selector after a choice: its counts are cleared, and it has touched what was listed. -/
def spent (f : Formula) (ids : List Nat) : Selector :=
  ⟨.replicate (f.numVariables + 1) 0, (f.candidates .random ids).toArray⟩

theorem spent_clean (f : Formula) (ids : List Nat) : (spent f ids).Clean f.numVariables := rfl

theorem spent_perm {f : Formula} {ids ids' : List Nat} (h : ids.Perm ids') :
    spent f ids = spent f ids' := by
  rw [spent, spent, Formula.candidates_perm _ h]

/-- With cleared counts a selector chooses among the candidates, and clears its counts again. -/
theorem select_eq {σ : Type} [Source σ] {f : Formula} (hf : f.Valid) {t : Selector}
    (ht : t.Clean f.numVariables) {unsatisfied : Array Nat}
    (hids : ∀ c ∈ unsatisfied, c < f.numClauses)
    (hlen : (f.variablesOf unsatisfied.toList).length < size32) (strategy : Strategy) (s : σ) :
    t.select strategy f unsatisfied s = (do
      let (pick, s) ← Draw.choose (f.candidates strategy unsatisfied.toList).toArray s
      return ((pick, spent f unsatisfied.toList), s)) := by
  obtain ⟨known, t₁, vs, he, h₁, hknown, hvs, -⟩ :=
    tallyClauses_eq hf ht.tallied unsatisfied.toList (by simpa using hlen)
  obtain rfl : known = true := hknown.2 fun c hc => hids c (Array.mem_toList_iff.1 hc)
  obtain rfl := hvs rfl
  rw [List.nil_append] at h₁
  obtain ⟨counts, touched⟩ := t₁
  have hsorted := h₁.sort_touched hf
  have htally : t.tally f unsatisfied =
      .ok (true, ⟨counts, (f.candidates .random unsatisfied.toList).toArray⟩) := by
    simp only [tally, he, Checked.ok_bind, if_true, Checked.pure_eq_ok]
    rw [hsorted]
  have h₂ : Tallied f.numVariables (f.variablesOf unsatisfied.toList)
      ⟨counts, (f.candidates .random unsatisfied.toList).toArray⟩ :=
    ⟨h₁.size, h₁.count, (f.sorted_candidates .random).imp Nat.ne_of_lt,
      fun v => by rw [List.mem_toArray, hf.mem_candidates_random]⟩
  have hreset := h₂.reset_eq fun v => hf.le_of_mem_variablesOf
  rw [select, htally, Checked.ok_bind]
  simp only [if_true, pool_eq hf h₁.count, hreset, Checked.ok_bind, spent]

end Selector

end SatWalk
