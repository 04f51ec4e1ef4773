import Mathlib.Data.List.Flatten
import Mathlib.Data.List.Perm.Subperm
import SatWalk.Proofs.Formula.Truth
import SatWalk.Walk.Selector

/-! Counting the variables of listed clauses. The counts agree with the occurrences seen so far,
and the touched variables are those seen at all, each once; clearing the touched ones
therefore clears everything. -/

namespace SatWalk

namespace Formula

/-- The variables of the literals of listed clauses, in reading order and with repetitions. -/
def variablesOf (f : Formula) (ids : List Nat) : List Nat :=
  ids.flatMap fun c => (f.clauses[c]?.getD []).map Literal.var

@[simp] theorem variablesOf_nil (f : Formula) : f.variablesOf [] = [] := rfl

theorem variablesOf_cons (f : Formula) (c : Nat) (ids : List Nat) :
    f.variablesOf (c :: ids) = (f.clauses[c]?.getD []).map Literal.var ++ f.variablesOf ids := rfl

theorem mem_variablesOf {f : Formula} {ids : List Nat} {v : Nat} :
    v ∈ f.variablesOf ids ↔
      ∃ c ∈ ids, ∃ d, f.clauses[c]? = some d ∧ ∃ l ∈ d, Literal.var l = v := by
  simp only [variablesOf, List.mem_flatMap, List.mem_map]
  refine exists_congr fun c => and_congr_right fun _ => ?_
  cases f.clauses[c]? <;> simp

theorem Valid.le_of_mem_variablesOf {f : Formula} (hf : f.Valid) {ids : List Nat} {v : Nat}
    (h : v ∈ f.variablesOf ids) : v ≤ f.numVariables := by
  obtain ⟨c, -, d, hd, l, hl, rfl⟩ := mem_variablesOf.1 h
  exact ((hf d (Array.mem_of_getElem? hd)).2 l hl).2

theorem Valid.pos_of_mem_variablesOf {f : Formula} (hf : f.Valid) {ids : List Nat} {v : Nat}
    (h : v ∈ f.variablesOf ids) : 0 < v := by
  obtain ⟨c, -, d, hd, l, hl, rfl⟩ := mem_variablesOf.1 h
  exact ((hf d (Array.mem_of_getElem? hd)).2 l hl).var_pos

theorem length_variablesOf_range (f : Formula) :
    (f.variablesOf (List.range f.numClauses)).length = f.numLiterals := by
  have hmap : (List.range f.numClauses).map (fun c => f.clauses[c]?.getD []) =
      f.clauses.toList := by
    refine List.ext_getElem (by simp [numClauses]) fun c hc hc' => ?_
    have hlt : c < f.clauses.size := by simpa using hc'
    simp [hlt]
  rw [variablesOf, ← List.map_flatMap, List.length_map, List.flatMap_def, hmap, numLiterals]

/-- Different clauses have no more literals than all clauses. -/
theorem length_variablesOf_le {f : Formula} {ids : List Nat} (hn : ids.Nodup)
    (hids : ∀ c ∈ ids, c < f.numClauses) : (f.variablesOf ids).length ≤ f.numLiterals := by
  have hsubset : ids ⊆ List.range f.numClauses := fun c hc => List.mem_range.2 (hids c hc)
  obtain ⟨cs, hperm, hsub⟩ := hn.subperm hsubset
  have heq : (f.variablesOf ids).length = (f.variablesOf cs).length :=
    (hperm.flatMap_right _).length_eq.symm
  rw [heq, ← f.length_variablesOf_range]
  exact (hsub.flatMap _).length_le

end Formula

namespace Selector

/-- The counts are those of a list of variables up to `n`. -/
structure Tallied (n : Nat) (vs : List Nat) (t : Selector) : Prop where
  size : t.counts.size = n + 1
  count : ∀ v ≤ n, t.counts[v]? = some (vs.count v)
  nodup : t.touched.toList.Nodup
  mem_iff : ∀ v, v ∈ t.touched ↔ v ∈ vs

/-- All counts are zero. -/
def Clean (n : Nat) (t : Selector) : Prop :=
  t.counts = .replicate (n + 1) 0

theorem ofVariables_clean {n : Nat} {t : Selector} (h : ofVariables n = .ok t) : t.Clean n := by
  unfold ofVariables at h
  split_ifs at h
  · contradiction
  · obtain ⟨-, -, h⟩ := Checked.bind_eq_ok_iff.1 h
    rw [← Except.ok.inj h]
    rfl

theorem Clean.tallied {n : Nat} {t : Selector} (h : t.Clean n) :
    Tallied n [] { t with touched := #[] } where
  size := by simp [h.symm ▸ Array.size_replicate]
  count v hv := by
    rw [Clean] at h
    simp [h, Nat.lt_succ_iff.2 hv]
  nodup := List.nodup_nil
  mem_iff v := by simp

theorem tallyClause_cons {n : Nat} {vs : List Nat} {t : Selector} (h : Tallied n vs t)
    {l : Literal} (hl : Literal.var l ≤ n) (hlen : vs.length + 1 < size32) (ls : List Literal) :
    ∃ t', tallyClause (l :: ls) t = tallyClause ls t' ∧ Tallied n (vs ++ [Literal.var l]) t' := by
  generalize hv : Literal.var l = v at hl
  have hlt : v < t.counts.size := h.size ▸ Nat.lt_succ_iff.2 hl
  have hcount : vs.count v + 1 < size32 :=
    Nat.lt_of_le_of_lt (Nat.succ_le_succ List.count_le_length) hlen
  have hfetch := fetch_eq_ok_iff.2 (h.count v hl)
  refine ⟨⟨t.counts.set v (vs.count v + 1),
    if vs.count v = 0 then t.touched.push v else t.touched⟩, ?_, by simp [h.size],
    fun w hw => ?_, ?_, fun w => ?_⟩
  · simp [tallyClause, hv, hfetch, increment_of_lt hcount, store_of_lt hlt]
  · have hw' := h.count w hw
    rw [Array.getElem?_set, List.count_append, List.count_singleton]
    by_cases hvw : v = w
    · subst hvw; simp
    · simp [hvw, hw']
  · dsimp only
    split_ifs with h0
    · rw [Array.toList_push, ← List.concat_eq_append, List.nodup_concat]
      exact ⟨fun hm => List.count_eq_zero.1 h0 ((h.mem_iff v).1 (Array.mem_toList_iff.1 hm)),
        h.nodup⟩
    · exact h.nodup
  · dsimp only
    split_ifs with h0
    · rw [Array.mem_push, h.mem_iff, List.mem_append, List.mem_singleton]
    · have hmem : v ∈ vs := List.count_pos_iff.1 (Nat.pos_of_ne_zero h0)
      rw [h.mem_iff, List.mem_append, List.mem_singleton]
      exact ⟨.inl, fun hw => hw.elim id fun he => he ▸ hmem⟩

theorem tallyClause_eq {n : Nat} {vs : List Nat} {t : Selector} (h : Tallied n vs t)
    {ls : List Literal} (hl : ∀ l ∈ ls, Literal.var l ≤ n)
    (hlen : vs.length + ls.length < size32) :
    ∃ t', tallyClause ls t = .ok t' ∧ Tallied n (vs ++ ls.map Literal.var) t' := by
  induction ls generalizing vs t with
  | nil => exact ⟨t, rfl, by simpa using h⟩
  | cons l ls ih =>
    rw [List.length_cons] at hlen
    obtain ⟨t₁, he₁, h₁⟩ := tallyClause_cons h (hl l (by simp)) (by omega) ls
    obtain ⟨t₂, he₂, h₂⟩ := ih h₁ (fun x hx => hl x (by simp [hx])) (by simp; omega)
    exact ⟨t₂, he₁.trans he₂, by simpa using h₂⟩

/-- Counting ends early at a number that no clause has, and at that only. -/
theorem tallyClauses_eq {f : Formula} (hf : f.Valid) {vs : List Nat} {t : Selector}
    (h : Tallied f.numVariables vs t) (ids : List Nat)
    (hlen : vs.length + (f.variablesOf ids).length < size32) :
    ∃ known t' vs', tallyClauses f ids t = .ok (known, t') ∧ Tallied f.numVariables vs' t' ∧
      (known = true ↔ ∀ c ∈ ids, c < f.numClauses) ∧
      (known = true → vs' = vs ++ f.variablesOf ids) ∧ vs' ⊆ vs ++ f.variablesOf ids := by
  induction ids generalizing vs t with
  | nil => exact ⟨true, t, vs, rfl, h, by simp, by simp, by simp⟩
  | cons c ids ih =>
    rw [f.variablesOf_cons] at hlen
    cases hc : f.clauses[c]? with
    | none =>
      refine ⟨false, t, vs, by simp [tallyClauses, hc], h, ?_, by simp, by simp⟩
      simpa [Formula.numClauses] using fun hlt => absurd hlt (by simpa using hc)
    | some d =>
      obtain ⟨hlt, -⟩ := Array.getElem?_eq_some_iff.1 hc
      rw [hc, Option.getD_some, List.length_append, List.length_map] at hlen
      obtain ⟨t₁, he₁, h₁⟩ := tallyClause_eq h
        (fun l hl => ((hf d (Array.mem_of_getElem? hc)).2 l hl).2) (by omega)
      obtain ⟨known, t₂, vs₂, he₂, h₂, hknown, hvs, hsub⟩ := ih h₁ (by simp; omega)
      have happend : vs ++ d.map Literal.var ++ f.variablesOf ids = vs ++ f.variablesOf (c :: ids) := by
        rw [f.variablesOf_cons, hc, Option.getD_some, List.append_assoc]
      rw [happend] at hvs hsub
      refine ⟨known, t₂, vs₂, ?_, h₂, ?_, hvs, hsub⟩
      · simp [tallyClauses, hc, he₁, he₂]
      · simp [hknown, Formula.numClauses, hlt]

/-! ### Clearing -/

theorem clear_eq {vs : List Nat} {counts : Array Nat} (h : ∀ v ∈ vs, v < counts.size) :
    ∃ counts', clear vs counts = .ok counts' ∧ counts'.size = counts.size ∧
      ∀ v : Nat, counts'[v]? = if v ∈ vs then some 0 else counts[v]? := by
  induction vs generalizing counts with
  | nil => exact ⟨counts, rfl, rfl, by simp⟩
  | cons v vs ih =>
    have hv := h v (by simp)
    have hrest : ∀ w ∈ vs, w < (counts.set v 0).size := fun w hw => by
      simpa using h w (by simp [hw])
    obtain ⟨counts', he, hsize, hg⟩ := ih hrest
    refine ⟨counts', ?_, by simpa using hsize, fun w => ?_⟩
    · rw [clear, store_of_lt hv, Checked.ok_bind, he]
    · rw [hg, Array.getElem?_set]
      by_cases hvw : v = w
      · subst hvw; simp
      · simp [hvw, Ne.symm hvw]

theorem Tallied.reset_eq {n : Nat} {vs : List Nat} {t : Selector} (h : Tallied n vs t)
    (hvs : ∀ v ∈ vs, v ≤ n) : t.reset = .ok ⟨.replicate (n + 1) 0, t.touched⟩ := by
  have hlt : ∀ v ∈ t.touched.toList, v < t.counts.size := fun v hv => by
    rw [Array.mem_toList_iff, h.mem_iff] at hv
    rw [h.size]
    exact Nat.lt_succ_of_le (hvs v hv)
  obtain ⟨counts, he, hsize, hg⟩ := clear_eq hlt
  have hz : counts = .replicate (n + 1) 0 := by
    refine Array.ext (by simp [hsize, h.size]) fun v hv _ => ?_
    have hle : v ≤ n := by
      have := h.size
      omega
    have hgv := hg v
    rw [Array.getElem?_eq_getElem hv, h.count v hle] at hgv
    rw [Array.getElem_replicate]
    split_ifs at hgv with hm
    · exact Option.some.inj hgv
    · rw [Array.mem_toList_iff, h.mem_iff, ← List.count_eq_zero] at hm
      exact (Option.some.inj hgv).trans hm
  rw [reset, he, Checked.ok_bind, hz]
  rfl

end Selector

end SatWalk
