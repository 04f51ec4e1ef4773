import SatWalk.Proofs.Tracker.Faithful

/-! Histories of a tracker. Flips and replacements of all values come in any order and number,
and a faithful tracker is told of each. It never faults and ends up at the final
assignment; counting then agrees with the formula entry by entry. -/

namespace SatWalk.Tracker

/-- A change of an assignment. -/
inductive Update
  | flip (var : Nat)
  | replace (values : Array Bool)
  deriving DecidableEq, Repr

namespace Update

/-- The update is one for that many variables. -/
def Fits (n : Nat) : Update → Prop
  | .flip v => 0 < v ∧ v ≤ n
  | .replace values => values.size = n

/-- Changes the assignment and tells the tracker. -/
def apply {ω : Type} (t : Tracker ω) (f : Formula) :
    Update → Assignment × ω → Checked (Assignment × ω)
  | .flip v, (a, k) => do
    let a ← a.flip v
    return (a, ← t.recordFlip f a v k)
  | .replace values, (_, k) => do
    return (⟨values⟩, ← t.rebuild f ⟨values⟩ k)

/-- Applies updates in order. -/
def applyAll {ω : Type} (t : Tracker ω) (f : Formula) :
    List Update → Assignment × ω → Checked (Assignment × ω)
  | [], s => .ok s
  | u :: us, s => do applyAll t f us (← u.apply t f s)

end Update

section Faithful

variable {ω : Type} {t : Tracker ω} {f : Formula} {width : Nat} {Tracks : Assignment → ω → Prop}
  {a : Assignment} {k : ω}

theorem Faithful.apply_eq (ht : t.Faithful f width Tracks) (ha : a.values.size = f.numVariables)
    (hk : Tracks a k) {u : Update} (hu : u.Fits f.numVariables) :
    ∃ a' k', u.apply t f (a, k) = .ok (a', k') ∧ a'.values.size = f.numVariables ∧
      Tracks a' k' := by
  cases u with
  | flip v =>
    obtain ⟨hv, hs⟩ := hu
    obtain ⟨k', he, hk'⟩ := ht.recordFlip_eq hk ha hv hs
    refine ⟨a.flipped v, k', ?_, by simp [ha], hk'⟩
    rw [Update.apply, Assignment.flip_eq hv (ha ▸ hs), Checked.ok_bind, he, Checked.ok_bind]
    rfl
  | replace values =>
    obtain ⟨k', he, hk'⟩ := ht.rebuild_eq hk (b := ⟨values⟩) hu
    refine ⟨⟨values⟩, k', ?_, hu, hk'⟩
    rw [Update.apply, he, Checked.ok_bind]
    rfl

theorem Faithful.applyAll_eq (ht : t.Faithful f width Tracks)
    (ha : a.values.size = f.numVariables) (hk : Tracks a k) {us : List Update}
    (hus : ∀ u ∈ us, u.Fits f.numVariables) :
    ∃ a' k', Update.applyAll t f us (a, k) = .ok (a', k') ∧ a'.values.size = f.numVariables ∧
      Tracks a' k' := by
  induction us generalizing a k with
  | nil => exact ⟨a, k, rfl, ha, hk⟩
  | cons u us ih =>
    obtain ⟨a₁, k₁, he₁, ha₁, hk₁⟩ := ht.apply_eq ha hk (hus u (by simp))
    obtain ⟨a₂, k₂, he₂, ha₂, hk₂⟩ := ih ha₁ hk₁ fun x hx => hus x (by simp [hx])
    refine ⟨a₂, k₂, ?_, ha₂, hk₂⟩
    rw [Update.applyAll, he₁, Checked.ok_bind, he₂]

end Faithful

/-! ### Counting -/

/-- The entries of the counts are what the formula and the assignment say they are. -/
structure Counts.Exact (f : Formula) (a : Assignment) (k : Counts) : Prop where
  numTrue : k.numTrue = f.clauses.map a.trueCount
  nodup : k.unsatisfied.toList.Nodup
  listed : ∀ c : Nat, c ∈ k.unsatisfied ↔
    ∃ d, f.clauses[c]? = some d ∧ a.satisfiesClause d = .ok false
  size_position : k.position.size = f.numClauses
  position : ∀ c < f.numClauses, k.position[c]? = some (k.unsatisfied.toList.idxOf? c)

theorem Counts.Tracks.exact {f : Formula} {a : Assignment} {k : Counts} (hf : f.Valid)
    (ha : a.values.size = f.numVariables) (h : Tracks f a k) : k.Exact f a where
  numTrue := h.numTrue
  nodup := h.consistent.indexed.nodup
  listed c := by
    rw [h.mem_iff, Formula.mem_unsatisfiedBy]
    refine exists_congr fun d => and_congr_right fun hd => ?_
    rw [Assignment.satisfiesClause_eq (hf.declared ha (Array.mem_of_getElem? hd))]
    simp
  size_position := by simp [h.consistent.size, h.numTrue, Formula.numClauses]
  position c hc := by
    have hsize : c < k.position.size := by
      simpa [h.consistent.size, h.numTrue, Formula.numClauses] using hc
    cases hi : k.unsatisfied.toList.idxOf? c with
    | some i =>
      obtain ⟨hlt, hc', -⟩ := List.idxOf?_eq_some_iff.1 hi
      rw [h.consistent.indexed, ← hc']
      simp
    | none =>
      rw [Array.getElem?_eq_getElem hsize]
      cases hp : k.position[c] with
      | none => rfl
      | some i =>
        have hu := (h.consistent.indexed c i).1 (by rw [Array.getElem?_eq_getElem hsize, hp])
        have hmem := Array.mem_toList_iff.2 (Array.mem_of_getElem? hu)
        exact absurd hmem (List.idxOf?_eq_none_iff.1 hi)

/-- Through every history the counts stay exact and keep the occurrences they were built with,
and counting anew gives what building gives. -/
theorem incremental_exact {f : Formula} {a : Assignment} (hf : f.validate = .ok ())
    (hlen : f.numLiterals < size32) (ha : a.values.size = f.numVariables) :
    memoryLimit < f.numVariables * 24 ∧ incremental.build f a = .error .capacityExceeded ∨
      ∃ k₀, incremental.build f a = .ok k₀ ∧
        ∀ us : List Update, (∀ u ∈ us, u.Fits f.numVariables) →
          ∃ a' k', Update.applyAll incremental f us (a, k₀) = .ok (a', k') ∧
            k'.Exact f a' ∧ k'.positive = k₀.positive ∧ k'.negative = k₀.negative ∧
            a'.satisfies f = .ok (incremental.isSatisfied k') ∧
            ∀ b : Assignment, b.values.size = f.numVariables →
              incremental.rebuild f b k' = incremental.build f b := by
  rw [Formula.validate_eq_ok_iff] at hf
  have hshort : ∀ c ∈ f.clauses, c.length < size32 := fun c hc =>
    Nat.lt_of_le_of_lt (Formula.length_le_numLiterals hc) hlen
  have ht := incremental_faithful hf hshort
  by_cases hm : f.numVariables * 24 ≤ memoryLimit
  · obtain ⟨k₀, he, h₀⟩ := ht.build_eq ha hm
    refine .inr ⟨k₀, he, fun us hus => ?_⟩
    obtain ⟨a', k', he', ha', h⟩ := ht.applyAll_eq ha h₀ hus
    obtain ⟨hp, hn⟩ : k'.positive = k₀.positive ∧ k'.negative = k₀.negative := by
      simpa using h.occurrences.symm.trans h₀.occurrences
    refine ⟨a', k', he', h.exact hf ha', hp, hn, ?_, fun b hb => ?_⟩
    · rw [Assignment.satisfies_eq hf ha', ht.isSatisfied_eq h]
    · exact h.rebuild_eq_build hf hshort hm hb
  · rw [Nat.not_le] at hm
    exact .inl ⟨hm, ht.build_full a hm⟩

/-- A clause with a repeated literal and one with both signs of a variable, flipped and replaced. -/
theorem incremental_exact_repeated :
    ∃ k₀, incremental.build ⟨2, #[[1, 1, -2], [2, -2, -1]]⟩ ⟨#[true, false]⟩ = .ok k₀ ∧
      ∃ a' k', Update.applyAll incremental ⟨2, #[[1, 1, -2], [2, -2, -1]]⟩
        [.flip 1, .flip 2, .replace #[false, true], .flip 2] (⟨#[true, false]⟩, k₀) =
          .ok (a', k') ∧ k'.Exact ⟨2, #[[1, 1, -2], [2, -2, -1]]⟩ a' := by
  rcases incremental_exact (f := ⟨2, #[[1, 1, -2], [2, -2, -1]]⟩) (a := ⟨#[true, false]⟩) rfl
    (by decide) rfl with ⟨hm, -⟩ | ⟨k₀, he, h⟩
  · exact absurd hm (by decide)
  · obtain ⟨a', k', he', hk, -⟩ :=
      h [.flip 1, .flip 2, .replace #[false, true], .flip 2] (by simp [Update.Fits])
    exact ⟨k₀, he, a', k', he', hk⟩

end SatWalk.Tracker
