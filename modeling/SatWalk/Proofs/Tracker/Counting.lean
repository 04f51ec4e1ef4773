import SatWalk.Proofs.Formula.Truth
import SatWalk.Proofs.Tracker.Listing

/-! Counting tells the truth. The state that counting builds has the number of true literals of
each clause, lists exactly the unsatisfied clauses and keeps their positions; flips and
replacements of all values keep it so, in any order and number. Building anew therefore
never differs from going on. -/

namespace SatWalk.Tracker.Counts

/-! ### Occurrences -/

/-- How often the list of a variable names a clause. -/
def entries (lists : Array (Array Nat)) (slot clause : Nat) : Nat :=
  (lists.getD slot #[]).toList.count clause

theorem entries_push {lists : Array (Array Nat)} {slot : Nat} (h : slot < lists.size)
    (clause s c : Nat) : entries (lists.modify slot (·.push clause)) s c =
      entries lists s c + if s = slot ∧ c = clause then 1 else 0 := by
  simp only [entries, Array.getD_eq_getD_getElem?, Array.getElem?_modify]
  by_cases hs : slot = s
  · subst hs
    by_cases hc : clause = c <;> simp [h, List.count_append, hc, Ne.symm]
  · simp [hs, Ne.symm hs]

/-- The literals with a given sign are entered in the lists of their variables, those of each
clause under its number. -/
structure Entered (sign : Int) (literals : Nat → List Literal)
    (lists lists' : Array (Array Nat)) : Prop where
  size : lists'.size = lists.size
  entries_eq : ∀ s c, entries lists' s c =
    entries lists s c + (literals c).count (sign * (s + 1))

theorem Entered.trans {sign : Int} {g h k : Nat → List Literal} {a b c : Array (Array Nat)}
    (h₁ : Entered sign g a b) (h₂ : Entered sign h b c) (hk : ∀ i, k i = g i ++ h i) :
    Entered sign k a c where
  size := h₂.size.trans h₁.size
  entries_eq s i := by
    rw [h₂.entries_eq, h₁.entries_eq, hk, List.count_append]
    omega

/-- The literals of one clause. -/
def alone (clause : Nat) (ls : List Literal) (c : Nat) : List Literal :=
  if c = clause then ls else []

/-- The literals of the clauses from a number on. -/
def after (clause : Nat) (cs : List Clause) (c : Nat) : List Literal :=
  if clause ≤ c then cs[c - clause]?.getD [] else []

theorem alone_cons (clause : Nat) (l : Literal) (ls : List Literal) (c : Nat) :
    alone clause (l :: ls) c = alone clause [l] c ++ alone clause ls c := by
  unfold alone
  split_ifs <;> rfl

theorem after_cons (clause : Nat) (d : Clause) (cs : List Clause) (c : Nat) :
    after clause (d :: cs) c = alone clause d c ++ after (clause + 1) cs c := by
  unfold after alone
  rcases Nat.lt_trichotomy c clause with h | rfl | h
  · rw [if_neg (by omega), if_neg (by omega), if_neg (by omega)]
    rfl
  · rw [if_pos (Nat.le_refl c), if_pos rfl, if_neg (by omega)]
    simp
  · rw [if_pos (by omega), if_neg (by omega), if_pos (by omega),
      show c - clause = c - (clause + 1) + 1 by omega]
    rfl

theorem entered_push {sign : Int} (h0 : sign ≠ 0) {lists : Array (Array Nat)} {slot : Nat}
    (h : slot < lists.size) {l : Int} (hl : l = sign * (slot + 1)) (clause : Nat) :
    Entered sign (alone clause [l]) lists (lists.modify slot (·.push clause)) := by
  refine ⟨by simp, fun s c => ?_⟩
  have hiff : (l == sign * (s + 1)) = decide (s = slot) := by
    rw [Bool.eq_iff_iff, beq_iff_eq, hl, Int.mul_eq_mul_left_iff h0, decide_eq_true_iff]
    omega
  rw [entries_push h, alone]
  by_cases hc : c = clause <;> simp [hc, List.count_singleton, hiff]

theorem entered_skip {sign : Int} (h0 : sign ≠ 0) (lists : Array (Array Nat)) (slot : Nat)
    {l : Int} (hl : l = sign * -(slot + 1)) (clause : Nat) :
    Entered sign (alone clause [l]) lists lists := by
  refine ⟨rfl, fun s c => ?_⟩
  have hne : l ≠ sign * (s + 1) := by
    rw [hl, Ne, Int.mul_eq_mul_left_iff h0]
    omega
  rw [alone]
  split_ifs
  · rw [List.count_singleton, beq_false_of_ne hne]
    simp
  · rfl

theorem enterClause_eq (clause : Nat) {ls : List Literal} {positive negative : Array (Array Nat)}
    (hsize : negative.size = positive.size)
    (hl : ∀ l ∈ ls, Literal.Declared positive.size l) :
    ∃ positive' negative',
      enterClause clause ls (positive, negative) = .ok (positive', negative') ∧
      Entered 1 (alone clause ls) positive positive' ∧
      Entered (-1) (alone clause ls) negative negative' := by
  induction ls generalizing positive negative with
  | nil => exact ⟨positive, negative, rfl, ⟨rfl, by simp [alone]⟩, ⟨rfl, by simp [alone]⟩⟩
  | cons l ls ih =>
    obtain ⟨slot, hslot⟩ : ∃ slot, Literal.var l = slot + 1 :=
      Nat.exists_eq_add_of_lt (hl l (by simp)).var_pos |>.imp fun _ h => by omega
    have hlt : slot < positive.size := by
      have := (hl l (by simp)).2
      omega
    obtain ⟨p, n, he, hp, hn⟩ : ∃ p n,
        enterClause clause (l :: ls) (positive, negative) = enterClause clause ls (p, n) ∧
        Entered 1 (alone clause [l]) positive p ∧ Entered (-1) (alone clause [l]) negative n := by
      have hvar : Int.natAbs l = slot + 1 := hslot
      by_cases hpos : (0 : Int) < l
      · refine ⟨_, _, ?_, entered_push (by decide) hlt (by omega) clause,
          entered_skip (by decide) negative slot (by omega) clause⟩
        simp [enterClause, hslot, slotOf, hpos, adjust_of_lt hlt]
      · refine ⟨_, _, ?_, entered_skip (by decide) positive slot (by omega) clause,
          entered_push (by decide) (hsize ▸ hlt) (by omega) clause⟩
        simp [enterClause, hslot, slotOf, hpos, adjust_of_lt (hsize ▸ hlt)]
    obtain ⟨p', n', he', hp', hn'⟩ := ih (by rw [hn.size, hp.size, hsize])
      (fun x hx => hp.size ▸ hl x (by simp [hx]))
    exact ⟨p', n', he.trans he', hp.trans hp' (alone_cons clause l ls),
      hn.trans hn' (alone_cons clause l ls)⟩

theorem enterClauses_eq (clause : Nat) {cs : List Clause} {positive negative : Array (Array Nat)}
    (hsize : negative.size = positive.size)
    (hl : ∀ c ∈ cs, ∀ l ∈ c, Literal.Declared positive.size l) :
    ∃ positive' negative',
      enterClauses clause cs (positive, negative) = .ok (positive', negative') ∧
      Entered 1 (after clause cs) positive positive' ∧
      Entered (-1) (after clause cs) negative negative' := by
  induction cs generalizing clause positive negative with
  | nil => exact ⟨positive, negative, rfl, ⟨rfl, by simp [after]⟩, ⟨rfl, by simp [after]⟩⟩
  | cons c cs ih =>
    obtain ⟨p, n, he, hp, hn⟩ := enterClause_eq clause hsize (hl c (by simp))
    obtain ⟨p', n', he', hp', hn'⟩ := ih (clause + 1) (by rw [hn.size, hp.size, hsize])
      (fun x hx => hp.size ▸ hl x (by simp [hx]))
    refine ⟨p', n', ?_, hp.trans hp' (after_cons clause c cs),
      hn.trans hn' (after_cons clause c cs)⟩
    rw [enterClauses, he, Checked.ok_bind, he']

/-! ### Counting from scratch -/

theorem countTrue_eq {a : Assignment} {ls : List Literal} (done : Nat)
    (hl : ∀ l ∈ ls, Literal.Declared a.values.size l) :
    countTrue a done ls = .ok (done + a.trueCount ls) := by
  induction ls generalizing done with
  | nil => rfl
  | cons l ls ih =>
    rw [countTrue, Assignment.makesTrue_eq (hl l (by simp)), Checked.ok_bind,
      ih _ fun x hx => hl x (by simp [hx])]
    cases h : a.holds l
    · simp [Assignment.trueCount, h]
    · simp [Assignment.trueCount, h]
      omega

/-- The clauses below a number are counted, and those of them that are unsatisfied are listed. -/
structure CountedBelow (f : Formula) (a : Assignment) (m : Nat) (k : Counts) : Prop where
  size_numTrue : k.numTrue.size = f.numClauses
  size_position : k.position.size = f.numClauses
  unsatisfied : k.unsatisfied.toList =
    (f.clauses.toList.take m).findIdxs (fun c => !a.holdsClause c)
  numTrue : ∀ c : Nat, c < m → k.numTrue[c]? = f.clauses[c]?.map a.trueCount
  position : ∀ c i : Nat, c < m → (k.position[c]? = some (some i) ↔ k.unsatisfied[i]? = some c)

section Recount

variable {f : Formula} {a : Assignment}

theorem CountedBelow.lt {m : Nat} {k : Counts} (h : CountedBelow f a m k) {c : Nat}
    (hc : c ∈ k.unsatisfied) : c < m := by
  rw [← Array.mem_toList_iff, h.unsatisfied] at hc
  have := List.lt_add_of_mem_findIdxs c hc
  rw [List.length_take] at this
  omega

/-- The next clause is counted, and it is listed if it is unsatisfied. -/
theorem CountedBelow.succ {m : Nat} {k : Counts} (hk : CountedBelow f a m k) {c : Clause}
    (hc : f.clauses[m]? = some c) (hm : m < k.numTrue.size) (listed : Array Nat)
    (position : Array (Option Nat)) (hsize : position.size = k.position.size)
    (hlisted : listed.toList = k.unsatisfied.toList ++ if a.holdsClause c then [] else [m])
    (hposition : ∀ d i : Nat, d < m + 1 → (position[d]? = some (some i) ↔ listed[i]? = some d)) :
    CountedBelow f a (m + 1)
      { k with numTrue := k.numTrue.set m (a.trueCount c), unsatisfied := listed, position } where
  size_numTrue := by simp [hk.size_numTrue]
  size_position := hsize.trans hk.size_position
  unsatisfied := by
    have hlen : (f.clauses.toList.take m).length = m := by
      have := hk.size_numTrue
      simp [Formula.numClauses] at this ⊢
      omega
    have htake : f.clauses.toList.take (m + 1) = f.clauses.toList.take m ++ [c] := by
      rw [List.take_add_one]
      simp [hc]
    rw [hlisted, htake, hk.unsatisfied, List.findIdxs_append, hlen]
    cases h : a.holdsClause c <;> simp [h]
  numTrue d hd := by
    rw [Array.getElem?_set]
    split_ifs with hdm
    · rw [← hdm, hc]; rfl
    · exact hk.numTrue d (by omega)
  position := hposition

theorem recount_cons (hf : f.Valid) (ha : a.values.size = f.numVariables)
    (hlen : ∀ c ∈ f.clauses, c.length < size32) {m : Nat} {k : Counts} (hk : CountedBelow f a m k)
    {c : Clause} (hc : f.clauses[m]? = some c) (cs : List Clause) :
    ∃ k', recount a m (c :: cs) k = recount a (m + 1) cs k' ∧ CountedBelow f a (m + 1) k' ∧
      k'.positive = k.positive ∧ k'.negative = k.negative := by
  have hmem : c ∈ f.clauses := Array.mem_of_getElem? hc
  obtain ⟨hm, -⟩ := Array.getElem?_eq_some_iff.1 hc
  have hmn : m < k.numTrue.size := hk.size_numTrue ▸ hm
  have hmp : m < k.position.size := hk.size_position ▸ hm
  have hcount := countTrue_eq 0 (hf.declared ha hmem)
  have hsmall : a.trueCount c % size32 = a.trueCount c :=
    Nat.mod_eq_of_lt (Nat.lt_of_le_of_lt List.countP_le_length (hlen c hmem))
  have hnot : ∀ i : Nat, k.unsatisfied[i]? ≠ some m := fun i hi =>
    Nat.lt_irrefl m (hk.lt (Array.mem_of_getElem? hi))
  by_cases h0 : a.trueCount c = 0
  · have hun : a.holdsClause c = false := Assignment.trueCount_eq_zero_iff.1 h0
    have hmp' : m < (k.position.set m none).size := by simpa using hmp
    refine ⟨_, ?_, hk.succ hc hmn (k.unsatisfied.push m)
      ((k.position.set m none).set m (some k.unsatisfied.size)) (by simp) (by simp [hun])
      fun d i hd => ?_, rfl, rfl⟩
    · simp [recount, hcount, h0, store_of_lt hmn, store_of_lt hmp, insert, store_of_lt hmp']
    · have hd' := hk.position d i
      have hni := hnot i
      rw [Array.getElem?_set, Array.getElem?_set, Array.getElem?_push]
      by_cases hdm : d = m <;> by_cases hi : i = k.unsatisfied.size <;> grind
  · have hun : a.holdsClause c = true := by
      rwa [Assignment.trueCount_eq_zero_iff, Bool.not_eq_false] at h0
    refine ⟨_, ?_, hk.succ hc hmn k.unsatisfied (k.position.set m none) (by simp) (by simp [hun])
      fun d i hd => ?_, rfl, rfl⟩
    · simp [recount, hcount, hsmall, store_of_lt hmn, store_of_lt hmp, h0]
    · have hd' := hk.position d i
      have hni := hnot i
      rw [Array.getElem?_set]
      by_cases hdm : d = m <;> grind

theorem recount_eq (hf : f.Valid) (ha : a.values.size = f.numVariables)
    (hlen : ∀ c ∈ f.clauses, c.length < size32) {cs : List Clause} {m : Nat} {k : Counts}
    (hk : CountedBelow f a m k) (hcs : f.clauses.toList.drop m = cs) :
    ∃ k', recount a m cs k = .ok k' ∧ CountedBelow f a (m + cs.length) k' ∧
      k'.positive = k.positive ∧ k'.negative = k.negative := by
  induction cs generalizing m k with
  | nil => exact ⟨k, rfl, hk, rfl, rfl⟩
  | cons c cs ih =>
    have hc : f.clauses[m]? = some c := by
      have h := congrArg List.head? hcs
      simpa [List.head?_drop] using h
    have hrest : f.clauses.toList.drop (m + 1) = cs := by
      rw [← List.drop_drop, hcs]
      rfl
    obtain ⟨k₁, he, h₁, hp, hn⟩ := recount_cons hf ha hlen hk hc cs
    obtain ⟨k₂, he', h₂, hp', hn'⟩ := ih h₁ hrest
    rw [Nat.add_right_comm] at h₂
    exact ⟨k₂, he.trans he', h₂, hp'.trans hp, hn'.trans hn⟩

/-- Complete counts are determined by the occurrences. -/
theorem CountedBelow.ext {k₁ k₂ : Counts} (h₁ : CountedBelow f a f.numClauses k₁)
    (h₂ : CountedBelow f a f.numClauses k₂) (hp : k₁.positive = k₂.positive)
    (hn : k₁.negative = k₂.negative) : k₁ = k₂ := by
  have hu : k₁.unsatisfied = k₂.unsatisfied :=
    Array.toList_inj.1 (h₁.unsatisfied.trans h₂.unsatisfied.symm)
  have ht : k₁.numTrue = k₂.numTrue := by
    refine Array.ext (h₁.size_numTrue.trans h₂.size_numTrue.symm) fun c hc hc' => ?_
    have h := h₁.numTrue c (h₁.size_numTrue ▸ hc)
    rw [← h₂.numTrue c (h₁.size_numTrue ▸ hc)] at h
    simpa [hc, hc'] using h
  have hpos : k₁.position = k₂.position := by
    refine Array.ext (h₁.size_position.trans h₂.size_position.symm) fun c hc hc' => ?_
    refine Option.ext fun i => ?_
    have h := h₁.position c i (h₁.size_position ▸ hc)
    rw [hu, ← h₂.position c i (h₁.size_position ▸ hc)] at h
    simpa [hc, hc'] using h
  cases k₁; cases k₂
  simp_all

theorem CountedBelow.numTrue_eq {k : Counts} (h : CountedBelow f a f.numClauses k) :
    k.numTrue = f.clauses.map a.trueCount := by
  refine Array.ext (by simp [h.size_numTrue, Formula.numClauses]) fun c hc hc' => ?_
  have hlt : c < f.clauses.size := by simpa using hc'
  have hn := h.numTrue c hlt
  simpa [hc, hlt] using hn

theorem trueCount_eq_zero_iff_mem {c : Nat} :
    (f.clauses.map a.trueCount)[c]? = some 0 ↔ c ∈ f.unsatisfiedBy a := by
  rw [Formula.mem_unsatisfiedBy, Array.getElem?_map, Option.map_eq_some_iff]
  simp only [Assignment.trueCount_eq_zero_iff]

theorem take_numClauses : f.clauses.toList.take f.numClauses = f.clauses.toList := by
  rw [List.take_of_length_le]
  simp [Formula.numClauses]

theorem CountedBelow.consistent {k : Counts} (h : CountedBelow f a f.numClauses k) :
    k.Consistent where
  size := h.size_position.trans h.size_numTrue.symm
  indexed c i := by
    by_cases hc : c < f.numClauses
    · exact h.position c i hc
    · refine iff_of_false (fun hp => hc ?_) fun hu => hc (h.lt (Array.mem_of_getElem? hu))
      exact h.size_position ▸ (Array.getElem?_eq_some_iff.1 hp).1
  listed c := by
    rw [h.numTrue_eq, trueCount_eq_zero_iff_mem, ← Array.mem_toList_iff, h.unsatisfied,
      take_numClauses, Formula.unsatisfiedBy]

end Recount

/-! ### Tracking -/

/-- No clause is listed under any variable. -/
def noEntries (f : Formula) : Array (Array Nat) × Array (Array Nat) :=
  (.replicate f.numVariables #[], .replicate f.numVariables #[])

theorem enterClauses_noEntries {f : Formula} (hf : f.Valid) :
    ∃ positive negative, enterClauses 0 f.clauses.toList (noEntries f) = .ok (positive, negative) ∧
      Entered 1 (after 0 f.clauses.toList) (noEntries f).1 positive ∧
      Entered (-1) (after 0 f.clauses.toList) (noEntries f).2 negative := by
  refine enterClauses_eq 0 (by simp) fun c hc => ?_
  simpa [noEntries] using (hf c (Array.mem_toList_iff.1 hc)).2

/-- The counts are those of an assignment, with the occurrences that building finds. -/
structure Tracks (f : Formula) (a : Assignment) (k : Counts) : Prop where
  occurrences : enterClauses 0 f.clauses.toList (noEntries f) = .ok (k.positive, k.negative)
  numTrue : k.numTrue = f.clauses.map a.trueCount
  consistent : k.Consistent

section Tracks

variable {f : Formula} {a : Assignment} {k : Counts}

theorem Tracks.mem_iff (h : Tracks f a k) {c : Nat} :
    c ∈ k.unsatisfied ↔ c ∈ f.unsatisfiedBy a := by
  rw [h.consistent.listed, h.numTrue, trueCount_eq_zero_iff_mem]

theorem Tracks.perm (h : Tracks f a k) : k.unsatisfied.toList.Perm (f.unsatisfiedBy a) :=
  (List.perm_ext_iff_of_nodup h.consistent.indexed.nodup Formula.nodup_unsatisfiedBy).2
    fun c => by rw [Array.mem_toList_iff, h.mem_iff]

/-- The lists of a variable hold each clause as often as the variable occurs in it. -/
theorem Tracks.entered (hf : f.Valid) (h : Tracks f a k) :
    Entered 1 (after 0 f.clauses.toList) (noEntries f).1 k.positive ∧
      Entered (-1) (after 0 f.clauses.toList) (noEntries f).2 k.negative := by
  obtain ⟨p, n, he, hp, hn⟩ := enterClauses_noEntries hf
  obtain ⟨rfl, rfl⟩ : p = k.positive ∧ n = k.negative := by
    have := he.symm.trans h.occurrences
    simpa using this
  exact ⟨hp, hn⟩

theorem count_entries {sign : Int} {lists : Array (Array Nat)} {v : Nat} (hv : 0 < v)
    (hs : v ≤ f.numVariables)
    (h : Entered sign (after 0 f.clauses.toList) (.replicate f.numVariables #[]) lists) :
    ∃ cs, lists[v - 1]? = some cs ∧
      ∀ c, cs.toList.count c = (f.clauses[c]?.getD []).count (sign * v) := by
  have hlt : v - 1 < lists.size := by
    have := h.size
    simp at this
    omega
  refine ⟨_, Array.getElem?_eq_getElem hlt, fun c => ?_⟩
  have he := h.entries_eq (v - 1) c
  have hcast : ((v - 1 : Nat) : Int) + 1 = v := by omega
  rw [hcast] at he
  simpa [entries, after, hlt, Array.getD_eq_getD_getElem?, show v - 1 < f.numVariables by omega]
    using he

/-- A flip is told in two lists: each clause stands in the first as often as the variable's
new literal occurs in it, and in the second as often as the old one does. -/
theorem recordFlip_eq_bind (hf : f.Valid) (ha : a.values.size = f.numVariables) (h : Tracks f a k)
    {v : Nat} (hv : 0 < v) (hs : v ≤ f.numVariables) :
    ∃ gained lost : List Nat,
      recordFlip (a.flipped v) v k = (do lose lost (← gain gained k)) ∧
      (∀ c, gained.count c = (f.clauses[c]?.getD []).count (-a.trueLiteral v)) ∧
      ∀ c, lost.count c = (f.clauses[c]?.getD []).count (a.trueLiteral v) := by
  obtain ⟨hpos, hneg⟩ := h.entered hf
  obtain ⟨p, hp, hpc⟩ := count_entries hv hs hpos
  obtain ⟨n, hn, hnc⟩ := count_entries hv hs hneg
  have hvalue := Assignment.value_eq (a := a.flipped v) hv (by simp [ha, hs])
  rw [Assignment.valueD_flipped hv (ha ▸ hs) hv, if_pos rfl] at hvalue
  have hfp := fetch_eq_ok_iff.2 hp
  have hfn := fetch_eq_ok_iff.2 hn
  simp only [Int.one_mul, Int.neg_mul] at hpc hnc
  cases hb : a.valueD v
  · refine ⟨p.toList, n.toList, ?_, fun c => ?_, fun c => ?_⟩
    · simp [recordFlip, slotOf_of_pos hv, hvalue, hfp, hfn, hb]
    · simp [hpc, Assignment.trueLiteral, hb]
    · simp [hnc, Assignment.trueLiteral, hb]
  · refine ⟨n.toList, p.toList, ?_, fun c => ?_, fun c => ?_⟩
    · simp [recordFlip, slotOf_of_pos hv, hvalue, hfp, hfn, hb]
    · simp [hnc, Assignment.trueLiteral, hb]
    · simp [hpc, Assignment.trueLiteral, hb]

theorem Tracks.getElem?_eq_some_iff (h : Tracks f a k) {c n : Nat} :
    k.numTrue[c]? = some n ↔ ∃ d, f.clauses[c]? = some d ∧ a.trueCount d = n := by
  rw [h.numTrue, Array.getElem?_map, Option.map_eq_some_iff]

/-- Recording a flip goes over to the counts of the new assignment. -/
theorem recordFlip_eq (hf : f.Valid) (ha : a.values.size = f.numVariables)
    (hlen : ∀ c ∈ f.clauses, c.length < size32) (h : Tracks f a k) {v : Nat} (hv : 0 < v)
    (hs : v ≤ f.numVariables) :
    ∃ k', recordFlip (a.flipped v) v k = .ok k' ∧ Tracks f (a.flipped v) k' := by
  obtain ⟨gained, lost, he, hg, hl⟩ := recordFlip_eq_bind hf ha h hv hs
  have hsize : k.numTrue.size = f.clauses.size := by simp [h.numTrue]
  have hlt {l : Int} {cs : List Nat}
      (hcs : ∀ c, cs.count c = (f.clauses[c]?.getD []).count l) : ∀ c ∈ cs, c < k.numTrue.size := by
    intro c hc
    by_contra hge
    have hpos : 0 < cs.count c := List.count_pos_iff.2 hc
    rw [hcs, Array.getElem?_eq_none (by omega)] at hpos
    exact Nat.lt_irrefl 0 hpos
  obtain ⟨k₁, hk₁, h₁⟩ := gain_eq h.consistent (hlt hg) fun c n hc => by
    obtain ⟨d, hd, rfl⟩ := h.getElem?_eq_some_iff.1 hc
    have hle := Assignment.trueCount_add_count_le (a := a) hv d
    rw [hg, hd]
    exact Nat.lt_of_le_of_lt hle (hlen d (Array.mem_of_getElem? hd))
  obtain ⟨k₂, hk₂, h₂⟩ := lose_eq h₁.consistent (fun c hc => h₁.lt_size_iff.2 (hlt hl c hc))
    fun c n hc => by
      rw [h₁.numTrue, Option.map_eq_some_iff] at hc
      obtain ⟨m, hm, rfl⟩ := hc
      obtain ⟨d, hd, rfl⟩ := h.getElem?_eq_some_iff.1 hm
      rw [hl, hd]
      exact Nat.le_add_right_of_le (Assignment.count_trueLiteral_le hv d)
  refine ⟨k₂, by rw [he, hk₁, Checked.ok_bind, hk₂], ?_, ?_, h₂.consistent⟩
  · rw [h₂.positive, h₂.negative, h₁.positive, h₁.negative, h.occurrences]
  · refine Array.ext_getElem? fun c => ?_
    rw [(h₁.trans h₂).numTrue, h.numTrue, Array.getElem?_map, Array.getElem?_map, Option.map_map]
    refine Option.map_congr fun d hd => ?_
    have hmem : d ∈ f.clauses := Array.mem_of_getElem? hd
    have ht := Assignment.trueCount_flipped (a := a) hv (ha ▸ hs) fun l hl =>
      ((hf d hmem).2 l hl).1
    simp only [Function.comp_apply, hg, hl, hd, Option.getD_some]
    omega

/-- Counting anew keeps the occurrences, and the rest of the state does not matter. -/
theorem rebuild_eq (hf : f.Valid) (ha : a.values.size = f.numVariables)
    (hlen : ∀ c ∈ f.clauses, c.length < size32) (hn : k.numTrue.size = f.numClauses)
    (hp : k.position.size = f.numClauses) :
    ∃ k', rebuild f a k = .ok k' ∧ CountedBelow f a f.numClauses k' ∧
      k'.positive = k.positive ∧ k'.negative = k.negative := by
  have h₀ : CountedBelow f a 0 { k with unsatisfied := #[] } :=
    ⟨hn, hp, rfl, fun _ hc => absurd hc (Nat.not_lt_zero _),
      fun _ _ hc => absurd hc (Nat.not_lt_zero _)⟩
  obtain ⟨k', he, h, hpos, hneg⟩ := recount_eq hf ha hlen h₀ rfl
  have hm : 0 + (f.clauses.toList.drop 0).length = f.numClauses := by simp [Formula.numClauses]
  exact ⟨k', he, hm ▸ h, hpos, hneg⟩

theorem CountedBelow.tracks (h : CountedBelow f a f.numClauses k)
    (ho : enterClauses 0 f.clauses.toList (noEntries f) = .ok (k.positive, k.negative)) :
    Tracks f a k :=
  ⟨ho, h.numTrue_eq, h.consistent⟩

/-- Building finds the occurrences and counts. -/
theorem build_eq (hf : f.Valid) (ha : a.values.size = f.numVariables)
    (hlen : ∀ c ∈ f.clauses, c.length < size32) (hm : f.numVariables * 24 ≤ memoryLimit) :
    ∃ k, build f a = .ok k ∧ CountedBelow f a f.numClauses k ∧
      enterClauses 0 f.clauses.toList (noEntries f) = .ok (k.positive, k.negative) := by
  obtain ⟨p, n, he, -, -⟩ := enterClauses_noEntries hf
  obtain ⟨k, hk, h, hpos, hneg⟩ := rebuild_eq (k := {
    positive := p
    negative := n
    numTrue := .replicate f.numClauses 0
    unsatisfied := #[]
    position := .replicate f.numClauses none }) hf ha hlen (by simp) (by simp)
  have ho : enterClauses 0 f.clauses.toList (noEntries f) = .ok (k.positive, k.negative) := by
    rw [hpos, hneg]
    exact he
  refine ⟨k, ?_, h, ho⟩
  unfold noEntries at he
  simp only [build, reserve_of_le hm, Checked.ok_bind, he, hk]

theorem Tracks.rebuild_eq (hf : f.Valid) (hlen : ∀ c ∈ f.clauses, c.length < size32)
    (h : Tracks f a k) {b : Assignment} (hb : b.values.size = f.numVariables) :
    ∃ k', rebuild f b k = .ok k' ∧ CountedBelow f b f.numClauses k' ∧
      enterClauses 0 f.clauses.toList (noEntries f) = .ok (k'.positive, k'.negative) := by
  have hn : k.numTrue.size = f.numClauses := by simp [h.numTrue, Formula.numClauses]
  obtain ⟨k', he, hk, hp, hneg⟩ :=
    Counts.rebuild_eq (k := k) hf hb hlen hn (h.consistent.size.trans hn)
  exact ⟨k', he, hk, by rw [hp, hneg, h.occurrences]⟩

/-- Counting anew gives the state that building gives, whatever came before. -/
theorem Tracks.rebuild_eq_build (hf : f.Valid) (hlen : ∀ c ∈ f.clauses, c.length < size32)
    (hm : f.numVariables * 24 ≤ memoryLimit) (h : Tracks f a k) {b : Assignment}
    (hb : b.values.size = f.numVariables) : rebuild f b k = build f b := by
  obtain ⟨k₁, he₁, h₁, ho₁⟩ := build_eq hf hb hlen hm
  obtain ⟨k₂, he₂, h₂, ho₂⟩ := h.rebuild_eq hf hlen hb
  obtain ⟨hp, hn⟩ : k₁.positive = k₂.positive ∧ k₁.negative = k₂.negative := by
    simpa using ho₁.symm.trans ho₂
  rw [he₁, he₂, h₂.ext h₁ hp.symm hn.symm]

end Tracks

end SatWalk.Tracker.Counts
