import Mathlib.Data.List.Nodup
import Mathlib.Data.Nat.SuccPred
import SatWalk.Walk.Tracker

/-! The list of unsatisfied clauses and the positions of its entries. Each determines the other
while clauses are entered at the end and taken out by moving the last entry into the gap.
Gaining and losing true literals keeps the list equal to the clauses with a count of
zero, in whatever order the clauses come and however often each of them comes. -/

namespace SatWalk.Tracker.Counts

/-- A clause stands at the position that is kept for it, and nowhere else. -/
def Indexed (listed : Array Nat) (position : Array (Option Nat)) : Prop :=
  ∀ c i : Nat, position[c]? = some (some i) ↔ listed[i]? = some c

namespace Indexed

variable {listed : Array Nat} {position : Array (Option Nat)}

theorem inj (h : Indexed listed position) {c i j : Nat} (hi : listed[i]? = some c)
    (hj : listed[j]? = some c) : i = j := by
  have hi := (h c i).2 hi
  have hj := (h c j).2 hj
  simp_all

theorem nodup (h : Indexed listed position) : listed.toList.Nodup := by
  rw [List.nodup_iff_getElem?_ne_getElem?]
  intro i j hij hj he
  have hlt : j < listed.size := by simpa using hj
  rw [Array.getElem?_toList, Array.getElem?_toList, Array.getElem?_eq_getElem hlt] at he
  have := h.inj he (Array.getElem?_eq_getElem hlt)
  omega

theorem mem_iff (h : Indexed listed position) {c : Nat} :
    c ∈ listed ↔ ∃ i, position[c]? = some (some i) := by
  rw [Array.mem_iff_getElem?]
  exact exists_congr fun i => (h c i).symm

/-- Entering a clause at the end. -/
theorem push (h : Indexed listed position) {c : Nat} (hc : c < position.size) (hn : c ∉ listed) :
    Indexed (listed.push c) (position.set c (some listed.size)) := by
  intro d i
  have hne : listed[i]? ≠ some c := fun hi => hn (Array.mem_of_getElem? hi)
  have hd := h d i
  rw [Array.getElem?_set, Array.getElem?_push]
  by_cases hcd : c = d <;> by_cases hi : i = listed.size <;> grind

/-- Taking a clause out of the list, when the last entry moves into its place. -/
theorem swapOut (h : Indexed listed position) {c i last : Nat} (hi : listed[i]? = some c)
    (hl : listed[listed.size - 1]? = some last) {listed' : Array Nat}
    {position' : Array (Option Nat)}
    (hlisted : ∀ j, listed'[j]? =
      if j < listed.size - 1 then if j = i then some last else listed[j]? else none)
    (hposition : ∀ d, position'[d]? =
      if d = c then some none else if d = last then some (some i) else position[d]?) :
    Indexed listed' position' := by
  intro d j
  have hd := h d j
  rw [hlisted, hposition]
  by_cases hdc : d = c
  · -- Were it still listed, it would stand twice, or the last entry would be the one removed.
    have h₁ := fun hj : listed[j]? = some d => h.inj (hdc ▸ hi) hj
    have h₂ := fun hj : last = d => h.inj (hdc ▸ hi) (hj ▸ hl)
    grind
  · by_cases hdl : d = last
    · have h₁ := fun hj : listed[j]? = some d => h.inj hj (hdl ▸ hl)
      have h₂ : i < listed.size := (Array.getElem?_eq_some_iff.1 hi).1
      grind
    · grind

end Indexed

/-- The list holds exactly the clauses without true literals. -/
structure Consistent (k : Counts) : Prop where
  size : k.position.size = k.numTrue.size
  indexed : Indexed k.unsatisfied k.position
  listed : ∀ c : Nat, c ∈ k.unsatisfied ↔ k.numTrue[c]? = some 0

theorem insert_eq {k : Counts} (hk : Indexed k.unsatisfied k.position) {c : Nat}
    (hc : c < k.position.size) (hn : c ∉ k.unsatisfied) :
    ∃ listed position, k.insert c = .ok { k with unsatisfied := listed, position } ∧
      position.size = k.position.size ∧ Indexed listed position ∧
      ∀ d, d ∈ listed ↔ d ∈ k.unsatisfied ∨ d = c := by
  refine ⟨_, _, ?_, ?_, hk.push hc hn, ?_⟩
  · simp [insert, store_of_lt hc]
  · simp
  · simp

theorem swapOut_eq {xs : Array Nat} {i : Nat} (hi : i < xs.size) :
    ∃ ys, swapOut xs i = .ok ys ∧ ∀ j, ys[j]? =
      if j < xs.size - 1 then if j = i then xs[xs.size - 1]? else xs[j]? else none := by
  have hne : xs.back? = some xs[xs.size - 1] := by simp [Array.back?]
  refine ⟨(xs.set i xs[xs.size - 1]).pop, by simp [swapOut, hi, hne], fun j => ?_⟩
  rw [Array.getElem?_pop, Array.size_set, Array.getElem?_set]
  grind

theorem remove_eq {k : Counts} (hk : Indexed k.unsatisfied k.position) {c : Nat}
    (hc : c ∈ k.unsatisfied) :
    ∃ listed position, k.remove c = .ok { k with unsatisfied := listed, position } ∧
      position.size = k.position.size ∧ Indexed listed position ∧
      ∀ d, d ∈ listed ↔ d ∈ k.unsatisfied ∧ d ≠ c := by
  obtain ⟨i, hi⟩ := Array.mem_iff_getElem?.1 hc
  have hlt : i < k.unsatisfied.size := (Array.getElem?_eq_some_iff.1 hi).1
  obtain ⟨listed, hs, hg⟩ := swapOut_eq hlt
  obtain ⟨last, hl⟩ : ∃ last, k.unsatisfied[k.unsatisfied.size - 1]? = some last :=
    ⟨_, Array.getElem?_eq_getElem (by omega)⟩
  have hpos := (hk c i).2 hi
  have hlast := (hk last _).2 hl
  have hcs := (Array.getElem?_eq_some_iff.1 hpos).1
  have hls := (Array.getElem?_eq_some_iff.1 hlast).1
  rw [hl] at hg
  -- The entry that moved gets its new position first; then the removed one loses its own.
  have done : ∀ position : Array (Option Nat),
      k.remove c = .ok { k with unsatisfied := listed, position } →
      position.size = k.position.size →
      (∀ d : Nat, position[d]? =
        if d = c then some none else if d = last then some (some i) else k.position[d]?) →
      ∃ listed position, k.remove c = .ok { k with unsatisfied := listed, position } ∧
        position.size = k.position.size ∧ Indexed listed position ∧
        ∀ d, d ∈ listed ↔ d ∈ k.unsatisfied ∧ d ≠ c := by
    intro position he hsize hp
    have hix := hk.swapOut hi hl hg hp
    refine ⟨listed, position, he, hsize, hix, fun d => ?_⟩
    rw [hix.mem_iff, hk.mem_iff, hp]
    by_cases hdc : d = c
    · simp [hdc]
    · by_cases hdl : d = last
      · subst hdl; simp [hdc, hlast]
      · simp [hdc, hdl]
  by_cases hmove : i < k.unsatisfied.size - 1
  · have hgi : listed[i]? = some last := by rw [hg, if_pos hmove, if_pos rfl]
    have hcs' : c < (k.position.set last (some i)).size := by simpa using hcs
    refine done ((k.position.set last (some i)).set c none) ?_ (by simp) ?_
    · simp [remove, fetch_eq_ok_iff.2 hpos, hs, hgi, store_of_lt hls, store_of_lt hcs']
    · grind
  · have hgi : listed[i]? = none := by rw [hg, if_neg hmove]
    refine done (k.position.set c none) ?_ (by simp) ?_
    · simp [remove, fetch_eq_ok_iff.2 hpos, hs, hgi, store_of_lt hcs]
    · grind

/-! ### Gains and losses -/

/-- The counts have changed as told, the list has followed them, and the occurrences have stayed. -/
structure Recounted (change : Nat → Nat → Nat) (k k' : Counts) : Prop where
  consistent : k'.Consistent
  positive : k'.positive = k.positive
  negative : k'.negative = k.negative
  numTrue : ∀ c : Nat, k'.numTrue[c]? = k.numTrue[c]?.map (change c)

theorem Recounted.trans {g h : Nat → Nat → Nat} {k k₁ k₂ : Counts} (h₁ : Recounted g k k₁)
    (h₂ : Recounted h k₁ k₂) : Recounted (fun c n => h c (g c n)) k k₂ where
  consistent := h₂.consistent
  positive := h₂.positive.trans h₁.positive
  negative := h₂.negative.trans h₁.negative
  numTrue c := by rw [h₂.numTrue, h₁.numTrue, Option.map_map]; rfl

theorem Recounted.congr {g h : Nat → Nat → Nat} {k k' : Counts} (hk : Recounted g k k')
    (he : ∀ c n, k.numTrue[c]? = some n → g c n = h c n) : Recounted h k k' where
  consistent := hk.consistent
  positive := hk.positive
  negative := hk.negative
  numTrue c := by
    rw [hk.numTrue]
    exact Option.map_congr fun n hn => he c n hn

theorem Recounted.lt_size_iff {g : Nat → Nat → Nat} {k k' : Counts} (h : Recounted g k k')
    {c : Nat} : c < k'.numTrue.size ↔ c < k.numTrue.size := by
  rw [← not_iff_not, Nat.not_lt, Nat.not_lt, ← Array.getElem?_eq_none_iff,
    ← Array.getElem?_eq_none_iff, h.numTrue, Option.map_eq_none_iff]

/-- One count has changed, and the list has followed it. -/
theorem Consistent.set_recounted {k : Counts} (hk : k.Consistent) {c m : Nat}
    (hlt : c < k.numTrue.size) {listed : Array Nat} {position : Array (Option Nat)}
    (hsize : position.size = k.position.size) (hix : Indexed listed position)
    (hmem : ∀ d, d ∈ listed ↔ if d = c then m = 0 else d ∈ k.unsatisfied) :
    Recounted (fun d n => if d = c then m else n) k
      { k with numTrue := k.numTrue.set c m, unsatisfied := listed, position } where
  consistent := by
    refine ⟨by simp [hsize, hk.size], hix, fun d => ?_⟩
    simp only [hmem, hk.listed, Array.getElem?_set]
    grind
  positive := rfl
  negative := rfl
  numTrue d := by
    simp only [Array.getElem?_set]
    grind

theorem gain_cons {k : Counts} (hk : k.Consistent) {c n : Nat} (hc : k.numTrue[c]? = some n)
    (hn : n + 1 < size32) (rest : List Nat) :
    ∃ k', gain (c :: rest) k = gain rest k' ∧
      Recounted (fun d m => if d = c then n + 1 else m) k k' := by
  obtain ⟨hlt, -⟩ := Array.getElem?_eq_some_iff.1 hc
  have hfetch := fetch_eq_ok_iff.2 hc
  have hlisted := hk.listed c
  by_cases h0 : n = 0
  · subst h0
    obtain ⟨listed, position, hr, hsize, hix, hmem⟩ :=
      remove_eq (k := { k with numTrue := k.numTrue.set c 1 }) hk.indexed (hlisted.2 hc)
    refine ⟨_, ?_, hk.set_recounted hlt hsize hix fun d => ?_⟩
    · simp [gain, hfetch, increment_of_lt hn, store_of_lt hlt, hr]
    · rw [hmem]
      split_ifs <;> simp_all
  · refine ⟨_, ?_, hk.set_recounted hlt rfl hk.indexed fun d => ?_⟩
    · simp [gain, hfetch, increment_of_lt hn, store_of_lt hlt, h0]
    · split_ifs <;> simp_all

theorem lose_cons {k : Counts} (hk : k.Consistent) {c n : Nat}
    (hc : k.numTrue[c]? = some (n + 1)) (rest : List Nat) :
    ∃ k', lose (c :: rest) k = lose rest k' ∧
      Recounted (fun d m => if d = c then n else m) k k' := by
  obtain ⟨hlt, -⟩ := Array.getElem?_eq_some_iff.1 hc
  have hfetch := fetch_eq_ok_iff.2 hc
  have hlisted := hk.listed c
  by_cases h0 : n = 0
  · subst h0
    obtain ⟨listed, position, hr, hsize, hix, hmem⟩ :=
      insert_eq (k := { k with numTrue := k.numTrue.set c 0 }) hk.indexed (hk.size ▸ hlt)
        (fun h => by simp [hlisted.1 h] at hc)
    refine ⟨_, ?_, hk.set_recounted hlt hsize hix fun d => ?_⟩
    · simp [lose, hfetch, store_of_lt hlt, hr]
    · rw [hmem]
      split_ifs <;> simp_all
  · refine ⟨_, ?_, hk.set_recounted hlt rfl hk.indexed fun d => ?_⟩
    · simp [lose, hfetch, store_of_lt hlt, h0]
    · split_ifs <;> simp_all

/-- When each listed clause takes its count one step further, as long as it has room for the step,
each count goes as many steps as its clause is listed. -/
theorem recounted_all {op : List Nat → Counts → Checked Counts} (next : Nat → Nat)
    (Room : Nat → Prop) (hnil : ∀ k, op [] k = .ok k)
    (hcons : ∀ {k : Counts} {c n : Nat}, k.Consistent → k.numTrue[c]? = some n → Room n →
      ∀ rest, ∃ k', op (c :: rest) k = op rest k' ∧
        Recounted (fun d m => if d = c then next n else m) k k')
    {cs : List Nat} {k : Counts} (hk : k.Consistent) (hc : ∀ c ∈ cs, c < k.numTrue.size)
    (hroom : ∀ c n, k.numTrue[c]? = some n → ∀ i < cs.count c, Room (next^[i] n)) :
    ∃ k', op cs k = .ok k' ∧ Recounted (fun c n => next^[cs.count c] n) k k' := by
  induction cs generalizing k with
  | nil => exact ⟨k, hnil k, hk, rfl, rfl, fun c => by simp⟩
  | cons c cs ih =>
    have hlt := hc c (by simp)
    have hcn : k.numTrue[c]? = some k.numTrue[c] := Array.getElem?_eq_getElem hlt
    obtain ⟨k₁, he, h₁⟩ := hcons hk hcn (hroom c _ hcn 0 (by simp)) cs
    have h₁ : Recounted (fun d m => if d = c then next m else m) k k₁ :=
      h₁.congr fun d n hd => by
        split_ifs with hdc
        · rw [hdc, hcn] at hd
          rw [Option.some.inj hd]
        · rfl
    obtain ⟨k₂, hg, h₂⟩ := ih h₁.consistent (fun d hd => h₁.lt_size_iff.2 (hc d (by simp [hd])))
      (fun d n hd i hi => by
        rw [h₁.numTrue] at hd
        obtain ⟨m, hm, rfl⟩ := Option.map_eq_some_iff.1 hd
        split_ifs with hdc
        · subst hdc
          exact hroom d m hm (i + 1) (by simpa using hi)
        · exact hroom d m hm i (by simpa [List.count_cons, Ne.symm hdc] using hi))
    refine ⟨k₂, he.trans hg, (h₁.trans h₂).congr fun d n _ => ?_⟩
    split_ifs with hdc
    · rw [hdc, List.count_cons_self, Function.iterate_succ_apply]
    · rw [List.count_cons_of_ne (Ne.symm hdc)]

/-- Each clause gains as many true literals as it is listed. -/
theorem gain_eq {cs : List Nat} {k : Counts} (hk : k.Consistent)
    (hc : ∀ c ∈ cs, c < k.numTrue.size)
    (hn : ∀ c n, k.numTrue[c]? = some n → n + cs.count c < size32) :
    ∃ k', gain cs k = .ok k' ∧ Recounted (fun c n => n + cs.count c) k k' := by
  obtain ⟨k', he, h⟩ := recounted_all Nat.succ (· + 1 < size32) (fun _ => rfl)
    (fun hk hcn hroom rest => gain_cons hk hcn hroom rest) hk hc fun c n hcn i hi => by
      have := hn c n hcn
      rw [Nat.succ_iterate]
      omega
  exact ⟨k', he, h.congr fun c n _ => Nat.succ_iterate n _⟩

/-- Each clause loses as many true literals as it is listed; it must have that many. -/
theorem lose_eq {cs : List Nat} {k : Counts} (hk : k.Consistent)
    (hc : ∀ c ∈ cs, c < k.numTrue.size)
    (hn : ∀ c n, k.numTrue[c]? = some n → cs.count c ≤ n) :
    ∃ k', lose cs k = .ok k' ∧ Recounted (fun c n => n - cs.count c) k k' := by
  obtain ⟨k', he, h⟩ := recounted_all Nat.pred (0 < ·) (fun _ => rfl)
    (fun hk hcn hroom rest =>
      lose_cons hk (hcn.trans (congrArg some (Nat.succ_pred_eq_of_pos hroom).symm)) rest)
    hk hc fun c n hcn i hi => by
      have := hn c n hcn
      rw [Nat.pred_iterate]
      omega
  exact ⟨k', he, h.congr fun c n _ => Nat.pred_iterate n _⟩

end SatWalk.Tracker.Counts
