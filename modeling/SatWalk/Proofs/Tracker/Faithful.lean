import SatWalk.Proofs.Tracker.Counting
import SatWalk.Walk.Config

/-! Trackers that know the unsatisfied clauses. A faithful tracker stands in a relation to the
assignment that building sets up and that flips and replacements of all values keep;
scanning and counting are both faithful. For counting the relation determines the
whole state up to the order of the list, and a rebuilt state entirely. -/

namespace SatWalk.Tracker

/-- A tracker works on a formula, with `width` bytes for each variable, and its states and the
assignments they are for are related. -/
structure Faithful {ω : Type} (t : Tracker ω) (f : Formula) (width : Nat)
    (Tracks : Assignment → ω → Prop) : Prop where
  build_eq : ∀ {a : Assignment}, a.values.size = f.numVariables →
    f.numVariables * width ≤ memoryLimit → ∃ k, t.build f a = .ok k ∧ Tracks a k
  build_full : ∀ a : Assignment, memoryLimit < f.numVariables * width →
    t.build f a = .error .capacityExceeded
  rebuild_eq : ∀ {a b : Assignment} {k : ω}, Tracks a k → b.values.size = f.numVariables →
    ∃ k', t.rebuild f b k = .ok k' ∧ Tracks b k'
  recordFlip_eq : ∀ {a : Assignment} {k : ω} {v : Nat}, Tracks a k →
    a.values.size = f.numVariables → 0 < v → v ≤ f.numVariables →
    ∃ k', t.recordFlip f (a.flipped v) v k = .ok k' ∧ Tracks (a.flipped v) k'
  perm : ∀ {a : Assignment} {k : ω}, Tracks a k →
    (t.unsatisfied k).toList.Perm (f.unsatisfiedBy a)
  isSatisfied_eq : ∀ {a : Assignment} {k : ω}, Tracks a k →
    t.isSatisfied k = (f.unsatisfiedBy a).isEmpty

/-! ### Scanning -/

theorem scanFrom_eq {a : Assignment} {cs : List Clause} (m : Nat) (found : Array Nat)
    (h : ∀ c ∈ cs, ∀ l ∈ c, Literal.Declared a.values.size l) :
    scanFrom a m found cs = .ok (found ++ (cs.findIdxs (fun c => !a.holdsClause c) m).toArray) := by
  induction cs generalizing m found with
  | nil => simp [scanFrom]
  | cons c cs ih =>
    have hrest : ∀ d ∈ cs, ∀ l ∈ d, Literal.Declared a.values.size l :=
      fun d hd => h d (by simp [hd])
    rw [scanFrom, Assignment.satisfiesClause_eq (h c (by simp)), Checked.ok_bind]
    cases hc : a.holdsClause c
    · simp [ih _ _ hrest, hc]
    · simp [ih _ _ hrest, hc]

theorem scanAll_eq {f : Formula} {a : Assignment} (hf : f.Valid)
    (ha : a.values.size = f.numVariables) : scanAll f a = .ok (f.unsatisfiedBy a).toArray := by
  rw [scanAll, scanFrom_eq 0 #[] fun c hc => hf.declared ha (Array.mem_toList_iff.1 hc),
    Formula.unsatisfiedBy, Array.empty_append]

theorem scan_faithful {f : Formula} (hf : f.Valid) :
    scan.Faithful f 0 (fun a k => k = (f.unsatisfiedBy a).toArray) where
  build_eq ha _ := ⟨_, scanAll_eq hf ha, rfl⟩
  build_full _ h := absurd h (Nat.not_lt_zero _)
  rebuild_eq _ hb := ⟨_, scanAll_eq hf hb, rfl⟩
  recordFlip_eq _ ha _ _ := ⟨_, scanAll_eq hf (by simpa using ha), rfl⟩
  perm h := h ▸ .refl _
  isSatisfied_eq h := by simp [scan, h]

/-! ### Counting -/

theorem incremental_faithful {f : Formula} (hf : f.Valid)
    (hlen : ∀ c ∈ f.clauses, c.length < size32) :
    incremental.Faithful f 24 (Counts.Tracks f) where
  build_eq ha hm :=
    have ⟨k, he, hk, ho⟩ := Counts.build_eq hf ha hlen hm
    ⟨k, he, hk.tracks ho⟩
  build_full a h := by simp [incremental, Counts.build, reserve_of_lt h]
  rebuild_eq h hb :=
    have ⟨k', he, hk, ho⟩ := h.rebuild_eq hf hlen hb
    ⟨k', he, hk.tracks ho⟩
  recordFlip_eq h ha hv hs := Counts.recordFlip_eq hf ha hlen h hv hs
  perm h := h.perm
  isSatisfied_eq h := by
    rw [← h.perm.isEmpty_eq, Array.isEmpty_toList]
    rfl

end SatWalk.Tracker

namespace SatWalk.TrackerKind

/-! ### Both kinds -/

/-- What a tracker of a kind keeps. -/
def State : TrackerKind → Type
  | .scan => Array Nat
  | .incremental => Tracker.Counts

def tracker : (kind : TrackerKind) → Tracker kind.State
  | .scan => .scan
  | .incremental => .incremental

/-- How many bytes a tracker of a kind reserves for each variable. -/
def width : TrackerKind → Nat
  | .scan => 0
  | .incremental => 24

def Tracks (f : Formula) : (kind : TrackerKind) → Assignment → kind.State → Prop
  | .scan, a, k => k = (f.unsatisfiedBy a).toArray
  | .incremental, a, k => Tracker.Counts.Tracks f a k

theorem faithful {f : Formula} (hf : f.Valid) (hlen : f.numLiterals < size32) :
    ∀ kind : TrackerKind, kind.tracker.Faithful f kind.width (kind.Tracks f)
  | .scan => Tracker.scan_faithful hf
  | .incremental => Tracker.incremental_faithful hf fun _ hc =>
    Nat.lt_of_le_of_lt (Formula.length_le_numLiterals hc) hlen

end SatWalk.TrackerKind
