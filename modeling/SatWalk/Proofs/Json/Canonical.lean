import Mathlib.Data.List.Nodup
import Mathlib.Data.List.Perm.Basic
import Mathlib.Data.List.Sort
import SatWalk.Json.Codec
import SatWalk.Proofs.Json.Printer

/-! Canonical text tells records apart. Two objects with the same keys that sort alike agree member
by member, and canonical text tells what it is the text of, whatever follows it. So a record
can be told from its text if each of its fields can. -/

namespace SatWalk.Json

/-! ### Sorted objects -/

variable {α : Type}

/-- Two orders of the same members have the same keys only if they are the same. -/
theorem eq_of_perm_of_keys {l l' : List (String × α)} (hperm : l.Perm l')
    (hkeys : l.map (·.1) = l'.map (·.1)) (hnodup : (l.map (·.1)).Nodup) : l = l' := by
  refine List.ext_getElem hperm.length_eq fun i hi hi' => ?_
  have hkey : l[i].1 = l'[i].1 := by
    have hget : (l.map (·.1))[i]? = (l'.map (·.1))[i]? := by rw [hkeys]
    simpa [hi, hi'] using hget
  exact List.inj_on_of_nodup_map hnodup (List.getElem_mem hi)
    (hperm.mem_iff.2 (List.getElem_mem hi')) hkey

theorem pairwise_keys_mergeSort (l : List (String × α)) :
    ((l.mergeSort fun a b => a.1 ≤ b.1).map (·.1)).Pairwise (· ≤ ·) := by
  rw [List.pairwise_map]
  refine (List.pairwise_mergeSort ?_ ?_ l).imp of_decide_eq_true
  · intro a b c hab hbc
    exact decide_eq_true (String.le_trans (of_decide_eq_true hab) (of_decide_eq_true hbc))
  · intro a b
    simpa using String.le_total a.1 b.1

theorem mergeSort_eq_self {l : List (String × α)} (h : (l.map (·.1)).Pairwise (· ≤ ·)) :
    (l.mergeSort fun a b => a.1 ≤ b.1) = l :=
  List.mergeSort_of_pairwise ((List.pairwise_map.1 h).imp decide_eq_true)

/-- All orders of members with distinct keys are sorted to one. -/
theorem mergeSort_eq_of_perm {l l' : List (String × α)} (hperm : l.Perm l')
    (hnodup : (l.map (·.1)).Nodup) :
    (l.mergeSort fun a b => a.1 ≤ b.1) = l'.mergeSort fun a b => a.1 ≤ b.1 := by
  have hsorted : (l.mergeSort fun a b => a.1 ≤ b.1).Perm (l'.mergeSort fun a b => a.1 ≤ b.1) :=
    (List.mergeSort_perm _ _).trans (hperm.trans (List.mergeSort_perm _ _).symm)
  refine eq_of_perm_of_keys hsorted ?_ ?_
  · exact (hsorted.map (·.1)).eq_of_pairwise' (pairwise_keys_mergeSort l)
      (pairwise_keys_mergeSort l')
  · exact ((List.mergeSort_perm _ _).map _).nodup_iff.2 hnodup

/-- An order of images is the images in some order. -/
theorem exists_perm_of_perm_map {β γ : Type} {f : β → γ} {l : List γ} {xs : List β}
    (h : l.Perm (xs.map f)) : ∃ ys : List β, l = ys.map f ∧ ys.Perm xs := by
  have hxs : List.Forall₂ (fun y x => y = f x) (xs.map f) xs :=
    List.forall₂_map_left_iff.2 (List.forall₂_same.2 fun _ _ => rfl)
  obtain ⟨ys, heach, hperm⟩ := List.perm_comp_forall₂ h hxs
  refine ⟨ys, ?_, hperm⟩
  exact List.forall₂_eq_eq_eq ▸ List.forall₂_map_right_iff.2 heach

theorem sortItems_eq_map (vs : List Value) : sortItems vs = vs.map Value.sorted := by
  induction vs with
  | nil => rfl
  | cons v vs ih => rw [sortItems, List.map_cons, ih]

theorem sortValues_eq_map (members : List (String × Value)) :
    sortValues members = members.map fun m => (m.1, m.2.sorted) := by
  induction members with
  | nil => rfl
  | cons member rest ih => rw [sortValues, List.map_cons, ih]

theorem keys_sortValues (members : List (String × Value)) :
    (sortValues members).map (·.1) = members.map (·.1) := by
  rw [sortValues_eq_map, List.map_map]
  rfl

theorem perm_of_sorted_object_eq {members members' : List (String × Value)}
    (h : (Value.object members).sorted = (Value.object members').sorted) :
    (sortValues members).Perm (sortValues members') := by
  rw [Value.sorted, Value.sorted] at h
  refine (List.mergeSort_perm _ fun a b => decide (a.1 ≤ b.1)).symm.trans ?_
  rw [Value.object.inj h]
  exact List.mergeSort_perm _ _

theorem sortValues_eq_of_sorted {members members' : List (String × Value)}
    (hkeys : members.map (·.1) = members'.map (·.1)) (hnodup : (members.map (·.1)).Nodup)
    (h : (Value.object members).sorted = (Value.object members').sorted) :
    sortValues members = sortValues members' := by
  refine eq_of_perm_of_keys (perm_of_sorted_object_eq h) ?_ ?_
  · rw [keys_sortValues, keys_sortValues, hkeys]
  · rwa [keys_sortValues]

/-! ### Codecs -/

/-- The sorted JSON forms of two values tell whether they are the same. -/
def Codec.Tells (c : Codec α) (x y : α) : Prop :=
  (c.encode x).sorted = (c.encode y).sorted → x = y

theorem tells_count (name : String) (m n : ℕ) : (Codec.count name).Tells m n := fun h => by
  have hnumber : Number.whole m = Number.whole n := Value.number.inj h
  exact Int.ofNat.inj (Number.whole.inj hnumber)

theorem tells_boolean (a b : Bool) : Codec.boolean.Tells a b :=
  fun h => Value.boolean.inj h

theorem tells_string (s t : String) : Codec.string.Tells s t :=
  fun h => Value.string.inj h

/-- All numbers without a value are written alike. -/
theorem tells_float {x y : Float} (h : ¬ x.isFinite → ¬ y.isFinite → x = y) :
    Codec.float.Tells x y := by
  intro hsorted
  change (Value.ofFloat x).sorted = (Value.ofFloat y).sorted at hsorted
  unfold Value.ofFloat at hsorted
  split at hsorted
  case isTrue hx =>
    split at hsorted
    case isTrue hy =>
      have hnumber : Number.real x hx = Number.real y hy := Value.number.inj hsorted
      exact (Number.real.inj hnumber)
    case isFalse hy => cases hsorted
  case isFalse hx =>
    split at hsorted
    case isTrue hy => cases hsorted
    case isFalse hy => exact h hx hy

/-- What a choice is written as is its name. -/
theorem tells_choice {names : List (String × α)} {nameOf : α → String} {x y : α}
    (h : nameOf x = nameOf y → x = y) : (Codec.choice names nameOf).Tells x y :=
  fun hsorted => h (Value.string.inj hsorted)

theorem tells_optional {c : Codec α} (hnull : ∀ x, (c.encode x).sorted ≠ .null) {x y : Option α}
    (h : ∀ x y, c.Tells x y) : c.optional.Tells x y := by
  intro hsorted
  cases x with
  | none =>
    cases y with
    | none => rfl
    | some y => exact absurd hsorted.symm (hnull y)
  | some x =>
    cases y with
    | none => exact absurd hsorted (hnull x)
    | some y => exact congrArg some (h x y hsorted)

/-! ### Records -/

/-- Each field tells its values. -/
def Fields.Tells : {τ δ : Type} → Fields τ δ → τ → τ → Prop
  | _, _, .done, _, _ => True
  | _, _, .field head rest, (x, xs), (y, ys) => head.codec.Tells x y ∧ rest.Tells xs ys

theorem keys_encode : {τ δ : Type} → (fs : Fields τ δ) → (t : τ) →
    (fs.encode t).map (·.1) = fs.keys
  | _, _, .done, _ => rfl
  | _, _, .field head rest, (_, xs) => congrArg (head.key :: ·) (keys_encode rest xs)

theorem Fields.eq_of_tells : {τ δ : Type} → (fs : Fields τ δ) → {t t' : τ} → fs.Tells t t' →
    sortValues (fs.encode t) = sortValues (fs.encode t') → t = t'
  | _, _, .done, _, _, _, _ => rfl
  | _, _, .field head rest, (x, xs), (y, ys), htells, h => by
    rw [Fields.encode, Fields.encode, sortValues, sortValues, List.cons.injEq, Prod.mk.injEq] at h
    rw [htells.1 h.1.2, rest.eq_of_tells htells.2 h.2]

variable {τ δ ρ : Type}

theorem tells_record {name : String} {closed : Bool} {fs : Fields τ δ} {build : τ → ρ}
    {parts : ρ → τ} {x y : ρ} (hnodup : fs.keys.Nodup) (htells : fs.Tells (parts x) (parts y))
    (hparts : parts x = parts y → x = y) : (Codec.record name closed fs build parts).Tells x y := by
  intro h
  refine hparts (fs.eq_of_tells htells (sortValues_eq_of_sorted ?_ ?_ h))
  · rw [keys_encode, keys_encode]
  · rwa [keys_encode]

/-- Canonical text tells a value and where it ends. -/
theorem Codec.write_append_inj {c : Codec α} {x y : α} (htells : c.Tells x y) {r u : List Char}
    (hr : EndsNumber r) (hu : EndsNumber u)
    (h : (c.write x).toList ++ r = (c.write y).toList ++ u) : x = y ∧ r = u := by
  simp only [Codec.write, Value.canonical, Value.compact, String.toList_ofList] at h
  obtain ⟨hsorted, hrest⟩ := Value.write_inj plain_compact _ _ 0 hr hu h
  exact ⟨htells hsorted, hrest⟩

end SatWalk.Json
