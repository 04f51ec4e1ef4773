import SatWalk.Proofs.Formula.Batch

/-! The order of a batch that is loaded again. Batches are made by number and loaded by name. Names
begin alike and then tell the number in four digits, so both orders agree as long as four digits are
enough; the first number with a fifth digit has a name that comes before that of the number before
it. -/

namespace SatWalk.Batch

open Files (joinPath loadDir)
open Text (padNatural)

variable {o : Options} {i j : Item} {made : List Item}

/-! ### Names in order -/

theorem toList_formulaName {index : Nat} (h : IsItem o index i) :
    i.formulaName.toList = (if o.planted then "sat" else "random").toList ++ '_' ::
      (padNatural 4 index ++
        ('_' :: sizeText ⟨i.formula.numVariables, i.formula.numClauses, o.clauseLength⟩ ++
          ".cnf".toList)) := by
  rw [Item.formulaName, String.toList_append, h.name, toList_itemName]
  simp

/-- Names begin alike, so the digits of their numbers decide. -/
theorem formulaName_lt {k l : Nat} (hi : IsItem o k i) (hj : IsItem o l j)
    (hlt : ∀ xs ys : List Char, padNatural 4 k ++ xs < padNatural 4 l ++ ys) :
    i.formulaName < j.formulaName := by
  rw [String.lt_iff_toList_lt, toList_formulaName hi, toList_formulaName hj]
  exact List.append_left_lt (List.cons_lt_cons_iff.2 (.inr ⟨rfl, hlt _ _⟩))

/-- The first number with a fifth digit comes before the one before it, whatever follows them. -/
theorem padNatural_overflow (xs ys : List Char) :
    padNatural 4 10000 ++ xs < padNatural 4 9999 ++ ys := by
  have h : padNatural 4 10000 = ['1', '0', '0', '0', '0'] := by decide
  have h' : padNatural 4 9999 = ['9', '9', '9', '9'] := by decide
  rw [h, h']
  exact List.cons_lt_cons_iff.2 (.inl (by decide))

theorem pairwise_formulaName_iff (hmade : ∀ k i, made[k]? = some i → IsItem o k i) :
    (made.map Item.formulaName).Pairwise (· ≤ ·) ↔ made.length ≤ 10000 := by
  have item {k : Nat} (hk : k < made.length) : IsItem o k made[k] :=
    hmade k _ (List.getElem?_eq_getElem hk)
  rw [List.pairwise_map, List.pairwise_iff_getElem]
  constructor
  · intro hsorted
    by_contra hmore
    have h₁ : 10000 < made.length := Nat.lt_of_not_le hmore
    have h₀ : 9999 < made.length := Nat.lt_of_succ_lt h₁
    exact String.not_le.2 (formulaName_lt (item h₁) (item h₀) padNatural_overflow)
      (hsorted 9999 10000 h₀ h₁ (by decide))
  · intro hfew k l hk hl hkl
    exact Std.le_of_lt (formulaName_lt (item hk) (item hl)
      (Text.padNatural_append_lt (by decide) (Nat.lt_of_lt_of_le hl hfew) hkl))

/-! ### Loading in order -/

theorem fileName?_paths (hmade : ∀ k i, made[k]? = some i → IsItem o k i) {directory : String}
    (hd : directory ≠ "") :
    (made.map fun i => joinPath directory i.formulaName).map Files.fileName? =
      (made.map Item.formulaName).map some := by
  rw [List.map_map, List.map_map]
  refine List.map_congr_left fun i hi => ?_
  exact ((named_of_isItem hmade i hi).isEntry (by decide)).fileName?_joinPath hd

theorem map_mergeSort_eq_iff (entries : List (String × Formula)) :
    (entries.mergeSort fun a b => decide (a.1 ≤ b.1)).map (·.1) = entries.map (·.1) ↔
      (entries.map (·.1)).Pairwise (· ≤ ·) := by
  constructor
  · intro h
    rw [← h]
    exact Json.pairwise_keys_mergeSort entries
  · intro h
    rw [Json.mergeSort_eq_self h]

variable {programs : String → Option Program} {w w' : World} {directory : String}

/-- A batch that is written to an empty directory is loaded from it in the order in which it was
made if and only if its numbers have four digits. -/
theorem loaded_in_order_iff {paths : List String} (ho : o.FitsWords)
    (hfresh : Fresh w.disk directory)
    (h : (write (World.host programs) o directory).run.run w = (.ok (.ok paths), w')) :
    ∃ loaded, (loadDir (World.host programs) directory).run.run w' = (.ok loaded, w') ∧
      (loaded.map (fun e => some e.1) = paths.map Files.fileName? ↔ o.numInstances ≤ 10000) ∧
      (o.numInstances ≤ 10000 →
        loaded = (items o).1.map fun i => (i.formulaName, i.formula)) := by
  obtain ⟨made, rfl, hlength, hmade, rfl, hholds⟩ := holds_of_write ho hfresh h
  have hsorted := pairwise_formulaName_iff hmade
  have hpaths := fileName?_paths hmade (Files.Path.read?_eq_ok hholds.read).2
  have hnames : ((items o).1.map fun i => (i.formulaName, i.formula)).map (·.1) =
      (items o).1.map Item.formulaName := by
    rw [List.map_map]
    rfl
  refine ⟨_, loadDir_of_holds hmade hholds, ?_, fun hfew => ?_⟩
  · have hsome (loaded : List (String × Formula)) :
        loaded.map (fun e => some e.1) = (loaded.map (·.1)).map some := by
      rw [List.map_map]
      rfl
    rw [hpaths, hsome, (List.map_injective_iff.2 (Option.some_injective String)).eq_iff, ← hnames,
      map_mergeSort_eq_iff, hnames, hsorted, hlength]
  · refine List.mergeSort_of_pairwise ?_
    rw [← hlength, ← hsorted, ← hnames, List.pairwise_map] at hfew
    exact hfew.imp decide_eq_true

/-- Two formulas without clauses. -/
def twoEmpty : Options where
  numInstances := 2
  numVariables := (1, 1)
  numClauses := (0, 0)
  clauseLength := 1
  seed := "0"

theorem loaded_in_order_two :
    ∃ paths w' loaded,
      (write (World.host fun _ => none) twoEmpty "d").run.run {} = (.ok (.ok paths), w') ∧
      (loadDir (World.host fun _ => none) "d").run.run w' = (.ok loaded, w') ∧
      loaded.map (fun e => some e.1) = paths.map Files.fileName? ∧
      loaded.map (·.1) = ["random_0000_k1_v1_c0.cnf", "random_0001_k1_v1_c0.cnf"] := by
  have hitems : (items twoEmpty).2.run = .ok (.ok ()) ∧
      (items twoEmpty).1.map (fun i => (i.formulaName, i.files.map (·.1))) =
        [("random_0000_k1_v1_c0.cnf", ["random_0000_k1_v1_c0.cnf"]),
          ("random_0001_k1_v1_c0.cnf", ["random_0001_k1_v1_c0.cnf"])] := by
    decide +kernel
  obtain ⟨hend, hnames⟩ := hitems
  have hfiles : ((items twoEmpty).1.flatMap Item.files).map (·.1) =
      ["random_0000_k1_v1_c0.cnf", "random_0001_k1_v1_c0.cnf"] := by
    have hmap := congrArg (List.flatMap (·.2)) hnames
    rwa [List.flatMap_map, ← List.map_flatMap] at hmap
  obtain ⟨hfresh, w', hw'⟩ :=
    exists_write_new (by decide) hend hfiles (by decide) (by decide)
  obtain ⟨loaded, hload, horder, hloaded⟩ :=
    loaded_in_order_iff ⟨by decide, by decide⟩ hfresh hw'
  refine ⟨_, w', loaded, hw', hload, horder.2 (by decide), ?_⟩
  rw [hloaded (by decide), List.map_map]
  have hmap := congrArg (List.map (·.1)) hnames
  rwa [List.map_map] at hmap

end SatWalk.Batch
