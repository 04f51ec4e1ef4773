import SatWalk.Formula.Batch
import SatWalk.Proofs.Files.Directory
import SatWalk.Proofs.Formula.Generation
import SatWalk.Proofs.Formula.SavedModel

/-! Batches that are written to an empty directory. Each number has one formula, of a size in the
given ranges, under a name that tells the number and the size. No name occurs twice, so all formulas
are loaded from the directory as they were generated, and each saved model is a solution of the
formula beside it. -/

namespace SatWalk.Batch

open Files (joinPath extension? loadDir)
open Generation (attempt_bind_eq_ok_iff lift_eq_ok_iff generated_of_ofText)
open Text (writeNatural padNatural)

variable {o : Options} {planted : Bool} {index : Nat} {d : Difficulty} {i : Item}

/-! ### Names -/

def isNameChar (c : Char) : Bool :=
  c.isAlphanum || c == '_'

/-- What a name says after its number. -/
def sizeText (d : Difficulty) : List Char :=
  'k' :: (writeNatural d.clauseLength ++ '_' :: 'v' :: (writeNatural d.numVariables ++
    '_' :: 'c' :: writeNatural d.numClauses))

theorem toList_itemName (planted : Bool) (index : Nat) (d : Difficulty) :
    (itemName planted index d).toList =
      (if planted then "sat" else "random").toList ++
        '_' :: (padNatural 4 index ++ '_' :: sizeText d) := by
  simp [itemName, sizeText, writeNatural, Nat.toList_repr]

theorem isNameChar_of_isDigit {c : Char} (h : c.isDigit = true) : isNameChar c = true := by
  simp [isNameChar, Char.isAlphanum, h]

theorem isNameChar_of_mem_itemName {c : Char} (h : c ∈ (itemName planted index d).toList) :
    isNameChar c = true := by
  have hdigits (n : Nat) : ∀ c ∈ writeNatural n, isNameChar c = true := fun c hc =>
    isNameChar_of_isDigit (Text.digit_of_mem_writeNatural hc)
  have hnumber : ∀ c ∈ padNatural 4 index, isNameChar c = true := fun c hc =>
    isNameChar_of_isDigit (Text.digit_of_mem_padNatural hc)
  have hfront : ∀ c ∈ (if planted then "sat" else "random").toList, isNameChar c = true := by
    refine List.all_eq_true.1 ?_
    cases planted <;> decide
  have hsize : ∀ c ∈ sizeText d, isNameChar c = true := by
    simp only [sizeText, List.forall_mem_cons, List.forall_mem_append]
    exact ⟨rfl, hdigits _, rfl, rfl, hdigits _, rfl, rfl, hdigits _⟩
  rw [toList_itemName] at h
  revert c
  simp only [List.forall_mem_cons, List.forall_mem_append]
  exact ⟨hfront, rfl, hnumber, rfl, hsize⟩

/-- The number ends where a name goes on with something that is no digit. -/
theorem index_of_itemName {index' : Nat} {d' : Difficulty}
    (h : itemName planted index d = itemName planted index' d') : index = index' := by
  have hchars := congrArg String.toList h
  rw [toList_itemName, toList_itemName] at hchars
  have hnumbers := List.cons_injective (List.append_cancel_left hchars)
  have hread (n : Nat) (d : Difficulty) :
      (padNatural 4 n ++ '_' :: sizeText d).takeWhile Char.isDigit = padNatural 4 n :=
    Text.takeWhile_run (fun c hc => Text.digit_of_mem_padNatural hc) (by rintro c ⟨⟩; rfl)
  have hpadded := congrArg (List.takeWhile Char.isDigit) hnumbers
  rw [hread, hread] at hpadded
  have hcount := congrArg (Nat.ofDigitChars 10 · 0) hpadded
  simpa only [Text.ofDigitChars_padNatural] using hcount

/-! ### Items -/

/-- An item is what is generated for its number, in a size within the ranges, and its name tells
the number and the size. -/
structure IsItem (o : Options) (index : Nat) (i : Item) : Prop where
  generated : Generation.ofText (itemSeed o index)
    ⟨i.formula.numVariables, i.formula.numClauses, o.clauseLength⟩ o.planted =
      (.ok (.ok (i.formula, i.model)) : Checked _)
  numVariables : o.numVariables.1 ≤ i.formula.numVariables ∧
    i.formula.numVariables ≤ o.numVariables.2
  numClauses : o.numClauses.1 ≤ i.formula.numClauses ∧ i.formula.numClauses ≤ o.numClauses.2
  name : i.name =
    itemName o.planted index ⟨i.formula.numVariables, i.formula.numClauses, o.clauseLength⟩

/-- The ends of the ranges are machine words. -/
structure Options.FitsWords (o : Options) : Prop where
  numVariables : o.numVariables.2 < Text.countBound
  numClauses : o.numClauses.2 < Text.countBound

theorem check_eq_ok_iff : o.check = .ok () ↔ 0 < o.numVariables.1 ∧
    o.numVariables.1 ≤ o.numVariables.2 ∧ o.numClauses.1 ≤ o.numClauses.2 := by
  rcases o with ⟨_, ⟨minVars, maxVars⟩, ⟨minClauses, maxClauses⟩, _, _, _⟩
  unfold Options.check
  dsimp only
  split_ifs
  · exact iff_of_false nofun (by omega)
  · exact iff_of_false nofun (by omega)
  · exact iff_of_true rfl (by omega)

theorem adapt_eq_ok_iff {ε ε' α : Type} {x : Attempt ε α} {wrap : ε → ε'} {a : α} :
    (x.adapt wrap : Attempt ε' α) = (.ok (.ok a) : Checked _) ↔ x = (.ok (.ok a) : Checked _) := by
  change (Except.mapError wrap <$> x.run : Checked _) = _ ↔ x.run = _
  cases x.run with
  | error fault => exact iff_of_false nofun nofun
  | ok r =>
    cases r with
    | error e => exact iff_of_false nofun nofun
    | ok b => constructor <;> rintro ⟨⟩ <;> rfl

section Run

variable (ho : o.FitsWords) (hcheck : o.check = .ok ())
include ho hcheck

theorem ensures_drawDifficulty {σ : Type} [Source σ] :
    Draw.Ensures (fun d => (o.numVariables.1 ≤ d.numVariables ∧ d.numVariables ≤ o.numVariables.2) ∧
      (o.numClauses.1 ≤ d.numClauses ∧ d.numClauses ≤ o.numClauses.2) ∧
      d.clauseLength = o.clauseLength) (drawDifficulty (σ := σ) o) := by
  obtain ⟨-, hvariables, hclauses⟩ := check_eq_ok_iff.1 hcheck
  intro s d s' h
  obtain ⟨⟨n, s₁⟩, hn, h⟩ := Checked.bind_eq_ok_iff.1 h
  obtain ⟨⟨m, s₂⟩, hm, h⟩ := Checked.bind_eq_ok_iff.1 h
  cases h
  exact ⟨(Draw.between_gives hvariables ho.numVariables s).holds hn,
    (Draw.between_gives hclauses ho.numClauses s₁).holds hm, rfl⟩

theorem isItem_of_nextItem {s s' : ChaCha}
    (h : nextItem o index s = (.ok (.ok (i, s')) : Checked _)) : IsItem o index i := by
  obtain ⟨⟨d, s₁⟩, hd, h⟩ := attempt_bind_eq_ok_iff.1 h
  obtain ⟨i', hi, h⟩ := attempt_bind_eq_ok_iff.1 h
  cases h
  obtain ⟨⟨f, model⟩, hgen, hi⟩ := attempt_bind_eq_ok_iff.1 hi
  cases hi
  rw [adapt_eq_ok_iff] at hgen
  obtain ⟨hvariables, hclauses, hlength⟩ :=
    ensures_drawDifficulty ho hcheck _ _ _ (lift_eq_ok_iff.1 hd)
  have hg := generated_of_ofText hgen
  -- the formula has the size that was drawn
  obtain rfl : d = ⟨f.numVariables, f.numClauses, o.clauseLength⟩ := by
    rw [hg.numVariables, hg.numClauses, ← hlength]
  exact ⟨hgen, hvariables, hclauses, rfl⟩

/-- Numbers are given in order. -/
theorem itemsFrom_eq {count : Nat} {done all : List Item} {ending : Attempt Error Unit}
    {s : ChaCha} (h : itemsFrom o count index done s = (all, ending))
    (hend : ending = (.ok (.ok ()) : Checked _)) :
    ∃ made : List Item, all = made.reverse ++ done ∧ made.length = count ∧
      ∀ k i, made[k]? = some i → IsItem o (index + k) i := by
  induction count generalizing index done s with
  | zero =>
    cases h
    exact ⟨[], rfl, rfl, by simp⟩
  | succ count ih =>
    rw [itemsFrom] at h
    split at h
    · next first s' hfirst =>
      obtain ⟨made, rfl, rfl, hmade⟩ := ih h
      refine ⟨first :: made, by simp, rfl, fun k i hi => ?_⟩
      cases k with
      | zero =>
        cases hi
        exact isItem_of_nextItem ho hcheck hfirst
      | succ k =>
        have := hmade k i hi
        rwa [Nat.add_right_comm, Nat.add_assoc] at this
    · cases h
      cases hend
    · cases h
      cases hend

/-- The items of a batch that does not fail. -/
theorem items_eq {made : List Item} {ending : Attempt Error Unit} (h : items o = (made, ending))
    (hend : ending = (.ok (.ok ()) : Checked _)) :
    made.length = o.numInstances ∧ ∀ k i, made[k]? = some i → IsItem o k i := by
  unfold items at h
  split at h
  · cases h
    cases hend
  · cases h
    obtain ⟨made, hall, hlength, hmade⟩ := itemsFrom_eq ho hcheck rfl hend
    rw [List.append_nil] at hall
    rw [hall, List.reverse_reverse]
    refine ⟨hlength, fun k i hi => ?_⟩
    have := hmade k i hi
    rwa [Nat.zero_add] at this

end Run

/-! ### Files -/

/-- The file of the formula. -/
def Item.formulaName (i : Item) : String :=
  i.name ++ ".cnf"

/-- The file of the model. -/
def Item.modelName (i : Item) : String :=
  i.name ++ ".model.json"

theorem formulaName_mem_files (i : Item) :
    (i.formulaName, Text.toBytes (Dimacs.write i.formula)) ∈ i.files :=
  List.mem_cons_self

theorem modelName_mem_files {a : Assignment} (h : i.model = some a) :
    (i.modelName, Text.toBytes (Assignment.codec.write a)) ∈ i.files := by
  rw [Item.files, h]
  exact List.mem_cons_of_mem _ List.mem_cons_self

theorem name_of_mem_files {file : String × List UInt8} (h : file ∈ i.files) :
    file.1 = i.formulaName ∨ file.1 = i.modelName := by
  rcases List.mem_cons.1 h with rfl | h
  · exact .inl rfl
  · cases hmodel : i.model with
    | none =>
      rw [hmodel] at h
      cases h
    | some a =>
      rw [hmodel, List.mem_singleton] at h
      rw [h]
      exact .inr rfl

theorem Item.nodup_files (i : Item) : (i.files.map (·.1)).Nodup := by
  rw [Item.files]
  cases i.model <;> simp

theorem extension?_modelName (i : Item) : extension? i.modelName = some "json" := by
  refine Files.extension?_eq (i.name.toList ++ ".model".toList) ['j', 's', 'o', 'n'] ?_ (by simp)
    (by decide)
  rw [Item.modelName, String.toList_append, List.append_assoc]
  rfl

/-- The name of an item has no point, and it is not empty. -/
structure Item.Named (i : Item) : Prop where
  chars : ∀ c ∈ i.name.toList, isNameChar c = true
  nonempty : i.name.toList ≠ []

theorem IsItem.named (h : IsItem o index i) : i.Named where
  chars c hc := by
    rw [h.name] at hc
    exact isNameChar_of_mem_itemName hc
  nonempty := by
    rw [h.name, toList_itemName]
    simp

namespace Item.Named

variable (h : i.Named)
include h

theorem not_mem {c : Char} (hc : isNameChar c = false) : c ∉ i.name.toList := fun hmem => by
  rw [h.chars c hmem] at hc
  contradiction

theorem stem {ending : String} {rest : List Char} (hending : ending.toList = '.' :: rest) :
    (i.name ++ ending).toList.takeWhile (· ≠ '.') = i.name.toList := by
  rw [String.toList_append, hending]
  refine Text.takeWhile_run (fun c hc => ?_) (by rintro c ⟨⟩; rfl)
  exact decide_eq_true fun e => h.not_mem rfl (e ▸ hc)

/-- A file tells the item it belongs to. -/
theorem stem_of_mem_files {file : String × List UInt8} (hfile : file ∈ i.files) :
    file.1.toList.takeWhile (· ≠ '.') = i.name.toList := by
  rcases name_of_mem_files hfile with hname | hname
  · rw [hname]
    exact h.stem rfl
  · rw [hname]
    exact h.stem rfl

theorem isEntry {ending : String} (hslash : '/' ∉ ending.toList) :
    Files.IsEntry (i.name ++ ending) := by
  obtain ⟨c, cs, hcs⟩ := List.exists_cons_of_ne_nil h.nonempty
  have hc : c ≠ '.' := fun e => h.not_mem rfl (e ▸ hcs ▸ List.mem_cons_self)
  have htext : (i.name ++ ending).toList = c :: (cs ++ ending.toList) := by
    rw [String.toList_append, hcs]
    rfl
  have hne {text : String} (hhead : text.toList.head? ≠ some c) : i.name ++ ending ≠ text := by
    rintro rfl
    rw [htext] at hhead
    exact hhead rfl
  refine ⟨?_, hne nofun, hne ?_, hne ?_⟩
  · rw [String.toList_append, List.mem_append, not_or]
    exact ⟨h.not_mem rfl, hslash⟩
  · exact fun e => hc (Option.some.inj e).symm
  · exact fun e => hc (Option.some.inj e).symm

theorem isEntry_of_mem_files {file : String × List UInt8} (hfile : file ∈ i.files) :
    Files.IsEntry file.1 := by
  rcases name_of_mem_files hfile with hname | hname
  · rw [hname]
    exact h.isEntry (by decide)
  · rw [hname]
    exact h.isEntry (by decide)

theorem extension?_formulaName : extension? i.formulaName = some "cnf" :=
  Files.extension?_eq _ ['c', 'n', 'f'] String.toList_append h.nonempty (by decide)

/-- The only formula file of an item is that of its formula. -/
theorem filter_files : (i.files.map (·.1)).filter (fun n => extension? n = some "cnf") =
    [i.formulaName] := by
  have hcnf := h.extension?_formulaName
  have hjson : extension? i.modelName ≠ some "cnf" := by
    rw [extension?_modelName]
    decide
  change List.filter _ (i.formulaName :: _) = _
  rw [List.filter_cons_of_pos (by simpa using hcnf)]
  cases hmodel : i.model with
  | none => rfl
  | some a =>
    change _ :: List.filter _ [i.modelName] = _
    rw [List.filter_cons_of_neg (by simpa using hjson)]
    rfl

end Item.Named

section Files

variable {made : List Item}

/-- Items with different numbers have different names. -/
theorem nodup_names (hmade : ∀ k i, made[k]? = some i → IsItem o k i) :
    (made.map (·.name)).Nodup := by
  rw [List.nodup_iff_injective_getElem]
  rintro ⟨k, hk⟩ ⟨l, hl⟩ heq
  rw [List.length_map] at hk hl
  dsimp only at heq
  rw [List.getElem_map, List.getElem_map, (hmade k _ (List.getElem?_eq_getElem hk)).name,
    (hmade l _ (List.getElem?_eq_getElem hl)).name] at heq
  exact Fin.ext (index_of_itemName heq)

/-- Items with different names have different files. -/
theorem nodup_files (hnamed : ∀ i ∈ made, i.Named) (hnodup : (made.map (·.name)).Nodup) :
    ((made.flatMap Item.files).map (·.1)).Nodup := by
  rw [List.map_flatMap, List.nodup_flatMap]
  refine ⟨fun i _ => i.nodup_files, ?_⟩
  rw [List.Nodup, List.pairwise_map] at hnodup
  refine hnodup.imp_of_mem fun {i j} hi hj hne => ?_
  intro n hni hnj
  obtain ⟨file, hfile, rfl⟩ := List.mem_map.1 hni
  obtain ⟨file', hfile', heq⟩ := List.mem_map.1 hnj
  apply hne
  rw [← String.toList_inj, ← (hnamed i hi).stem_of_mem_files hfile,
    ← (hnamed j hj).stem_of_mem_files hfile', heq]

theorem filter_files (hnamed : ∀ i ∈ made, i.Named) :
    ((made.flatMap Item.files).map (·.1)).filter (fun n => extension? n = some "cnf") =
      made.map Item.formulaName := by
  induction made with
  | nil => rfl
  | cons i made ih =>
    obtain ⟨hi, hmade⟩ := List.forall_mem_cons.1 hnamed
    rw [List.flatMap_cons, List.map_append, List.filter_append, hi.filter_files, ih hmade]
    rfl

theorem nodup_paths (hnamed : ∀ i ∈ made, i.Named) (hnodup : (made.map (·.name)).Nodup)
    (directory : String) : (made.map fun i => joinPath directory i.formulaName).Nodup := by
  have hformulas : (made.map Item.formulaName).Nodup := by
    rw [← filter_files hnamed]
    exact (nodup_files hnamed hnodup).filter _
  have hmap : made.map (fun i => joinPath directory i.formulaName) =
      (made.map Item.formulaName).map (joinPath directory) := by
    rw [List.map_map]
    rfl
  rw [hmap]
  apply hformulas.map_on
  intro n hn n' hn' heq
  obtain ⟨i, hi, rfl⟩ := List.mem_map.1 hn
  obtain ⟨j, hj, rfl⟩ := List.mem_map.1 hn'
  exact Files.joinPath_inj ((hnamed i hi).isEntry (by decide))
    ((hnamed j hj).isEntry (by decide)) heq

variable {programs : String → Option Program} {w w' : World} {directory : String}

/-- All files are written to the directory if all writes succeed. -/
theorem holds_of_writeFiles {files written : List (String × List UInt8)}
    (h : w.disk.Holds directory written) (hentry : ∀ file ∈ files, Files.IsEntry file.1)
    (hnodup : ((written ++ files).map (·.1)).Nodup)
    (hrun : (writeFiles (World.host programs) directory files).run.run w = (.ok (), w')) :
    w'.disk.Holds directory (written ++ files) := by
  induction files generalizing written w with
  | nil =>
    cases hrun
    rwa [List.append_nil]
  | cons file files ih =>
    obtain ⟨name, content⟩ := file
    obtain ⟨hname, hentry⟩ := List.forall_mem_cons.1 hentry
    rw [writeFiles] at hrun
    obtain ⟨r, w₁, hw, hrun⟩ := World.run_bind_eq_ok_iff.1 hrun
    rw [World.run_lift] at hw
    cases hd : w.disk.writeFile (joinPath directory name) content with
    | error e =>
      rw [World.writeFile_of_error hd] at hw
      cases hw
      cases hrun
    | ok disk =>
      rw [World.writeFile_of_ok hd] at hw
      cases hw
      have hnew : name ∉ written.map (·.1) := by
        rw [List.map_append, List.map_cons, List.nodup_append] at hnodup
        exact fun hmem => hnodup.2.2 _ hmem _ List.mem_cons_self rfl
      rw [List.append_cons]
      apply ih (h.writeFile hname hnew hd) hentry _ hrun
      rwa [← List.append_cons]

/-- Files with new names are written. -/
theorem exists_writeFiles (programs : String → Option Program)
    {files written : List (String × List UInt8)} (h : w.disk.Holds directory written)
    (hopens : ∀ file ∈ files, Files.Disk.Opens directory file.1)
    (hnodup : ((written ++ files).map (·.1)).Nodup) :
    ∃ w', (writeFiles (World.host programs) directory files).run.run w = (.ok (), w') := by
  induction files generalizing written w with
  | nil => exact ⟨w, rfl⟩
  | cons file files ih =>
    obtain ⟨name, content⟩ := file
    obtain ⟨hname, hopens⟩ := List.forall_mem_cons.1 hopens
    have hnew : name ∉ written.map (·.1) := by
      rw [List.map_append, List.map_cons, List.nodup_append] at hnodup
      exact fun hmem => hnodup.2.2 _ hmem _ List.mem_cons_self rfl
    obtain ⟨disk, hd⟩ := h.exists_writeFile content hname hnew
    rw [List.append_cons] at hnodup
    obtain ⟨w', hw'⟩ := ih (w := { w with disk }) (h.writeFile hname.entry hnew hd) hopens hnodup
    have hw : (liftM ((World.host programs).writeFile (joinPath directory name) content) :
        ExceptT Error (StateM World) _).run.run w = (.ok (.ok ()), { w with disk }) := by
      rw [World.run_lift, World.writeFile_of_ok hd]
    rw [writeFiles, World.run_bind _ hw]
    exact ⟨w', hw'⟩

section Write

variable {disk : Files.Disk} (hcheck : o.check = .ok ())

theorem write_of_check {e : Error} (he : o.check = .error e) :
    (write (World.host programs) o directory).run.run w = (.error e, w) := by
  unfold write
  rw [he]
  rfl

include hcheck

theorem write_of_makeDirs {e : Files.Error} (he : w.disk.makeDirs directory = .error e) :
    (write (World.host programs) o directory).run.run w = (.error (.files e), w) := by
  have hdirs : (liftM ((World.host programs).makeDirs directory) :
      ExceptT Error (StateM World) _).run.run w = (.ok (.error e), w) := by
    rw [World.run_lift, World.makeDirs_of_error he]
  unfold write
  rw [hcheck]
  dsimp only
  rw [World.run_bind _ hdirs]
  rfl

variable (hdirs : w.disk.makeDirs directory = .ok disk)
include hdirs

/-- Once the directory is made, writing goes on with the files of all items that can be made. -/
theorem write_of_dirs : (write (World.host programs) o directory).run.run w =
    (writeFiles (World.host programs) directory ((items o).1.flatMap Item.files) >>= fun _ =>
      (match (items o).2.run with
        | .error fault => return .error fault
        | .ok (.error e) => throw e
        | .ok (.ok ()) => return .ok ((items o).1.map fun i => joinPath directory i.formulaName) :
        ExceptT Error (StateM World) (Checked (List String)))).run.run { w with disk } := by
  have hmade : (liftM ((World.host programs).makeDirs directory) :
      ExceptT Error (StateM World) _).run.run w = (.ok (.ok ()), { w with disk }) := by
    rw [World.run_lift, World.makeDirs_of_ok hdirs]
  unfold write
  rw [hcheck]
  dsimp only
  rw [World.run_bind _ hmade]
  rfl

end Write

/-- A batch that was written made its directory, all its items and their files. -/
theorem write_eq_ok {paths : List String}
    (h : (write (World.host programs) o directory).run.run w = (.ok (.ok paths), w')) :
    o.check = .ok () ∧ ∃ disk made ending, w.disk.makeDirs directory = .ok disk ∧
      items o = (made, ending) ∧ ending = (.ok (.ok ()) : Checked _) ∧
      (writeFiles (World.host programs) directory (made.flatMap Item.files)).run.run
        { w with disk } = (.ok (), w') ∧
      paths = made.map fun i => joinPath directory i.formulaName := by
  cases hcheck : o.check with
  | error e =>
    rw [write_of_check hcheck] at h
    cases h
  | ok u =>
    cases hdirs : w.disk.makeDirs directory with
    | error e =>
      rw [write_of_makeDirs hcheck hdirs] at h
      cases h
    | ok disk =>
      rw [write_of_dirs hcheck hdirs] at h
      obtain ⟨_, w₂, hfiles, h⟩ := World.run_bind_eq_ok_iff.1 h
      refine ⟨rfl, disk, (items o).1, (items o).2, rfl, rfl, ?_⟩
      generalize (items o).2 = ending at h ⊢
      rcases ending with fault | ⟨e | _⟩
      · cases h
      · cases h
      · cases h
        exact ⟨rfl, hfiles, rfl⟩

/-- A batch is written if its items can be made and their files opened. -/
theorem exists_write (programs : String → Option Program) {disk : Files.Disk}
    {ending : Attempt Error Unit} (hcheck : o.check = .ok ())
    (hdirs : w.disk.makeDirs directory = .ok disk)
    (hempty : disk.lookup directory = .ok (.directory [])) (hitems : items o = (made, ending))
    (hend : ending = (.ok (.ok ()) : Checked _))
    (hopens : ∀ file ∈ made.flatMap Item.files, Files.Disk.Opens directory file.1)
    (hnodup : ((made.flatMap Item.files).map (·.1)).Nodup) :
    ∃ w', (write (World.host programs) o directory).run.run w =
      (.ok (.ok (made.map fun i => joinPath directory i.formulaName)), w') := by
  obtain ⟨w', hfiles⟩ := exists_writeFiles programs (w := { w with disk })
    (Files.Disk.holds_nil_iff.2 hempty) hopens hnodup
  refine ⟨w', ?_⟩
  rw [write_of_dirs hcheck hdirs, hitems]
  refine (World.run_bind () hfiles _).trans ?_
  rw [hend]
  rfl

/-- The directory is empty once it is made. -/
def Fresh (disk : Files.Disk) (directory : String) : Prop :=
  ∀ disk', disk.makeDirs directory = .ok disk' → disk'.lookup directory = .ok (.directory [])

/-- A disk with an empty directory. -/
def newDisk : Files.Disk :=
  ⟨.directory [("d", .empty)], []⟩

theorem makeDirs_new : ({} : World).disk.makeDirs "d" = .ok newDisk := by
  rw [Files.Disk.makeDirs, if_neg (by decide), Files.IsName.read? (by decide)]
  rfl

theorem lookup_new : newDisk.lookup "d" = .ok (.directory []) := by
  rw [Files.Disk.lookup, Files.IsName.read? (by decide)]
  rfl

/-- The name is one that a file in the directory can be given. -/
def FitsNew (name : String) : Prop :=
  ('/' ∉ name.toList ∧ name ≠ "" ∧ name ≠ "." ∧ name ≠ "..") ∧
    name.utf8ByteSize ≤ Files.nameLimit ∧ '\x00' ∉ (joinPath "d" name).toList ∧
    joinPath "d" name ≠ "" ∧ (joinPath "d" name).utf8ByteSize ≤ Files.pathLimit

instance (name : String) : Decidable (FitsNew name) :=
  inferInstanceAs (Decidable (_ ∧ _))

theorem FitsNew.opens {name : String} (h : FitsNew name) : Files.Disk.Opens "d" name := by
  obtain ⟨⟨hslash, hblank, hmoves⟩, hshort, hnul, hblank', hshort'⟩ := h
  exact ⟨⟨hslash, hblank, hmoves⟩, hshort, Files.Path.read?_eq hnul hblank' hshort'⟩

/-- In an empty world a batch is written to a new directory, if its items can be made and their
files have different names that are short enough. -/
theorem exists_write_new {names : List String} (hcheck : o.check = .ok ())
    (hend : (items o).2.run = .ok (.ok ()))
    (hfiles : ((items o).1.flatMap Item.files).map (·.1) = names) (hnodup : names.Nodup)
    (hnames : ∀ name ∈ names, FitsNew name) :
    Fresh ({} : World).disk "d" ∧
      ∃ w', (write (World.host fun _ => none) o "d").run.run {} =
        (.ok (.ok ((items o).1.map fun i => joinPath "d" i.formulaName)), w') := by
  have hopens : ∀ file ∈ (items o).1.flatMap Item.files, Files.Disk.Opens "d" file.1 :=
    fun file hfile => (hnames file.1 (hfiles ▸ List.mem_map_of_mem hfile)).opens
  refine ⟨fun disk hdisk => ?_, exists_write (fun _ => none) hcheck makeDirs_new lookup_new
    (Prod.mk.eta (p := items o)).symm (ExceptT.ext (y := pure ()) hend) hopens (hfiles ▸ hnodup)⟩
  rw [makeDirs_new] at hdisk
  cases hdisk
  exact lookup_new

theorem exists_isItem (hmade : ∀ k i, made[k]? = some i → IsItem o k i) {i : Item}
    (hi : i ∈ made) : ∃ k, IsItem o k i := by
  obtain ⟨k, hk⟩ := List.mem_iff_getElem?.1 hi
  exact ⟨k, hmade k i hk⟩

theorem named_of_isItem (hmade : ∀ k i, made[k]? = some i → IsItem o k i) :
    ∀ i ∈ made, i.Named :=
  fun _ hi => (exists_isItem hmade hi).elim fun _ => IsItem.named

/-- An empty directory to which a batch was written holds the files of its items. -/
theorem holds_of_write {paths : List String} (ho : o.FitsWords) (hfresh : Fresh w.disk directory)
    (h : (write (World.host programs) o directory).run.run w = (.ok (.ok paths), w')) :
    ∃ made : List Item, (items o).1 = made ∧ made.length = o.numInstances ∧
      (∀ k i, made[k]? = some i → IsItem o k i) ∧
      paths = made.map (fun i => joinPath directory i.formulaName) ∧
      w'.disk.Holds directory (made.flatMap Item.files) := by
  obtain ⟨hcheck, disk, made, ending, hdirs, hitems, hend, hfiles, rfl⟩ := write_eq_ok h
  obtain ⟨hlength, hmade⟩ := items_eq ho hcheck hitems hend
  have hnamed := named_of_isItem hmade
  have hentry : ∀ file ∈ made.flatMap Item.files, Files.IsEntry file.1 := by
    intro file hfile
    obtain ⟨i, hi, hfile⟩ := List.mem_flatMap.1 hfile
    exact (hnamed i hi).isEntry_of_mem_files hfile
  exact ⟨made, by rw [hitems], hlength, hmade, rfl,
    holds_of_writeFiles (Files.Disk.holds_nil_iff.2 (hfresh disk hdirs)) hentry
      (nodup_files hnamed (nodup_names hmade)) hfiles⟩

/-- The formulas of the items are loaded, in the order of the names of their files. -/
theorem loadDir_of_holds (hmade : ∀ k i, made[k]? = some i → IsItem o k i)
    (h : w.disk.Holds directory (made.flatMap Item.files)) :
    (loadDir (World.host programs) directory).run.run w =
      (.ok ((made.map fun i => (i.formulaName, i.formula)).mergeSort
        fun a b => decide (a.1 ≤ b.1)), w) := by
  refine World.loadDir_eq h ?_ ?_
  · rw [filter_files (named_of_isItem hmade), List.map_map]
    rfl
  · intro e he
    obtain ⟨i, hi, rfl⟩ := List.mem_map.1 he
    obtain ⟨k, hk⟩ := exists_isItem hmade hi
    have hg := generated_of_ofText hk.generated
    refine ⟨_, List.mem_flatMap.2 ⟨i, hi, formulaName_mem_files i⟩, ?_⟩
    rw [Dimacs.read, Dimacs.readWithMiscount_write hg.valid hg.fitsWords]
    rfl

/-- Two planted formulas, one of them with a clause. -/
def twoPlanted : Options where
  numInstances := 2
  numVariables := (1, 2)
  numClauses := (0, 1)
  clauseLength := 1
  planted := true
  seed := "0"

end Files

end SatWalk.Batch
