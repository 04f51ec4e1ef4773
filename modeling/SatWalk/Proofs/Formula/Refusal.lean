import SatWalk.Proofs.Formula.Batch
import SatWalk.Proofs.Formula.Shape

/-! Batches that are refused. The ends of the ranges are checked before anything is done, but a size
is checked only when its formula is generated, after the files of the formulas before it were
written. So a refused batch leaves the files of all formulas before the first size that does not
pass. If the options settle whether sizes pass then there are none, and the seed does not matter. -/

namespace SatWalk.Batch

open Draw (Gives gives_of_ok)
open Generation (ofText_of_check ofText_of_refused)

variable {o : Options} {index : Nat} {d : Difficulty}

/-! ### Sizes -/

/-- The sizes that are drawn for `count` formulas, whether they pass the check or not. -/
def sizesFrom (o : Options) : (count : Nat) → ChaCha → Checked (List Difficulty)
  | 0, _ => return []
  | count + 1, s => do
    let (d, s) ← drawDifficulty o s
    let rest ← sizesFrom o count s
    return d :: rest

/-- The size with the given number is refused, and it is the first one. -/
def RefusedAt (o : Options) (s : ChaCha) (count : Nat) (e : Error) : Prop :=
  ∃ passed d cause, sizesFrom o (count + 1) s = .ok (passed ++ [d]) ∧ passed.length = count ∧
    (∀ x ∈ passed, x.check = .ok ()) ∧ d.check = .error cause ∧
    e = .generation (.difficulty cause)

/-- The size is in the ranges. -/
structure Options.Allows (o : Options) (d : Difficulty) : Prop where
  numVariables : o.numVariables.1 ≤ d.numVariables ∧ d.numVariables ≤ o.numVariables.2
  numClauses : o.numClauses.1 ≤ d.numClauses ∧ d.numClauses ≤ o.numClauses.2
  clauseLength : d.clauseLength = o.clauseLength

theorem drawDifficulty_gives (ho : o.FitsWords) (hcheck : o.check = .ok ()) (s : ChaCha) :
    Gives o.Allows s (drawDifficulty o s) := by
  obtain ⟨-, hvariables, hclauses⟩ := check_eq_ok_iff.1 hcheck
  refine (Draw.between_gives hvariables ho.numVariables s).bind fun n s₁ hn => ?_
  refine (Draw.between_gives hclauses ho.numClauses s₁).bind fun m s₂ hm => ?_
  exact gives_of_ok rfl ⟨hn, hm, rfl⟩ .refl

theorem allows_of_sizesFrom (ho : o.FitsWords) (hcheck : o.check = .ok ()) {count : Nat}
    {s : ChaCha} {sizes : List Difficulty} (h : sizesFrom o count s = .ok sizes) :
    ∀ d ∈ sizes, o.Allows d := by
  induction count generalizing s sizes with
  | zero =>
    cases h
    exact fun _ => nofun
  | succ count ih =>
    obtain ⟨⟨d, s₁⟩, hd, h⟩ := Checked.bind_eq_ok_iff.1 h
    obtain ⟨rest, hrest, h⟩ := Checked.bind_eq_ok_iff.1 h
    cases h
    exact List.forall_mem_cons.2 ⟨(drawDifficulty_gives ho hcheck s).holds hd, ih hrest⟩

/-- All sizes in the ranges pass the check. -/
def Options.AllPass (o : Options) : Prop :=
  o.numVariables.2 < Text.literalBound - 1 ∧ 0 < o.clauseLength

/-- No size in the ranges passes the check. -/
def Options.NonePasses (o : Options) : Prop :=
  Text.literalBound - 1 ≤ o.numVariables.1 ∨ o.clauseLength = 0

theorem Options.AllPass.check (h : o.AllPass) (hcheck : o.check = .ok ()) (hd : o.Allows d) :
    d.check = .ok () := by
  have hpos := (check_eq_ok_iff.1 hcheck).1
  exact Generation.check_eq_ok_iff.2 ⟨Nat.lt_of_lt_of_le hpos hd.numVariables.1,
    Nat.lt_of_le_of_lt hd.numVariables.2 h.1, hd.clauseLength ▸ h.2⟩

theorem Options.NonePasses.check (h : o.NonePasses) (hd : o.Allows d) : d.check ≠ .ok () := by
  intro hok
  obtain ⟨-, hlt, hk⟩ := Generation.check_eq_ok_iff.1 hok
  rcases h with hle | hzero
  · exact absurd (Nat.lt_of_le_of_lt (hle.trans hd.numVariables.1) hlt) (Nat.lt_irrefl _)
  · rw [hd.clauseLength, hzero] at hk
    exact absurd hk (Nat.lt_irrefl _)

/-! ### Items -/

theorem makeItem_of_refused {cause : Difficulty.Error} (hd : d.check = .error cause) :
    makeItem o index d = (.ok (.error (.generation (.difficulty cause))) : Checked _) := by
  unfold makeItem
  rw [ofText_of_refused hd]
  rfl

theorem makeItem_of_check (o : Options) (index : Nat) (hd : d.check = .ok ()) :
    (∃ fault, makeItem o index d = (.error fault : Checked _)) ∨
      ∃ i, makeItem o index d = (.ok (.ok i) : Checked _) := by
  unfold makeItem
  rcases ofText_of_check hd (itemSeed o index) o.planted with ⟨fault, h⟩ | ⟨⟨f, model⟩, h⟩
  · exact .inl ⟨fault, by rw [h]; rfl⟩
  · exact .inr ⟨_, by rw [h]; rfl⟩

theorem nextItem_of_draw {s s' : ChaCha} (h : drawDifficulty o s = .ok (d, s')) :
    nextItem o index s = makeItem o index d >>= fun i => pure (i, s') := by
  unfold nextItem
  rw [h]
  rfl

/-- All that can come of the next item: words are wanting, its size is refused, it faults or it is
made. -/
theorem nextItem_cases (o : Options) (index : Nat) (s : ChaCha) :
    (∃ fault, drawDifficulty o s = .error fault ∧
      nextItem o index s = (.error fault : Checked _)) ∨
    ∃ d s', drawDifficulty o s = .ok (d, s') ∧
      ((∃ cause, d.check = .error cause ∧
          nextItem o index s = (.ok (.error (.generation (.difficulty cause))) : Checked _)) ∨
        d.check = .ok () ∧ ((∃ fault, nextItem o index s = (.error fault : Checked _)) ∨
          ∃ i, nextItem o index s = (.ok (.ok (i, s')) : Checked _))) := by
  cases hdraw : drawDifficulty o s with
  | error fault =>
    refine .inl ⟨fault, rfl, ?_⟩
    unfold nextItem
    rw [hdraw]
    rfl
  | ok r =>
    obtain ⟨d, s'⟩ := r
    refine .inr ⟨d, s', rfl, ?_⟩
    rw [nextItem_of_draw hdraw]
    cases hd : d.check with
    | error cause => exact .inl ⟨cause, rfl, by rw [makeItem_of_refused hd]; rfl⟩
    | ok u =>
      refine .inr ⟨rfl, ?_⟩
      rcases makeItem_of_check o index hd with ⟨fault, h⟩ | ⟨i, h⟩
      · exact .inl ⟨fault, by rw [h]; rfl⟩
      · exact .inr ⟨i, by rw [h]; rfl⟩

/-- Items are made up to the first size that is refused. -/
theorem refusedAt_of_itemsFrom {count : Nat} {done all : List Item} {e : Error} {s : ChaCha}
    (h : itemsFrom o count index done s = (all, (.ok (.error e) : Checked _))) :
    ∃ made : List Item, all = made.reverse ++ done ∧ made.length < count ∧
      RefusedAt o s made.length e := by
  induction count generalizing index done s with
  | zero => cases h
  | succ count ih =>
    rw [itemsFrom] at h
    rcases nextItem_cases o index s with ⟨fault, -, hnext⟩ | ⟨d, s', hdraw, hnext⟩
    · rw [hnext] at h
      cases h
    · rcases hnext with ⟨cause, hd, hnext⟩ | ⟨hd, ⟨fault, hnext⟩ | ⟨i, hnext⟩⟩
      · rw [hnext] at h
        cases h
        refine ⟨[], rfl, Nat.succ_pos count, [], d, cause, ?_, rfl, List.forall_mem_nil _, hd,
          rfl⟩
        rw [sizesFrom, hdraw]
        rfl
      · rw [hnext] at h
        cases h
      · rw [hnext] at h
        obtain ⟨made, rfl, hlt, passed, x, cause, hsizes, hlength, hpassed, hx, rfl⟩ := ih h
        refine ⟨i :: made, by simp, Nat.succ_lt_succ hlt, d :: passed, x, cause, ?_,
          congrArg (· + 1) hlength, List.forall_mem_cons.2 ⟨hd, hpassed⟩, hx, rfl⟩
        rw [List.length_cons, sizesFrom, hdraw, Checked.ok_bind]
        dsimp only
        rw [hsizes]
        rfl

/-- The source that the sizes of a batch are drawn from. -/
def Options.source (o : Options) : ChaCha :=
  .ofSeed (.ofText o.seed)

theorem items_of_room (hroom : o.numInstances * 24 ≤ memoryLimit) :
    items o = ((itemsFrom o o.numInstances 0 [] o.source).1.reverse,
      (itemsFrom o o.numInstances 0 [] o.source).2) := by
  unfold items
  rw [reserve_of_le hroom]
  rfl

theorem refusedAt_of_items {e : Error} (h : (items o).2 = (.ok (.error e) : Checked _)) :
    o.numInstances * 24 ≤ memoryLimit ∧ (items o).1.length < o.numInstances ∧
      RefusedAt o o.source (items o).1.length e := by
  by_cases hroom : o.numInstances * 24 ≤ memoryLimit
  · rw [items_of_room hroom] at h ⊢
    rcases hrun : itemsFrom o o.numInstances 0 [] o.source with ⟨all, ending⟩
    rw [hrun] at h
    obtain rfl : ending = (.ok (.error e) : Checked _) := h
    obtain ⟨made, rfl, hlt, hat⟩ := refusedAt_of_itemsFrom hrun
    rw [List.append_nil, List.reverse_reverse]
    exact ⟨hroom, hlt, hat⟩
  · unfold items at h
    rw [reserve_of_lt (Nat.lt_of_not_le hroom)] at h
    cases h

section Decided

variable (ho : o.FitsWords) (hcheck : o.check = .ok ())
include ho hcheck

/-- If no size passes then the first one is refused. -/
theorem items_of_nonePasses (hnone : o.NonePasses) (hroom : o.numInstances * 24 ≤ memoryLimit)
    (hn : 0 < o.numInstances) :
    items o = ([], (.error .drawsExhausted : Checked _)) ∨
      ∃ cause, items o = ([], (.ok (.error (.generation (.difficulty cause))) : Checked _)) := by
  obtain ⟨count, hcount⟩ := Nat.exists_eq_succ_of_ne_zero hn.ne'
  rw [items_of_room hroom, hcount, itemsFrom]
  rcases nextItem_cases o 0 o.source with ⟨fault, hdraw, hnext⟩ | ⟨d, s', hdraw, hnext⟩
  · rcases drawDifficulty_gives ho hcheck o.source with ⟨h, -⟩ | ⟨d, s', h, -⟩
    · rw [h] at hdraw
      cases hdraw
      rw [hnext]
      exact .inl rfl
    · rw [h] at hdraw
      cases hdraw
  · have hd := hnone.check ((drawDifficulty_gives ho hcheck o.source).holds hdraw)
    rcases hnext with ⟨cause, -, hnext⟩ | ⟨hok, -⟩
    · rw [hnext]
      exact .inr ⟨cause, rfl⟩
    · exact absurd hok hd

/-- What is refused is a size that was drawn. -/
theorem not_allPass_of_refusedAt {s : ChaCha} {count : Nat} {e : Error}
    (h : RefusedAt o s count e) : ¬ o.AllPass := by
  obtain ⟨passed, d, cause, hsizes, -, -, hd, -⟩ := h
  have hallows := allows_of_sizesFrom ho hcheck hsizes d (by simp)
  intro hall
  rw [hall.check hcheck hallows] at hd
  cases hd

theorem eq_zero_of_refusedAt (hnone : o.NonePasses) {s : ChaCha} {count : Nat} {e : Error}
    (h : RefusedAt o s count e) : count = 0 := by
  obtain ⟨passed, d, cause, hsizes, rfl, hpassed, -, -⟩ := h
  rw [List.length_eq_zero_iff, List.eq_nil_iff_forall_not_mem]
  intro x hx
  have hallows := allows_of_sizesFrom ho hcheck hsizes x (List.mem_append_left _ hx)
  exact hnone.check hallows (hpassed x hx)

end Decided

/-! ### Refusals -/

variable {programs : String → Option Program} {w w' : World} {directory : String} {e : Error}

/-- The batch fails, and not because of its files. -/
def Refuses (programs : String → Option Program) (o : Options) (directory : String) (w : World)
    (e : Error) (w' : World) : Prop :=
  (write (World.host programs) o directory).run.run w = (.error e, w') ∧ ∀ cause, e ≠ .files cause

/-- The source has too few words for the batch. -/
def Starves (programs : String → Option Program) (o : Options) (directory : String) (w : World) :
    Prop :=
  ((write (World.host programs) o directory).run.run w).1 = .ok (.error .drawsExhausted)

theorem ne_files_of_check (h : o.check = .error e) (cause : Files.Error) : e ≠ .files cause := by
  rintro rfl
  unfold Options.check at h
  dsimp only at h
  split_ifs at h
  · cases h
  · cases h

/-- Writing fails only because of the files. -/
theorem files_of_writeFiles {files : List (String × List UInt8)}
    (h : (writeFiles (World.host programs) directory files).run.run w = (.error e, w')) :
    ∃ cause, e = .files cause := by
  induction files generalizing w with
  | nil => cases h
  | cons file files ih =>
    obtain ⟨name, content⟩ := file
    rw [writeFiles] at h
    cases hd : w.disk.writeFile (Files.joinPath directory name) content with
    | error cause =>
      have hw : (liftM ((World.host programs).writeFile (Files.joinPath directory name) content) :
          ExceptT Error (StateM World) _).run.run w = (.ok (.error cause), w) := by
        rw [World.run_lift, World.writeFile_of_error hd]
      rw [World.run_bind _ hw] at h
      cases h
      exact ⟨cause, rfl⟩
    | ok disk =>
      have hw : (liftM ((World.host programs).writeFile (Files.joinPath directory name) content) :
          ExceptT Error (StateM World) _).run.run w = (.ok (.ok ()), { w with disk }) := by
        rw [World.run_lift, World.writeFile_of_ok hd]
      rw [World.run_bind _ hw] at h
      exact ih h

/-- What a refused batch did before. -/
theorem Refuses.cases (h : Refuses programs o directory w e w') :
    o.check = .error e ∧ w' = w ∨
      o.check = .ok () ∧ ∃ disk, w.disk.makeDirs directory = .ok disk ∧
        (writeFiles (World.host programs) directory ((items o).1.flatMap Item.files)).run.run
          { w with disk } = (.ok (), w') ∧
        (items o).2 = (.ok (.error e) : Checked _) := by
  obtain ⟨h, hfiles⟩ := h
  cases hcheck : o.check with
  | error e' =>
    rw [write_of_check hcheck] at h
    cases h
    exact .inl ⟨rfl, rfl⟩
  | ok u =>
    refine .inr ⟨rfl, ?_⟩
    cases hdirs : w.disk.makeDirs directory with
    | error cause =>
      rw [write_of_makeDirs hcheck hdirs] at h
      cases h
      exact absurd rfl (hfiles cause)
    | ok disk =>
      refine ⟨disk, rfl, ?_⟩
      rw [write_of_dirs hcheck hdirs] at h
      rcases hw : (writeFiles (World.host programs) directory
        ((items o).1.flatMap Item.files)).run.run { w with disk } with ⟨e' | u, w₁⟩
      · rw [World.run_bind_of_error hw] at h
        cases h
        obtain ⟨cause, rfl⟩ := files_of_writeFiles hw
        exact absurd rfl (hfiles cause)
      · rw [World.run_bind _ hw] at h
        generalize (items o).2 = ending at h ⊢
        rcases ending with fault | ⟨e' | _⟩
        · cases h
        · cases h
          exact ⟨rfl, rfl⟩
        · cases h

/-- The disk is as it was, but for the directory. -/
def Unwritten (directory : String) (w w' : World) : Prop :=
  w' = w ∨ ∃ disk, w.disk.makeDirs directory = .ok disk ∧ w' = { w with disk }

/-- The options settle whether a size is refused. -/
def Options.Decided (o : Options) : Prop :=
  o.numInstances = 0 ∨ o.AllPass ∨ o.NonePasses

theorem Options.Decided.nonePasses (h : o.Decided) (ho : o.FitsWords) (hcheck : o.check = .ok ())
    {s : ChaCha} {count : Nat} {e : Error} (hlt : count < o.numInstances)
    (hat : RefusedAt o s count e) : o.NonePasses :=
  (h.resolve_left (Nat.ne_zero_of_lt hlt)).resolve_left (not_allPass_of_refusedAt ho hcheck hat)

theorem Refuses.unwritten (ho : o.FitsWords) (hdecided : o.check = .ok () → o.Decided)
    (h : Refuses programs o directory w e w') : Unwritten directory w w' := by
  rcases h.cases with ⟨-, rfl⟩ | ⟨hcheck, disk, hdirs, hw, hend⟩
  · exact .inl rfl
  · obtain ⟨-, hlt, hat⟩ := refusedAt_of_items hend
    have hnone := (hdecided hcheck).nonePasses ho hcheck hlt hat
    have hnil := List.length_eq_zero_iff.1 (eq_zero_of_refusedAt ho hcheck hnone hat)
    rw [hnil] at hw
    cases hw
    exact .inr ⟨disk, hdirs, rfl⟩

/-- If the options settle whether sizes pass, they settle whether the batch is refused. -/
theorem exists_refuses_iff (ho : o.FitsWords) (hdecided : o.check = .ok () → o.Decided)
    (hwords : ¬ Starves programs o directory w) :
    (∃ e w', Refuses programs o directory w e w') ↔ (∃ e, o.check = .error e) ∨
      o.check = .ok () ∧ o.NonePasses ∧ 0 < o.numInstances ∧ o.numInstances * 24 ≤ memoryLimit ∧
        ∃ disk, w.disk.makeDirs directory = .ok disk := by
  constructor
  · rintro ⟨e, w', h⟩
    rcases h.cases with ⟨hcheck, -⟩ | ⟨hcheck, disk, hdirs, -, hend⟩
    · exact .inl ⟨e, hcheck⟩
    · obtain ⟨hroom, hlt, hat⟩ := refusedAt_of_items hend
      exact .inr ⟨hcheck, (hdecided hcheck).nonePasses ho hcheck hlt hat, Nat.zero_lt_of_lt hlt,
        hroom, disk, hdirs⟩
  · rintro (⟨e, hcheck⟩ | ⟨hcheck, hnone, hn, hroom, disk, hdirs⟩)
    · exact ⟨e, w, write_of_check hcheck, ne_files_of_check hcheck⟩
    · have hrun : (write (World.host programs) o directory).run.run w = _ :=
        write_of_dirs hcheck hdirs
      rcases items_of_nonePasses ho hcheck hnone hroom hn with hitems | ⟨cause, hitems⟩
      · rw [hitems] at hrun
        exact absurd (congrArg Prod.fst hrun) hwords
      · rw [hitems] at hrun
        exact ⟨_, _, hrun, fun _ => nofun⟩

/-- A batch that is refused by the check of its ranges has done nothing. One that is refused later
has written the files of all items before the first size that does not pass. If the options settle
whether sizes pass, that is the first size of all: no file is written, and batches with other seeds
are refused as well. -/
theorem refused_unwritten (ho : o.FitsWords) (programs : String → Option Program)
    (directory : String) (w : World) :
    (∀ e w', Refuses programs o directory w e w' →
      o.check = .error e ∧ w' = w ∨
      ∃ disk, w.disk.makeDirs directory = .ok disk ∧
        (writeFiles (World.host programs) directory ((items o).1.flatMap Item.files)).run.run
          { w with disk } = (.ok (), w') ∧
        (items o).1.length < o.numInstances ∧ RefusedAt o o.source (items o).1.length e) ∧
    ((o.check = .ok () → o.Decided) →
      (∀ e w', Refuses programs o directory w e w' → Unwritten directory w w') ∧
      ∀ seed, ¬ Starves programs o directory w →
        ¬ Starves programs { o with seed } directory w →
        ((∃ e w', Refuses programs o directory w e w') ↔
          ∃ e w', Refuses programs { o with seed } directory w e w')) := by
  refine ⟨fun e w' h => ?_, fun hdecided => ⟨fun e w' h => h.unwritten ho hdecided,
    fun seed hwords hwords' => ?_⟩⟩
  · rcases h.cases with hcheck | ⟨-, disk, hdirs, hw, hend⟩
    · exact .inl hcheck
    · exact .inr ⟨disk, hdirs, hw, (refusedAt_of_items hend).2⟩
  · have ho' : { o with seed }.FitsWords := ⟨ho.numVariables, ho.numClauses⟩
    rw [exists_refuses_iff ho hdecided hwords, exists_refuses_iff ho' hdecided hwords']
    rfl

/-- The range ends one past the greatest number of variables that passes. -/
def lastVariables (seed : String) : Options where
  numInstances := 2
  numVariables := (2147483646, 2147483647)
  numClauses := (0, 0)
  clauseLength := 1
  seed := seed

/-- With one seed the second size is refused, after the first formula was written; with another one
no size is. -/
theorem refused_unwritten_after_first :
    (∃ w', Refuses (fun _ => none) (lastVariables "2") "d" {}
        (.generation (.difficulty (.badVariableCount 2147483647))) w' ∧
      RefusedAt (lastVariables "2") (lastVariables "2").source 1
        (.generation (.difficulty (.badVariableCount 2147483647))) ∧
      w'.disk.readFile "d/random_0000_k1_v2147483646_c0.cnf" =
        .ok (Text.toBytes "p cnf 2147483646 0\n")) ∧
    ¬ ∃ e w', Refuses (fun _ => none) (lastVariables "0") "d" {} e w' := by
  have hitems : (items (lastVariables "2")).2.run =
        .ok (.error (.generation (.difficulty (.badVariableCount 2147483647)))) ∧
      (items (lastVariables "2")).1.flatMap Item.files =
        [("random_0000_k1_v2147483646_c0.cnf", Text.toBytes "p cnf 2147483646 0\n")] ∧
      (items (lastVariables "2")).1.length = 1 ∧
      (items (lastVariables "0")).2.run = .ok (.ok ()) := by
    decide +kernel
  obtain ⟨hend, hfiles, hlength, hmade⟩ := hitems
  have hopens : ∀ file ∈ [("random_0000_k1_v2147483646_c0.cnf",
      Text.toBytes "p cnf 2147483646 0\n")], Files.Disk.Opens "d" file.1 :=
    List.forall_mem_singleton.2 (FitsNew.opens (by decide))
  have hempty : ({ disk := newDisk } : World).disk.Holds "d" [] :=
    Files.Disk.holds_nil_iff.2 lookup_new
  obtain ⟨w', hw⟩ := exists_writeFiles (fun _ => none) hempty hopens (by simp)
  have hrefuses : Refuses (fun _ => none) (lastVariables "2") "d" {}
      (.generation (.difficulty (.badVariableCount 2147483647))) w' := by
    refine ⟨?_, fun _ => nofun⟩
    rw [write_of_dirs rfl makeDirs_new, hfiles]
    refine (World.run_bind () hw _).trans ?_
    rw [hend]
    rfl
  refine ⟨⟨w', hrefuses, ?_, ?_⟩, ?_⟩
  · obtain ⟨h, -⟩ := refused_unwritten (o := lastVariables "2") ⟨by decide, by decide⟩
      (fun _ => none) "d" {}
    rcases h _ _ hrefuses with ⟨hcheck, -⟩ | ⟨_, -, -, -, hat⟩
    · cases hcheck
    · rwa [hlength] at hat
  · have hholds := holds_of_writeFiles hempty
      (List.forall_mem_singleton.2 (hopens _ List.mem_cons_self).entry) (by simp) hw
    have hread := hholds.readFile List.mem_cons_self
    have hpath : Files.joinPath "d" "random_0000_k1_v2147483646_c0.cnf" =
        "d/random_0000_k1_v2147483646_c0.cnf" := by decide
    rwa [hpath] at hread
  · rintro ⟨e, w', h⟩
    rcases h.cases with ⟨hcheck, -⟩ | ⟨-, -, -, -, hend⟩
    · cases hcheck
    · cases hmade.symm.trans hend

end SatWalk.Batch
