import SatWalk.Proofs.Files.Disk
import SatWalk.Proofs.Files.World
import SatWalk.Proofs.Text.Numerals

/-! What a directory holds. A name joined to the path of a directory leads to the entry of that
name, so files that are written one after the other to an empty directory, each under a name of its
own, are what the directory lists, and each is read as it was written. Those that are formula files
are what is loaded from it. -/

namespace SatWalk.Files

variable {directory name : String} {content : List UInt8}

/-! ### Joined paths -/

/-- A name that a path enters. -/
structure IsEntry (name : String) : Prop where
  oneStep : '/' ∉ name.toList
  nonempty : name ≠ ""
  moves : name ≠ "." ∧ name ≠ ".."

theorem splitSlash_ne_nil (cs : List Char) : splitSlash cs ≠ [] := by
  cases cs with
  | nil => simp [splitSlash]
  | cons c cs =>
    rw [splitSlash]
    split_ifs
    · simp
    · split <;> simp

theorem splitSlash_append (as bs : List Char) :
    splitSlash (as ++ '/' :: bs) = splitSlash as ++ splitSlash bs := by
  induction as with
  | nil => simp [splitSlash]
  | cons a as ih =>
    rw [List.cons_append, splitSlash, splitSlash, ih]
    split_ifs
    · rfl
    · obtain ⟨part, parts, h⟩ := List.exists_cons_of_ne_nil (splitSlash_ne_nil as)
      simp [h]

namespace IsEntry

variable (h : IsEntry name)
include h

theorem toList_ne_nil : name.toList ≠ [] := fun e =>
  h.nonempty (String.toList_eq_nil_iff.1 e)

theorem ofName : Step.ofName name = .enter name := by
  rw [Step.ofName, if_neg h.moves.1, if_neg h.moves.2]

theorem fromRoot : (Path.ofText name).fromRoot = false :=
  beq_false_of_ne fun e => h.oneStep (List.mem_of_mem_head? e)

/-- A text that ends in a slash and a name, whatever stands before them. -/
theorem ofText {text : String} {front : List Char}
    (ht : text.toList = front ++ '/' :: name.toList) :
    Path.ofText text = ⟨text.toList.head? == some '/',
      (((splitSlash front).filter (!·.isEmpty)).map fun part => .ofName (String.ofList part)) ++
        [.enter name], false⟩ := by
  have hvisible : [name.toList].filter (!·.isEmpty) = [name.toList] :=
    List.filter_cons_of_pos (by simpa using h.toList_ne_nil)
  have hclosed : (some name.toList == some []) = false :=
    beq_false_of_ne fun e => h.toList_ne_nil (Option.some.inj e)
  unfold Path.ofText
  dsimp only
  rw [ht, splitSlash_append, splitSlash_of_not_mem h.oneStep, List.filter_append, hvisible,
    List.map_append, List.map_singleton, String.ofList_toList, h.ofName, List.getLast?_concat,
    hclosed]

/-- A joined name is one more step. -/
theorem ofText_joinPath (hd : directory ≠ "") : Path.ofText (joinPath directory name) =
    ⟨(Path.ofText directory).fromRoot, (Path.ofText directory).steps ++ [.enter name], false⟩ := by
  obtain ⟨c, cs, hcs⟩ := List.exists_cons_of_ne_nil fun e => hd (String.toList_eq_nil_iff.1 e)
  have hroot {text : String} (front : List Char) (ht : text.toList = c :: front) :
      (text.toList.head? == some '/') = (Path.ofText directory).fromRoot := by
    unfold Path.ofText
    rw [ht, hcs]
    rfl
  rw [joinPath, if_neg (by simp [hd, h.fromRoot])]
  split_ifs with hlast
  · -- the slash at the end of the directory is the one before the name
    obtain ⟨front, hfront⟩ := List.getLast?_eq_some_iff.1 hlast
    have htext : (directory ++ name).toList = front ++ '/' :: name.toList := by
      rw [String.toList_append, hfront, List.append_assoc, List.singleton_append]
    rw [h.ofText htext, hroot (cs ++ name.toList) (by rw [String.toList_append, hcs]; rfl)]
    congr 2
    unfold Path.ofText
    dsimp only
    rw [hfront, splitSlash_append, List.filter_append]
    simp [splitSlash]
  · have htext : (directory ++ "/" ++ name).toList = directory.toList ++ '/' :: name.toList := by
      rw [String.toList_append, String.toList_append, List.append_assoc]
      rfl
    rw [h.ofText htext, hroot (cs ++ '/' :: name.toList) (by rw [htext, hcs]; rfl)]
    rfl

/-- A joined name is the last name of the path. -/
theorem fileName?_joinPath (hd : directory ≠ "") :
    fileName? (joinPath directory name) = some name := by
  have hmoves : (Path.ofText (joinPath directory name)).moves =
      (Path.ofText directory).moves ++ [.enter name] := by
    rw [Path.moves, h.ofText_joinPath hd, List.filter_append]
    rfl
  rw [fileName?, Path.name?, hmoves, List.getLast?_concat]

end IsEntry

/-- Names that no slash starts lead to different places. -/
theorem joinPath_inj {name' : String} (h : IsEntry name) (h' : IsEntry name')
    (heq : joinPath directory name = joinPath directory name') : name = name' := by
  rw [← String.toList_inj] at heq ⊢
  unfold joinPath at heq
  rw [h.fromRoot, h'.fromRoot] at heq
  split_ifs at heq <;> simpa using heq

/-- The ending of a name is what follows its last point. -/
theorem extension?_eq (front ending : List Char) (h : name.toList = front ++ '.' :: ending)
    (hfront : front ≠ []) (hending : '.' ∉ ending) :
    extension? name = some (String.ofList ending) := by
  have hrun : ∀ c ∈ ending.reverse, decide (c ≠ '.') = true := by
    intro c hc
    exact decide_eq_true fun e => hending (e ▸ List.mem_reverse.1 hc)
  have hstop : ∀ c ∈ ('.' :: front.reverse).head?, decide (c ≠ '.') = false := by
    rintro c ⟨⟩
    rfl
  obtain ⟨c, cs, hcs⟩ := List.exists_cons_of_ne_nil (fun e => hfront (List.reverse_eq_nil_iff.1 e))
  have hreverse : name.toList.reverse = ending.reverse ++ '.' :: front.reverse := by
    rw [h]
    simp
  unfold extension?
  dsimp only
  rw [hreverse, Text.takeWhile_run hrun hstop, Text.dropWhile_run hrun hstop, hcs,
    List.reverse_reverse]
  rfl

theorem Path.read?_eq_ok {text : String} {p : Path} (h : Path.read? text = .ok p) :
    p = Path.ofText text ∧ text ≠ "" := by
  unfold Path.read? at h
  split_ifs at h with hnul hempty hlong
  cases h
  exact ⟨rfl, hempty⟩

/-! ### Entries -/

namespace Tree

variable {entries : List (String × Tree)} {new t t' : Tree} {place : List String}

theorem putEntry_of_not_mem (h : name ∉ entries.map (·.1)) :
    putEntry name new entries = entries ++ [(name, new)] := by
  induction entries with
  | nil => rfl
  | cons entry entries ih =>
    rw [List.map_cons, List.mem_cons, not_or] at h
    rw [putEntry, if_neg fun e => h.1 e.symm, ih h.2]
    rfl

theorem child?_of_mem (hnodup : (entries.map (·.1)).Nodup) (h : (name, t) ∈ entries) :
    child? name entries = some t := by
  induction entries with
  | nil => cases h
  | cons entry entries ih =>
    rw [List.map_cons, List.nodup_cons] at hnodup
    rw [child?_cons]
    rcases List.mem_cons.1 h with rfl | h
    · rw [if_pos rfl]
    · have hne : entry.1 ≠ name := by
        intro e
        apply hnodup.1
        rw [e]
        exact List.mem_map_of_mem h
      rw [if_neg hne, ih hnodup.2 h]

/-- Something put under a name in a directory is a new entry of the directory. -/
theorem find_put_concat (hput : put new (place ++ [name]) t = .ok t')
    (hfind : find place t = .ok (.directory entries)) :
    find place t' = .ok (.directory (putEntry name new entries)) := by
  induction place generalizing t t' with
  | nil =>
    cases hfind
    obtain ⟨_, c, ⟨⟩, rfl, hc⟩ := put_cons hput
    obtain rfl : c = new := by
      rcases hc with ⟨_, -, hc⟩ | ⟨-, -, rfl⟩
      · exact (Except.ok.inj hc).symm
      · rfl
    rfl
  | cons n place ih =>
    obtain ⟨es, c, rfl, rfl, hc⟩ := put_cons hput
    obtain ⟨_, old, ⟨⟩, hold, hfind⟩ := find_cons_eq_ok_iff.1 hfind
    refine find_cons_eq_ok_iff.2 ⟨_, c, rfl, by rw [child?_putEntry, if_pos rfl], ?_⟩
    rcases hc with ⟨old', hold', hc⟩ | ⟨-, hnil, -⟩
    · obtain rfl : old = old' := Option.some.inj (hold.symm.trans hold')
      exact ih hc hfind
    · exact absurd hnil (by simp)

/-- A directory takes any new name. -/
theorem exists_put (new : Tree) (hfind : find place t = .ok (.directory entries))
    (hnew : child? name entries = none) : ∃ t', put new (place ++ [name]) t = .ok t' := by
  induction place generalizing t with
  | nil =>
    cases hfind
    rw [List.nil_append, put, hnew]
    exact ⟨_, rfl⟩
  | cons n place ih =>
    obtain ⟨es, old, rfl, hold, hfind⟩ := find_cons_eq_ok_iff.1 hfind
    obtain ⟨t', ht'⟩ := ih hfind
    rw [List.cons_append, put, hold]
    dsimp only
    rw [ht']
    exact ⟨_, rfl⟩

theorem child?_of_not_mem (h : name ∉ entries.map (·.1)) : child? name entries = none := by
  induction entries with
  | nil => rfl
  | cons entry entries ih =>
    rw [List.map_cons, List.mem_cons, not_or] at h
    rw [child?_cons, if_neg fun e => h.1 e.symm, ih h.2]

end Tree

namespace Disk

variable {d d' : Disk} {p : Path} {entries : List (String × Tree)} {place : List String}

/-- The path leads to a directory that has these entries. -/
def Lists (d : Disk) (p : Path) (entries : List (String × Tree)) : Prop :=
  ∃ place, d.walk p.fromRoot p.steps = .ok place ∧ d.root.find place = .ok (.directory entries)

theorem walk_concat_eq_ok_iff {fromRoot : Bool} {steps : List Step} {s : Step} :
    d.walk fromRoot (steps ++ [s]) = .ok place ↔
      ∃ before, d.walk fromRoot steps = .ok before ∧ d.advance before s = .ok place := by
  rw [walk, List.foldlM_append, Checked.bind_eq_ok_iff]
  simp only [List.foldlM_cons, List.foldlM_nil, bind_pure]
  rfl

/-- A slash at the end does not matter if there is a directory. -/
theorem find_eq_directory_iff : d.find p = .ok (.directory entries) ↔ d.Lists p entries := by
  unfold find Lists
  rw [Checked.bind_eq_ok_iff]
  refine exists_congr fun place => and_congr_left fun hplace => ?_
  cases p.closed with
  | false => rfl
  | true =>
    rw [if_pos rfl, walk_concat_eq_ok_iff]
    constructor
    · rintro ⟨before, hwalk, hstay⟩
      obtain ⟨_, -, -, rfl⟩ := advance_eq_ok_iff.1 hstay
      exact hwalk
    · intro hwalk
      exact ⟨place, hwalk, advance_eq_ok_iff.2 ⟨entries, hplace, trivial, rfl⟩⟩

theorem lookup_eq_directory_iff : d.lookup directory = .ok (.directory entries) ↔
    Path.read? directory = .ok (Path.ofText directory) ∧
      d.Lists (Path.ofText directory) entries := by
  rw [lookup, Checked.bind_eq_ok_iff]
  simp only [find_eq_directory_iff]
  constructor
  · rintro ⟨p, hp, h⟩
    obtain rfl := (Path.read?_eq_ok hp).1
    exact ⟨hp, h⟩
  · rintro ⟨hp, h⟩
    exact ⟨_, hp, h⟩

/-! ### Files of a directory -/

/-- The joined path can be looked up. -/
structure Opens (directory name : String) : Prop where
  entry : IsEntry name
  short : name.utf8ByteSize ≤ nameLimit
  read : Path.read? (joinPath directory name) = .ok (Path.ofText (joinPath directory name))

/-- The path leads to a directory with these files, each of which has its own name, and with
nothing else. -/
structure Holds (d : Disk) (directory : String) (files : List (String × List UInt8)) : Prop where
  read : Path.read? directory = .ok (Path.ofText directory)
  lists : d.Lists (Path.ofText directory) (files.map fun file => (file.1, .file file.2))
  opens : ∀ file ∈ files, Opens directory file.1
  nodup : (files.map (·.1)).Nodup

variable {files : List (String × List UInt8)}

theorem holds_nil_iff : d.Holds directory [] ↔ d.lookup directory = .ok (.directory []) := by
  rw [lookup_eq_directory_iff]
  constructor
  · intro h
    exact ⟨h.read, h.lists⟩
  · rintro ⟨hread, hlists⟩
    exact ⟨hread, hlists, by simp, List.nodup_nil⟩

namespace Holds

/-- One more file. -/
theorem writeFile (h : d.Holds directory files) (hentry : IsEntry name)
    (hnew : name ∉ files.map (·.1)) (hw : d.writeFile (joinPath directory name) content = .ok d') :
    d'.Holds directory (files ++ [(name, content)]) := by
  obtain ⟨hread, ⟨place, hwalk, hfind⟩, hopens, hnodup⟩ := h
  have hempty := (Path.read?_eq_ok hread).2
  obtain ⟨place', hput, -, hkeeps, hplace⟩ := writeFile_eq_ok hw
  obtain ⟨p, hp, hplace⟩ := Checked.bind_eq_ok_iff.1 hplace
  obtain rfl := (Path.read?_eq_ok hp).1
  -- the way to the directory is the way to the file but for its last step
  rw [hentry.ofText_joinPath hempty, if_neg Bool.false_ne_true, walk_concat_eq_ok_iff] at hplace
  obtain ⟨before, hbefore, hstep⟩ := hplace
  obtain rfl : before = place := Except.ok.inj (hbefore.symm.trans (hkeeps.walk hwalk))
  obtain ⟨_, -, ⟨hshort, -⟩, rfl⟩ := advance_eq_ok_iff.1 hstep
  have hnew' : name ∉ (files.map fun file => (file.1, Tree.file file.2)).map (·.1) := by
    rwa [List.map_map]
  refine ⟨hread, ⟨before, hbefore, ?_⟩, ?_, ?_⟩
  · rw [Tree.find_put_concat hput hfind, Tree.putEntry_of_not_mem hnew', List.map_append]
    rfl
  · intro file hfile
    rcases List.mem_append.1 hfile with hfile | hfile
    · exact hopens file hfile
    · rw [List.mem_singleton.1 hfile]
      exact ⟨hentry, hshort, hp⟩
  · rw [List.map_append, List.map_singleton]
    refine List.nodup_append.2 ⟨hnodup, by simp, ?_⟩
    intro n hn m hm e
    rw [e, List.mem_singleton.1 hm] at hn
    exact hnew hn

variable (h : d.Holds directory files)
include h

/-- A new file can be written. -/
theorem exists_writeFile (content : List UInt8) (hopens : Opens directory name)
    (hnew : name ∉ files.map (·.1)) :
    ∃ d', d.writeFile (joinPath directory name) content = .ok d' := by
  obtain ⟨place, hwalk, hfind⟩ := h.lists
  have hchild : Tree.child? name (files.map fun file => (file.1, Tree.file file.2)) = none := by
    apply Tree.child?_of_not_mem
    rwa [List.map_map]
  obtain ⟨root, hput⟩ := Tree.exists_put (.file content) hfind hchild
  have hbefore : d.beforeLast (Path.ofText (joinPath directory name)) =
      .ok (place, files.map fun file => (file.1, Tree.file file.2), some name) := by
    rw [beforeLast, hopens.entry.ofText_joinPath (Path.read?_eq_ok h.read).2, List.dropLast_concat,
      hwalk, Checked.ok_bind, entriesAt_eq_ok_iff.2 hfind, Checked.ok_bind, List.getLast?_concat]
    rfl
  have hclosed : (Path.ofText (joinPath directory name)).closed = false := by
    rw [hopens.entry.ofText_joinPath (Path.read?_eq_ok h.read).2]
  rw [Disk.writeFile, hopens.read, Checked.ok_bind, hbefore, Checked.ok_bind]
  dsimp only
  rw [hclosed, if_neg Bool.false_ne_true, entry?_eq_ok_iff.2 ⟨hopens.short, hchild⟩,
    Checked.ok_bind, put, hput]
  exact ⟨_, rfl⟩

theorem lookup_file (hmem : (name, content) ∈ files) :
    d.lookup (joinPath directory name) = .ok (.file content) := by
  obtain ⟨place, hwalk, hfind⟩ := h.lists
  obtain ⟨hentry, hshort, hread⟩ := h.opens _ hmem
  have hchild : Tree.child? name (files.map fun file => (file.1, Tree.file file.2)) =
      some (.file content) := by
    apply Tree.child?_of_mem
    · rw [List.map_map]
      exact h.nodup
    · exact List.mem_map_of_mem (f := fun file => (file.1, Tree.file file.2)) hmem
  have hstep : d.advance place (.enter name) = .ok (place ++ [name]) :=
    advance_eq_ok_iff.2 ⟨_, hfind, ⟨hshort, Option.isSome_of_eq_some hchild⟩, rfl⟩
  rw [lookup, hread, Checked.ok_bind, find, hentry.ofText_joinPath (Path.read?_eq_ok h.read).2,
    if_neg Bool.false_ne_true, walk_concat_eq_ok_iff.2 ⟨place, hwalk, hstep⟩, Checked.ok_bind]
  exact Tree.find_concat_eq_ok_iff.2 ⟨_, hfind, hchild⟩

/-- Each file is read as it was written. -/
theorem readFile (hmem : (name, content) ∈ files) :
    d.readFile (joinPath directory name) = .ok content := by
  rw [Disk.readFile, h.lookup_file hmem]
  rfl

/-- The names are listed, and no others. -/
theorem listFiles : d.listFiles directory = .ok (files.map (·.1)) := by
  have hfile : (files.map (·.1)).filter (fun n => d.hasFile (joinPath directory n)) =
      files.map (·.1) := by
    apply List.filter_eq_self.2
    intro n hn
    obtain ⟨file, hmem, rfl⟩ := List.mem_map.1 hn
    rw [hasFile, h.lookup_file hmem]
    rfl
  rw [Disk.listFiles, lookup_eq_directory_iff.2 ⟨h.read, h.lists⟩, Checked.ok_bind]
  refine Eq.trans ?_ (congrArg Except.ok hfile)
  simp [Tree.entries, Function.comp_def]

end Holds

end Disk

end SatWalk.Files

namespace SatWalk.World

open Files (joinPath extension? loadNamed loadDir)

variable {programs : String → Option Program} {w : World} {directory : String}

/-! ### Loading -/

theorem loadNamed_eq {entries : List (String × Formula)}
    (h : ∀ e ∈ entries, ∃ bytes, w.disk.readFile (joinPath directory e.1) = .ok bytes ∧
      Dimacs.read bytes = .ok e.2) :
    (loadNamed (host programs) directory (entries.map (·.1))).run.run w = (.ok entries, w) := by
  induction entries with
  | nil => rfl
  | cons e entries ih =>
    obtain ⟨⟨bytes, hfile, hread⟩, hrest⟩ := List.forall_mem_cons.1 h
    rw [List.map_cons, loadNamed, run_bind e.2 (loadFile_eq hfile hread),
      run_bind entries (ih hrest)]
    rfl

/-- The formulas of a directory are loaded in the order of their names. -/
theorem loadDir_eq {files : List (String × List UInt8)} {entries : List (String × Formula)}
    (h : w.disk.Holds directory files)
    (hnames : (files.map (·.1)).filter (fun n => extension? n = some "cnf") = entries.map (·.1))
    (hentries : ∀ e ∈ entries, ∃ bytes, (e.1, bytes) ∈ files ∧ Dimacs.read bytes = .ok e.2) :
    (loadDir (host programs) directory).run.run w =
      (.ok (entries.mergeSort fun a b => decide (a.1 ≤ b.1)), w) := by
  have hsorted : Files.formulaNames (files.map (·.1)) =
      (entries.mergeSort fun a b => decide (a.1 ≤ b.1)).map (·.1) := by
    rw [Files.formulaNames, hnames]
    refine (List.map_mergeSort ?_).symm
    intro a _ b _
    rfl
  unfold loadDir
  refine (run_bind (w.disk.listFiles directory) rfl _).trans ?_
  rw [h.listFiles]
  dsimp only
  rw [hsorted]
  apply loadNamed_eq
  intro e he
  obtain ⟨bytes, hmem, hread⟩ := hentries e ((List.mergeSort_perm _ _).mem_iff.1 he)
  exact ⟨bytes, h.readFile hmem, hread⟩

end SatWalk.World
