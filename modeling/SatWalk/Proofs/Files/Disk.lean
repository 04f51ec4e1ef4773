import Mathlib.Tactic.SplitIfs
import SatWalk.Fault
import SatWalk.Files.Disk

/-! What a written file changes. The path that it was written by leads to what was written. Whatever
was found before is found after it, a file or a directory as before, so all other paths lead where
they led, and other files hold what they held. -/

namespace SatWalk.Files

namespace Tree

variable {new t t' x : Tree} {name : String} {rest place : List String}

/-! ### Trees -/

theorem child?_cons (n : String) (entry : String × Tree) (entries : List (String × Tree)) :
    child? n (entry :: entries) = if entry.1 = n then some entry.2 else child? n entries := by
  unfold child?
  rw [List.find?_cons]
  split_ifs with h <;> simp [h]

theorem child?_putEntry (name n : String) (t : Tree) (entries : List (String × Tree)) :
    child? n (putEntry name t entries) = if name = n then some t else child? n entries := by
  induction entries with
  | nil => rw [putEntry, child?_cons]
  | cons entry entries ih =>
    obtain ⟨m, old⟩ := entry
    rw [putEntry, child?_cons]
    by_cases hm : m = name
    · subst hm
      rw [if_pos rfl, child?_cons]
      split_ifs <;> rfl
    · rw [if_neg hm, child?_cons, ih]
      by_cases hn : name = n
      · rw [if_pos hn, if_pos hn, if_neg fun h => hm (h.trans hn.symm)]
      · rw [if_neg hn, if_neg hn]

theorem find_cons_eq_ok_iff : find (name :: rest) t = .ok x ↔
    ∃ entries c, t = .directory entries ∧ child? name entries = some c ∧ find rest c = .ok x := by
  cases t with
  | file content => exact iff_of_false nofun (by rintro ⟨_, _, ⟨⟩, _⟩)
  | directory entries =>
    rw [find]
    constructor
    · intro h
      cases hc : child? name entries with
      | none =>
        rw [hc] at h
        cases h
      | some c =>
        rw [hc] at h
        exact ⟨entries, c, rfl, hc, h⟩
    · rintro ⟨_, c, ⟨⟩, hc, h⟩
      rw [hc]
      exact h

/-- What is under a name is an entry of the directory before it. -/
theorem find_concat_eq_ok_iff : find (place ++ [name]) t = .ok x ↔
    ∃ entries, find place t = .ok (.directory entries) ∧ child? name entries = some x := by
  induction place generalizing t with
  | nil =>
    rw [List.nil_append, find_cons_eq_ok_iff]
    constructor
    · rintro ⟨entries, c, rfl, hc, h⟩
      cases h
      exact ⟨entries, rfl, hc⟩
    · rintro ⟨entries, h, hc⟩
      cases h
      exact ⟨entries, x, rfl, hc, rfl⟩
  | cons n place ih =>
    simp only [List.cons_append, find_cons_eq_ok_iff, ih]
    constructor
    · rintro ⟨es, c, rfl, hc, entries, h, hx⟩
      exact ⟨entries, ⟨es, c, rfl, hc, h⟩, hx⟩
    · rintro ⟨entries, ⟨es, c, rfl, hc, h⟩, hx⟩
      exact ⟨es, c, rfl, hc, entries, h, hx⟩

/-- Putting goes on in an entry, or makes one at the last name. -/
theorem put_cons (h : put new (name :: rest) t = .ok t') : ∃ entries c,
    t = .directory entries ∧ t' = .directory (putEntry name c entries) ∧
      ((∃ old, child? name entries = some old ∧ put new rest old = .ok c) ∨
        child? name entries = none ∧ rest = [] ∧ c = new) := by
  cases t with
  | file content => cases h
  | directory entries =>
    rw [put] at h
    cases hc : child? name entries with
    | none =>
      rw [hc] at h
      cases rest with
      | nil =>
        cases h
        exact ⟨entries, new, rfl, rfl, .inr ⟨hc, rfl, rfl⟩⟩
      | cons n rest => cases h
    | some old =>
      rw [hc] at h
      obtain ⟨c, hput, h⟩ := Checked.bind_eq_ok_iff.1 h
      cases h
      exact ⟨entries, c, rfl, rfl, .inl ⟨old, hc, hput⟩⟩

/-- What is put somewhere is found there. -/
theorem find_put_self {names : List String} (h : put new names t = .ok t') :
    find names t' = .ok new := by
  induction names generalizing t t' with
  | nil =>
    cases h
    rfl
  | cons name rest ih =>
    obtain ⟨entries, c, rfl, rfl, hc⟩ := put_cons h
    refine find_cons_eq_ok_iff.2 ⟨_, c, rfl, by rw [child?_putEntry, if_pos rfl], ?_⟩
    rcases hc with ⟨old, -, hc⟩ | ⟨-, rfl, rfl⟩
    · exact ih hc
    · rfl

/-- A file that is put in the place of none or of another file leaves all else as it was. -/
theorem find_put {names : List String} (hnew : new.isFile = true)
    (hold : ∀ y, find names t = .ok y → y.isFile = true) (h : put new names t = .ok t')
    (hx : find place t = .ok x) :
    ∃ x', find place t' = .ok x' ∧ x'.isFile = x.isFile ∧
      (x.isFile = true → place ≠ names → x' = x) := by
  induction names generalizing t t' place with
  | nil =>
    cases h
    have ht := hold t rfl
    cases place with
    | nil =>
      cases hx
      exact ⟨new, rfl, hnew.trans ht.symm, fun _ hne => absurd rfl hne⟩
    | cons n place =>
      obtain ⟨_, _, rfl, -⟩ := find_cons_eq_ok_iff.1 hx
      cases ht
  | cons name rest ih =>
    obtain ⟨entries, c, rfl, rfl, hc⟩ := put_cons h
    cases place with
    | nil =>
      cases hx
      exact ⟨_, rfl, rfl, nofun⟩
    | cons n place =>
      obtain ⟨_, y, ⟨⟩, hy, hx⟩ := find_cons_eq_ok_iff.1 hx
      -- the changed entry goes by the induction, all others stay
      by_cases hn : name = n
      · subst hn
        rcases hc with ⟨old, hold', hput⟩ | ⟨hnone, -⟩
        · obtain rfl : old = y := Option.some.inj (hold'.symm.trans hy)
          obtain ⟨x', hx', hfile, hsame⟩ := ih
            (fun z hz => hold z (find_cons_eq_ok_iff.2 ⟨entries, old, rfl, hy, hz⟩)) hput hx
          refine ⟨x', find_cons_eq_ok_iff.2 ⟨_, c, rfl, ?_, hx'⟩, hfile, fun hf hne => ?_⟩
          · rw [child?_putEntry, if_pos rfl]
          · exact hsame hf fun e => hne (congrArg _ e)
        · rw [hnone] at hy
          cases hy
      · refine ⟨x, find_cons_eq_ok_iff.2 ⟨_, y, rfl, ?_, hx⟩, rfl, fun _ _ => rfl⟩
        rw [child?_putEntry, if_neg hn, hy]

end Tree

/-! ### Paths -/

namespace Step

/-- Whether a directory with these entries lets a step pass. -/
def Passes (entries : List (String × Tree)) : Step → Prop
  | .enter name => name.utf8ByteSize ≤ nameLimit ∧ (Tree.child? name entries).isSome = true
  | _ => True

/-- The place one step further. -/
def move (place : List String) : Step → List String
  | .stay => place
  | .up => place.dropLast
  | .enter name => place ++ [name]

end Step

namespace Disk

variable {d d' : Disk} {place place' : List String} {path other : String} {content bytes : List UInt8}

theorem entriesAt_eq_ok_iff {entries : List (String × Tree)} :
    d.entriesAt place = .ok entries ↔ d.root.find place = .ok (.directory entries) := by
  rw [entriesAt, Checked.bind_eq_ok_iff]
  constructor
  · rintro ⟨_ | es, hfind, h⟩
    · cases h
    · cases h
      exact hfind
  · intro h
    exact ⟨_, h, rfl⟩

theorem entry?_eq_ok_iff {entries : List (String × Tree)} {name : String} {t : Option Tree} :
    entry? entries name = .ok t ↔
      name.utf8ByteSize ≤ nameLimit ∧ Tree.child? name entries = t := by
  unfold entry?
  split_ifs with h
  · exact iff_of_false nofun fun h' => absurd h'.1 (Nat.not_le.2 h)
  · rw [and_iff_right (Nat.not_lt.1 h), Except.ok.injEq]

theorem advance_eq_ok_iff {s : Step} : d.advance place s = .ok place' ↔
    ∃ entries, d.root.find place = .ok (.directory entries) ∧ s.Passes entries ∧
      place' = s.move place := by
  rw [advance, Checked.bind_eq_ok_iff]
  simp only [entriesAt_eq_ok_iff]
  refine exists_congr fun entries => and_congr_right fun _ => ?_
  constructor
  · intro h
    cases s with
    | stay =>
      cases h
      exact ⟨trivial, rfl⟩
    | up =>
      cases h
      exact ⟨trivial, rfl⟩
    | enter name =>
      obtain ⟨_ | t, ht, h⟩ := Checked.bind_eq_ok_iff.1 h
      · cases h
      · cases h
        obtain ⟨hsize, hchild⟩ := entry?_eq_ok_iff.1 ht
        exact ⟨⟨hsize, Option.isSome_of_eq_some hchild⟩, rfl⟩
  · rintro ⟨hpass, rfl⟩
    cases s with
    | stay => rfl
    | up => rfl
    | enter name =>
      obtain ⟨t, ht⟩ := Option.isSome_iff_exists.1 hpass.2
      exact Checked.bind_eq_ok_iff.2 ⟨some t, entry?_eq_ok_iff.2 ⟨hpass.1, ht⟩, rfl⟩

/-- The place that a path leads to. -/
def placeOf (d : Disk) (path : String) : Except Error (List String) := do
  let p ← Path.read? path
  d.walk p.fromRoot (if p.closed then p.steps ++ [.stay] else p.steps)

theorem readFile_eq_ok_iff : d.readFile path = .ok bytes ↔
    ∃ place, d.placeOf path = .ok place ∧ d.root.find place = .ok (.file bytes) := by
  have hlookup {t : Tree} : d.lookup path = .ok t ↔
      ∃ place, d.placeOf path = .ok place ∧ d.root.find place = .ok t := by
    simp only [lookup, find, placeOf, Checked.bind_eq_ok_iff]
    constructor
    · rintro ⟨p, hp, place, hplace, h⟩
      exact ⟨place, ⟨p, hp, hplace⟩, h⟩
    · rintro ⟨place, ⟨p, hp, hplace⟩, h⟩
      exact ⟨p, hp, place, hplace, h⟩
  rw [readFile, Checked.bind_eq_ok_iff, ← hlookup]
  constructor
  · rintro ⟨_ | _, ht, h⟩
    · cases h
      exact ht
    · cases h
  · intro h
    exact ⟨_, h, rfl⟩

/-- Whatever is found on one disk is found on the other, a file or a directory on both. -/
structure Keeps (d d' : Disk) : Prop where
  here : d'.here = d.here
  find : ∀ {place t}, d.root.find place = .ok t →
    ∃ t', d'.root.find place = .ok t' ∧ t'.isFile = t.isFile

namespace Keeps

variable (h : d.Keeps d')
include h

theorem directory {entries : List (String × Tree)}
    (hd : d.root.find place = .ok (.directory entries)) :
    ∃ entries', d'.root.find place = .ok (.directory entries') := by
  obtain ⟨_ | entries', hfind, hfile⟩ := h.find hd
  · cases hfile
  · exact ⟨entries', hfind⟩

theorem advance {s : Step} (hs : d.advance place s = .ok place') :
    d'.advance place s = .ok place' := by
  obtain ⟨entries, hd, hpass, rfl⟩ := advance_eq_ok_iff.1 hs
  obtain ⟨entries', hd'⟩ := h.directory hd
  refine advance_eq_ok_iff.2 ⟨entries', hd', ?_, rfl⟩
  cases s with
  | stay => trivial
  | up => trivial
  | enter name =>
    obtain ⟨t, ht⟩ := Option.isSome_iff_exists.1 hpass.2
    obtain ⟨t', ht', -⟩ := h.find (Tree.find_concat_eq_ok_iff.2 ⟨entries, hd, ht⟩)
    obtain ⟨es, hes, hchild⟩ := Tree.find_concat_eq_ok_iff.1 ht'
    obtain rfl : entries' = es := Tree.directory.inj (Except.ok.inj (hd'.symm.trans hes))
    exact ⟨hpass.1, Option.isSome_of_eq_some hchild⟩

theorem foldlM_advance {steps : List Step} (hw : steps.foldlM d.advance place = .ok place') :
    steps.foldlM d'.advance place = .ok place' := by
  induction steps generalizing place with
  | nil => exact hw
  | cons s steps ih =>
    rw [List.foldlM_cons] at hw ⊢
    obtain ⟨next, hs, hw⟩ := Checked.bind_eq_ok_iff.1 hw
    exact Checked.bind_eq_ok_iff.2 ⟨next, h.advance hs, ih hw⟩

theorem walk {fromRoot : Bool} {steps : List Step} (hw : d.walk fromRoot steps = .ok place) :
    d'.walk fromRoot steps = .ok place := by
  rw [Disk.walk, h.here]
  exact h.foldlM_advance hw

theorem placeOf (hp : d.placeOf path = .ok place) : d'.placeOf path = .ok place := by
  obtain ⟨p, hread, hwalk⟩ := Checked.bind_eq_ok_iff.1 hp
  exact Checked.bind_eq_ok_iff.2 ⟨p, hread, h.walk hwalk⟩

end Keeps

/-! ### Writing -/

theorem beforeLast_eq_ok {p : Path} {entries : List (String × Tree)} {name : String}
    (h : d.beforeLast p = .ok (place, entries, some name)) :
    d.walk p.fromRoot p.steps.dropLast = .ok place ∧
      d.root.find place = .ok (.directory entries) ∧
      p.steps = p.steps.dropLast ++ [.enter name] := by
  obtain ⟨place', hwalk, h⟩ := Checked.bind_eq_ok_iff.1 h
  obtain ⟨entries', hentries, h⟩ := Checked.bind_eq_ok_iff.1 h
  split at h
  · next last hlast =>
    cases h
    obtain ⟨front, hfront⟩ := List.getLast?_eq_some_iff.1 hlast
    refine ⟨hwalk, entriesAt_eq_ok_iff.1 hentries, ?_⟩
    rw [hfront, List.dropLast_concat]
  · cases h

/-- Putting a file where none is a directory keeps all places. -/
theorem keeps_put (hput : d.put place (.file content) = .ok d')
    (hold : ∀ t, d.root.find place = .ok t → t.isFile = true) : d.Keeps d' := by
  obtain ⟨root, hroot, h⟩ := Checked.bind_eq_ok_iff.1 hput
  cases h
  refine ⟨rfl, fun hfind => ?_⟩
  obtain ⟨t', hfind', hfile, -⟩ := Tree.find_put rfl hold hroot hfind
  exact ⟨t', hfind', hfile⟩

/-- A written file stands at the place that its path leads to, where nothing or a file stood. -/
theorem writeFile_eq_ok (h : d.writeFile path content = .ok d') : ∃ place,
    Tree.put (.file content) place d.root = .ok d'.root ∧
      (∀ t, d.root.find place = .ok t → t.isFile = true) ∧ d.Keeps d' ∧
      d'.placeOf path = .ok place := by
  obtain ⟨p, hp, h⟩ := Checked.bind_eq_ok_iff.1 h
  obtain ⟨⟨place, entries, _ | name⟩, hlast, h⟩ := Checked.bind_eq_ok_iff.1 h
  · cases h
  obtain ⟨hwalk, hplace, hsteps⟩ := beforeLast_eq_ok hlast
  dsimp only at h
  split at h
  · cases h
  next hclosed =>
  obtain ⟨t, ht, h⟩ := Checked.bind_eq_ok_iff.1 h
  obtain ⟨hsize, hchild⟩ := entry?_eq_ok_iff.1 ht
  -- a directory with the name would have been refused
  have hput : d.put (place ++ [name]) (.file content) = .ok d' ∧ ∀ y ∈ t, y.isFile = true := by
    rcases t with _ | (_ | _)
    · exact ⟨h, nofun⟩
    · refine ⟨h, ?_⟩
      rintro _ ⟨⟩
      rfl
    · cases h
  have hold : ∀ y, d.root.find (place ++ [name]) = .ok y → y.isFile = true := by
    intro y hy
    obtain ⟨es, hes, hy⟩ := Tree.find_concat_eq_ok_iff.1 hy
    obtain rfl : entries = es := Tree.directory.inj (Except.ok.inj (hplace.symm.trans hes))
    exact hput.2 y (hchild.symm.trans hy)
  have hkeeps := keeps_put hput.1 hold
  obtain ⟨root, hroot, h⟩ := Checked.bind_eq_ok_iff.1 hput.1
  cases h
  refine ⟨place ++ [name], hroot, hold, hkeeps, Checked.bind_eq_ok_iff.2 ⟨p, hp, ?_⟩⟩
  obtain ⟨es, hes, hname⟩ := Tree.find_concat_eq_ok_iff.1 (Tree.find_put_self hroot)
  rw [if_neg hclosed, hsteps, walk, List.foldlM_append]
  refine Checked.bind_eq_ok_iff.2 ⟨place, hkeeps.walk hwalk, ?_⟩
  refine Checked.bind_eq_ok_iff.2 ⟨place ++ [name], advance_eq_ok_iff.2 ⟨es, hes, ?_, rfl⟩, rfl⟩
  exact ⟨hsize, Option.isSome_of_eq_some hname⟩

/-- What is written to a file is read from it. -/
theorem readFile_writeFile (h : d.writeFile path content = .ok d') :
    d'.readFile path = .ok content := by
  obtain ⟨place, hput, -, -, hplace⟩ := writeFile_eq_ok h
  exact readFile_eq_ok_iff.2 ⟨place, hplace, Tree.find_put_self hput⟩

/-- Other files hold what they held. -/
theorem readFile_writeFile_of_ne (h : d.writeFile path content = .ok d')
    (hne : d'.placeOf other ≠ d'.placeOf path) (hother : d.readFile other = .ok bytes) :
    d'.readFile other = .ok bytes := by
  obtain ⟨place, hput, hold, hkeeps, hplace⟩ := writeFile_eq_ok h
  obtain ⟨place', hplace', hfind⟩ := readFile_eq_ok_iff.1 hother
  have hplace'' := hkeeps.placeOf hplace'
  obtain ⟨t, ht, -, hsame⟩ := Tree.find_put rfl hold hput hfind
  have hapart : place' ≠ place := fun e => hne (by rw [hplace, hplace'', e])
  exact readFile_eq_ok_iff.2 ⟨place', hplace'', hsame rfl hapart ▸ ht⟩

end Disk

theorem Path.read?_eq {text : String} (hnul : '\x00' ∉ text.toList) (hempty : text ≠ "")
    (hshort : text.utf8ByteSize ≤ pathLimit) : Path.read? text = .ok (Path.ofText text) := by
  have hcontains : ¬ text.contains '\x00' = true := by
    rwa [String.contains_char_eq, decide_eq_true_iff]
  rw [Path.read?, if_neg hcontains, if_neg hempty, if_neg (Nat.not_lt.2 hshort)]

/-! ### Names in the working directory -/

/-- A path that is the name of a file. -/
def IsName (name : String) : Prop :=
  '/' ∉ name.toList ∧ '\x00' ∉ name.toList ∧ name ≠ "" ∧ name ≠ "." ∧ name ≠ ".." ∧
    name.utf8ByteSize ≤ nameLimit

instance (name : String) : Decidable (IsName name) :=
  inferInstanceAs (Decidable (_ ∧ _))

theorem splitSlash_of_not_mem {cs : List Char} (h : '/' ∉ cs) : splitSlash cs = [cs] := by
  induction cs with
  | nil => rfl
  | cons c cs ih =>
    rw [List.mem_cons, not_or] at h
    rw [splitSlash, if_neg fun e => h.1 e.symm, ih h.2]

namespace IsName

variable {name : String} (h : IsName name)
include h

theorem ofText : Path.ofText name = ⟨false, [.enter name], false⟩ := by
  obtain ⟨hslash, -, hempty, hhere, habove, -⟩ := h
  have hne : name.toList ≠ [] := fun e => hempty (String.toList_eq_nil_iff.1 e)
  have hroot : (name.toList.head? == some '/') = false := beq_false_of_ne fun e =>
    hslash (List.mem_of_mem_head? e)
  have hclosed : ([name.toList].getLast? == some []) = false := beq_false_of_ne fun e =>
    hne (Option.some.inj e)
  have hvisible : [name.toList].filter (!·.isEmpty) = [name.toList] :=
    List.filter_cons_of_pos (by simpa using hne)
  have hstep : Step.ofName (String.ofList name.toList) = .enter name := by
    rw [String.ofList_toList, Step.ofName, if_neg hhere, if_neg habove]
  unfold Path.ofText
  dsimp only
  rw [splitSlash_of_not_mem hslash, hvisible, hroot, hclosed, List.map_singleton, hstep]

theorem read? : Path.read? name = .ok ⟨false, [.enter name], false⟩ := by
  have hshort : name.utf8ByteSize ≤ nameLimit := h.2.2.2.2.2
  have hlimit : nameLimit < pathLimit := by decide
  rw [Path.read?_eq h.2.1 h.2.2.1 (by omega), h.ofText]

variable {entries : List (String × Tree)} {content : List UInt8}

/-- A file is written to the working directory if no directory there has its name. -/
theorem writeFile (hfile : ∀ t ∈ Tree.child? name entries, t.isFile = true) :
    Disk.writeFile ⟨.directory entries, []⟩ name content =
      .ok ⟨.directory (Tree.putEntry name (.file content) entries), []⟩ := by
  have hbefore : Disk.beforeLast ⟨.directory entries, []⟩ ⟨false, [.enter name], false⟩ =
      .ok ([], entries, some name) := rfl
  have hentry : Disk.entry? entries name = .ok (Tree.child? name entries) :=
    Disk.entry?_eq_ok_iff.2 ⟨h.2.2.2.2.2, rfl⟩
  unfold Disk.writeFile
  rw [h.read?, Checked.ok_bind, hbefore, Checked.ok_bind]
  dsimp only
  rw [if_neg Bool.false_ne_true, hentry, Checked.ok_bind, Disk.put, List.nil_append, Tree.put]
  obtain hchild | ⟨_ | _, hchild⟩ := Option.eq_none_or_eq_some (Tree.child? name entries)
  · rw [hchild]
    rfl
  · rw [hchild]
    rfl
  · cases hfile _ hchild

theorem placeOf (hsome : (Tree.child? name entries).isSome = true) :
    Disk.placeOf ⟨.directory entries, []⟩ name = .ok [name] := by
  rw [Disk.placeOf, h.read?, Checked.ok_bind]
  have hstep : Disk.advance ⟨.directory entries, []⟩ [] (.enter name) = .ok [name] :=
    Disk.advance_eq_ok_iff.2 ⟨entries, rfl, ⟨h.2.2.2.2.2, hsome⟩, rfl⟩
  change List.foldlM _ [] [Step.enter name] = _
  rw [List.foldlM_cons, hstep]
  rfl

end IsName

end SatWalk.Files
