import SatWalk.Dimacs.Writer
import SatWalk.Proofs.Dimacs.Format
import SatWalk.Proofs.Formula.Truth
import SatWalk.Proofs.Text.Numerals

/-! What is written is read back. The written text has a problem line and a line for each clause,
none of them faulty, and its literals are those of the clauses with a zero after each. What was
read fits into machine words, so it can be written and read again. -/

namespace SatWalk

theorem Formula.ofClauses_eq_ok_iff {numVariables : Nat} {cs : List Clause} {f : Formula} :
    ofClauses numVariables cs = .ok f ↔
      f = ⟨numVariables, cs.toArray⟩ ∧ f.validate = .ok () := by
  rw [ofClauses, Checked.bind_eq_ok_iff]
  constructor
  · rintro ⟨u, hu, h⟩
    cases h
    exact ⟨rfl, hu⟩
  · rintro ⟨rfl, h⟩
    exact ⟨(), h, rfl⟩

namespace Dimacs

/-! ### Written lines -/

def problemLine (numVariables numClauses : Nat) : List Char :=
  ['p'] ++ ' ' :: (['c', 'n', 'f'] ++ ' ' ::
    (Text.writeNatural numVariables ++ ' ' :: Text.writeNatural numClauses))

def clauseLine (c : Clause) : List Char :=
  c.flatMap (fun l => Text.writeInteger l ++ [' ']) ++ ['0']

theorem writeProblem_eq (n m : Nat) : writeProblem n m = problemLine n m ++ ['\n'] := by
  have hstart : "p cnf ".toList = ['p', ' ', 'c', 'n', 'f', ' '] := String.toList_ofList
  unfold writeProblem
  rw [hstart]
  simp [problemLine]

theorem writeClause_eq (c : Clause) : writeClause c = clauseLine c ++ ['\n'] := by
  rw [writeClause, clauseLine, List.append_assoc]
  rfl

theorem parts_problemLine (n m : Nat) : Text.parts (problemLine n m) =
    [['p'], ['c', 'n', 'f'], Text.writeNatural n, Text.writeNatural m] := by
  have hvisible (n : Nat) : Text.parts (Text.writeNatural n) = [Text.writeNatural n] :=
    Text.parts_of_visible (fun _ => Text.not_isBlank_of_mem_writeNatural)
      (Text.writeNatural_ne_nil n)
  rw [problemLine, Text.parts_append_cons rfl, Text.parts_append_cons rfl,
    Text.parts_append_cons rfl, hvisible, hvisible]
  rfl

/-- The zero at the end is one more literal. -/
theorem parts_clauseLine (c : Clause) :
    Text.parts (clauseLine c) = (c ++ [0]).map Text.writeInteger := by
  induction c with
  | nil => rfl
  | cons l c ih =>
    have hvisible : Text.parts (Text.writeInteger l) = [Text.writeInteger l] :=
      Text.parts_of_visible (fun _ => Text.not_isBlank_of_mem_writeInteger)
        (Text.writeInteger_ne_nil l)
    have hline : clauseLine (l :: c) = Text.writeInteger l ++ ' ' :: clauseLine c := by
      simp [clauseLine]
    rw [hline, Text.parts_append_cons rfl, hvisible, ih]
    rfl

theorem lineFeed_not_mem_problemLine (n m : Nat) : '\n' ∉ problemLine n m := by
  have hnatural (n : Nat) : '\n' ∉ Text.writeNatural n := by
    intro h
    exact absurd (Text.not_isBlank_of_mem_writeNatural h) (by decide)
  simp [problemLine, hnatural]

theorem lineFeed_not_mem_clauseLine (c : Clause) : '\n' ∉ clauseLine c := by
  have hinteger (z : Int) : '\n' ∉ Text.writeInteger z := by
    intro h
    exact absurd (Text.not_isBlank_of_mem_writeInteger h) (by decide)
  simp [clauseLine, hinteger]

theorem first?_problemLine (n m number : Nat) :
    Line.first? ⟨problemLine n m, number⟩ = some 'p' :=
  rfl

/-- A line of a clause starts with a digit or a minus. -/
theorem first?_clauseLine (c : Clause) (number : Nat) :
    ∃ first, Line.first? ⟨clauseLine c, number⟩ = some first ∧
      (first.isDigit = true ∨ first = '-') := by
  obtain ⟨z, rest, hline⟩ : ∃ z rest, clauseLine c = Text.writeInteger z ++ rest := by
    cases c with
    | nil => exact ⟨0, [], rfl⟩
    | cons l c => exact ⟨l, ' ' :: clauseLine c, by simp [clauseLine]⟩
  obtain ⟨first, cs, hz, hfirst⟩ := Text.writeInteger_eq_cons z
  have hvisible : Text.isBlank first = false :=
    Text.not_isBlank_of_mem_writeInteger (hz ▸ List.mem_cons_self)
  refine ⟨first, ?_, hfirst⟩
  rw [Line.first?, Text.firstVisible?, hline, hz]
  simp [hvisible]

theorem first?_clauseLine_ne {c : Char} (hdigit : c.isDigit = false) (hminus : c ≠ '-')
    (clause : Clause) (number : Nat) : Line.first? ⟨clauseLine clause, number⟩ ≠ some c := by
  intro h
  obtain ⟨first, hfirst, hc⟩ := first?_clauseLine clause number
  rw [h] at hfirst
  cases hfirst
  rw [hdigit] at hc
  exact hc.elim nofun hminus

/-! ### The written text -/

/-- The lines of the text, without the empty part after its last line feed. -/
def writtenLines (f : Formula) : List (List Char) :=
  problemLine f.numVariables f.numClauses :: f.clauses.toList.map clauseLine

theorem splitOn_clauses (cs : List Clause) :
    (cs.flatMap writeClause).splitOn '\n' = cs.map clauseLine ++ [[]] := by
  induction cs with
  | nil => rfl
  | cons c cs ih =>
    rw [List.flatMap_cons, writeClause_eq, List.append_assoc, List.singleton_append,
      List.splitOn_append_cons_self_of_not_mem (lineFeed_not_mem_clauseLine c), ih]
    rfl

theorem splitOn_write (f : Formula) :
    (write f).toList.splitOn '\n' = writtenLines f ++ [[]] := by
  rw [write, String.toList_ofList, writeProblem_eq, List.append_assoc, List.singleton_append,
    List.splitOn_append_cons_self_of_not_mem (lineFeed_not_mem_problemLine _ _), splitOn_clauses]
  rfl

theorem effective_clauses (number : Nat) (cs : List Clause) :
    effective (numbered number (cs.map clauseLine ++ [[]])) =
      numbered number (cs.map clauseLine) := by
  induction cs generalizing number with
  | nil => rfl
  | cons c cs ih =>
    obtain ⟨first, hfirst, -⟩ := first?_clauseLine c number
    rw [List.map_cons, List.cons_append, numbered_cons, numbered_cons, effective_cons, ih,
      if_neg (first?_clauseLine_ne rfl (by decide) c number), if_neg]
    rintro (h | h)
    · rw [h] at hfirst
      contradiction
    · exact first?_clauseLine_ne rfl (by decide) c number h

theorem effective_written (number : Nat) (f : Formula) :
    effective (numbered number (writtenLines f ++ [[]])) = numbered number (writtenLines f) := by
  rw [writtenLines, List.cons_append, numbered_cons, numbered_cons, effective_cons,
    effective_clauses, first?_problemLine]
  rfl

theorem effectiveLines_write (f : Formula) :
    effectiveLines (write f).toList = numbered 1 (writtenLines f) := by
  rw [effectiveLines, splitOn_write, effective_written]

/-! ### Reading the written text -/

theorem counts?_problemLine {n m : Nat} (hn : n < Text.countBound) (hm : m < Text.countBound)
    (number : Nat) : Line.counts? ⟨problemLine n m, number⟩ = some (n, m) := by
  have hread {n : Nat} (hn : n < Text.countBound) :
      Text.readNatural? Text.countBound (Text.writeNatural n) = some n :=
    Text.readNatural?_eq_some_iff.2 ⟨.digits (Text.readDigits?_writeNatural n), hn⟩
  rw [Line.counts?, Line.words, parts_problemLine]
  simp [hread hn, hread hm]

theorem readInteger?_writeInteger {l : Literal} (h : l.FitsWord) :
    Text.readInteger? Text.literalBound (Text.writeInteger l) = some l :=
  Text.readInteger?_eq_some_iff.2 ⟨Text.isInteger_writeInteger l, h⟩

theorem filterMap_readInteger?_writeInteger {ls : List Literal}
    (h : ∀ l ∈ ls, l.FitsWord) :
    (ls.map Text.writeInteger).filterMap (Text.readInteger? Text.literalBound) = ls := by
  induction ls with
  | nil => rfl
  | cons l ls ih =>
    rw [List.forall_mem_cons] at h
    rw [List.map_cons, List.filterMap_cons_some (readInteger?_writeInteger h.1), ih h.2]

section ClauseLine

variable {c : Clause} (h : ∀ l ∈ c, l.FitsWord) (number : Nat)
include h

theorem fitsWord_append_zero : ∀ l ∈ c ++ [0], Literal.FitsWord l := by
  rw [List.forall_mem_append, List.forall_mem_singleton]
  exact ⟨h, by decide, by decide⟩

/-- The literals of a clause and the zero after them. -/
theorem literals_clauseLine : Line.literals ⟨clauseLine c, number⟩ = c ++ [0] := by
  rw [Line.literals, Line.words, parts_clauseLine]
  exact filterMap_readInteger?_writeInteger (fitsWord_append_zero h)

theorem not_faulty_clauseLine (e : Error) : ¬ Line.Faulty ⟨clauseLine c, number⟩ e := by
  rintro (⟨hp, -⟩ | ⟨-, hwords, -, hword⟩)
  · exact first?_clauseLine_ne rfl (by decide) c number hp
  · rw [Line.words, parts_clauseLine] at hwords
    have hmem := hwords ▸ List.mem_append_cons_self
    obtain ⟨l, hl, rfl⟩ := List.mem_map.1 hmem
    rw [readInteger?_writeInteger (fitsWord_append_zero h l hl)] at hword
    contradiction

end ClauseLine

theorem content_mem_of_mem_numbered {number : Nat} {lines : List (List Char)} {l : Line}
    (h : l ∈ numbered number lines) : l.content ∈ lines := by
  obtain ⟨⟨content, k⟩, hmem, rfl⟩ := List.mem_map.1 h
  exact List.fst_mem_of_mem_zipIdx hmem

theorem faultless_written {f : Formula} (h : f.FitsWords) (number : Nat) :
    Faultless (numbered number (writtenLines f)) := by
  rw [writtenLines, numbered_cons, Faultless, List.forall_mem_cons]
  constructor
  · rintro e (⟨-, hcounts⟩ | ⟨hp, -⟩)
    · rw [counts?_problemLine h.numVariables_lt h.numClauses_lt] at hcounts
      contradiction
    · exact hp (first?_problemLine _ _ _)
  · rintro ⟨content, number⟩ hl e
    obtain ⟨c, hc, rfl⟩ := List.mem_map.1 (content_mem_of_mem_numbered hl)
    exact not_faulty_clauseLine (h.literals c (Array.mem_toList_iff.1 hc)) number e

theorem filter_clauses (number : Nat) (cs : List Clause) :
    (numbered number (cs.map clauseLine)).filter (·.first? = some 'p') = [] := by
  rw [List.filter_eq_nil_iff]
  rintro ⟨content, number⟩ hl
  obtain ⟨c, -, rfl⟩ := List.mem_map.1 (content_mem_of_mem_numbered hl)
  simpa using first?_clauseLine_ne rfl (by decide) c number

/-- The problem line is the first line and the only one. -/
theorem filter_written (number : Nat) (f : Formula) :
    (numbered number (writtenLines f)).filter (·.first? = some 'p') =
      [⟨problemLine f.numVariables f.numClauses, number⟩] := by
  rw [writtenLines, numbered_cons, List.filter_cons_of_pos (by simp [first?_problemLine]),
    filter_clauses]

theorem header?_written {f : Formula} (h : f.FitsWords) (number : Nat) :
    header? (numbered number (writtenLines f)) = some (f.numVariables, f.numClauses) := by
  rw [header?, filter_written]
  exact counts?_problemLine h.numVariables_lt h.numClauses_lt number

theorem stream_clauses {cs : List Clause} (h : ∀ c ∈ cs, ∀ l ∈ c, l.FitsWord)
    (number : Nat) : stream (numbered number (cs.map clauseLine)) = cs.flatMap (· ++ [0]) := by
  induction cs generalizing number with
  | nil => rfl
  | cons c cs ih =>
    rw [List.forall_mem_cons] at h
    have hp := first?_clauseLine_ne (c := 'p') rfl (by decide) c number
    rw [List.map_cons, numbered_cons, stream, List.filter_cons_of_pos (by simpa using hp),
      List.flatMap_cons, literals_clauseLine h.1, List.flatMap_cons]
    exact congrArg _ (ih h.2 (number + 1))

theorem stream_written {f : Formula} (h : f.FitsWords) (number : Nat) :
    stream (numbered number (writtenLines f)) = f.clauses.toList.flatMap (· ++ [0]) := by
  rw [writtenLines, numbered_cons, stream,
    List.filter_cons_of_neg (by simp [first?_problemLine])]
  exact stream_clauses (fun c hc => h.literals c (Array.mem_toList_iff.1 hc)) (number + 1)

theorem clausesOf_flatMap {cs : List Clause} (h : ∀ c ∈ cs, 0 ∉ c) :
    clausesOf (cs.flatMap (· ++ [0])) = cs := by
  induction cs with
  | nil => rfl
  | cons c cs ih =>
    rw [List.forall_mem_cons] at h
    rw [List.flatMap_cons, List.append_assoc, List.singleton_append, clausesOf_append_zero h.1,
      ih h.2]

theorem zero_not_mem {f : Formula} (hf : f.Valid) {c : Clause} (hc : c ∈ f.clauses) : 0 ∉ c :=
  fun h => ((hf c hc).2 0 h).1 rfl

theorem clausesOf_written {f : Formula} (hf : f.Valid) (h : f.FitsWords) (number : Nat) :
    clausesOf (stream (numbered number (writtenLines f))) = f.clauses.toList := by
  rw [stream_written h]
  exact clausesOf_flatMap fun c hc => zero_not_mem hf (Array.mem_toList_iff.1 hc)

/-- Lines that end with a problem line stand for its formula if their clauses do. -/
theorem formulaOf_eq {f : Formula} {lines : List Line} (hf : f.validate = .ok ())
    (hheader : header? lines = some (f.numVariables, f.numClauses))
    (hclauses : clausesOf (stream lines) = f.clauses.toList) :
    formulaOf lines = .ok (f, none) := by
  have hnumVariables : numVariables lines = f.numVariables := by
    rw [numVariables, hheader]
  have hmiscount : miscount lines = none := by
    rw [miscount, hheader, hclauses]
    exact if_pos rfl
  have hf' : Formula.ofClauses f.numVariables f.clauses.toList = .ok f :=
    Formula.ofClauses_eq_ok_iff.2 ⟨rfl, hf⟩
  rw [formulaOf, hclauses, hnumVariables, hmiscount, hf']

/-- What is written is read back, and the declared number of clauses is right. -/
theorem readWithMiscount_write {f : Formula} (hf : f.validate = .ok ()) (h : f.FitsWords) :
    readWithMiscount (Text.toBytes (write f)) = .ok (f, none) := by
  have hlines := effectiveLines_write f
  rw [readWithMiscount_of_faultless (hlines ▸ faultless_written h 1), hlines]
  exact formulaOf_eq hf (header?_written h 1)
    (clausesOf_written (Formula.validate_eq_ok_iff.1 hf) h 1)

/-! ### What was read -/

/-- Everything read so far fits into words. -/
structure Progress.FitsWords (p : Progress) : Prop where
  header : ∀ counts ∈ p.header, counts.1 < Text.countBound
  largest : p.largest ≤ Text.literalBound
  clauses : ∀ c ∈ p.clauses, ∀ l ∈ c, l.FitsWord
  clause : ∀ l ∈ p.clause, l.FitsWord

theorem lt_of_readProblem? {line : List Char} {counts : Nat × Nat}
    (h : readProblem? line = some counts) : counts.1 < Text.countBound := by
  unfold readProblem? at h
  split at h
  · split_ifs at h
    obtain ⟨n, hn, h⟩ := Option.bind_eq_some_iff.1 h
    obtain ⟨m, -, h⟩ := Option.bind_eq_some_iff.1 h
    cases h
    exact (Text.readNatural?_eq_some_iff.1 hn).2
  · contradiction

namespace Progress.FitsWords

variable {p p' : Progress}

theorem empty : ({} : Progress).FitsWords :=
  ⟨nofun, Nat.zero_le _, nofun, nofun⟩

theorem add (h : p.FitsWords) {l : Literal} (hl : l.FitsWord) : (p.add l).FitsWords := by
  rw [Progress.add]
  split_ifs with h0
  · refine ⟨h.header, h.largest, ?_, List.forall_mem_nil _⟩
    rw [List.forall_mem_cons]
    exact ⟨fun l hl => h.clause l (List.mem_reverse.1 hl), h.clauses⟩
  · exact ⟨h.header, Nat.max_le.2 ⟨h.largest, hl.var_le⟩, h.clauses,
      List.forall_mem_cons.2 ⟨hl, h.clause⟩⟩

theorem readWords (h : p.FitsWords) {number : Nat} {ws : List (List Char)}
    (hr : Dimacs.readWords number ws p = .ok p') : p'.FitsWords := by
  induction ws generalizing p with
  | nil =>
    cases hr
    exact h
  | cons w ws ih =>
    rw [Dimacs.readWords] at hr
    cases hw : Text.readInteger? Text.literalBound w with
    | none =>
      rw [hw] at hr
      cases hr
    | some l =>
      rw [hw] at hr
      exact ih (h.add (Text.readInteger?_eq_some_iff.1 hw).2) hr

theorem readLines (h : p.FitsWords) {number : Nat} {lines : List (List UInt8)}
    (hr : Dimacs.readLines number lines p = .ok p') : p'.FitsWords := by
  induction lines generalizing number p with
  | nil =>
    cases hr
    exact h
  | cons bytes lines ih =>
    rw [Dimacs.readLines] at hr
    split at hr
    · contradiction
    · dsimp only at hr
      split at hr
      · exact ih h hr
      · cases hr
        exact h
      · split at hr
        · contradiction
        · next counts hcounts =>
          have hp : FitsWords { p with header := some counts } := by
            refine ⟨?_, h.largest, h.clauses, h.clause⟩
            rintro _ ⟨⟩
            exact lt_of_readProblem? hcounts
          exact ih hp hr
      · split at hr
        · contradiction
        · next hwords => exact ih (h.readWords hwords) hr

theorem numVariables_lt (h : p.FitsWords) : p.numVariables < Text.countBound := by
  rw [Progress.numVariables]
  split
  · next hheader => exact h.header _ hheader
  · exact Nat.lt_of_le_of_lt h.largest (by decide)

theorem allClauses (h : p.FitsWords) : ∀ c ∈ p.allClauses, ∀ l ∈ c, l.FitsWord := by
  intro c hc
  rw [Progress.allClauses, List.mem_reverse] at hc
  split_ifs at hc
  · exact h.clauses c hc
  · obtain rfl | hc := List.mem_cons.1 hc
    · exact fun l hl => h.clause l (List.mem_reverse.1 hl)
    · exact h.clauses c hc

end Progress.FitsWords

theorem fitsWords_of_read {bytes : List UInt8} {f : Formula} (h : read bytes = .ok f)
    (hn : f.numClauses < Text.countBound) : f.validate = .ok () ∧ f.FitsWords := by
  obtain ⟨⟨_, _⟩, hread, hf⟩ := Checked.bind_eq_ok_iff.1 h
  cases hf
  obtain ⟨p, hp, hbuild⟩ := Checked.bind_eq_ok_iff.1 hread
  have hwords := Progress.FitsWords.empty.readLines hp
  cases hclauses : Formula.ofClauses p.numVariables p.allClauses with
  | error cause =>
    rw [hclauses] at hbuild
    cases hbuild
  | ok f' =>
    rw [hclauses] at hbuild
    cases hbuild
    obtain ⟨rfl, hvalid⟩ := Formula.ofClauses_eq_ok_iff.1 hclauses
    refine ⟨hvalid, hwords.numVariables_lt, hn, fun c hc => hwords.allClauses c ?_⟩
    exact List.mem_toArray.1 hc

/-- What is written is read back as it was, without a wrong count; so what was read can be written
and read again. -/
theorem read_write :
    (∀ f : Formula, f.validate = .ok () → f.FitsWords →
      readWithMiscount (Text.toBytes (write f)) = .ok (f, none)) ∧
    ∀ (bytes : List UInt8) (f : Formula), read bytes = .ok f →
      f.numClauses < Text.countBound → read (Text.toBytes (write f)) = read bytes := by
  refine ⟨fun f => readWithMiscount_write, fun bytes f h hn => ?_⟩
  obtain ⟨hvalid, hwords⟩ := fitsWords_of_read h hn
  rw [h, read, readWithMiscount_write hvalid hwords]
  rfl

theorem read_write_least_literal :
    readWithMiscount (Text.toBytes (write ⟨0x80000000, #[[-0x80000000, 1], [2]]⟩)) =
      .ok (⟨0x80000000, #[[-0x80000000, 1], [2]]⟩, none) :=
  read_write.1 _ (by decide) ⟨by decide, by decide, by decide⟩

end Dimacs

end SatWalk
