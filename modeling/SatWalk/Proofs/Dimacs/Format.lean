import SatWalk.Dimacs.Reader
import SatWalk.Proofs.Text.Lines
import SatWalk.Proofs.Text.Words

/-! The format of DIMACS text, without reference to a reader, and the proof that the reader accepts
exactly this format. A line is faulty or not whatever stands before it, so the reader fails at
the first faulty line. Without faults the clauses are the parts of one long list of literals,
and the reader's state is what it is after the literals so far. -/

namespace SatWalk.Dimacs

/-! ### The format -/

/-- A line with its number, counted from one. -/
structure Line where
  content : List Char
  number : Nat

namespace Line

def words (l : Line) : List (List Char) :=
  Text.parts l.content

def first? (l : Line) : Option Char :=
  Text.firstVisible? l.content

/-- The two counts of a problem line, its third and fourth word. -/
def counts? (l : Line) : Option (Nat × Nat) :=
  if l.words.take 2 = [['p'], ['c', 'n', 'f']] then do
    let numVariables ← Text.readNatural? Text.countBound (← l.words[2]?)
    let numClauses ← Text.readNatural? Text.countBound (← l.words[3]?)
    return (numVariables, numClauses)
  else none

def literals (l : Line) : List Literal :=
  l.words.filterMap (Text.readInteger? Text.literalBound)

/-- What is wrong with a line: counts that are none, or the first word that is no literal. -/
inductive Faulty (l : Line) : Error → Prop
  | problem (hp : l.first? = some 'p') (hcounts : l.counts? = none) :
      Faulty l (.badProblem l.number (String.ofList (Text.trim l.content)))
  | literal (hp : l.first? ≠ some 'p') {before after : List (List Char)} {word : List Char}
      (hwords : l.words = before ++ word :: after)
      (hbefore : ∀ w ∈ before, (Text.readInteger? Text.literalBound w).isSome)
      (hword : Text.readInteger? Text.literalBound word = none) :
      Faulty l (.badLiteral l.number (String.ofList word))

end Line

/-- The lines from one with the given number on. -/
def numbered (number : Nat) (lines : List (List Char)) : List Line :=
  (lines.zipIdx number).map fun (content, number) => ⟨content, number⟩

/-- The lines before one that starts with a percent sign, without comments and blank lines. -/
def effective (lines : List Line) : List Line :=
  (lines.takeWhile (·.first? ≠ some '%')).filter fun l => l.first? ≠ none ∧ l.first? ≠ some 'c'

def effectiveLines (text : List Char) : List Line :=
  effective (numbered 1 (text.splitOn '\n'))

/-- The literals of all lines that are not problem lines, zeros included. -/
def stream (lines : List Line) : List Literal :=
  (lines.filter (·.first? ≠ some 'p')).flatMap Line.literals

/-- The parts that a zero ends, and the part after the last zero if there is anything in it. -/
def clausesOf (s : List Literal) : List Clause :=
  (s.splitOn 0).dropLast ++ (s.splitOn 0).getLast?.toList.filter (· ≠ [])

/-- The counts of the last problem line. -/
def header? (lines : List Line) : Option (Nat × Nat) :=
  (lines.filter (·.first? = some 'p')).getLast?.bind Line.counts?

/-- The declared number of variables, or else the largest variable. -/
def numVariables (lines : List Line) : Nat :=
  match header? lines with
  | some (declared, _) => declared
  | none => ((stream lines).map Literal.var).max?.getD 0

def miscount (lines : List Line) : Option Miscount :=
  match header? lines with
  | some (_, declared) =>
    let found := (clausesOf (stream lines)).length
    if declared = found then none else some ⟨declared, found⟩
  | none => none

/-! ### One line -/

namespace Line

variable {l : Line} {p p' : Progress} {e : Error}

theorem readProblem?_trim (l : Line) : readProblem? (Text.trim l.content) = l.counts? := by
  rw [readProblem?, Text.words_eq_parts, Text.parts_trim, counts?, words]
  obtain _ | ⟨p, _ | ⟨format, _ | ⟨n, _ | ⟨m, rest⟩⟩⟩⟩ := Text.parts l.content
  all_goals simp

/-- What the reader does with a line that is neither a comment nor the last one. -/
def read (l : Line) (p : Progress) : Except Error Progress :=
  if l.first? = some 'p' then
    match l.counts? with
    | none => .error (.badProblem l.number (String.ofList (Text.trim l.content)))
    | some counts => .ok { p with header := some counts }
  else readWords l.number l.words p

/-- The reader's state after a line without faults. -/
def after (l : Line) (p : Progress) : Progress :=
  if l.first? = some 'p' then { p with header := l.counts? }
  else l.literals.foldl Progress.add p

theorem readWords_eq_error_iff {number : Nat} {ws : List (List Char)} :
    readWords number ws p = .error e ↔ ∃ before word after, ws = before ++ word :: after ∧
      (∀ w ∈ before, (Text.readInteger? Text.literalBound w).isSome) ∧
      Text.readInteger? Text.literalBound word = none ∧
      e = .badLiteral number (String.ofList word) := by
  induction ws generalizing p with
  | nil => simp [readWords]
  | cons w ws ih =>
    rw [readWords]
    cases hw : Text.readInteger? Text.literalBound w with
    | none =>
      constructor
      · intro he
        cases he
        exact ⟨[], w, ws, rfl, by simp, hw, rfl⟩
      · rintro ⟨_ | ⟨w', before⟩, word, after, h, hbefore, hword, rfl⟩
        · cases h
          rfl
        · cases h
          have := hbefore w List.mem_cons_self
          rw [hw] at this
          contradiction
    | some z =>
      rw [ih]
      constructor
      · rintro ⟨before, word, after, rfl, hbefore, h⟩
        refine ⟨w :: before, word, after, rfl, ?_, h⟩
        exact List.forall_mem_cons.2 ⟨by rw [hw]; rfl, hbefore⟩
      · rintro ⟨_ | ⟨w', before⟩, word, after, h, hbefore, hword, he⟩
        · cases h
          rw [hw] at hword
          contradiction
        · cases h
          exact ⟨before, word, after, rfl, (List.forall_mem_cons.1 hbefore).2, hword, he⟩

theorem eq_of_readWords {number : Nat} {ws : List (List Char)}
    (h : readWords number ws p = .ok p') :
    p' = (ws.filterMap (Text.readInteger? Text.literalBound)).foldl Progress.add p := by
  induction ws generalizing p with
  | nil =>
    cases h
    rfl
  | cons w ws ih =>
    rw [readWords] at h
    cases hw : Text.readInteger? Text.literalBound w with
    | none =>
      rw [hw] at h
      cases h
    | some z =>
      rw [hw] at h
      rw [List.filterMap_cons_some hw]
      exact ih h

/-- A line fails with its fault, whatever was read before. -/
theorem read_eq_error_iff : l.read p = .error e ↔ l.Faulty e := by
  rw [read]
  constructor
  · intro h
    split_ifs at h with hp
    · cases hc : l.counts? with
      | none =>
        rw [hc] at h
        cases h
        exact .problem hp hc
      | some counts =>
        rw [hc] at h
        cases h
    · obtain ⟨before, word, after, hwords, hbefore, hword, rfl⟩ := readWords_eq_error_iff.1 h
      exact .literal hp hwords hbefore hword
  · rintro (⟨hp, hcounts⟩ | ⟨hp, hwords, hbefore, hword⟩)
    · rw [if_pos hp, hcounts]
    · rw [if_neg hp]
      exact readWords_eq_error_iff.2 ⟨_, _, _, hwords, hbefore, hword, rfl⟩

/-- Reading goes on after a line only if the line has no fault. -/
theorem read_bind_eq_error_iff {α : Type} {next : Progress → Except Error α} {P : Prop}
    (hnext : ∀ p', next p' = .error e ↔ P) :
    (l.read p >>= next) = .error e ↔ l.Faulty e ∨ (∀ e', ¬ l.Faulty e') ∧ P := by
  cases hread : l.read p with
  | error e' =>
    have hl := read_eq_error_iff.1 hread
    constructor
    · intro h
      cases h
      exact .inl hl
    · rintro (h | ⟨h, -⟩)
      · rw [read_eq_error_iff.2 h] at hread
        cases hread
        rfl
      · exact absurd hl (h e')
  | ok p' =>
    have hl (e' : Error) : ¬ l.Faulty e' := by
      intro h
      rw [read_eq_error_iff.2 h] at hread
      contradiction
    rw [Checked.ok_bind, hnext]
    simp [hl]

theorem eq_of_read (h : l.read p = .ok p') : p' = l.after p := by
  rw [read] at h
  rw [after]
  split_ifs at h ⊢ with hp
  · cases hc : l.counts? with
    | none =>
      rw [hc] at h
      cases h
    | some counts =>
      rw [hc] at h
      cases h
      rfl
  · exact eq_of_readWords h

theorem read_of_not_faulty (h : ∀ e, ¬ l.Faulty e) (p : Progress) : l.read p = .ok (l.after p) := by
  cases hread : l.read p with
  | error e => exact absurd (read_eq_error_iff.1 hread) (h e)
  | ok p' => rw [eq_of_read hread]

end Line

/-! ### All lines -/

theorem numbered_cons (number : Nat) (content : List Char) (lines : List (List Char)) :
    numbered number (content :: lines) = ⟨content, number⟩ :: numbered (number + 1) lines := by
  rw [numbered, List.zipIdx_cons]
  rfl

theorem effective_cons (l : Line) (lines : List Line) : effective (l :: lines) =
    if l.first? = some '%' then []
    else if l.first? = none ∨ l.first? = some 'c' then effective lines
    else l :: effective lines := by
  by_cases hlast : l.first? = some '%'
  · rw [if_pos hlast, effective, List.takeWhile_cons_of_neg (by simpa using hlast)]
    rfl
  · rw [if_neg hlast, effective, List.takeWhile_cons_of_pos (by simpa using hlast)]
    by_cases hskipped : l.first? = none ∨ l.first? = some 'c'
    · have hdropped : ¬ (l.first? ≠ none ∧ l.first? ≠ some 'c') := by
        simpa [Decidable.or_iff_not_imp_left] using hskipped
      rw [if_pos hskipped, List.filter_cons_of_neg (by simpa using hdropped)]
      rfl
    · rw [if_neg hskipped, List.filter_cons_of_pos (by simpa using hskipped)]
      rfl

theorem lineKind_eq (cs : List Char) : lineKind cs =
    match cs.head? with
    | none => .skipped
    | some c =>
      if c = 'c' then .skipped else if c = '%' then .last
      else if c = 'p' then .problem else .literals := by
  cases cs <;> rfl

theorem readLines_cons (l : Line) (rest : List (List UInt8)) (p : Progress) :
    readLines l.number (Text.encode l.content :: rest) p =
      if l.first? = some '%' then .ok p
      else if l.first? = none ∨ l.first? = some 'c' then readLines (l.number + 1) rest p
      else l.read p >>= readLines (l.number + 1) rest := by
  rw [readLines, Text.ofBytes?_encode]
  simp only [String.toList_ofList]
  rw [lineKind_eq, Text.head?_trim, l.readProblem?_trim, Text.words_eq_parts, Text.parts_trim]
  unfold Line.read Line.first? Line.words
  cases hfirst : Text.firstVisible? l.content with
  | none => simp
  | some c =>
    by_cases hc : c = 'c'
    · simp [hc]
    by_cases hlast : c = '%'
    · simp [hlast]
    by_cases hp : c = 'p'
    · simp [hp]
      cases l.counts? <;> rfl
    · simp [hc, hlast, hp]
      cases readWords l.number (Text.parts l.content) p <;> rfl

/-- The reader reads the effective lines one by one. -/
theorem readLines_encode (number : Nat) (lines : List (List Char)) (p : Progress) :
    readLines number (lines.map Text.encode) p =
      (effective (numbered number lines)).foldlM (fun p l => l.read p) p := by
  induction lines generalizing number p with
  | nil => rfl
  | cons content lines ih =>
    rw [List.map_cons, readLines_cons ⟨content, number⟩, numbered_cons, effective_cons]
    split_ifs
    · rfl
    · exact ih (number + 1) p
    · rw [List.foldlM_cons]
      exact congrArg _ (funext fun p => ih (number + 1) p)

/-- No line is faulty. -/
def Faultless (lines : List Line) : Prop :=
  ∀ l ∈ lines, ∀ e, ¬ l.Faulty e

/-- What is wrong with the first faulty line. -/
def FirstFault (lines : List Line) (e : Error) : Prop :=
  ∃ before l after, lines = before ++ l :: after ∧ Faultless before ∧ l.Faulty e

theorem not_firstFault_nil (e : Error) : ¬ FirstFault [] e := by
  rintro ⟨before, l, after, h, -⟩
  exact List.append_ne_nil_of_right_ne_nil before (List.cons_ne_nil l after) h.symm

theorem firstFault_cons {l : Line} {lines : List Line} {e : Error} :
    FirstFault (l :: lines) e ↔
      l.Faulty e ∨ (∀ e', ¬ l.Faulty e') ∧ FirstFault lines e := by
  constructor
  · rintro ⟨_ | ⟨b, before⟩, l', after, h, hbefore, hl⟩
    · cases h
      exact .inl hl
    · cases h
      obtain ⟨hb, hbefore⟩ := List.forall_mem_cons.1 hbefore
      exact .inr ⟨hb, before, l', after, rfl, hbefore, hl⟩
  · rintro (hl | ⟨hl, before, l', after, rfl, hbefore, hl'⟩)
    · exact ⟨[], l, lines, rfl, nofun, hl⟩
    · exact ⟨l :: before, l', after, rfl, List.forall_mem_cons.2 ⟨hl, hbefore⟩, hl'⟩

theorem exists_firstFault_iff {lines : List Line} :
    (∃ e, FirstFault lines e) ↔ ∃ l ∈ lines, ∃ e, l.Faulty e := by
  induction lines with
  | nil => simp [not_firstFault_nil]
  | cons l lines ih =>
    simp only [firstFault_cons, exists_or, exists_and_left, ih, List.exists_mem_cons_iff]
    by_cases hl : ∃ e, l.Faulty e
    · simp [hl]
    · simp [not_exists.1 hl]

/-- Reading line by line fails with the first fault. -/
theorem foldlM_read_eq_error_iff {lines : List Line} {p : Progress} {e : Error} :
    lines.foldlM (fun p l => l.read p) p = .error e ↔ FirstFault lines e := by
  induction lines generalizing p with
  | nil => exact iff_of_false nofun (not_firstFault_nil e)
  | cons l lines ih =>
    rw [List.foldlM_cons, firstFault_cons]
    exact Line.read_bind_eq_error_iff fun p => ih

theorem foldlM_read_of_faultless {lines : List Line} (h : Faultless lines) (p : Progress) :
    lines.foldlM (fun p l => l.read p) p = .ok (lines.foldl (fun p l => l.after p) p) := by
  induction lines generalizing p with
  | nil => rfl
  | cons l lines ih =>
    obtain ⟨hl, hlines⟩ := List.forall_mem_cons.1 h
    rw [List.foldlM_cons, Line.read_of_not_faulty hl, Checked.ok_bind, ih hlines]
    rfl

/-! ### Clauses -/

theorem clausesOf_of_not_mem {s : List Literal} (h : 0 ∉ s) :
    clausesOf s = if s = [] then [] else [s] := by
  rw [clausesOf, List.splitOn_eq_singleton h]
  by_cases hs : s = [] <;> simp [hs]

theorem clausesOf_append_zero {c : Clause} (h : 0 ∉ c) (s : List Literal) :
    clausesOf (c ++ 0 :: s) = c :: clausesOf s := by
  rw [clausesOf, List.splitOn_append_cons_self_of_not_mem h, clausesOf]
  obtain ⟨segment, segments, hs⟩ := List.exists_cons_of_ne_nil (List.splitOn_ne_nil 0 s)
  rw [hs]
  rfl

/-- A zero by itself ends an empty clause; the last clause needs none. -/
example : clausesOf [1, -3, 0, 0, 2] = [[1, -3], [], [2]] :=
  rfl

variable (p : Progress) (s : List Literal)

theorem foldl_add_header (header : Option (Nat × Nat)) :
    s.foldl Progress.add { p with header } = { s.foldl Progress.add p with header } := by
  induction s generalizing p with
  | nil => rfl
  | cons l s ih =>
    have hadd : Progress.add { p with header } l = { p.add l with header } := by
      unfold Progress.add
      split <;> rfl
    rw [List.foldl_cons, List.foldl_cons, hadd, ih]

theorem largest_foldl_add :
    (s.foldl Progress.add p).largest = (s.map Literal.var).foldl max p.largest := by
  induction s generalizing p with
  | nil => rfl
  | cons l s ih =>
    rw [List.foldl_cons, ih, List.map_cons, List.foldl_cons, Progress.add]
    split_ifs with hl
    · subst hl
      rw [Literal.var, Int.natAbs_zero, Nat.max_zero]
    · rfl

/-- The clauses so far and those of the clause so far with what comes after it. -/
theorem allClauses_foldl_add {p : Progress} (h : 0 ∉ p.clause) :
    (s.foldl Progress.add p).allClauses =
      p.clauses.reverse ++ clausesOf (p.clause.reverse ++ s) := by
  induction s generalizing p with
  | nil =>
    rw [List.foldl_nil, List.append_nil, clausesOf_of_not_mem (by simpa using h),
      Progress.allClauses]
    by_cases hc : p.clause = [] <;> simp [hc]
  | cons l s ih =>
    rw [List.foldl_cons, Progress.add]
    split_ifs with hl
    · subst hl
      rw [clausesOf_append_zero (by simpa using h), ih List.not_mem_nil]
      simp
    · rw [ih (List.not_mem_cons_of_ne_of_not_mem (Ne.symm hl) h)]
      simp

/-! ### The formula -/

/-- Problem lines and lines with literals do not disturb each other. -/
theorem foldl_after (lines : List Line) (p : Progress) :
    lines.foldl (fun p l => l.after p) p =
      { (stream lines).foldl Progress.add p with
        header := ((lines.filter (·.first? = some 'p')).getLast?.map Line.counts?).getD
          p.header } := by
  induction lines using List.reverseRecOn with
  | nil => rfl
  | append_singleton lines l ih =>
    rw [List.foldl_append, List.foldl_cons, List.foldl_nil, ih, Line.after, stream, stream]
    by_cases hp : l.first? = some 'p'
    · simp [hp]
    · rw [if_neg hp, foldl_add_header]
      simp [hp]

theorem max?_getD_eq_foldl (ns : List Nat) : ns.max?.getD 0 = ns.foldl max 0 := by
  cases ns with
  | nil => rfl
  | cons n ns =>
    rw [List.max?_cons', List.foldl_cons, Nat.zero_max]
    rfl

/-- The formula that lines stand for, or why it is invalid. -/
def formulaOf (lines : List Line) : Except Error (Formula × Option Miscount) :=
  match Formula.ofClauses (numVariables lines) (clausesOf (stream lines)) with
  | .ok f => .ok (f, miscount lines)
  | .error e => .error (.invalid e)

/-- What the reader makes of its state in the end. -/
def Progress.build (p : Progress) : Except Error (Formula × Option Miscount) :=
  match Formula.ofClauses p.numVariables p.allClauses with
  | .ok f => .ok (f, p.miscount)
  | .error e => .error (.invalid e)

theorem readWithMiscount_eq (bytes : List UInt8) :
    readWithMiscount bytes = readLines 1 (Text.lines bytes) {} >>= Progress.build :=
  rfl

theorem build_foldl_after (lines : List Line) :
    Progress.build (lines.foldl (fun p l => l.after p) {}) = formulaOf lines := by
  generalize hlines : lines.foldl (fun p l => l.after p) ({} : Progress) = p
  have hp : p = { (stream lines).foldl Progress.add {} with header := header? lines } := by
    rw [← hlines, foldl_after, header?]
    cases (lines.filter (·.first? = some 'p')).getLast? <;> rfl
  have hheader : p.header = header? lines := by
    rw [hp]
  have hlargest : p.largest = ((stream lines).map Literal.var).max?.getD 0 := by
    rw [hp, max?_getD_eq_foldl]
    exact largest_foldl_add {} (stream lines)
  have hclauses : p.allClauses = clausesOf (stream lines) := by
    rw [hp]
    exact allClauses_foldl_add (stream lines) List.not_mem_nil
  have hnumVariables : p.numVariables = numVariables lines := by
    rw [Progress.numVariables, numVariables, hheader]
    cases header? lines with
    | none => exact hlargest
    | some counts => rfl
  have hmiscount : p.miscount = miscount lines := by
    rw [Progress.miscount, miscount, hheader, hclauses]
    cases header? lines with
    | none => rfl
    | some counts => exact ite_not _ _ _
  rw [Progress.build, hclauses, hnumVariables, hmiscount]
  rfl

/-- An empty last line changes nothing. -/
theorem readLines_append_nil (number : Nat) (lines : List (List UInt8)) (p : Progress) :
    readLines number (lines ++ [[]]) p = readLines number lines p := by
  induction lines generalizing number p with
  | nil =>
    rw [List.nil_append, readLines, readLines,
      show Text.ofBytes? [] = _ from Text.ofBytes?_encode []]
    simp only [String.toList_ofList]
    rfl
  | cons bytes lines ih =>
    rw [List.cons_append, readLines, readLines]
    simp only [ih]

/-- Reading a text reads its effective lines. -/
theorem readLines_toBytes (text : String) :
    readLines 1 (Text.lines (Text.toBytes text)) {} =
      (effectiveLines text.toList).foldlM (fun p l => l.read p) {} := by
  rw [effectiveLines, ← readLines_encode, ← Text.splitOn_encode, ← Text.toBytes_eq]
  obtain h | h := Text.splitOn_lineFeed (Text.toBytes text)
  · rw [h]
  · rw [h, readLines_append_nil]

theorem readWithMiscount_of_faultless {text : String} (h : Faultless (effectiveLines text.toList)) :
    readWithMiscount (Text.toBytes text) = formulaOf (effectiveLines text.toList) := by
  rw [readWithMiscount_eq, readLines_toBytes, foldlM_read_of_faultless h, Checked.ok_bind,
    build_foldl_after]

/-- Failures before a formula is built. -/
def Error.Early : Error → Prop
  | .invalid _ => False
  | _ => True

theorem Line.Faulty.early {l : Line} {e : Error} (h : l.Faulty e) : e.Early := by
  cases h <;> trivial

theorem build_ne_early (p : Progress) {e : Error} (he : e.Early) : p.build ≠ .error e := by
  intro h
  rw [Progress.build] at h
  split at h <;> cases h
  exact he

/-- A failure before a formula is built is one of reading the lines. -/
theorem readWithMiscount_eq_error_iff_readLines (bytes : List UInt8) {e : Error} (he : e.Early) :
    readWithMiscount bytes = .error e ↔ readLines 1 (Text.lines bytes) {} = .error e := by
  rw [readWithMiscount_eq, Checked.bind_eq_error_iff, or_iff_left]
  rintro ⟨p, -, h⟩
  exact build_ne_early p he h

theorem readWithMiscount_eq_error_iff (text : String) {e : Error} (he : e.Early) :
    readWithMiscount (Text.toBytes text) = .error e ↔
      FirstFault (effectiveLines text.toList) e := by
  rw [readWithMiscount_eq_error_iff_readLines _ he, readLines_toBytes, foldlM_read_eq_error_iff]

/-- The reader accepts exactly the format. Before it builds a formula it fails with the first
fault, and only with that; without faults the formula is the one that the lines stand for. -/
theorem reads_format (text : String) :
    ((∃ e : Error, e.Early ∧ readWithMiscount (Text.toBytes text) = .error e) ↔
      ∃ l ∈ effectiveLines text.toList, ∃ e, l.Faulty e) ∧
    (∀ e : Error, e.Early → (readWithMiscount (Text.toBytes text) = .error e ↔
      FirstFault (effectiveLines text.toList) e)) ∧
    (Faultless (effectiveLines text.toList) →
      readWithMiscount (Text.toBytes text) = formulaOf (effectiveLines text.toList)) := by
  have hfirst (e : Error) (he : e.Early) := readWithMiscount_eq_error_iff text he
  refine ⟨?_, hfirst, readWithMiscount_of_faultless⟩
  rw [← exists_firstFault_iff]
  constructor
  · rintro ⟨e, he, h⟩
    exact ⟨e, (hfirst e he).1 h⟩
  · rintro ⟨e, h⟩
    obtain ⟨before, l, after, -, -, hl⟩ := id h
    exact ⟨e, hl.early, (hfirst e hl.early).2 h⟩

end SatWalk.Dimacs
