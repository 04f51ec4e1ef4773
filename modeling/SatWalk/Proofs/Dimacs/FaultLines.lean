import SatWalk.Proofs.Dimacs.Format

/-! Where reading stops in any sequence of bytes. A line is at fault if it is no encoded text, or if
it has a fault as text and is no comment. The reader stops at the first line at fault, unless the
formula ends before it. The number that it gives of this line counts lines from one, but of a line
that is no text it gives the number of lines before it. -/

namespace SatWalk.Dimacs

/-! ### Lines of bytes -/

/-- A line as it stands in the file, with its number, counted from one. -/
structure ByteLine where
  bytes : List UInt8
  number : Nat

namespace ByteLine

variable {b : ByteLine} {l : Line} {e : Error}

/-- The line as text, if it is the encoding of a text. -/
def text? (b : ByteLine) : Option Line :=
  (Text.ofBytes? b.bytes).map fun text => ⟨text.toList, b.number⟩

/-- The formula ends before the line. -/
def Last (b : ByteLine) : Prop :=
  ∃ l, b.text? = some l ∧ l.first? = some '%'

/-- What is wrong with a line, as the reader reports it. -/
inductive Faulty (b : ByteLine) : Error → Prop
  | unreadable (h : b.text? = none) : Faulty b (.unreadable (b.number - 1))
  | text {l : Line} {e : Error} (h : b.text? = some l) (hvisible : l.first? ≠ none)
    (hcomment : l.first? ≠ some 'c') (hfault : l.Faulty e) : Faulty b e

theorem number_of_text? (h : b.text? = some l) : l.number = b.number := by
  obtain ⟨text, -, rfl⟩ := Option.map_eq_some_iff.1 h
  rfl

theorem bytes_of_text? (h : b.text? = some l) : b.bytes = Text.encode l.content := by
  obtain ⟨text, htext, rfl⟩ := Option.map_eq_some_iff.1 h
  exact Text.eq_encode_of_ofBytes? htext

theorem not_last_of_text?_eq_none (h : b.text? = none) : ¬ b.Last := by
  rintro ⟨l, hl, -⟩
  rw [h] at hl
  cases hl

theorem last_iff (h : b.text? = some l) : b.Last ↔ l.first? = some '%' := by
  simp [Last, h]

theorem faulty_iff_of_none (h : b.text? = none) :
    b.Faulty e ↔ e = .unreadable (b.number - 1) := by
  constructor
  · rintro (_ | ⟨hl, -⟩)
    · rfl
    · rw [h] at hl
      cases hl
  · rintro rfl
    exact .unreadable h

theorem faulty_iff_of_text? (h : b.text? = some l) :
    b.Faulty e ↔ ¬ (l.first? = none ∨ l.first? = some 'c') ∧ l.Faulty e := by
  rw [not_or]
  constructor
  · rintro (hnone | ⟨hl, hvisible, hcomment, hfault⟩)
    · rw [h] at hnone
      cases hnone
    · rw [h] at hl
      cases hl
      exact ⟨⟨hvisible, hcomment⟩, hfault⟩
  · rintro ⟨⟨hvisible, hcomment⟩, hfault⟩
    exact .text h hvisible hcomment hfault

theorem Faulty.early (h : b.Faulty e) : e.Early := by
  cases h with
  | unreadable _ => trivial
  | text _ _ _ hfault => exact hfault.early

end ByteLine

/-! ### The number in the report -/

/-- The number that an error gives for its line. -/
def Error.line? : Error → Option Nat
  | .unreadable linesBefore => some linesBefore
  | .badProblem line _ => some line
  | .badLiteral line _ => some line
  | .invalid _ => none

theorem Line.Faulty.line? {l : Line} {e : Error} (h : l.Faulty e) : e.line? = some l.number := by
  cases h <;> rfl

/-- A fault in the text of a line is reported under the number of the line; a line that is no
text, under the number before. -/
theorem ByteLine.Faulty.line? {b : ByteLine} {e : Error} (h : b.Faulty e) :
    e.line? = some (if b.text?.isSome then b.number else b.number - 1) := by
  cases h with
  | unreadable h => rw [h]; rfl
  | text h _ _ hfault =>
    rw [hfault.line?, number_of_text? h, h]
    rfl

/-! ### The first line at fault -/

/-- The first line at fault, if the formula does not end at a line before it. -/
def FirstAtFault (lines : List ByteLine) (b : ByteLine) : Prop :=
  ∃ before after, lines = before ++ b :: after ∧
    (∀ x ∈ before, ¬ x.Last ∧ ∀ e, ¬ x.Faulty e) ∧ ¬ b.Last ∧ ∃ e, b.Faulty e

/-- Reading stops with this error. -/
def StopsWith (lines : List ByteLine) (e : Error) : Prop :=
  ∃ b, FirstAtFault lines b ∧ b.Faulty e

/-- The lines from one with the given number on. -/
def numberedBytes (number : Nat) (lines : List (List UInt8)) : List ByteLine :=
  (lines.zipIdx number).map fun (bytes, number) => ⟨bytes, number⟩

def byteLines (bytes : List UInt8) : List ByteLine :=
  numberedBytes 1 (bytes.splitOn 10)

theorem numberedBytes_cons (number : Nat) (bytes : List UInt8) (lines : List (List UInt8)) :
    numberedBytes number (bytes :: lines) =
      ⟨bytes, number⟩ :: numberedBytes (number + 1) lines := by
  rw [numberedBytes, List.zipIdx_cons]
  rfl

section StopsWith

variable {b : ByteLine} {lines : List ByteLine} {e : Error}

theorem not_stopsWith_nil (e : Error) : ¬ StopsWith [] e := by
  rintro ⟨b, ⟨before, after, h, -⟩, -⟩
  exact List.append_ne_nil_of_right_ne_nil before (List.cons_ne_nil b after) h.symm

theorem stopsWith_cons : StopsWith (b :: lines) e ↔
    ¬ b.Last ∧ (b.Faulty e ∨ (∀ e', ¬ b.Faulty e') ∧ StopsWith lines e) := by
  constructor
  · rintro ⟨x, ⟨_ | ⟨y, before⟩, after, h, hbefore, hlast, hfault⟩, he⟩
    · cases h
      exact ⟨hlast, .inl he⟩
    · cases h
      obtain ⟨hb, hbefore⟩ := List.forall_mem_cons.1 hbefore
      exact ⟨hb.1, .inr ⟨hb.2, x, ⟨before, after, rfl, hbefore, hlast, hfault⟩, he⟩⟩
  · rintro ⟨hb, hfault | ⟨hnone, x, ⟨before, after, rfl, hbefore, hx⟩, he⟩⟩
    · exact ⟨b, ⟨[], lines, rfl, by simp, hb, e, hfault⟩, hfault⟩
    · exact ⟨x, ⟨b :: before, after, rfl, List.forall_mem_cons.2 ⟨⟨hb, hnone⟩, hbefore⟩, hx⟩, he⟩

end StopsWith

/-- One line of the reader, for lines that are text and lines that are none. -/
theorem readLines_eq_error_iff (number : Nat) (lines : List (List UInt8)) (p : Progress)
    (e : Error) : readLines number lines p = .error e ↔ StopsWith (numberedBytes number lines) e := by
  induction lines generalizing number p with
  | nil => exact iff_of_false nofun (not_stopsWith_nil e)
  | cons bytes lines ih =>
    rw [numberedBytes_cons, stopsWith_cons]
    set b : ByteLine := ⟨bytes, number⟩ with hb
    cases htext : b.text? with
    | none =>
      have hbytes : Text.ofBytes? bytes = none := Option.map_eq_none_iff.1 htext
      have hread : readLines number (bytes :: lines) p = .error (.unreadable (number - 1)) := by
        rw [readLines, hbytes]
      have hunreadable : b.Faulty (.unreadable (number - 1)) := .unreadable htext
      simp only [hread, ByteLine.faulty_iff_of_none htext, Except.error.injEq,
        ByteLine.not_last_of_text?_eq_none htext]
      simp [hb, eq_comm]
    | some l =>
      obtain rfl : l.number = number := ByteLine.number_of_text? htext
      obtain rfl : bytes = Text.encode l.content := ByteLine.bytes_of_text? htext
      rw [readLines_cons, ByteLine.last_iff htext]
      simp only [ByteLine.faulty_iff_of_text? htext]
      split_ifs with hlast hskipped
      · simp [hlast]
      · simp [hlast, hskipped, ih]
      · simp only [hlast, hskipped, not_false_eq_true, true_and]
        exact l.read_bind_eq_error_iff fun p => ih (l.number + 1) p

/-- Bytes are cut into lines alike with or without a line feed at their end. -/
theorem readLines_byteLines (bytes : List UInt8) (p : Progress) (e : Error) :
    readLines 1 (Text.lines bytes) p = .error e ↔ StopsWith (byteLines bytes) e := by
  rw [byteLines, ← readLines_eq_error_iff 1 _ p]
  rcases Text.splitOn_lineFeed bytes with h | h
  · rw [h]
  · rw [h, readLines_append_nil]

theorem read_eq_error_iff (bytes : List UInt8) (e : Error) :
    read bytes = .error e ↔ readWithMiscount bytes = .error e := by
  change (readWithMiscount bytes >>= fun x => .ok x.1) = .error e ↔ _
  cases readWithMiscount bytes <;> simp

theorem StopsWith.early {lines : List ByteLine} {e : Error} (h : StopsWith lines e) : e.Early := by
  obtain ⟨b, -, hb⟩ := h
  exact hb.early

theorem le_number_of_mem_numberedBytes {number : Nat} {lines : List (List UInt8)} {b : ByteLine}
    (h : b ∈ numberedBytes number lines) : number ≤ b.number := by
  obtain ⟨x, hx, rfl⟩ := List.mem_map.1 h
  exact List.le_snd_of_mem_zipIdx hx

theorem FirstAtFault.mem {lines : List ByteLine} {b : ByteLine} (h : FirstAtFault lines b) :
    b ∈ lines := by
  obtain ⟨before, after, rfl, -⟩ := h
  simp

/-- Reading fails early at the first line at fault and only there. The error gives the number of this
line, counted from one, if and only if the line is text; of a line that is none it gives the number
before. -/
theorem faults_located (bytes : List UInt8) :
    (∀ e : Error, e.Early ∧ read bytes = .error e ↔
      ∃ b, FirstAtFault (byteLines bytes) b ∧ b.Faulty e) ∧
    ∀ b e, FirstAtFault (byteLines bytes) b → b.Faulty e →
      (b.text? ≠ none ↔ e.line? = some b.number) ∧
      (b.text? = none → e.line? = some (b.number - 1)) := by
  refine ⟨fun e => ⟨?_, fun h => ?_⟩, fun b e hb he => ?_⟩
  · rintro ⟨hearly, h⟩
    rw [read_eq_error_iff, readWithMiscount_eq_error_iff_readLines bytes hearly] at h
    exact (readLines_byteLines bytes {} e).1 h
  · have hearly : e.Early := StopsWith.early h
    rw [read_eq_error_iff, readWithMiscount_eq_error_iff_readLines bytes hearly]
    exact ⟨hearly, (readLines_byteLines bytes {} e).2 h⟩
  · have hnumber : 1 ≤ b.number := le_number_of_mem_numberedBytes hb.mem
    rw [he.line?]
    cases b.text? with
    | none => simp; omega
    | some l => simp

/-- The second line is no text, and the error names the first. -/
theorem faults_located_unreadable :
    FirstAtFault (byteLines [99, 10, 255]) ⟨[255], 2⟩ ∧
      read [99, 10, 255] = .error (.unreadable 1) ∧
      (Error.unreadable 1).line? ≠ some 2 := by
  have hcomment : ByteLine.text? ⟨[99], 1⟩ = some ⟨['c'], 1⟩ := rfl
  have hfault : ByteLine.Faulty ⟨[255], 2⟩ (.unreadable 1) := .unreadable rfl
  have hfirst : FirstAtFault (byteLines [99, 10, 255]) ⟨[255], 2⟩ := by
    refine ⟨[⟨[99], 1⟩], [], rfl, ?_, ByteLine.not_last_of_text?_eq_none rfl, _, hfault⟩
    simp only [List.mem_singleton, forall_eq, ByteLine.last_iff hcomment,
      ByteLine.faulty_iff_of_text? hcomment]
    exact ⟨by decide, fun e h => h.1 (.inr rfl)⟩
  obtain ⟨hread, hlocated⟩ := faults_located [99, 10, 255]
  exact ⟨hfirst, ((hread _).2 ⟨_, hfirst, hfault⟩).2,
    fun h => (hlocated _ _ hfirst hfault).1.2 h rfl⟩

end SatWalk.Dimacs
