import SatWalk.Proofs.Dimacs.RoundTrip

/-! Written formulas after other text. A line of that text that starts with a percent sign ends the
formula before it starts. Without such a line the formula is read back exactly if the text
before it says nothing that lasts: its lines are blank, comments, or problem lines that the one
of the formula replaces. -/

namespace SatWalk.Dimacs

/-! ### Lines before other lines -/

/-- All lines of a text, numbered from one. -/
def linesOf (text : List Char) : List Line :=
  numbered 1 (text.splitOn '\n')

/-- Some line starts with a percent sign. -/
def Ends (lines : List Line) : Prop :=
  ∃ l ∈ lines, l.first? = some '%'

namespace Line

/-- A problem line with its two counts. -/
def Declares (l : Line) : Prop :=
  l.first? = some 'p' ∧ l.counts?.isSome

/-- The line says nothing that lasts. -/
def Harmless (l : Line) : Prop :=
  l.first? = none ∨ l.first? = some 'c' ∨ l.Declares

instance (l : Line) : Decidable l.Declares :=
  inferInstanceAs (Decidable (_ ∧ _))

instance (l : Line) : Decidable l.Harmless :=
  inferInstanceAs (Decidable (_ ∨ _))

end Line

instance (lines : List Line) : Decidable (Ends lines) :=
  inferInstanceAs (Decidable (∃ l ∈ lines, _))

theorem numbered_append (number : Nat) (xs ys : List (List Char)) :
    numbered number (xs ++ ys) = numbered number xs ++ numbered (number + xs.length) ys := by
  rw [numbered, List.zipIdx_append, List.map_append]
  rfl

theorem effective_append_of_ends {xs : List Line} (h : Ends xs) (ys : List Line) :
    effective (xs ++ ys) = effective xs := by
  induction xs with
  | nil =>
    obtain ⟨l, hl, -⟩ := h
    exact absurd hl List.not_mem_nil
  | cons x xs ih =>
    rw [List.cons_append, effective_cons, effective_cons]
    split_ifs with hlast
    · rfl
    all_goals
      obtain ⟨l, hl, hl'⟩ := h
      have hxs : Ends xs := ⟨l, (List.mem_cons.1 hl).resolve_left fun e => hlast (e ▸ hl'), hl'⟩
      rw [ih hxs]

theorem effective_of_not_ends {lines : List Line} (h : ¬ Ends lines) :
    effective lines = lines.filter fun l => l.first? ≠ none ∧ l.first? ≠ some 'c' := by
  have hall : ∀ l ∈ lines, decide (l.first? ≠ some '%') = true := fun l hl =>
    decide_eq_true fun hl' => h ⟨l, hl, hl'⟩
  rw [effective, List.takeWhile_eq_self_iff.2 hall]

theorem effective_append {xs : List Line} (h : ¬ Ends xs) (ys : List Line) :
    effective (xs ++ ys) = effective xs ++ effective ys := by
  have hall : ∀ l ∈ xs, decide (l.first? ≠ some '%') = true := fun l hl =>
    decide_eq_true fun hl' => h ⟨l, hl, hl'⟩
  rw [effective, List.takeWhile_append_of_pos hall, List.filter_append, ← effective_of_not_ends h]
  rfl

/-- The harmless lines are those of which only problem lines are effective. -/
theorem forall_harmless_iff {lines : List Line} (h : ¬ Ends lines) :
    (∀ l ∈ lines, l.Harmless) ↔ ∀ l ∈ effective lines, l.Declares := by
  rw [effective_of_not_ends h]
  constructor
  · intro hall l hl
    obtain ⟨hmem, hvisible⟩ := List.mem_filter.1 hl
    obtain ⟨hnone, hcomment⟩ := of_decide_eq_true hvisible
    exact ((hall l hmem).resolve_left hnone).resolve_left hcomment
  · intro hall l hl
    by_cases hnone : l.first? = none
    · exact .inl hnone
    by_cases hcomment : l.first? = some 'c'
    · exact .inr (.inl hcomment)
    · exact .inr (.inr (hall l (List.mem_filter.2 ⟨hl, decide_eq_true ⟨hnone, hcomment⟩⟩)))

theorem first?_ne_none_of_mem_effective {lines : List Line} {l : Line} (h : l ∈ effective lines) :
    l.first? ≠ none :=
  (of_decide_eq_true (List.mem_filter.1 h).2).1

theorem linesOf_append_lineFeed (head rest : List Char) :
    linesOf (head ++ '\n' :: rest) =
      linesOf head ++ numbered (1 + (head.splitOn '\n').length) (rest.splitOn '\n') := by
  rw [linesOf, List.splitOn_append_cons_self, numbered_append]
  rfl

/-! ### Lines without literals -/

theorem faultless_append {xs ys : List Line} :
    Faultless (xs ++ ys) ↔ Faultless xs ∧ Faultless ys :=
  List.forall_mem_append

theorem stream_append (xs ys : List Line) : stream (xs ++ ys) = stream xs ++ stream ys := by
  rw [stream, List.filter_append, List.flatMap_append]
  rfl

theorem not_faulty_of_declares {l : Line} (h : l.Declares) (e : Error) : ¬ l.Faulty e := by
  rintro (⟨-, hcounts⟩ | ⟨hp, -⟩)
  · have hsome := h.2
    rw [hcounts] at hsome
    contradiction
  · exact hp h.1

theorem words_ne_nil_of_first? {l : Line} (h : l.first? ≠ none) : l.words ≠ [] := by
  intro hwords
  rw [Line.words, ← Text.words_eq_parts, Text.words] at hwords
  rw [Line.first?, Text.firstVisible?, List.find?_not_eq_head?_dropWhile] at h
  split at hwords
  · next hrest => exact h (by rw [hrest]; rfl)
  · contradiction

/-- Without faults, all words of a line that is no problem line are literals. -/
theorem exists_literals_cons {l : Line} (hfirst : l.first? ≠ none) (hp : l.first? ≠ some 'p')
    (h : ∀ e, ¬ l.Faulty e) : ∃ z zs, l.literals = z :: zs := by
  obtain ⟨w, ws, hwords⟩ := List.exists_cons_of_ne_nil (words_ne_nil_of_first? hfirst)
  have hsplit : l.words = [] ++ w :: ws := hwords
  cases hw : Text.readInteger? Text.literalBound w with
  | none => exact absurd (.literal hp hsplit nofun hw) (h _)
  | some z => exact ⟨z, _, by rw [Line.literals, hwords, List.filterMap_cons_some hw]⟩

theorem declares_of_stream_eq_nil {lines : List Line} (hfirst : ∀ l ∈ lines, l.first? ≠ none)
    (h : Faultless lines) (hstream : stream lines = []) : ∀ l ∈ lines, l.Declares := by
  intro l hl
  have hp : l.first? = some 'p' := by
    by_contra hp
    obtain ⟨z, zs, hliterals⟩ := exists_literals_cons (hfirst l hl) hp (h l hl)
    have hnil := List.flatMap_eq_nil_iff.1 hstream l (List.mem_filter.2 ⟨hl, decide_eq_true hp⟩)
    rw [hliterals] at hnil
    contradiction
  refine ⟨hp, Option.isSome_iff_ne_none.2 fun hcounts => h l hl _ (.problem hp hcounts)⟩

/-! ### A formula after other lines -/

theorem filter_of_zero_not_mem {c : Clause} (h : 0 ∉ c) :
    c.filter (fun l : Literal => l ≠ 0) = c :=
  List.filter_eq_self.2 fun _ hl => decide_eq_true (ne_of_mem_of_not_mem hl h)

/-- The clauses keep all literals but the zeros. -/
theorem flatten_clausesOf (s : List Literal) :
    (clausesOf s).flatten = s.filter (fun l : Literal => l ≠ 0) := by
  induction s using parts_induction (0 : Literal) with
  | last c h =>
    rw [clausesOf_of_not_mem h, filter_of_zero_not_mem h]
    split_ifs with hnil
    · exact hnil.symm
    · exact List.flatten_singleton
  | next c s h ih =>
    rw [clausesOf_append_zero h, List.flatten_cons, ih, List.filter_append,
      filter_of_zero_not_mem h, List.filter_cons_of_neg (by simp)]

/-- More literals before a formula make other clauses. -/
theorem eq_nil_of_clausesOf {s t : List Literal} {cs : List Clause} (hcs : [] ∉ cs)
    (ht : clausesOf t = cs) (h : clausesOf (s ++ t) = cs) : s = [] := by
  -- all literals are kept in the clauses, so these can only be zeros, and a zero in front would end
  -- an empty clause
  have hzeros : s.filter (fun l : Literal => l ≠ 0) = [] := by
    have hflatten := (flatten_clausesOf (s ++ t)).symm
    rw [h, ← ht, flatten_clausesOf, List.filter_append] at hflatten
    exact List.append_left_eq_self.1 hflatten
  obtain _ | ⟨z, s⟩ := s
  · rfl
  · have hz : z = (0 : Int) := by
      simpa using List.filter_eq_nil_iff.1 hzeros z List.mem_cons_self
    subst hz
    have hnil := clausesOf_append_zero List.not_mem_nil (s ++ t)
    rw [List.nil_append, ← List.cons_append, h] at hnil
    exact absurd (hnil ▸ List.mem_cons_self) hcs

theorem read_eq_ok_iff {text : String} {f : Formula} :
    read (Text.toBytes text) = .ok f ↔ Faultless (effectiveLines text.toList) ∧
      ∃ m, formulaOf (effectiveLines text.toList) = .ok (f, m) := by
  have hread : read (Text.toBytes text) = .ok f ↔
      ∃ m, readWithMiscount (Text.toBytes text) = .ok (f, m) := by
    rw [read, Checked.bind_eq_ok_iff]
    constructor
    · rintro ⟨⟨_, m⟩, h, h'⟩
      cases h'
      exact ⟨m, h⟩
    · rintro ⟨m, h⟩
      exact ⟨(f, m), h, rfl⟩
  rw [hread]
  by_cases hlines : Faultless (effectiveLines text.toList)
  · rw [readWithMiscount_of_faultless hlines, and_iff_right hlines]
  · refine iff_of_false ?_ fun h => hlines h.1
    rintro ⟨m, h⟩
    obtain ⟨e, he⟩ : ∃ e, FirstFault (effectiveLines text.toList) e := by
      rw [exists_firstFault_iff]
      simpa [Faultless] using hlines
    obtain ⟨_, l, _, -, -, hl⟩ := id he
    rw [(readWithMiscount_eq_error_iff text hl.early).2 he] at h
    contradiction

theorem clauses_of_formulaOf {lines : List Line} {f : Formula} {m : Option Miscount}
    (h : formulaOf lines = .ok (f, m)) : clausesOf (stream lines) = f.clauses.toList := by
  rw [formulaOf] at h
  split at h
  · next hf =>
    cases h
    rw [(Formula.ofClauses_eq_ok_iff.1 hf).1]
  · contradiction

section Preamble

variable {f : Formula} (hf : f.validate = .ok ()) (h : f.FitsWords)
include hf h

/-- Effective lines keep the formula after them if they are problem lines. -/
theorem formulaOf_append_written {lines : List Line} (hfirst : ∀ l ∈ lines, l.first? ≠ none)
    (number : Nat) :
    (Faultless (lines ++ numbered number (writtenLines f)) ∧
      ∃ m, formulaOf (lines ++ numbered number (writtenLines f)) = .ok (f, m)) ↔
      ∀ l ∈ lines, l.Declares := by
  have hvalid := Formula.validate_eq_ok_iff.1 hf
  have hclauses := clausesOf_written hvalid h number
  constructor
  · rintro ⟨hfaultless, m, hformula⟩
    have hstream : stream lines = [] := by
      refine eq_nil_of_clausesOf ?_ hclauses ?_
      · exact fun hnil => (hvalid [] (Array.mem_toList_iff.1 hnil)).1 rfl
      · rw [← stream_append, clauses_of_formulaOf hformula]
    exact declares_of_stream_eq_nil hfirst (faultless_append.1 hfaultless).1 hstream
  · intro hdeclares
    have hstream : stream lines = [] := by
      rw [stream, List.filter_eq_nil_iff.2 fun l hl => by simp [(hdeclares l hl).1]]
      rfl
    have hheader : header? (lines ++ numbered number (writtenLines f)) =
        header? (numbered number (writtenLines f)) := by
      rw [header?, header?, List.filter_append, filter_written, List.getLast?_concat]
      rfl
    refine ⟨faultless_append.2 ⟨fun l hl => not_faulty_of_declares (hdeclares l hl),
      faultless_written h number⟩, none, formulaOf_eq hf ?_ ?_⟩
    · rw [hheader, header?_written h]
    · rw [stream_append, hstream, List.nil_append, hclauses]

/-- A formula is read back after text without an end exactly if the text is harmless. -/
theorem read_append_write {head : String} (hends : ¬ Ends (linesOf head.toList)) :
    read (Text.toBytes (head ++ "\n" ++ write f)) = .ok f ↔
      ∀ l ∈ linesOf head.toList, l.Harmless := by
  have htext : (head ++ "\n" ++ write f).toList = head.toList ++ '\n' :: (write f).toList := by
    simp
  have hlines : effectiveLines (head ++ "\n" ++ write f).toList = effective (linesOf head.toList) ++
      numbered (1 + (head.toList.splitOn '\n').length) (writtenLines f) := by
    change effective (linesOf _) = _
    rw [htext, linesOf_append_lineFeed, effective_append hends, splitOn_write, effective_written]
  rw [read_eq_ok_iff, hlines, forall_harmless_iff hends]
  exact formulaOf_append_written hf h (fun l => first?_ne_none_of_mem_effective) _

end Preamble

/-- After an end nothing is read. -/
theorem read_append_of_ends {head : String} (hends : Ends (linesOf head.toList)) (rest : String) :
    read (Text.toBytes (head ++ "\n" ++ rest)) = read (Text.toBytes head) := by
  have htext : (head ++ "\n" ++ rest).toList = head.toList ++ '\n' :: rest.toList := by
    simp
  have hlines : effectiveLines (head ++ "\n" ++ rest).toList = effectiveLines head.toList := by
    change effective (linesOf _) = effective (linesOf _)
    rw [htext, linesOf_append_lineFeed, effective_append_of_ends hends]
  rw [read, read, readWithMiscount_eq, readWithMiscount_eq, readLines_toBytes, readLines_toBytes,
    hlines]

end SatWalk.Dimacs
