import Mathlib.Data.List.DropRight
import SatWalk.Text.Blank

/-! Words of a line. They are the parts between blanks that are not empty, so blanks at the ends
of the line do not change them, and a blank inside cuts the words into those before it and
those after it. -/

namespace SatWalk.Text

/-- The parts between blanks that are not empty. -/
def parts (cs : List Char) : List (List Char) :=
  (cs.splitOnP isBlank).filter (· ≠ [])

theorem parts_append_cons {b : Char} (hb : isBlank b = true) (xs ys : List Char) :
    parts (xs ++ b :: ys) = parts xs ++ parts ys := by
  rw [parts, List.splitOnP_append_cons xs ys hb, List.filter_append]
  rfl

theorem parts_blanks_append {blanks : List Char} (h : ∀ c ∈ blanks, isBlank c = true)
    (xs : List Char) : parts (blanks ++ xs) = parts xs := by
  induction blanks with
  | nil => rfl
  | cons b blanks ih =>
    rw [List.forall_mem_cons] at h
    exact (parts_append_cons h.1 [] _).trans (ih h.2)

theorem parts_append_blanks {blanks : List Char} (h : ∀ c ∈ blanks, isBlank c = true)
    (xs : List Char) : parts (xs ++ blanks) = parts xs := by
  cases blanks with
  | nil => rw [List.append_nil]
  | cons b blanks =>
    rw [List.forall_mem_cons] at h
    have hnil := parts_blanks_append h.2 []
    rw [List.append_nil] at hnil
    rw [parts_append_cons h.1, hnil]
    exact List.append_nil _

theorem parts_of_visible {word : List Char} (h : ∀ c ∈ word, isBlank c = false)
    (hne : word ≠ []) : parts word = [word] := by
  rw [parts, List.splitOnP_eq_singleton h]
  simp [hne]

/-- A word at the start of a line, which ends there or goes on with a blank. -/
theorem parts_word_append {word rest : List Char} (h : ∀ c ∈ word, isBlank c = false)
    (hne : word ≠ []) (hrest : ∀ b ∈ rest.head?, isBlank b = true) :
    parts (word ++ rest) = word :: parts rest := by
  cases rest with
  | nil => rw [List.append_nil, parts_of_visible h hne]; rfl
  | cons b rest =>
    have hb : isBlank b = true := hrest b rfl
    rw [parts_append_cons hb, parts_of_visible h hne]
    exact congrArg _ (parts_append_cons hb [] rest).symm

theorem visible_of_dropWhile {cs rest : List Char} {c : Char}
    (h : cs.dropWhile isBlank = c :: rest) : isBlank c = false := by
  have hnot := List.head?_dropWhile_not isBlank cs
  rw [h] at hnot
  exact hnot

theorem words_eq_parts (cs : List Char) : words cs = parts cs := by
  induction cs using words.induct with
  | case1 cs h =>
    have hblank := parts_append_blanks (List.dropWhile_eq_nil_iff.1 h) []
    rw [words, h]
    exact hblank.symm
  | case2 cs c rest h ih =>
    have hcs : cs = cs.takeWhile isBlank ++ (c :: rest.takeWhile (!isBlank ·) ++
        rest.dropWhile (!isBlank ·)) := by
      rw [List.cons_append, List.takeWhile_append_dropWhile, ← h,
        List.takeWhile_append_dropWhile]
    have hword : ∀ x ∈ c :: rest.takeWhile (!isBlank ·), isBlank x = false := by
      rw [List.forall_mem_cons]
      exact ⟨visible_of_dropWhile h, fun x hx => by simpa using List.mem_takeWhile_imp hx⟩
    have hrest : ∀ b ∈ (rest.dropWhile (!isBlank ·)).head?, isBlank b = true := by
      intro b hb
      have hnot := List.head?_dropWhile_not (!isBlank ·) rest
      rw [Option.mem_def.1 hb] at hnot
      simpa using hnot
    rw [words, h]
    conv_rhs => rw [hcs, parts_blanks_append fun x hx => List.mem_takeWhile_imp hx,
      parts_word_append hword (List.cons_ne_nil _ _) hrest, ← ih]

/-! ### Ends -/

/-- Only blanks at the ends are taken away. -/
theorem exists_eq_trim (cs : List Char) : ∃ left right, cs = left ++ (trim cs ++ right) ∧
    (∀ c ∈ left, isBlank c = true) ∧ ∀ c ∈ right, isBlank c = true := by
  refine ⟨cs.takeWhile isBlank, (cs.dropWhile isBlank).rtakeWhile isBlank, ?_,
    fun c hc => List.mem_takeWhile_imp hc, fun c hc => List.mem_rtakeWhile_imp hc⟩
  have htrim : trim cs = (cs.dropWhile isBlank).rdropWhile isBlank := rfl
  rw [htrim, List.rdropWhile_append_rtakeWhile, List.takeWhile_append_dropWhile]

theorem parts_trim (cs : List Char) : parts (trim cs) = parts cs := by
  obtain ⟨left, right, h, hleft, hright⟩ := exists_eq_trim cs
  conv_rhs => rw [h, parts_blanks_append hleft, parts_append_blanks hright]

/-- The first character that is not blank. -/
def firstVisible? (cs : List Char) : Option Char :=
  cs.find? (!isBlank ·)

theorem head?_trim (cs : List Char) : (trim cs).head? = firstVisible? cs := by
  have htrim : trim cs = (cs.dropWhile isBlank).rdropWhile isBlank := rfl
  rw [firstVisible?, List.find?_not_eq_head?_dropWhile, htrim]
  cases h : cs.dropWhile isBlank with
  | nil => rfl
  | cons c rest =>
    have hne : (c :: rest).rdropWhile isBlank ≠ [] := by
      intro hnil
      have hc := List.rdropWhile_eq_nil_iff.1 hnil c List.mem_cons_self
      rw [visible_of_dropWhile h] at hc
      contradiction
    obtain ⟨tail, htail⟩ := List.rdropWhile_prefix isBlank (c :: rest)
    obtain ⟨d, ds, hd⟩ := List.exists_cons_of_ne_nil hne
    rw [hd] at htail ⊢
    rw [(List.cons.inj htail).1]
    rfl

end SatWalk.Text
