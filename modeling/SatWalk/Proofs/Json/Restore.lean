import SatWalk.Proofs.Json.Canonical
import SatWalk.Proofs.Json.Numbers

/-! Values read back from their text. A codec restores a value if its reader takes the sorted form
of the value off any text that starts with it, in either spacing, and gives the value again. So do
the codecs of numbers, strings and names, and those of optional values, of values in another form
and of lists if the codecs they are made of do. -/

namespace SatWalk.Json

variable {α : Type} {s : Spacing} {level n : ℕ} {v : Value} {spaces rest : List Char}

/-! ### The start of a value -/

theorem not_isSpace_of_kind {c : Char} {cs : List Char} {k : Kind}
    (h : kindOfText (c :: cs) = some k) : isSpace c = false := by
  by_contra hspace
  have hspace := Bool.eq_true_of_not_eq_false hspace
  simp only [isSpace, Bool.or_eq_true, decide_eq_true_eq] at hspace
  rcases hspace with ((rfl | rfl) | rfl) | rfl <;> cases h

/-- A value starts with a character that is no space and closes nothing, and with the letter of null
only if it is null. -/
theorem exists_write_eq_cons (s : Spacing) (level : ℕ) (v : Value) (rest : List Char) :
    ∃ c cs, v.write s level ++ rest = c :: cs ∧ isSpace c = false ∧ c ≠ ']' ∧
      (c = 'n' → v.kind = .null) := by
  have hkind := kindOfText_write s level v rest
  cases htext : v.write s level ++ rest with
  | nil =>
    rw [htext] at hkind
    cases hkind
  | cons c cs =>
    rw [htext] at hkind
    refine ⟨c, cs, rfl, not_isSpace_of_kind hkind, ?_, ?_⟩
    · rintro rfl
      cases hkind
    · rintro rfl
      exact (Option.some.inj hkind).symm

theorem write_ne_nil (s : Spacing) (level : ℕ) (v : Value) : v.write s level ≠ [] := by
  obtain ⟨c, cs, htext, -⟩ := exists_write_eq_cons s level v []
  rw [← List.append_nil (v.write s level), htext]
  exact List.cons_ne_nil c cs

theorem skipSpace_write (hspaces : ∀ c ∈ spaces, isSpace c = true) :
    skipSpace (spaces ++ (v.write s level ++ rest)) = v.write s level ++ rest := by
  obtain ⟨c, cs, htext, hspace, -⟩ := exists_write_eq_cons s level v rest
  rw [skipSpace_append hspaces, htext, skipSpace_of_ne]
  rintro _ ⟨⟩
  exact hspace

/-! ### Readers -/

/-- The reader takes the written value off the text as `x`, with the spaces before it. -/
def Takes (r : Reader α) (v : Value) (x : α) : Prop :=
  ∀ ⦃s : Spacing⦄ (level : ℕ) {spaces rest : List Char}, s.Plain →
    (∀ c ∈ spaces, isSpace c = true) → Delimits rest →
      r (spaces ++ (v.write s level ++ rest)) = .ok (x, rest)

theorem read_of_takes {r : Reader α} {x : α} (h : Takes r v x) (hs : s.Plain)
    (hrest : Delimits rest) : r (v.write s level ++ rest) = .ok (x, rest) :=
  @h s level [] rest hs (by simp) hrest

/-- What is written for the value is read as the value if `n` levels may be nested. -/
def Codec.Restores (c : Codec α) (n : ℕ) (x : α) : Prop :=
  ∀ depth, n ≤ depth → Takes (c.read depth) (c.encode x).sorted x

theorem Codec.Restores.mono {c : Codec α} {m : ℕ} {x : α} (h : c.Restores m x) (hle : m ≤ n) :
    c.Restores n x :=
  fun depth hdepth => h depth (hle.trans hdepth)

/-! ### Single values -/

theorem restores_count (name : String) {k : ℕ} (h : k < Text.countBound) :
    (Codec.count name).Restores n k := by
  intro depth _ s level spaces rest _ hspaces hrest
  have hk : (0 : ℤ) ≤ k ∧ (k : ℤ) < Text.countBound := by omega
  exact read_ofNumber (readNumber_writeInteger (by omega) hk.2) (if_pos hk) hspaces hrest depth

theorem restores_literal {z : ℤ} (h : -(Text.literalBound : ℤ) ≤ z ∧ z < Text.literalBound) :
    Codec.literal.Restores n z := by
  intro depth _ s level spaces rest _ hspaces hrest
  have hlow : -0x8000000000000000 ≤ z := le_trans (by decide) h.1
  have hhigh : z < Text.countBound := lt_trans h.2 (by decide)
  exact read_ofNumber (readNumber_writeInteger hlow hhigh) (if_pos h) hspaces hrest depth

theorem restores_float {x : Float} (h : ReadsBack x) : Codec.float.Restores n x := by
  obtain ⟨hx, m, hm, hvalue⟩ := readsBack_iff.1 h
  intro depth _ s level spaces rest _ hspaces hrest
  have hencode : Codec.float.encode x = .number (.real x hx) := dif_pos hx
  have haccept : (.ok m.toFloat : Except Mismatch Float) = .ok x := congrArg Except.ok hvalue
  rw [hencode]
  exact read_ofNumber hm haccept hspaces hrest depth

theorem restores_boolean (b : Bool) : Codec.boolean.Restores n b := by
  intro depth _ s level spaces rest _ hspaces hrest
  simp only [Codec.boolean]
  rw [skipSpace_write hspaces]
  cases b <;> rfl

theorem write_string_append (text : String) (rest : List Char) :
    (Value.string text).sorted.write s level ++ rest =
      '"' :: (text.toList.flatMap escape ++ '"' :: rest) := by
  simp [Value.sorted, Value.write, writeString]

theorem restores_string (text : String) : Codec.string.Restores n text := by
  intro depth _ s level spaces rest _ hspaces hrest
  have hencode : Codec.string.encode text = .string text := rfl
  simp only [Codec.string]
  rw [skipSpace_write hspaces, ← hencode, hencode, write_string_append]
  exact readString_write text rest

theorem readChoiceName_write {names : List (String × α)} {name : String} {x : α}
    (h : chosen names name = .ok x) (rest : List Char) :
    readChoiceName names ('"' :: (name.toList.flatMap escape ++ '"' :: rest)) = .ok (x, rest) := by
  unfold readChoiceName
  rw [skipSpace_of_ne (by rintro _ ⟨⟩; rfl)]
  refine Checked.bind_eq_ok_iff.2 ⟨_, readString_write name rest, ?_⟩
  dsimp only
  rw [h]
  rfl

/-- A choice is written as a name that chooses it. -/
theorem restores_choice {names : List (String × α)} {nameOf : α → String} {x : α}
    (h : chosen names (nameOf x) = .ok x) : (Codec.choice names nameOf).Restores n x := by
  intro depth _ s level spaces rest _ hspaces hrest
  simp only [Codec.choice]
  rw [skipSpace_write hspaces, write_string_append]
  exact readChoiceName_write h rest

/-! ### Optional values -/

theorem restores_none (c : Codec α) : c.optional.Restores n none := by
  intro depth _ s level spaces rest _ hspaces hrest
  simp only [Codec.optional]
  rw [skipSpace_write hspaces]
  rfl

/-- A value that is there is told from null by its first character. -/
theorem restores_some {c : Codec α} {x : α} (h : c.Restores n x)
    (hnull : (c.encode x).sorted.kind ≠ .null) : c.optional.Restores n (some x) := by
  intro depth hdepth s level spaces rest hs hspaces hrest
  obtain ⟨a, as, htext, -, -, ha⟩ := exists_write_eq_cons s level (c.encode x).sorted rest
  have hread : c.read depth ((c.encode x).sorted.write s level ++ rest) = .ok (x, rest) :=
    read_of_takes (h depth hdepth) hs hrest
  simp only [Codec.optional]
  rw [skipSpace_write hspaces]
  rw [htext] at hread ⊢
  split
  · next heq => cases heq
  · next heq => exact absurd (ha (List.cons.inj heq).1) hnull
  · rw [hread]
    rfl

theorem restores_optional {c : Codec α} {o : Option α} (h : ∀ x ∈ o, c.Restores n x)
    (hnull : ∀ x ∈ o, (c.encode x).sorted.kind ≠ .null) : c.optional.Restores n o := by
  cases o with
  | none => exact restores_none c
  | some x => exact restores_some (h x rfl) (hnull x rfl)

/-! ### Refined codecs -/

theorem restores_refine {β : Type} {c : Codec α} {encode : β → α} {accept : α → Except String β}
    {x : β} (h : c.Restores n (encode x)) (haccept : accept (encode x) = .ok x) :
    (c.refine encode accept).Restores n x := by
  intro depth hdepth s level spaces rest hs hspaces hrest
  refine Checked.bind_eq_ok_iff.2 ⟨_, h depth hdepth level hs hspaces hrest, ?_⟩
  dsimp only
  rw [haccept]
  rfl

/-! ### Lists -/

/-- What stands before a part of an array or object but for spaces. -/
def lead (first : Bool) : List Char :=
  if first then [] else [',']

theorem nextItem_write (hs : s.Plain) (first : Bool) (level : ℕ) (v : Value) (rest : List Char) :
    nextItem first (lead first ++ (s.inner level ++ (v.write s (level + 1) ++ rest))) =
      .ok (some (v.write s (level + 1) ++ rest)) := by
  have hskip : skipSpace (s.inner level ++ (v.write s (level + 1) ++ rest)) = _ :=
    skipSpace_write (hs.inner level)
  obtain ⟨c, cs, htext, -, hclose, -⟩ := exists_write_eq_cons s (level + 1) v rest
  rw [htext] at hskip ⊢
  cases first with
  | true => simp [nextItem, lead, hskip]
  | false =>
    have hcomma (cs : List Char) : skipSpace (',' :: cs) = ',' :: cs := rfl
    simp [nextItem, lead, hskip, hclose, hcomma]

theorem nextItem_close (hs : s.Plain) (first : Bool) (level : ℕ) (rest : List Char) :
    nextItem first (s.outer level ++ ']' :: rest) = .ok none := by
  unfold nextItem
  rw [skipSpace_append (hs.outer level)]
  rfl

theorem expectMark_cons {mark : Char} (hmark : isSpace mark = false) (rest : List Char) :
    expectMark mark (mark :: rest) = .ok ((), rest) := by
  rw [expectMark, skipSpace_of_ne (by rintro _ ⟨⟩; exact hmark), expect, if_pos rfl, expect]

theorem expectMark_append {mark : Char} (hspaces : ∀ c ∈ spaces, isSpace c = true)
    (hmark : isSpace mark = false) (rest : List Char) :
    expectMark mark (spaces ++ mark :: rest) = .ok ((), rest) := by
  rw [expectMark, skipSpace_append hspaces]
  exact expectMark_cons hmark rest

theorem length_le_length_writeItems (s : Spacing) (level : ℕ) (vs : List Value) :
    vs.length ≤ (writeItems s level vs).length := by
  induction vs with
  | nil => exact le_rfl
  | cons v vs ih =>
    simp only [writeItems, List.length_append, List.length_cons]
    omega

section Items

variable {item : Reader α} {f : α → Value} {xs : List α}

/-- One item is read, with the comma before it. -/
theorem readItems_step (hs : s.Plain) (first : Bool) {v : Value} {x : α} (hx : Takes item v x)
    (hrest : Delimits rest) (c : Char) (steps : List Char) (done : List α) :
    readItems item (c :: steps) first done
      (lead first ++ (s.inner level ++ (v.write s (level + 1) ++ rest))) =
        readItems item steps false (x :: done) rest := by
  have hread : item (v.write s (level + 1) ++ rest) = .ok (x, rest) :=
    read_of_takes hx hs hrest
  rw [readItems, nextItem_write hs, Checked.ok_bind]
  dsimp only
  rw [hread, Checked.ok_bind]

/-- The items after the first, up to the closing bracket. -/
theorem readItems_write (hs : s.Plain) (hitem : ∀ x ∈ xs, Takes item (f x) x) {steps : List Char}
    (hsteps : xs.length < steps.length) (done : List α) (rest : List Char) :
    readItems item steps false done
      (writeItems s level (xs.map f) ++ (s.outer level ++ ']' :: rest)) =
        .ok (done.reverse ++ xs, rest) := by
  induction xs generalizing steps done with
  | nil =>
    cases steps with
    | nil => contradiction
    | cons _ steps =>
      rw [List.append_nil]
      change readItems item (_ :: steps) false done (s.outer level ++ ']' :: rest) = _
      rw [readItems, nextItem_close hs, Checked.ok_bind]
      dsimp only
      rw [expectMark_append (hs.outer level) rfl]
      rfl
  | cons x xs ih =>
    cases steps with
    | nil => contradiction
    | cons _ steps =>
      obtain ⟨hx, hxs⟩ := List.forall_mem_cons.1 hitem
      have htext : writeItems s level ((x :: xs).map f) ++ (s.outer level ++ ']' :: rest) =
          lead false ++ (s.inner level ++ ((f x).write s (level + 1) ++
            (writeItems s level (xs.map f) ++ (s.outer level ++ ']' :: rest)))) := by
        simp [writeItems, lead]
      rw [htext, readItems_step hs false hx (delimits_items hs level (xs.map f) rest),
        ih hxs (Nat.lt_of_succ_lt_succ hsteps), List.reverse_cons, List.append_assoc]
      rfl

/-- An array is read after its opening bracket. -/
theorem exists_write_array (hs : s.Plain) (hitem : ∀ x ∈ xs, Takes item (f x) x) (level : ℕ)
    (rest : List Char) : ∃ body, (Value.array (xs.map f)).write s level ++ rest = '[' :: body ∧
      readItems item body true [] body = .ok (xs, rest) := by
  cases xs with
  | nil => exact ⟨']' :: rest, rfl, rfl⟩
  | cons x xs =>
    obtain ⟨hx, hxs⟩ := List.forall_mem_cons.1 hitem
    set tail := writeItems s level (xs.map f) ++ (s.outer level ++ ']' :: rest) with htail
    have hread {steps : List Char} (hsteps : xs.length + 1 < steps.length) :
        readItems item steps true []
          (lead true ++ (s.inner level ++ ((f x).write s (level + 1) ++ tail))) =
            .ok (x :: xs, rest) := by
      cases steps with
      | nil => contradiction
      | cons c steps =>
        rw [readItems_step hs true hx (delimits_items hs level (xs.map f) rest),
          readItems_write hs hxs (Nat.lt_of_succ_lt_succ hsteps)]
        rfl
    refine ⟨s.inner level ++ ((f x).write s (level + 1) ++ tail), by simp [htail, Value.write],
      hread ?_⟩
    have hitems := length_le_length_writeItems s level (xs.map f)
    have hfirst := List.length_pos_of_ne_nil (write_ne_nil s (level + 1) (f x))
    rw [List.length_map] at hitems
    simp only [htail, List.length_append, List.length_cons]
    omega

/-- A reader that reads items after an opening bracket takes an array of them. -/
theorem takes_array {r : Reader (List α)}
    (hr : ∀ {cs body}, skipSpace cs = '[' :: body → r cs = readItems item body true [] body)
    (hitem : ∀ x ∈ xs, Takes item (f x) x) : Takes r (.array (xs.map f)) xs := by
  intro s level spaces rest hs hspaces hrest
  obtain ⟨body, htext, hread⟩ := exists_write_array hs hitem level rest
  rw [hr (by rw [skipSpace_write hspaces, htext]), hread]

end Items

theorem sorted_array_map (f : α → Value) (xs : List α) :
    (Value.array (xs.map f)).sorted = .array (xs.map fun x => (f x).sorted) := by
  rw [Value.sorted, sortItems_eq_map, List.map_map]
  rfl

theorem restores_list {c : Codec α} {xs : List α} (h : ∀ x ∈ xs, c.Restores n x) :
    c.list.Restores (n + 1) xs := by
  intro depth hdepth
  cases depth with
  | zero => contradiction
  | succ depth =>
    change Takes _ (Value.array (xs.map c.encode)).sorted xs
    rw [sorted_array_map]
    refine takes_array ?_ fun x hx => h x hx depth (Nat.le_of_succ_le_succ hdepth)
    intro cs body hcs
    simp only [Codec.list]
    rw [hcs]
    rfl

end SatWalk.Json
