import SatWalk.Json.Printer
import SatWalk.Json.Token
import SatWalk.Proofs.Json.Tokens

/-! Unique readability of JSON text. The first character of a written value tells its kind, and
its end tells itself, since strings are closed by a quote, arrays and objects by a bracket,
and what follows a number cannot belong to it. So a value can be told from any text that
starts with it. -/

namespace SatWalk.Json

open Decimal (isNumeral)

/-! ### Kinds -/

inductive Kind
  | null
  | boolean (value : Bool)
  | number
  | string
  | array
  | object

def Value.kind : Value → Kind
  | .null => .null
  | .boolean value => .boolean value
  | .number _ => .number
  | .string _ => .string
  | .array _ => .array
  | .object _ => .object

/-- The kind of the value that starts a text, told by one character. -/
def kindOfText : List Char → Option Kind
  | 'n' :: _ => some .null
  | 't' :: _ => some (.boolean true)
  | 'f' :: _ => some (.boolean false)
  | '"' :: _ => some .string
  | '[' :: _ => some .array
  | '\x7b' :: _ => some .object
  | c :: _ => if isNumeral c then some .number else none
  | [] => none

variable {s : Spacing} {level : ℕ} {r u : List Char}

theorem kindOfText_write (s : Spacing) (level : ℕ) (v : Value) (r : List Char) :
    kindOfText (v.write s level ++ r) = some v.kind := by
  cases v with
  | null => rfl
  | boolean b => cases b <;> rfl
  | number n =>
    obtain ⟨c, cs, hcs⟩ := List.exists_cons_of_ne_nil (number_write_ne_nil n)
    have hc : isNumeral c = true := isNumeral_of_mem_number n c (hcs ▸ List.mem_cons_self)
    rw [Value.write, hcs, List.cons_append]
    unfold kindOfText
    split <;> cases ‹_ :: _ = _›
    case h_7 => exact if_pos hc
    all_goals cases hc
  | string t => rfl
  | array items => cases items <;> rfl
  | object members => cases members <;> rfl

theorem kind_eq_of_write {v w : Value} (h : v.write s level ++ r = w.write s level ++ u) :
    v.kind = w.kind := by
  rw [← Option.some_inj, ← kindOfText_write s level v r, h, kindOfText_write]

/-! ### What follows a value -/

/-- Only spaces stand around the parts of an array or object. -/
structure Spacing.Plain (s : Spacing) : Prop where
  inner : ∀ level, ∀ c ∈ s.inner level, isSpace c = true
  outer : ∀ level, ∀ c ∈ s.outer level, isSpace c = true
  colon : ∀ c ∈ s.colon, isSpace c = true

theorem plain_compact : compact.Plain :=
  ⟨fun _ _ => nofun, fun _ _ => nofun, fun _ => nofun⟩

theorem isSpace_of_mem_lineBreak (level : ℕ) : ∀ c ∈ lineBreak level, isSpace c = true := by
  refine List.forall_mem_cons.2 ⟨rfl, fun c hc => ?_⟩
  rw [List.eq_of_mem_replicate hc]
  rfl

theorem plain_indented : indented.Plain :=
  ⟨fun level => isSpace_of_mem_lineBreak (level + 1), isSpace_of_mem_lineBreak,
    List.forall_mem_singleton.2 rfl⟩

theorem isNumeral_of_isSpace {c : Char} (h : isSpace c = true) : isNumeral c = false := by
  simp only [isSpace, Bool.or_eq_true, decide_eq_true_eq] at h
  rcases h with ((rfl | rfl) | rfl) | rfl <;> rfl

/-- What stands after spaces starts with a space or with its own first character. -/
theorem head_spaces {spaces : List Char} (hspaces : ∀ c ∈ spaces, isSpace c = true)
    (cs : List Char) :
    ∀ c ∈ (spaces ++ cs).head?, isSpace c = true ∨ c ∈ cs.head? := by
  cases spaces with
  | nil => exact fun c hc => .inr hc
  | cons d ds =>
    rintro c ⟨⟩
    exact .inl (hspaces d List.mem_cons_self)

/-- What may follow a value: a space, a comma or a closing bracket. -/
def Delimits (rest : List Char) : Prop :=
  ∀ c ∈ rest.head?, isSpace c = true ∨ c = ',' ∨ c = ']' ∨ c = '\x7d'

theorem delimits_nil : Delimits [] := nofun

theorem delimits_cons {c : Char} {rest : List Char}
    (h : isSpace c = true ∨ c = ',' ∨ c = ']' ∨ c = '\x7d') : Delimits (c :: rest) := by
  rintro _ ⟨⟩
  exact h

theorem Delimits.endsNumber {rest : List Char} (h : Delimits rest) : EndsNumber rest := by
  intro c hc
  rcases h c hc with hspace | rfl | rfl | rfl
  · exact isNumeral_of_isSpace hspace
  all_goals rfl

theorem delimits_closing {spaces : List Char} {bracket : Char}
    (hspaces : ∀ c ∈ spaces, isSpace c = true) (h : bracket = ']' ∨ bracket = '\x7d')
    (rest : List Char) : Delimits (spaces ++ bracket :: rest) := by
  intro c hc
  rcases head_spaces hspaces _ c hc with hspace | ⟨⟨⟩⟩
  · exact .inl hspace
  · exact .inr (.inr h)

/-- The items after the first, with the bracket that closes them, may follow a value. -/
theorem delimits_items (hs : s.Plain) (level : ℕ) (items : List Value) (r : List Char) :
    Delimits (writeItems s level items ++ (s.outer level ++ ']' :: r)) := by
  cases items with
  | nil => exact delimits_closing (hs.outer level) (.inl rfl) r
  | cons item rest => exact delimits_cons (.inr (.inl rfl))

theorem delimits_members (hs : s.Plain) (level : ℕ) (members : List (String × Value))
    (r : List Char) :
    Delimits (writeMembers s level members ++ (s.outer level ++ '\x7d' :: r)) := by
  cases members with
  | nil => exact delimits_closing (hs.outer level) (.inr rfl) r
  | cons member rest => exact delimits_cons (.inr (.inl rfl))

/-- A closing bracket is told from a further part. -/
theorem closing_ne {spaces : List Char} {bracket d : Char}
    (hspaces : ∀ c ∈ spaces, isSpace c = true) (hd : isSpace d = false) (hne : bracket ≠ d)
    (r u : List Char) : spaces ++ bracket :: r ≠ d :: u := by
  intro h
  rcases head_spaces hspaces (bracket :: r) d (h ▸ rfl) with hspace | hbracket
  · rw [hd] at hspace
    cases hspace
  · exact hne (Option.some.inj hbracket)

/-- No value starts as a bracket does that closes an array. -/
theorem item_ne_closing {spaces : List Char} (hspaces : ∀ c ∈ spaces, isSpace c = true) (v : Value) :
    spaces ++ (v.write s level ++ r) ≠ ']' :: u := by
  intro h
  have hkind := kindOfText_write s level v r
  rcases head_spaces hspaces (v.write s level ++ r) ']' (h ▸ rfl) with hspace | hvalue
  · cases hspace
  · obtain ⟨rest, hrest⟩ := List.head?_eq_some_iff.1 hvalue
    rw [hrest] at hkind
    cases hkind

/-- An array or object without parts is told from one with parts. -/
theorem write_array_nil_ne (hs : s.Plain) (item : Value) (rest : List Value) :
    (Value.array []).write s level ++ r ≠ (Value.array (item :: rest)).write s level ++ u := by
  intro h
  simp only [Value.write, List.cons_append, List.append_assoc, List.nil_append, List.cons.injEq,
    true_and] at h
  exact item_ne_closing (hs.inner level) item h.symm

theorem write_object_nil_ne (hs : s.Plain) (member : String × Value)
    (rest : List (String × Value)) :
    (Value.object []).write s level ++ r ≠ (Value.object (member :: rest)).write s level ++ u := by
  intro h
  simp only [Value.write, List.cons_append, List.append_assoc, List.nil_append, List.cons.injEq,
    true_and] at h
  exact closing_ne (hs.inner level) rfl (by decide) _ _ h.symm

/-! ### Unique readability -/

mutual

theorem Value.write_inj (hs : s.Plain) : ∀ (v w : Value) (level : ℕ) {r u : List Char},
    EndsNumber r → EndsNumber u → v.write s level ++ r = w.write s level ++ u → v = w ∧ r = u
  | .null, w, level, r, u, _, _, h => by
    cases w with
    | null => exact ⟨rfl, List.append_cancel_left h⟩
    | _ => cases kind_eq_of_write h
  | .boolean b, w, level, r, u, _, _, h => by
    cases w with
    | boolean c =>
      cases kind_eq_of_write h
      exact ⟨rfl, List.append_cancel_left h⟩
    | _ => cases kind_eq_of_write h
  | .number n, w, level, r, u, hr, hu, h => by
    cases w with
    | number m =>
      obtain ⟨rfl, rfl⟩ := writeNumber_inj hr hu h
      exact ⟨rfl, rfl⟩
    | _ => cases kind_eq_of_write h
  | .string t, w, level, r, u, _, _, h => by
    cases w with
    | string t' =>
      obtain ⟨rfl, rfl⟩ := writeString_inj h
      exact ⟨rfl, rfl⟩
    | _ => cases kind_eq_of_write h
  | .array items, w, level, r, u, _, _, h => by
    cases w with
    | array items' =>
      cases items with
      | nil =>
        cases items' with
        | nil => exact ⟨rfl, List.append_cancel_left h⟩
        | cons y ys => exact absurd h (write_array_nil_ne hs y ys)
      | cons x xs =>
        cases items' with
        | nil => exact absurd h.symm (write_array_nil_ne hs x xs)
        | cons y ys =>
          -- but for its first character the text is that of all items after another one
          have hitems : writeItems s level (x :: xs) ++ (s.outer level ++ ']' :: r) =
              writeItems s level (y :: ys) ++ (s.outer level ++ ']' :: u) := by
            simpa [Value.write, writeItems] using h
          obtain ⟨heq, rfl⟩ := writeItems_inj hs (x :: xs) (y :: ys) level hitems
          exact ⟨congrArg Value.array heq, rfl⟩
    | _ => cases kind_eq_of_write h
  | .object members, w, level, r, u, _, _, h => by
    cases w with
    | object members' =>
      cases members with
      | nil =>
        cases members' with
        | nil => exact ⟨rfl, List.append_cancel_left h⟩
        | cons y ys => exact absurd h (write_object_nil_ne hs y ys)
      | cons x xs =>
        cases members' with
        | nil => exact absurd h.symm (write_object_nil_ne hs x xs)
        | cons y ys =>
          have hmembers : writeMembers s level (x :: xs) ++ (s.outer level ++ '\x7d' :: r) =
              writeMembers s level (y :: ys) ++ (s.outer level ++ '\x7d' :: u) := by
            simpa [Value.write, writeMembers] using h
          obtain ⟨heq, rfl⟩ := writeMembers_inj hs (x :: xs) (y :: ys) level hmembers
          exact ⟨congrArg Value.object heq, rfl⟩
    | _ => cases kind_eq_of_write h

theorem writeItems_inj (hs : s.Plain) : ∀ (xs ys : List Value) (level : ℕ) {r u : List Char},
    writeItems s level xs ++ (s.outer level ++ ']' :: r) =
      writeItems s level ys ++ (s.outer level ++ ']' :: u) → xs = ys ∧ r = u
  | [], [], level, r, u, h => by
    exact ⟨rfl, List.cons_injective (List.append_cancel_left h)⟩
  | [], y :: ys, level, r, u, h => absurd h (closing_ne (hs.outer level) rfl (by decide) r _)
  | x :: xs, [], level, r, u, h => absurd h.symm (closing_ne (hs.outer level) rfl (by decide) u _)
  | x :: xs, y :: ys, level, r, u, h => by
    simp only [writeItems, List.cons_append, List.append_assoc, List.cons.injEq, true_and,
      List.append_cancel_left_eq] at h
    obtain ⟨rfl, htail⟩ := x.write_inj hs y (level + 1) (delimits_items hs level xs r).endsNumber
      (delimits_items hs level ys u).endsNumber h
    obtain ⟨rfl, rfl⟩ := writeItems_inj hs xs ys level htail
    exact ⟨rfl, rfl⟩

theorem writeMembers_inj (hs : s.Plain) : ∀ (xs ys : List (String × Value)) (level : ℕ)
    {r u : List Char}, writeMembers s level xs ++ (s.outer level ++ '\x7d' :: r) =
      writeMembers s level ys ++ (s.outer level ++ '\x7d' :: u) → xs = ys ∧ r = u
  | [], [], level, r, u, h => by
    exact ⟨rfl, List.cons_injective (List.append_cancel_left h)⟩
  | [], y :: ys, level, r, u, h => absurd h (closing_ne (hs.outer level) rfl (by decide) r _)
  | x :: xs, [], level, r, u, h => absurd h.symm (closing_ne (hs.outer level) rfl (by decide) u _)
  | (key, x) :: xs, (key', y) :: ys, level, r, u, h => by
    simp only [writeMembers, List.cons_append, List.append_assoc, List.cons.injEq, true_and,
      List.append_cancel_left_eq] at h
    obtain ⟨rfl, hvalue⟩ := writeString_inj h
    simp only [List.cons.injEq, true_and, List.append_cancel_left_eq] at hvalue
    obtain ⟨rfl, htail⟩ := x.write_inj hs y (level + 1) (delimits_members hs level xs r).endsNumber
      (delimits_members hs level ys u).endsNumber hvalue
    obtain ⟨rfl, rfl⟩ := writeMembers_inj hs xs ys level htail
    exact ⟨rfl, rfl⟩

end

/-- Neither form of text is that of two values. -/
theorem eq_of_text_eq (hs : s.Plain) {v w : Value}
    (h : String.ofList (v.write s 0) = String.ofList (w.write s 0)) : v = w := by
  have hend : EndsNumber [] := nofun
  refine (v.write_inj hs w 0 hend hend ?_).1
  rw [List.append_nil, List.append_nil]
  exact String.ofList_injective h

theorem compact_inj {v w : Value} (h : v.compact = w.compact) : v = w :=
  eq_of_text_eq plain_compact h

theorem indented_inj {v w : Value} (h : v.indented = w.indented) : v = w :=
  eq_of_text_eq plain_indented h

end SatWalk.Json
